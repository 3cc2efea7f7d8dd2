/-
  EgressAuth.Proofs.Interception.Provenance

  Where the state of a session comes from, going back along the steps of its
  run. What a slot holds was written by a step (`exists_written_of_slot?`). A
  request that waits came in at a step, and no later one took its name over
  (`exists_request_of_waiting?`). The configuration that a request is processed
  by is the one that the session began with, or a step loaded it
  (`configOf_mem_configs`).
-/
import EgressAuth.Proofs.Interception.Run
import Mathlib.Data.List.Induction

namespace EgressAuth

/-- The configuration that a step loads. -/
def Step.loaded? : Step → Option Plugin.Config
  | .configure raw => some (Plugin.Config.load raw)
  | _ => none

namespace Session

variable {s : Session} {past : List Step}

/-! ## Slots and requests -/

/-- What a slot holds after steps from an empty store was written by one of them. -/
theorem exists_written_of_slot? (hempty : s.host.store = .empty) {key : String} {slot : Cache.Slot}
    (h : (s.after past).host.store.slot? key = some slot) :
    ∃ before t since w, past = before ++ t :: since ∧ (s.after before).written? t = some w ∧
      w.key = key ∧ w.data = slot.data := by
  induction past using List.reverseRecOn with
  | nil =>
      rw [after_nil, hempty, Cache.SharedStore.slot?_empty] at h
      cases h
  | append_singleton past t ih =>
      rw [after_concat] at h
      rcases slot?_step (s.after past) t key with ⟨-, hsame⟩ | ⟨-, w, hw, hkey, hnew⟩
      · rw [hsame] at h
        obtain ⟨before, u, since, w, rfl, hw⟩ := ih h
        exact ⟨before, u, since ++ [t], w, by simp, hw⟩
      · rw [hnew] at h
        cases h
        exact ⟨past, t, [], w, rfl, hw, hkey, rfl⟩

/-- A request that waits came in at a step, was made to wait then, and its name was not used
again. -/
theorem exists_request_of_waiting? (hnew : s.tickets = []) {id : String} {context : RequestContext}
    (h : (s.after past).waiting? id = some context) :
    ∃ before snapshot r since, past = before ++ .request id snapshot r :: since ∧
      (∀ later q, .request id later q ∉ since) ∧
      ((s.after before).verdictOn snapshot r).context? = some context := by
  induction past using List.reverseRecOn with
  | nil => simp [waiting?, hnew] at h
  | append_singleton past t ih =>
      by_cases hnamed : ∃ snapshot r, t = .request id snapshot r
      · obtain ⟨snapshot, r, rfl⟩ := hnamed
        rw [after_concat, step_waiting?] at h
        simp only [if_true] at h
        exact ⟨past, snapshot, r, [], rfl, by simp, h⟩
      · -- A step that is no request of this name leaves the request waiting as it was.
        have hother : ∀ snapshot r, .request id snapshot r ≠ t := by
          intro snapshot r heq
          exact hnamed ⟨snapshot, r, heq.symm⟩
        rw [after_concat, waiting?_step_of_ne hother] at h
        obtain ⟨before, snapshot, r, since, rfl, hname, hv⟩ := ih h
        refine ⟨before, snapshot, r, since ++ [t], by simp, fun later q hmem => ?_, hv⟩
        rcases List.mem_append.1 hmem with hmem | hmem
        · exact hname later q hmem
        · exact hother later q (List.mem_singleton.1 hmem)

/-! ## Configurations -/

/-- The configurations that were current at some time: the first one and those that steps
loaded. -/
def configs (s : Session) (past : List Step) : List Plugin.Config :=
  s.config :: past.filterMap Step.loaded?

theorem mem_configs_append {c : Plugin.Config} (h : c ∈ s.configs past) (later : List Step) :
    c ∈ s.configs (past ++ later) := by
  unfold configs at h ⊢
  rw [List.filterMap_append, ← List.cons_append]
  exact List.mem_append_left _ h

/-- Only a step that loads a configuration changes the current one. -/
theorem step_config (s : Session) (t : Step) :
    (s.step t).1.config = t.loaded?.getD s.config := by
  cases t with
  | answer id answer =>
      simp only [step, handAnswer, Step.loaded?]
      cases s.tickets.lookup id with
      | none => rfl
      | some ticket => cases hw : ticket.waiting <;> simp [hw]
  | look id =>
      simp only [step]
      cases s.tickets.lookup id <;> rfl
  | _ => rfl

/-- A snapshot is one of the current configuration. -/
theorem mem_step_snapshots {t : Step} {e : String × Plugin.Config}
    (h : e ∈ (s.step t).1.snapshots) : e ∈ s.snapshots ∨ e.2 = s.config := by
  cases t with
  | snapshot name =>
      rcases List.mem_cons.1 h with rfl | h
      · exact Or.inr rfl
      · exact Or.inl h
  | answer id answer =>
      refine Or.inl ?_
      simp only [step, handAnswer] at h
      cases hticket : s.tickets.lookup id with
      | none =>
          rw [hticket] at h
          exact h
      | some ticket =>
          rw [hticket] at h
          cases hw : ticket.waiting <;> simpa [hw] using h
  | look id =>
      refine Or.inl ?_
      simp only [step] at h
      cases hticket : s.tickets.lookup id <;> simpa [hticket] using h
  | _ => exact Or.inl h

/-- The current configuration, and those of the snapshots, were current at some time. -/
theorem after_mem_configs (hnone : s.snapshots = []) (past : List Step) :
    (s.after past).config ∈ s.configs past ∧
      ∀ e ∈ (s.after past).snapshots, e.2 ∈ s.configs past := by
  induction past using List.reverseRecOn with
  | nil => simp [configs, hnone]
  | append_singleton past t ih =>
      obtain ⟨hconfig, hsnapshots⟩ := ih
      rw [after_concat, step_config]
      constructor
      · cases ht : t.loaded? with
        | none => exact mem_configs_append hconfig [t]
        | some c =>
            unfold configs
            refine List.mem_cons_of_mem _ (List.mem_filterMap.2 ⟨t, by simp, ?_⟩)
            exact ht
      · intro e he
        rcases mem_step_snapshots he with he | he
        · exact mem_configs_append (hsnapshots e he) [t]
        · rw [he]
          exact mem_configs_append hconfig [t]

/-- A request is processed by a configuration that was current at some time. -/
theorem configOf_mem_configs (hnone : s.snapshots = []) (past : List Step)
    (snapshot : Option String) : (s.after past).configOf snapshot ∈ s.configs past := by
  obtain ⟨hconfig, hsnapshots⟩ := after_mem_configs hnone past
  unfold configOf
  cases hfound : snapshot.bind fun name => (s.after past).snapshots.lookup name with
  | none => exact hconfig
  | some c =>
      obtain ⟨name, -, hname⟩ := Option.bind_eq_some_iff.1 hfound
      obtain ⟨before, since, hsplit, -⟩ := List.lookup_eq_some_iff.1 hname
      exact hsnapshots (name, c) (by rw [hsplit]; simp)

end Session
end EgressAuth
