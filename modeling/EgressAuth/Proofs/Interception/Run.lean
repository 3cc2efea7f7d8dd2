/-
  EgressAuth.Proofs.Interception.Run

  What one step of a session does to its store (`step_store`), to its events
  (`step_writes`) and to what its requests wait with (`step_waiting?`), and how
  runs are put together from steps. The only steps that write are those that
  `written?` names; no other fact about steps is needed to follow a slot of the
  store through a run.
-/
import EgressAuth.Proofs.Interception.Outcomes

namespace EgressAuth

namespace HostEvent

/-- Whether the event is a write, successful or not. -/
def isWrite : HostEvent → Bool
  | write _ _ _ => true
  | _ => false

/-- Whether the event is a successful write of a key. -/
def lands (key : String) : HostEvent → Bool
  | write k _ none => k == key
  | _ => false

theorem isWrite_of_lands {key : String} {e : HostEvent} (h : e.lands key = true) :
    e.isWrite = true := by
  cases e <;> first | rfl | cases h

/-- Additions are no writes. -/
theorem filter_isWrite_additions (hs : List AuthHeader) (rest : List HostEvent) :
    (hs.map addHeader ++ rest).filter isWrite = rest.filter isWrite := by
  induction hs with
  | nil => rfl
  | cons h hs ih => exact ih

end HostEvent

/-- A write to the store. -/
structure StoreWrite where
  key : String
  data : Bytes
  cas : Option UInt32

namespace Session

/-! ## Runs -/

/-- The session after some steps. -/
def after (s : Session) (steps : List Step) : Session := steps.foldl (fun s t => (s.step t).1) s

@[simp] theorem after_nil (s : Session) : s.after [] = s := rfl

@[simp] theorem after_cons (s : Session) (t : Step) (steps : List Step) :
    s.after (t :: steps) = (s.step t).1.after steps := rfl

theorem after_append (s : Session) (first second : List Step) :
    s.after (first ++ second) = (s.after first).after second :=
  List.foldl_append

theorem after_concat (s : Session) (steps : List Step) (t : Step) :
    s.after (steps ++ [t]) = ((s.after steps).step t).1 := by
  rw [after_append]
  rfl

/-- The events of some steps, in order. -/
def events (s : Session) (steps : List Step) : List HostEvent :=
  (s.run steps).flatMap fun result => result.2.1

theorem events_cons (s : Session) (t : Step) (steps : List Step) :
    s.events (t :: steps) = (s.step t).2.1 ++ (s.step t).1.events steps := rfl

/-- How often some steps write a key with success. -/
def landings (s : Session) (steps : List Step) (key : String) : Nat :=
  (s.events steps).countP (HostEvent.lands key)

@[simp] theorem landings_nil (s : Session) (key : String) : s.landings [] key = 0 := rfl

theorem landings_cons (s : Session) (t : Step) (steps : List Step) (key : String) :
    s.landings (t :: steps) key =
      (s.step t).2.1.countP (HostEvent.lands key) + (s.step t).1.landings steps key := by
  rw [landings, events_cons, List.countP_append]
  rfl

/-! ## What one step does -/

/-- What a request waits with, if it is there and waits. -/
def waiting? (s : Session) (id : String) : Option RequestContext :=
  (s.tickets.lookup id).bind Ticket.waiting

/-- What the filter decides about a request that comes in now. -/
def verdictOn (s : Session) (snapshot : Option String) (r : InboundRequest) : Verdict :=
  ((s.configOf snapshot).onRequest s.host r).2

/-- What a step writes to the store. -/
def written? (s : Session) : Step → Option StoreWrite
  | .put key data cas => some ⟨key, data, cas⟩
  | .answer id answer => (s.waiting? id).bind fun context =>
      (keptOf? s.host.clock answer).map fun e =>
        ⟨context.entry.cacheId.key, e.encode, context.cacheVersion⟩
  | _ => none

/-- A look at a request changes nothing. -/
theorem step_look (s : Session) (id : String) : ∃ report, s.step (.look id) = (s, [], report) := by
  simp only [step]
  cases s.tickets.lookup id with
  | none => exact ⟨_, rfl⟩
  | some ticket => exact ⟨_, rfl⟩

/-- An answer to a request that waits, handed to its ticket. -/
theorem step_answer_of_ticket {s : Session} {id : String} {ticket : Ticket}
    {context : RequestContext} (hticket : s.tickets.lookup id = some ticket)
    (hw : ticket.waiting = some context) (answer : Except HostError ProviderResponse) :
    let out := context.onAnswer s.host ticket.request answer
    let added := ticket.added ++ HostEvent.added out.events
    let resumed := ticket.resumed + HostEvent.resumed out.events
    s.step (.answer id answer) =
      ({ s with host := out.host, tickets := (id, ⟨out.request, added, resumed, some context⟩) ::
          s.tickets }, out.events, .progress added resumed) := by
  simp only [step, handAnswer, hticket, hw]

/-- The outcome of handing an answer to a request that waits. -/
theorem step_answer {s : Session} {id : String} {context : RequestContext}
    (hw : s.waiting? id = some context) (answer : Except HostError ProviderResponse) :
    ∃ r, (s.step (.answer id answer)).1.host = (context.onAnswer s.host r answer).host ∧
      (s.step (.answer id answer)).2.1 = (context.onAnswer s.host r answer).events ∧
      (s.step (.answer id answer)).1.waiting? id = some context := by
  unfold waiting? at hw
  obtain ⟨ticket, hticket, hcontext⟩ := Option.bind_eq_some_iff.1 hw
  refine ⟨ticket.request, ?_⟩
  rw [step_answer_of_ticket hticket hcontext]
  simp only [waiting?, List.lookup_cons_self, Option.bind_some, and_self]

/-- An answer that no request waits for changes nothing. -/
theorem step_answer_of_not_waiting {s : Session} {id : String} (hw : s.waiting? id = none)
    (answer : Except HostError ProviderResponse) :
    s.step (.answer id answer) = (s, [], .notWaiting) := by
  unfold waiting? at hw
  simp only [step, handAnswer]
  cases hticket : s.tickets.lookup id with
  | none => rfl
  | some ticket =>
      rw [hticket] at hw
      have hnone : ticket.waiting = none := hw
      simp only [hnone]

/-- The store after a step. -/
theorem step_store (s : Session) (t : Step) :
    (s.step t).1.host.store = match s.written? t with
      | none => s.host.store
      | some w => (s.host.attemptWrite w.key w.data w.cas).1.store := by
  cases t with
  | configure raw => rfl
  | setClock now => rfl
  | failReads fault => rfl
  | failWrites fault => rfl
  | failDispatch fault => rfl
  | put key data cas => rfl
  | snapshot name => rfl
  | look id =>
      simp only [step, written?]
      cases s.tickets.lookup id <;> rfl
  | request id snapshot r =>
      obtain ⟨d, hd⟩ := Plugin.Config.onRequest_host (s.configOf snapshot) s.host r
      show ((s.configOf snapshot).onRequest s.host r).1.host.store = s.host.store
      rw [hd]
  | answer id answer =>
      simp only [written?]
      cases hw : s.waiting? id with
      | none => rw [step_answer_of_not_waiting hw]; rfl
      | some context =>
          obtain ⟨r, hhost, -, -⟩ := step_answer hw answer
          rw [hhost, RequestContext.onAnswer_host]
          cases keptOf? s.host.clock answer <;> rfl

/-- The writes among the events of a step. -/
theorem step_writes (s : Session) (t : Step) :
    (s.step t).2.1.filter HostEvent.isWrite = match s.written? t with
      | none => []
      | some w => [(s.host.attemptWrite w.key w.data w.cas).2] := by
  cases t with
  | configure raw => rfl
  | setClock now => rfl
  | failReads fault => rfl
  | failWrites fault => rfl
  | failDispatch fault => rfl
  | put key data cas =>
      obtain ⟨store, -, -, e⟩ | ⟨err, -, e⟩ := s.host.attemptWrite_cases key data cas
      · simp only [step, written?, e]; rfl
      · simp only [step, written?, e]; rfl
  | snapshot name => rfl
  | look id =>
      simp only [step, written?]
      cases s.tickets.lookup id <;> rfl
  | request id snapshot r =>
      -- A request that comes in reads, adds and dispatches, but does not write.
      show ((s.configOf snapshot).onRequest s.host r).1.events.filter HostEvent.isWrite = []
      rcases Plugin.Config.onRequest_cases (s.configOf snapshot) s.host r with
        ⟨-, e⟩ | ⟨concern, -, ⟨headers, -, e⟩ | ⟨-, ⟨err, -, e⟩ | ⟨d, -, e⟩⟩⟩
      · rw [e]; rfl
      · rw [e]
        have hadd := HostEvent.filter_isWrite_additions headers []
        rw [List.append_nil] at hadd
        exact hadd
      · rw [e]; rfl
      · rw [e]; rfl
  | answer id answer =>
      simp only [written?]
      cases hw : s.waiting? id with
      | none => rw [step_answer_of_not_waiting hw]; rfl
      | some context =>
          obtain ⟨r, -, hevents, -⟩ := step_answer hw answer
          rw [hevents, RequestContext.onAnswer_events, HostEvent.filter_isWrite_additions]
          cases keptOf? s.host.clock answer with
          | none => rfl
          | some e =>
              obtain ⟨store, -, -, e'⟩ | ⟨err, -, e'⟩ :=
                s.host.attemptWrite_cases context.entry.cacheId.key e.encode context.cacheVersion
              · simp only [Option.bind_some, Option.map_some, e']; rfl
              · simp only [Option.bind_some, Option.map_some, e']; rfl

/-- What a request waits with after a step: only a request that comes in under the same name
changes that. -/
theorem step_waiting? (s : Session) (t : Step) (id : String) :
    (s.step t).1.waiting? id = match t with
      | .request other snapshot r =>
        if id = other then (s.verdictOn snapshot r).context? else s.waiting? id
      | _ => s.waiting? id := by
  cases t with
  | configure raw => rfl
  | setClock now => rfl
  | failReads fault => rfl
  | failWrites fault => rfl
  | failDispatch fault => rfl
  | put key data cas => rfl
  | snapshot name => rfl
  | look other =>
      simp only [step]
      cases s.tickets.lookup other <;> rfl
  | request other snapshot r =>
      simp only [step, takeIn, waiting?, List.lookup_cons]
      by_cases hid : id = other
      · -- The newest ticket of a name hides the older ones.
        subst hid
        simp only [BEq.rfl, if_true, Option.bind_some]
        show _ = ((s.configOf snapshot).onRequest s.host r).2.context?
        cases ((s.configOf snapshot).onRequest s.host r).2 <;> rfl
      · have hne : (id == other) = false := by simpa using hid
        simp only [hne, if_neg hid]
  | answer other answer =>
      show (s.step (.answer other answer)).1.waiting? id = s.waiting? id
      cases hw : s.waiting? other with
      | none => rw [step_answer_of_not_waiting hw]
      | some context =>
          by_cases hid : id = other
          · -- The answered request keeps its context.
            subst hid
            obtain ⟨r, -, -, hwaits⟩ := step_answer hw answer
            rw [hwaits, hw]
          · have hne : (id == other) = false := by simpa using hid
            unfold waiting? at hw
            obtain ⟨ticket, hticket, hcontext⟩ := Option.bind_eq_some_iff.1 hw
            simp only [step, handAnswer, hticket, hcontext, waiting?, List.lookup_cons, hne]

/-- A step that is no request of a name leaves the request of this name waiting as it was. -/
theorem waiting?_step_of_ne {s : Session} {t : Step} {id : String}
    (hname : ∀ snapshot r, .request id snapshot r ≠ t) :
    (s.step t).1.waiting? id = s.waiting? id := by
  rw [step_waiting?]
  cases t with
  | request other snapshot r =>
      have hid : id ≠ other := by
        rintro rfl
        exact hname snapshot r rfl
      exact if_neg hid
  | _ => rfl

/-- A request goes on waiting with the same context until one of its name comes in. -/
theorem waiting?_after {s : Session} {id : String} {context : RequestContext}
    (h : s.waiting? id = some context) {steps : List Step}
    (hname : ∀ snapshot r, .request id snapshot r ∉ steps) :
    (s.after steps).waiting? id = some context := by
  induction steps generalizing s with
  | nil => exact h
  | cons t steps ih =>
      rw [after_cons]
      refine ih ?_ fun snapshot r hmem => hname snapshot r (List.mem_cons_of_mem _ hmem)
      rw [waiting?_step_of_ne fun snapshot r heq =>
        hname snapshot r (heq ▸ List.mem_cons_self)]
      exact h

/-! ## Slots along a run -/

/-- Whether a step writes a key with success. -/
def lands (s : Session) (t : Step) (key : String) : Bool :=
  (s.step t).2.1.any (HostEvent.lands key)

/-- Only the writes among the events of a step decide whether it lands. -/
theorem lands_eq_any_writes (s : Session) (t : Step) (key : String) :
    s.lands t key = ((s.step t).2.1.filter HostEvent.isWrite).any (HostEvent.lands key) := by
  rw [lands, List.any_filter]
  congr 1
  funext e
  cases hl : e.lands key with
  | false => simp
  | true => simp [HostEvent.isWrite_of_lands hl]

theorem landings_pos_of_lands {s : Session} {before since : List Step} {t : Step} {key : String}
    (h : (s.after before).lands t key = true) :
    0 < s.landings (before ++ t :: since) key := by
  -- The induction walks along the steps before the one that lands.
  induction before generalizing s with
  | nil =>
      rw [List.nil_append, landings_cons]
      have : 0 < (s.step t).2.1.countP (HostEvent.lands key) := by
        rw [List.countP_pos_iff]
        simpa [lands] using h
      omega
  | cons u before ih =>
      have hrest : 0 < (s.step u).1.landings (before ++ t :: since) key := ih h
      rw [List.cons_append, landings_cons]
      omega

/-- A step leaves the slot of a key as it is, or writes it once with success. -/
theorem slot?_step (s : Session) (t : Step) (key : String) :
    ((s.step t).2.1.countP (HostEvent.lands key) = 0 ∧
      (s.step t).1.host.store.slot? key = s.host.store.slot? key) ∨
    ((s.step t).2.1.countP (HostEvent.lands key) = 1 ∧
      ∃ w, s.written? t = some w ∧ w.key = key ∧
        (s.step t).1.host.store.slot? key =
          some ⟨w.data, s.host.store.nextVersion key⟩) := by
  -- No event but a write can count, and those are known.
  have hcount : (s.step t).2.1.countP (HostEvent.lands key) =
      ((s.step t).2.1.filter HostEvent.isWrite).countP (HostEvent.lands key) := by
    rw [List.countP_filter]
    refine List.countP_congr fun e _ => ?_
    simp only [Bool.and_eq_true, iff_self_and]
    exact HostEvent.isWrite_of_lands
  rw [hcount, step_writes, step_store]
  cases hw : s.written? t with
  | none => exact Or.inl ⟨rfl, rfl⟩
  | some w =>
      rcases s.host.attemptWrite_cases w.key w.data w.cas with ⟨store, -, hok, e⟩ | ⟨err, -, e⟩
      · -- A successful write changes the slot of its own key only.
        have hslot := Cache.SharedStore.slot?_write_of_ok hok key
        by_cases hk : w.key = key
        · subst hk
          refine Or.inr ⟨?_, w, rfl, rfl, ?_⟩
          · simp [e, HostEvent.lands]
          · simp only [e]
            rw [hslot, if_pos rfl]
        · refine Or.inl ⟨?_, ?_⟩
          · simp [e, HostEvent.lands, hk]
          · simp only [e]
            rw [hslot, if_neg fun h => hk h.symm]
      · refine Or.inl ⟨?_, ?_⟩
        · simp [e, HostEvent.lands]
        · simp only [e]

/-- A slot that nothing is written to stays as it is, whatever happens to others. -/
theorem slot?_after_of_quiet (s : Session) {steps : List Step} {key : String}
    (hquiet : s.landings steps key = 0) :
    (s.after steps).host.store.slot? key = s.host.store.slot? key := by
  induction steps generalizing s with
  | nil => rfl
  | cons t steps ih =>
      rw [landings_cons] at hquiet
      rw [after_cons, ih (s.step t).1 (by omega)]
      rcases slot?_step s t key with ⟨-, hsame⟩ | ⟨hone, -⟩
      · exact hsame
      · omega

/-- A slot that is there stays there, and its version counts the successful writes. -/
theorem slot?_after (s : Session) (steps : List Step) (key : String) {old : Cache.Slot}
    (h : s.host.store.slot? key = some old) :
    ∃ data, (s.after steps).host.store.slot? key =
      some ⟨data, old.version + UInt32.ofNat (s.landings steps key)⟩ := by
  induction steps generalizing s old with
  | nil => exact ⟨old.data, by simp [h]⟩
  | cons t steps ih =>
      rw [after_cons, landings_cons]
      rcases slot?_step s t key with ⟨hn, hslot⟩ | ⟨hn, w, -, -, hslot⟩
      · rw [h] at hslot
        obtain ⟨data, hdata⟩ := ih _ hslot
        exact ⟨data, by rw [hdata, hn, Nat.zero_add]⟩
      · -- The step lands once, and the version goes up by one.
        obtain ⟨data, hdata⟩ := ih _ hslot
        refine ⟨data, ?_⟩
        have hnext : s.host.store.nextVersion key = old.version + 1 := by
          simp only [Cache.SharedStore.nextVersion, h]
        rw [hdata, hn, hnext, UInt32.ofNat_add, UInt32.add_assoc]
        rfl

end Session
end EgressAuth
