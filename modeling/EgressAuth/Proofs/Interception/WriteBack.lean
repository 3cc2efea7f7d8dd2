/-
  EgressAuth.Proofs.Interception.WriteBack

  When the write-back of a request lands. It is tied to the version that the
  slot had when the request looked it up. Versions count the successful writes
  of a slot (`Session.slot?_after`), so as long as they do not come around, a
  request that found a slot, usable or not, has its write-back refused as soon
  as anyone else wrote the slot in between. A request that found no slot at
  all has no version to tie its write-back to: that one lands in any case.
-/
import EgressAuth.Proofs.Cache.WriteCount
import EgressAuth.Proofs.Interception.Run

namespace EgressAuth

namespace Cache.SharedStore

/-- A write that is tied to no version succeeds. -/
theorem write_untied (s : SharedStore) (key : String) (data : Bytes) :
    ∃ t, s.write key data none = .ok t := by
  rw [exists_write_iff]
  intro old c _ hc
  cases hc

end Cache.SharedStore

/-- Fewer than 2^32 steps ahead, a version is not the same again. -/
theorem version_add_eq_self_iff {v : UInt32} {n : Nat} (hn : n < UInt32.size) :
    v = v + UInt32.ofNat n ↔ n = 0 := by
  have hsize : UInt32.size = 2 ^ 32 := rfl
  rw [Cache.SharedStore.version_add_eq_iff_dvd]
  omega

namespace Session

variable {s : Session} {id : String} {snapshot : Option String} {r : InboundRequest}
  {context : RequestContext} {e : Cache.Entry} {answer : Except HostError ProviderResponse}

/-- The write of a request's answer succeeds where the store takes it and is refused otherwise. -/
theorem lands_answer_iff (hw : s.waiting? id = some context)
    (he : keptOf? s.host.clock answer = some e) (hf : s.host.writeFault = none) :
    let key := context.entry.cacheId.key
    let next := s.step (.answer id answer)
    (s.lands (.answer id answer) key = true ↔
      ∃ store, s.host.store.write key e.encode context.cacheVersion = .ok store) ∧
    (s.lands (.answer id answer) key = true →
      next.1.host.store.slot? key = some ⟨e.encode, s.host.store.nextVersion key⟩) ∧
    (s.lands (.answer id answer) key = false →
      .write key context.cacheVersion (some (.casMismatch key)) ∈ next.2.1 ∧
        next.1.host.store = s.host.store) := by
  intro key next
  have hwrite : s.written? (.answer id answer) = some ⟨key, e.encode, context.cacheVersion⟩ := by
    simp [written?, hw, he, key]
  have hstore := step_store s (.answer id answer)
  have hevents := step_writes s (.answer id answer)
  rw [hwrite] at hstore hevents
  simp only at hstore hevents
  rcases s.host.attemptWrite_cases key e.encode context.cacheVersion with
    ⟨store, -, hok, ha⟩ | ⟨err, herr, ha⟩
  · rw [ha] at hstore hevents
    have hlands : s.lands (.answer id answer) key = true := by
      rw [lands_eq_any_writes, hevents]
      simp [HostEvent.lands]
    refine ⟨⟨fun _ => ⟨store, hok⟩, fun _ => hlands⟩, fun _ => ?_, fun hno => ?_⟩
    · rw [hstore, Cache.SharedStore.slot?_write_of_ok hok, if_pos rfl]
    · rw [hlands] at hno
      cases hno
  · -- As the store is in order, the write can only have met another version.
    rw [ha] at hstore hevents
    obtain ⟨rfl, -⟩ := Cache.SharedStore.write_eq_error_iff.1 (herr hf)
    have hlands : s.lands (.answer id answer) key = false := by
      rw [lands_eq_any_writes, hevents]
      simp [HostEvent.lands]
    refine ⟨⟨fun hyes => ?_, ?_⟩, fun hyes => ?_, fun _ => ⟨?_, hstore⟩⟩
    · rw [hlands] at hyes
      cases hyes
    · rintro ⟨store, hok⟩
      rw [herr hf] at hok
      cases hok
    · rw [hlands] at hyes
      cases hyes
    · have hmem : .write key context.cacheVersion (some (.casMismatch key)) ∈
          next.2.1.filter HostEvent.isWrite := by
        rw [hevents]
        exact List.mem_singleton_self _
      exact (List.mem_filter.1 hmem).1

/-- The version that a slot has later is the one that a request found, as long as no write of it
landed since. -/
theorem write_tied_iff {slot : Cache.Slot} {steps : List Step} {key : String} {data : Bytes}
    (hslot : s.host.store.slot? key = some slot) (hbound : s.landings steps key < UInt32.size) :
    (∃ store, (s.after steps).host.store.write key data (some slot.version) = .ok store) ↔
      s.landings steps key = 0 := by
  obtain ⟨later, hlater⟩ := slot?_after s steps key hslot
  rw [← version_add_eq_self_iff (v := slot.version) hbound, Cache.SharedStore.exists_write_iff]
  constructor
  · intro h
    exact h _ slot.version hlater rfl
  · intro heq old c hold hc
    rw [hlater] at hold
    cases hold
    cases hc
    exact heq

/-- A request that comes in and has to wait, waits with the version that it found. -/
theorem waiting?_step_request (id : String) (hv : (s.verdictOn snapshot r).context? = some context) :
    (s.step (.request id snapshot r)).1.waiting? id = some context ∧
      context.cacheVersion = (s.host.lookUp context.entry.cacheId).map Cache.Slot.version := by
  constructor
  · rw [step_waiting?]
    simp only [if_true]
    exact hv
  · obtain ⟨concern, -, rfl⟩ := Plugin.Config.context_of_onRequest hv
    rfl

/-- The write-back of a request lands exactly if the request found no slot, or if no write of the
slot landed since. Where it lands the slot holds the new entry, and where it does not the store is
left as it is; in particular a request that found a slot loses against every write of it in
between. -/
theorem writeBack_lands_iff {between : List Step}
    (hv : (s.verdictOn snapshot r).context? = some context)
    (hname : ∀ snapshot r, .request id snapshot r ∉ between)
    (he : keptOf? (s.after (.request id snapshot r :: between)).host.clock answer = some e)
    (hf : (s.after (.request id snapshot r :: between)).host.writeFault = none)
    (hbound : s.landings (.request id snapshot r :: between) context.entry.cacheId.key < UInt32.size) :
    let key := context.entry.cacheId.key
    let last := s.after (.request id snapshot r :: between)
    let next := last.step (.answer id answer)
    (last.lands (.answer id answer) key = true ↔
      s.host.lookUp context.entry.cacheId = none ∨
        s.landings (.request id snapshot r :: between) key = 0) ∧
    (last.lands (.answer id answer) key = true →
      next.1.host.store.slot? key = some ⟨e.encode, last.host.store.nextVersion key⟩) ∧
    (last.lands (.answer id answer) key = false →
      .write key context.cacheVersion (some (.casMismatch key)) ∈ next.2.1 ∧
        next.1.host.store = last.host.store) ∧
    (∀ before t since, between = before ++ t :: since →
      (s.after (.request id snapshot r :: before)).lands t key = true →
      s.host.lookUp context.entry.cacheId ≠ none →
        last.lands (.answer id answer) key = false) := by
  intro key last next
  obtain ⟨hwaits, hversion⟩ := waiting?_step_request id hv
  have hw : last.waiting? id = some context := waiting?_after hwaits hname
  obtain ⟨hlands, hslot, hkeeps⟩ := lands_answer_iff hw he hf
  have hiff : last.lands (.answer id answer) key = true ↔
      s.host.lookUp context.entry.cacheId = none ∨
        s.landings (.request id snapshot r :: between) key = 0 := by
    rw [hlands, hversion]
    cases hfound : s.host.lookUp context.entry.cacheId with
    | none =>
        -- No slot, no version: the write is tied to nothing.
        rw [Option.map_none]
        simp only [true_or, iff_true]
        exact Cache.SharedStore.write_untied last.host.store key e.encode
    | some slot =>
        -- The slot is there for good, and its versions count the landings in between.
        have hstored : s.host.store.slot? key = some slot := Host.slot?_of_lookUp hfound
        rw [Option.map_some]
        simp only [reduceCtorEq, false_or]
        exact write_tied_iff hstored hbound
  refine ⟨hiff, hslot, hkeeps, fun before t since hbetween hother hfound => ?_⟩
  have hpos : 0 < s.landings (.request id snapshot r :: between) key := by
    rw [hbetween, ← List.cons_append]
    exact landings_pos_of_lands hother
  rw [Bool.eq_false_iff, Ne, hiff, not_or]
  exact ⟨hfound, by omega⟩

/-- Two requests that found no slot: the answer to the first one is kept before the second one is
answered, and is overwritten by the answer to the second one. -/
theorem not_writeBack_only_if_undisturbed :
    ¬ ∀ (s : Session) (id : String) (snapshot : Option String) (r : InboundRequest)
      (context : RequestContext) (between : List Step)
      (answer : Except HostError ProviderResponse),
      (s.verdictOn snapshot r).context? = some context →
      (∀ snapshot r, .request id snapshot r ∉ between) →
      s.landings (.request id snapshot r :: between) context.entry.cacheId.key < UInt32.size →
      (s.after (.request id snapshot r :: between)).lands (.answer id answer)
        context.entry.cacheId.key = true →
      s.landings (.request id snapshot r :: between) context.entry.cacheId.key = 0 := by
  intro h
  let r := InboundRequest.listed [(":authority", "domain.org"), (":path", "/orders")]
  let p : ProviderResponse := ⟨[("cache-control", "max-age=60")], some (Text.encode "[]")⟩
  let s := (start Plugin.Config.default 0).after [.request "1" none r]
  let context : RequestContext :=
    ⟨"domain.org", "/orders", Endpoint.Entry.catchAll "ISHARE" "domain.org" "/orders", none⟩
  have hname : ∀ snapshot r, Step.request "2" snapshot r ∉ [.answer "1" (.ok p)] := by
    simp
  have hnone := h s "2" none r context [.answer "1" (.ok p)] (.ok p) (by decide +kernel) hname
    (by decide +kernel) (by decide +kernel)
  have hone : s.landings [.request "2" none r, .answer "1" (.ok p)] "0" = 1 := by
    decide +kernel
  have hkey : context.entry.cacheId.key = "0" := by
    decide +kernel
  rw [hkey, hone] at hnone
  cases hnone

/-- A request that finds unreadable data in its slot, while an earlier one is answered: its own
write-back is refused. -/
theorem writeBack_lands_iff_of_unreadable_slot :
    let r := InboundRequest.listed [(":authority", "domain.org"), (":path", "/orders")]
    let p : ProviderResponse := ⟨[("cache-control", "max-age=60")], some (Text.encode "[]")⟩
    let s := (start Plugin.Config.default 0).after [.put "0" [] none, .request "1" none r]
    let steps : List Step := [.request "2" none r, .answer "1" (.ok p)]
    s.host.lookUp Cache.Id.shared = some ⟨[], 1⟩ ∧ s.landings steps "0" = 1 ∧
      (s.after steps).lands (.answer "2" (.ok p)) "0" = false := by
  intro r p s steps
  let context : RequestContext :=
    ⟨"domain.org", "/orders", Endpoint.Entry.catchAll "ISHARE" "domain.org" "/orders", some 1⟩
  have hv : (s.verdictOn none r).context? = some context := by
    decide +kernel
  have hname : ∀ snapshot r, Step.request "2" snapshot r ∉ [.answer "1" (.ok p)] := by
    simp
  have he : keptOf? (s.after steps).host.clock (.ok p) = some ⟨60, []⟩ := by
    decide +kernel
  have hfound : s.host.lookUp Cache.Id.shared = some ⟨[], 1⟩ := by
    decide +kernel
  have hone : s.landings steps "0" = 1 := by
    decide +kernel
  have hkey : context.entry.cacheId.key = "0" := by
    decide +kernel
  have hbound : s.landings steps context.entry.cacheId.key < UInt32.size := by
    rw [hkey, hone]
    decide
  obtain ⟨hiff, -⟩ := writeBack_lands_iff hv hname he (by decide +kernel) hbound
  rw [hkey] at hiff
  refine ⟨hfound, hone, ?_⟩
  rw [Bool.eq_false_iff, Ne]
  intro hlands
  rcases hiff.1 hlands with hno | hno
  · rw [show context.entry.cacheId = Cache.Id.shared from rfl, hfound] at hno
    cases hno
  · rw [hone] at hno
    cases hno

end Session
end EgressAuth
