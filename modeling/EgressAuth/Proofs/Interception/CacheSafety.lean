/-
  EgressAuth.Proofs.Interception.CacheSafety

  What may stand in the cache, and what is served from it, in every run of one
  filter that starts with an empty store and is the only one to write to it.

  The invariant is `Session.Sound`: every slot holds the encoding of an entry
  that an earlier answer allowed keeping in this very slot, and every request
  that waits was matched with the entry that it waits for. One step preserves
  it (`sound_concat`), hence every run does (`sound_of_empty`). Reading back
  what was written and telling keys apart then give what a request is served.
-/
import EgressAuth.Proofs.Cache.Entry
import EgressAuth.Proofs.Http.Additions
import EgressAuth.Proofs.Interception.Run
import Mathlib.Data.List.Induction

namespace EgressAuth

/-- Whether a step writes to the store on behalf of someone else. -/
def Step.isForeign : Step → Bool
  | .put _ _ _ => true
  | _ => false

namespace Session

/-- Among the steps, a request came in that was matched with the entry of `context`, found no
usable headers and has had to wait with `context`. -/
def Paused (s : Session) (past : List Step) (id : String) (context : RequestContext) : Prop :=
  ∃ before snapshot r since, past = before ++ .request id snapshot r :: since ∧
    ((s.after before).verdictOn snapshot r).context? = some context ∧
    ∃ concern, ((s.after before).configOf snapshot).concern? r = some concern ∧
      context.entry = concern.entry

/-- Among the steps, an answer came back to a request that waits for the slot `i`, and allowed
keeping the entry `e`: its body lists the headers of `e`, and its first `cache-control` header
gave the expiration of `e` at the time of the answer. -/
def Allowed (s : Session) (past : List Step) (i : Cache.Id) (e : Cache.Entry) : Prop :=
  ∃ before id p since, past = before ++ .answer id (.ok p) :: since ∧
    (∃ context, s.Paused before id context ∧ context.entry.cacheId = i) ∧
    (∃ body, p.body = some body ∧ AuthHeader.decodeList? body = some e.headers) ∧
    ∃ value, firstValue? p.headers "cache-control" = some value ∧
      Cache.Control.parse value (s.after before).host.clock = .expiresAt e.expiration

theorem Paused.concat {s : Session} {past : List Step} {id : String} {context : RequestContext}
    (h : s.Paused past id context) (t : Step) : s.Paused (past ++ [t]) id context := by
  obtain ⟨before, snapshot, r, since, rfl, hv, hc⟩ := h
  exact ⟨before, snapshot, r, since ++ [t], by simp, hv, hc⟩

theorem Allowed.concat {s : Session} {past : List Step} {i : Cache.Id} {e : Cache.Entry}
    (h : s.Allowed past i e) (t : Step) : s.Allowed (past ++ [t]) i e := by
  obtain ⟨before, id, p, since, rfl, hp, hbody, hvalue⟩ := h
  exact ⟨before, id, p, since ++ [t], by simp, hp, hbody, hvalue⟩

/-! ## The invariant -/

/-- What holds of the session after the steps `past` from `s`. -/
structure Sound (s : Session) (past : List Step) : Prop where
  slots : ∀ key slot, (s.after past).host.store.slot? key = some slot →
    ∃ i e, key = i.key ∧ slot.data = e.encode ∧ s.Allowed past i e
  waits : ∀ id context, (s.after past).waiting? id = some context → s.Paused past id context

/-- What a step of the filter itself writes is an entry that an answer allows, under the key of
the slot that its request waits for. -/
theorem allowed_of_written? {s : Session} {past : List Step} (hs : s.Sound past) {t : Step}
    (ht : t.isForeign = false) {w : StoreWrite} (hw : (s.after past).written? t = some w) :
    ∃ i e, w.key = i.key ∧ w.data = e.encode ∧ s.Allowed (past ++ [t]) i e := by
  cases t with
  | put key data cas => cases ht
  | answer id answer =>
      obtain ⟨context, hcontext, hw⟩ := Option.bind_eq_some_iff.1 hw
      obtain ⟨e, he, rfl⟩ := Option.map_eq_some_iff.1 hw
      refine ⟨context.entry.cacheId, e, rfl, rfl, ?_⟩
      -- A failed call allows keeping nothing.
      cases answer with
      | error err => cases he
      | ok p =>
          obtain ⟨hheaders, htime⟩ := ProviderResponse.kept?_eq_some_iff.1 he
          refine ⟨past, id, p, [], rfl, ⟨context, hs.waits id context hcontext, rfl⟩, ?_, ?_⟩
          · exact Option.bind_eq_some_iff.1 hheaders
          · exact ProviderResponse.expiry?_eq_some_iff.1 htime
  | _ => cases hw

/-- A step of the filter itself preserves the invariant. -/
theorem sound_concat {s : Session} {past : List Step} (hs : s.Sound past) {t : Step}
    (ht : t.isForeign = false) : s.Sound (past ++ [t]) where
  slots key slot hslot := by
    rw [after_concat] at hslot
    -- Either the slot is as it was, or it holds what this step has written.
    rcases slot?_step (s.after past) t key with ⟨-, hsame⟩ | ⟨-, w, hw, hkey, hnew⟩
    · rw [hsame] at hslot
      obtain ⟨i, e, hi, he, hallowed⟩ := hs.slots key slot hslot
      exact ⟨i, e, hi, he, hallowed.concat t⟩
    · obtain ⟨i, e, hi, he, hallowed⟩ := allowed_of_written? hs ht hw
      rw [hnew] at hslot
      cases hslot
      exact ⟨i, e, by rw [← hkey, hi], he, hallowed⟩
  waits id context hwaits := by
    rw [after_concat, step_waiting?] at hwaits
    cases t with
    | request other snapshot r =>
        simp only at hwaits
        -- The request that comes in takes its name over; the others wait as before.
        by_cases hid : id = other
        · subst hid
          rw [if_pos rfl] at hwaits
          obtain ⟨concern, hc, rfl⟩ := Plugin.Config.context_of_onRequest hwaits
          exact ⟨past, snapshot, r, [], rfl, hwaits, concern, hc, rfl⟩
        · rw [if_neg hid] at hwaits
          exact (hs.waits id context hwaits).concat _
    | _ => exact (hs.waits id context hwaits).concat _

/-- Every run of a filter that has the store for itself keeps the invariant. -/
theorem sound_of_empty {s : Session} (hempty : s.host.store = .empty) (hnew : s.tickets = [])
    {steps : List Step} (hown : ∀ t ∈ steps, t.isForeign = false) : s.Sound steps := by
  -- The invariant speaks of all steps so far, so the induction adds steps at the end.
  induction steps using List.reverseRecOn with
  | nil =>
      refine ⟨fun key slot hslot => ?_, fun id context hwaits => ?_⟩
      · rw [after_nil, hempty, Cache.SharedStore.slot?_empty] at hslot
        cases hslot
      · simp [waiting?, hnew] at hwaits
  | append_singleton past t ih =>
      have hpast : ∀ u ∈ past, u.isForeign = false := by
        intro u hu
        exact hown u (List.mem_append_left _ hu)
      exact sound_concat (ih hpast) (hown t (by simp))

/-- Headers that a request is served with are those of an entry that was allowed for its slot and
has not expired. -/
theorem allowed_of_usable? {s : Session} {past : List Step} (hs : s.Sound past) {i : Cache.Id}
    {headers : List AuthHeader} (hu : (s.after past).host.usable? i = some headers) :
    ∃ e, s.Allowed past i e ∧ (s.after past).host.clock < e.expiration ∧ e.headers = headers := by
  obtain ⟨e, ⟨slot, hslot, hdecode, hvalid⟩, rfl⟩ := Host.usable?_eq_some_iff.1 hu
  obtain ⟨j, f, hkey, hdata, hallowed⟩ := hs.slots i.key slot (Host.slot?_of_lookUp hslot)
  -- The slot holds the encoding of one entry, and what is decoded is that entry.
  have hf : f = e := by
    rw [hdata, Cache.Entry.decode?_encode] at hdecode
    exact Option.some.inj hdecode
  rw [Cache.Id.key_injective hkey, ← hf]
  exact ⟨f, hallowed, hf ▸ hvalid, rfl⟩

/-! ## Main statement -/

/-- Every slot reads back, and holds exactly the encoding of an entry that was allowed for it. -/
def SlotsAllowed (s : Session) (steps : List Step) : Prop :=
  ∀ key slot, (s.after steps).host.store.slot? key = some slot →
    ∃ i e, key = i.key ∧ slot.data = e.encode ∧ Cache.Entry.decode? slot.data = some e ∧
      s.Allowed steps i e

/-- A request that is matched and for which no call is attempted is given, in order, the headers
of an entry that was allowed for its slot before and has not expired, and goes on with these behind
its own; every other request is given no headers when it comes in and goes on as it is. -/
def ServesAllowed (s : Session) (steps : List Step) : Prop :=
  ∀ before id snapshot r since, steps = before ++ .request id snapshot r :: since →
    let host := (s.after before).host
    let config := (s.after before).configOf snapshot
    let events := ((s.after before).step (.request id snapshot r)).2.1
    let request := (config.onRequest host r).1.request
    (∀ concern, config.concern? r = some concern → .dispatch ∉ events →
      ∃ e, s.Allowed before concern.entry.cacheId e ∧ host.clock < e.expiration ∧
        HostEvent.added events = e.headers ∧ request = r.addAll e.headers ∧
        InboundRequest.Gains e.headers r request) ∧
    (config.concern? r = none ∨ .dispatch ∈ events →
      HostEvent.added events = [] ∧ request = r)

theorem servesAllowed_of_sound {s : Session} {steps : List Step}
    (hs : ∀ before since, steps = before ++ since → s.Sound before) : s.ServesAllowed steps := by
  intro before id snapshot r since hsteps
  have hevents : ((s.after before).step (.request id snapshot r)).2.1 =
      (((s.after before).configOf snapshot).onRequest (s.after before).host r).1.events := rfl
  simp only [hevents]
  rcases Plugin.Config.onRequest_cases ((s.after before).configOf snapshot)
      (s.after before).host r with
    ⟨hnone, e⟩ | ⟨concern, hc, ⟨headers, hu, e⟩ | ⟨-, ⟨err, -, e⟩ | ⟨d, -, e⟩⟩⟩
  · rw [e, hnone]
    exact ⟨(fun concern hsome => by cases hsome), fun _ => ⟨rfl, rfl⟩⟩
  · rw [e, hc]
    obtain ⟨entry, hallowed, htime, rfl⟩ := allowed_of_usable? (hs before _ hsteps) hu
    refine ⟨fun other hother _ => ?_, fun h => ?_⟩
    · cases hother
      exact ⟨entry, hallowed, htime, HostEvent.added_additions entry.headers, rfl,
        r.gains_addAll entry.headers⟩
    · rcases h with h | h
      · cases h
      · simp at h
  · rw [e]
    exact ⟨fun _ _ hno => absurd (by simp) hno, fun _ => ⟨rfl, rfl⟩⟩
  · rw [e]
    exact ⟨fun _ _ hno => absurd (by simp) hno, fun _ => ⟨rfl, rfl⟩⟩

/-- In every run of a filter that starts with an empty store and is the only one to write to it,
the cache holds and serves nothing but what answers allowed. -/
theorem cache_safety (s : Session) (steps : List Step) (hempty : s.host.store = .empty)
    (hnew : s.tickets = []) (hown : ∀ t ∈ steps, t.isForeign = false) :
    s.SlotsAllowed steps ∧ s.ServesAllowed steps := by
  constructor
  · intro key slot hslot
    obtain ⟨i, e, hi, he, hallowed⟩ := (sound_of_empty hempty hnew hown).slots key slot hslot
    exact ⟨i, e, hi, he, by rw [he, Cache.Entry.decode?_encode], hallowed⟩
  · refine servesAllowed_of_sound fun before since hsteps => ?_
    refine sound_of_empty hempty hnew fun t ht => hown t ?_
    rw [hsteps]
    exact List.mem_append_left _ ht

/-- Two requests for one slot, of which the second one comes in after the answer to the first. -/
theorem cache_safety_of_two_requests :
    let s := start Plugin.Config.default 0
    let r := InboundRequest.listed [(":authority", "domain.org"), (":path", "/orders")]
    let p : ProviderResponse :=
      ⟨[("cache-control", "max-age=60")],
        some (Text.encode "[\x7b\"name\": \"Authorization\", \"value\": \"token\"\x7d]")⟩
    let steps : List Step := [.request "1" none r, .answer "1" (.ok p), .request "2" none r]
    s.host.store = .empty ∧ s.tickets = [] ∧ (∀ t ∈ steps, t.isForeign = false) ∧
      s.SlotsAllowed steps ∧ s.ServesAllowed steps := by
  intro s r p steps
  have hown : ∀ t ∈ steps, t.isForeign = false := by
    simp [steps, Step.isForeign]
  exact ⟨rfl, rfl, hown, cache_safety s steps rfl rfl hown⟩

end Session
end EgressAuth
