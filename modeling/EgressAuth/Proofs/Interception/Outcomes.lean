/-
  EgressAuth.Proofs.Interception.Outcomes

  What the processing of a request, and of an answer, can come to.

  `onRequest_cases` lists the four ways in which a request leaves the filter:
  it is of no concern, it is served from its cache slot, the call on its
  behalf is refused, or it waits. `onAnswer_host` and `onAnswer_request` say
  what an answer changes: the store by at most one write of the entry that the
  answer allows keeping (`keptOf?`), the request by the headers that the
  answer provides. Statements about runs rest on these alone.
-/
import EgressAuth.Interception.Session

namespace EgressAuth

/-! ## Small facts about hosts -/

namespace Host

/-- A write succeeds where the store takes it, and otherwise leaves the host as it is. -/
theorem attemptWrite_cases (h : Host) (key : String) (data : Bytes) (cas : Option UInt32) :
    (∃ store, h.writeFault = none ∧ h.store.write key data cas = .ok store ∧
      h.attemptWrite key data cas = ({ h with store := store }, .write key cas none)) ∨
    (∃ e, (h.writeFault = none → h.store.write key data cas = .error e) ∧
      h.attemptWrite key data cas = (h, .write key cas (some e))) := by
  unfold attemptWrite write
  cases hf : h.writeFault with
  | some e => exact Or.inr ⟨e, (fun hnone => nomatch hnone), rfl⟩
  | none =>
      cases hw : h.store.write key data cas with
      | ok store => exact Or.inl ⟨store, rfl, rfl, rfl⟩
      | error e => exact Or.inr ⟨e, fun _ => rfl, rfl⟩

end Host

/-! ## Requests -/

/-- What a request waits with, if it has to wait. -/
def Verdict.context? : Verdict → Option RequestContext
  | .proceed => none
  | .pause _ _ context => some context

/-- The headers in the cache that a request is served with. -/
def Host.usable? (h : Host) (id : Cache.Id) : Option (List AuthHeader) :=
  (h.lookUp id).bind fun slot => slot.usable? h.clock

/-- What a look-up finds is in the store. -/
theorem Host.slot?_of_lookUp {h : Host} {id : Cache.Id} {slot : Cache.Slot}
    (hl : h.lookUp id = some slot) : h.store.slot? id.key = some slot := by
  unfold lookUp at hl
  split at hl
  · cases hl
  · exact hl

/-- An entry in a slot of the cache that reads back and has not expired. -/
def Host.Fresh (h : Host) (id : Cache.Id) (e : Cache.Entry) : Prop :=
  ∃ slot, h.lookUp id = some slot ∧ Cache.Entry.decode? slot.data = some e ∧
    h.clock < e.expiration

/-- Usable headers are those of a fresh entry. -/
theorem Host.usable?_eq_some_iff {h : Host} {id : Cache.Id} {headers : List AuthHeader} :
    h.usable? id = some headers ↔ ∃ e, h.Fresh id e ∧ e.headers = headers := by
  unfold usable? Fresh
  rw [Option.bind_eq_some_iff]
  constructor
  · rintro ⟨slot, hslot, hheaders⟩
    obtain ⟨e, he, hheaders⟩ := Option.map_eq_some_iff.1 hheaders
    obtain ⟨hdecode, hvalid⟩ := Option.filter_eq_some_iff.1 he
    exact ⟨e, ⟨slot, hslot, hdecode, by simpa [Cache.Entry.validAt] using hvalid⟩, hheaders⟩
  · rintro ⟨e, ⟨slot, hslot, hdecode, hvalid⟩, hheaders⟩
    refine ⟨slot, hslot, Option.map_eq_some_iff.2 ⟨e, ?_, hheaders⟩⟩
    exact Option.filter_eq_some_iff.2 ⟨hdecode, by simpa [Cache.Entry.validAt] using hvalid⟩

theorem Host.usable?_eq_none_iff {h : Host} {id : Cache.Id} :
    h.usable? id = none ↔ ∀ e, ¬h.Fresh id e := by
  rw [Option.eq_none_iff_forall_ne_some]
  constructor
  · intro hnone e he
    exact hnone e.headers (Host.usable?_eq_some_iff.2 ⟨e, he, rfl⟩)
  · intro hno headers hheaders
    obtain ⟨e, he, -⟩ := Host.usable?_eq_some_iff.1 hheaders
    exact hno e he

/-- The headers among events that only add are all of them. -/
theorem HostEvent.added_additions (hs : List AuthHeader) :
    HostEvent.added (hs.map HostEvent.addHeader) = hs := by
  induction hs with
  | nil => rfl
  | cons h hs ih =>
      show h :: HostEvent.added (hs.map HostEvent.addHeader) = h :: hs
      rw [ih]

/-- The context of a request that has to wait: the version is that of its slot at the look-up. -/
def Concern.context (c : Concern) (h : Host) : RequestContext :=
  ⟨c.domain, c.path, c.entry, (h.lookUp c.entry.cacheId).map Cache.Slot.version⟩

namespace Plugin.Config

/-- A request without a domain, without a path or without an entry is of no concern. -/
theorem concern?_eq_none_iff {c : Config} {r : InboundRequest} :
    c.concern? r = none ↔ r.domain? = none ∨ r.path? = none ∨
      ∃ domain path, r.domain? = some domain ∧ r.path? = some path ∧
        c.entryFor? domain path = none := by
  unfold concern?
  cases hd : r.domain? with
  | none => simp
  | some domain =>
      cases hp : r.path? with
      | none => simp
      | some path =>
          cases he : c.entryFor? domain path with
          | none => simp [he]
          | some e => simp [he]

/-- A concern comes with the entry for its domain and path. -/
theorem entryFor?_of_concern? {c : Config} {r : InboundRequest} {concern : Concern}
    (h : c.concern? r = some concern) :
    c.entryFor? concern.domain concern.path = some concern.entry := by
  unfold concern? at h
  simp only [Option.bind_eq_bind, Option.bind_eq_some_iff, Option.pure_def,
    Option.some.injEq] at h
  obtain ⟨domain, -, path, -, entry, hentry, rfl⟩ := h
  exact hentry

theorem onRequest_of_no_concern {c : Config} {r : InboundRequest} (hc : c.concern? r = none)
    (h : Host) : c.onRequest h r = (⟨h, r, []⟩, .proceed) := by
  simp only [onRequest, hc]

theorem onRequest_of_usable {c : Config} {h : Host} {r : InboundRequest} {concern : Concern}
    {headers : List AuthHeader} (hc : c.concern? r = some concern)
    (hu : h.usable? concern.entry.cacheId = some headers) :
    c.onRequest h r =
      (⟨h, r.addAll headers, .read concern.entry.cacheId.key :: headers.map .addHeader⟩,
        .proceed) := by
  unfold Host.usable? at hu
  simp only [onRequest, hc, hu]

theorem onRequest_of_not_usable {c : Config} {h : Host} {r : InboundRequest} {concern : Concern}
    (hc : c.concern? r = some concern) (hu : h.usable? concern.entry.cacheId = none) :
    c.onRequest h r =
      c.askProvider h r (concern.context h) [.read concern.entry.cacheId.key] := by
  unfold Host.usable? at hu
  simp only [onRequest, hc, hu]
  rfl

/-- The call on behalf of a request is refused, and it goes on as it is, or it waits. -/
theorem askProvider_cases (c : Config) (h : Host) (r : InboundRequest) (context : RequestContext)
    (before : List HostEvent) :
    (∃ e, h.dispatcher.accept (c.providerCall r context) = .error e ∧
      c.askProvider h r context before = (⟨h, r, before ++ [.dispatch]⟩, .proceed)) ∨
    (∃ d, h.dispatcher.accept (c.providerCall r context) = .ok () ∧
      c.askProvider h r context before =
        (⟨{ h with dispatcher := d }, r, before ++ [.dispatch]⟩,
          .pause h.dispatcher.nextCall (c.providerCall r context) context)) := by
  cases ha : h.dispatcher.accept (c.providerCall r context) with
  | error e =>
      refine Or.inl ⟨e, rfl, ?_⟩
      simp only [askProvider, Dispatcher.start, ha]
  | ok u =>
      refine Or.inr ⟨{ h.dispatcher with nextCall := h.dispatcher.nextCall + 1 }, rfl, ?_⟩
      simp only [askProvider, Dispatcher.start, ha]

/-- The ways in which a request leaves the filter. -/
theorem onRequest_cases (c : Config) (h : Host) (r : InboundRequest) :
    (c.concern? r = none ∧ c.onRequest h r = (⟨h, r, []⟩, .proceed)) ∨
    ∃ concern, c.concern? r = some concern ∧
      ((∃ headers, h.usable? concern.entry.cacheId = some headers ∧
          c.onRequest h r =
            (⟨h, r.addAll headers, .read concern.entry.cacheId.key :: headers.map .addHeader⟩,
              .proceed)) ∨
        (h.usable? concern.entry.cacheId = none ∧
          ((∃ e, h.dispatcher.accept (c.providerCall r (concern.context h)) = .error e ∧
              c.onRequest h r =
                (⟨h, r, [.read concern.entry.cacheId.key, .dispatch]⟩, .proceed)) ∨
            (∃ d, h.dispatcher.accept (c.providerCall r (concern.context h)) = .ok () ∧
              c.onRequest h r =
                (⟨{ h with dispatcher := d }, r, [.read concern.entry.cacheId.key, .dispatch]⟩,
                  .pause h.dispatcher.nextCall (c.providerCall r (concern.context h))
                    (concern.context h)))))) := by
  cases hc : c.concern? r with
  | none => exact Or.inl ⟨rfl, onRequest_of_no_concern hc h⟩
  | some concern =>
      refine Or.inr ⟨concern, rfl, ?_⟩
      -- The provider is asked only when the cache has nothing that may be used.
      cases hu : h.usable? concern.entry.cacheId with
      | some headers => exact Or.inl ⟨headers, rfl, onRequest_of_usable hc hu⟩
      | none =>
          rw [onRequest_of_not_usable hc hu]
          exact Or.inr ⟨rfl, askProvider_cases c h r (concern.context h) _⟩

/-- A request leaves store, clock and the health of the store as they are. -/
theorem onRequest_host (c : Config) (h : Host) (r : InboundRequest) :
    ∃ d, (c.onRequest h r).1.host = { h with dispatcher := d } := by
  rcases onRequest_cases c h r with
    ⟨-, e⟩ | ⟨concern, -, ⟨headers, -, e⟩ | ⟨-, ⟨err, -, e⟩ | ⟨d, -, e⟩⟩⟩
  · exact ⟨h.dispatcher, by rw [e]⟩
  · exact ⟨h.dispatcher, by rw [e]⟩
  · exact ⟨h.dispatcher, by rw [e]⟩
  · exact ⟨d, by rw [e]⟩

/-- A request that waits was matched, and waits for the slot of its entry and for the call that is
made on its behalf. -/
theorem pause_of_onRequest {c : Config} {h : Host} {r : InboundRequest} {context : RequestContext}
    (hv : (c.onRequest h r).2.context? = some context) :
    ∃ concern, c.concern? r = some concern ∧ context = concern.context h ∧
      (c.onRequest h r).2 = .pause h.dispatcher.nextCall (c.providerCall r context) context := by
  -- Of the four ways only the last one leaves the request waiting.
  rcases onRequest_cases c h r with
    ⟨-, e⟩ | ⟨concern, hc, ⟨headers, -, e⟩ | ⟨-, ⟨err, -, e⟩ | ⟨d, -, e⟩⟩⟩
  · rw [e] at hv
    cases hv
  · rw [e] at hv
    cases hv
  · rw [e] at hv
    cases hv
  · rw [e] at hv ⊢
    cases hv
    exact ⟨concern, hc, rfl, rfl⟩

theorem context_of_onRequest {c : Config} {h : Host} {r : InboundRequest}
    {context : RequestContext} (hv : (c.onRequest h r).2.context? = some context) :
    ∃ concern, c.concern? r = some concern ∧ context = concern.context h := by
  obtain ⟨concern, hc, hcontext, -⟩ := pause_of_onRequest hv
  exact ⟨concern, hc, hcontext⟩

/-- A matched request for which no call is attempted is served from the slot of its entry. -/
theorem usable?_of_no_dispatch {c : Config} {h : Host} {r : InboundRequest} {concern : Concern}
    (hc : c.concern? r = some concern) (hno : .dispatch ∉ (c.onRequest h r).1.events) :
    h.usable? concern.entry.cacheId = some (HostEvent.added (c.onRequest h r).1.events) := by
  cases hu : h.usable? concern.entry.cacheId with
  | some headers =>
      rw [onRequest_of_usable hc hu]
      exact congrArg some (HostEvent.added_additions headers).symm
  | none =>
      rw [onRequest_of_not_usable hc hu] at hno
      rcases askProvider_cases c h r (concern.context h) [.read concern.entry.cacheId.key] with
        ⟨e, -, he⟩ | ⟨d, -, he⟩
      · rw [he] at hno
        exact absurd (by simp) hno
      · rw [he] at hno
        exact absurd (by simp) hno

end Plugin.Config

/-! ## Answers -/

/-- The entry that an answer allows keeping. -/
def ProviderResponse.kept? (p : ProviderResponse) (now : Instant) : Option Cache.Entry :=
  p.authHeaders?.bind fun headers => (p.expiry? now).map fun time => ⟨time, headers⟩

theorem ProviderResponse.kept?_eq_some_iff {p : ProviderResponse} {now : Instant}
    {e : Cache.Entry} :
    p.kept? now = some e ↔
      p.authHeaders? = some e.headers ∧ p.expiry? now = some e.expiration := by
  unfold kept?
  cases p.authHeaders? with
  | none => simp
  | some headers =>
      cases p.expiry? now with
      | none => simp
      | some time =>
          cases e
          simp [and_comm]

theorem ProviderResponse.expiry?_eq_some_iff {p : ProviderResponse} {now time : Instant} :
    p.expiry? now = some time ↔
      ∃ value, firstValue? p.headers "cache-control" = some value ∧
        Cache.Control.parse value now = .expiresAt time := by
  unfold expiry?
  rw [Option.bind_eq_some_iff]
  constructor
  · rintro ⟨value, hvalue, htime⟩
    refine ⟨value, hvalue, ?_⟩
    -- A directive that forbids keeping has no expiration.
    cases hc : Cache.Control.parse value now with
    | expiresAt t =>
        rw [hc] at htime
        exact congrArg _ (Option.some.inj htime)
    | doNotCache =>
        rw [hc] at htime
        cases htime
  · rintro ⟨value, hvalue, hc⟩
    exact ⟨value, hvalue, by rw [hc]; rfl⟩

/-- The headers that an answer provides; a call that failed provides none. -/
def providedHeaders? : Except HostError ProviderResponse → Option (List AuthHeader)
  | .ok p => p.authHeaders?
  | .error _ => none

/-- The entry that an answer allows keeping; a call that failed allows none. -/
def keptOf? (now : Instant) : Except HostError ProviderResponse → Option Cache.Entry
  | .ok p => p.kept? now
  | .error _ => none

namespace RequestContext

/-- An answer changes the host by at most one write. -/
theorem onAnswer_host (context : RequestContext) (h : Host) (r : InboundRequest)
    (answer : Except HostError ProviderResponse) :
    (context.onAnswer h r answer).host = match keptOf? h.clock answer with
      | none => h
      | some e => (h.attemptWrite context.entry.cacheId.key e.encode context.cacheVersion).1 := by
  cases answer with
  | error e => rfl
  | ok p =>
      simp only [onAnswer, keptOf?, ProviderResponse.kept?, cacheHeaders]
      cases p.authHeaders? with
      | none => rfl
      | some headers => cases p.expiry? h.clock <;> rfl

/-- An answer adds the headers that it provides, in order, and nothing else. -/
theorem onAnswer_request (context : RequestContext) (h : Host) (r : InboundRequest)
    (answer : Except HostError ProviderResponse) :
    (context.onAnswer h r answer).request = r.addAll ((providedHeaders? answer).getD []) := by
  cases answer with
  | error e => rfl
  | ok p =>
      simp only [onAnswer, providedHeaders?]
      cases p.authHeaders? <;> rfl

/-- An answer causes the additions, then the resumption, then the write if there is one. -/
theorem onAnswer_events (context : RequestContext) (h : Host) (r : InboundRequest)
    (answer : Except HostError ProviderResponse) :
    (context.onAnswer h r answer).events =
      ((providedHeaders? answer).getD []).map .addHeader ++ .resume ::
        match keptOf? h.clock answer with
        | none => []
        | some e =>
          [(h.attemptWrite context.entry.cacheId.key e.encode context.cacheVersion).2] := by
  cases answer with
  | error e => rfl
  | ok p =>
      simp only [onAnswer, providedHeaders?, keptOf?, ProviderResponse.kept?, cacheHeaders]
      cases p.authHeaders? with
      | none => rfl
      | some headers => cases p.expiry? h.clock <;> rfl

end RequestContext
end EgressAuth
