/-
  EgressAuth.Proofs.Interception.Replay

  An answer that may be kept takes effect, whatever its slot held before. From
  then on the slot holds the answer's entry (`Host.Holds`) until something else
  is written to it: a step that does not land in the slot keeps the entry
  there, hence so does any number of such steps (`holds_after`). A request of
  this slot is treated accordingly (`Replays`): while the entry has not expired
  the request is given the headers as the answer itself would give them to it,
  and afterwards the provider is asked again.
-/
import EgressAuth.Proofs.Http.Additions
import EgressAuth.Proofs.Interception.Laws
import EgressAuth.Proofs.Interception.WriteBack

namespace EgressAuth

/-! ## Slots that hold an entry -/

/-- The slot holds what is written for the entry. -/
def Host.Holds (h : Host) (id : Cache.Id) (e : Cache.Entry) : Prop :=
  ∃ slot, h.store.slot? id.key = some slot ∧ slot.data = e.encode

/-- A store that can be read shows the entry that the slot holds, until it expires. -/
theorem Host.fresh_iff_of_holds {h : Host} {id : Cache.Id} {e f : Cache.Entry}
    (hholds : h.Holds id e) (hf : h.readFault = none) :
    h.Fresh id f ↔ f = e ∧ h.clock < e.expiration := by
  obtain ⟨slot, hslot, hdata⟩ := hholds
  have hfound : h.lookUp id = some slot := by
    rw [Host.lookUp, hf]
    exact hslot
  constructor
  · rintro ⟨slot', hslot', hdecode, hvalid⟩
    rw [hfound] at hslot'
    cases hslot'
    rw [hdata, Cache.Entry.decode?_encode] at hdecode
    cases hdecode
    exact ⟨rfl, hvalid⟩
  · rintro ⟨rfl, hvalid⟩
    exact ⟨slot, hfound, by rw [hdata, Cache.Entry.decode?_encode], hvalid⟩

/-! ## Requests of such a slot -/

namespace Plugin.Config

/-- How a request is treated whose slot holds an entry. -/
structure Replays (c : Config) (h : Host) (r : InboundRequest) (e : Cache.Entry) : Prop where
  /-- Until the entry expires the request goes on without a call, with the headers of the entry
  behind its own. -/
  served : h.clock < e.expiration →
    (c.onRequest h r).2 = .proceed ∧ .dispatch ∉ (c.onRequest h r).1.events ∧
      HostEvent.added (c.onRequest h r).1.events = e.headers ∧
      (c.onRequest h r).1.request = r.addAll e.headers ∧
      InboundRequest.Gains e.headers r (c.onRequest h r).1.request
  /-- An answer that provides these headers would make the same of the request. -/
  asAnswered : h.clock < e.expiration →
    ∀ (context : RequestContext) (host : Host) (p : ProviderResponse) (body : Bytes),
      p.body = some body → AuthHeader.decodeList? body = some e.headers →
      (context.onAnswer host r (.ok p)).request = (c.onRequest h r).1.request
  /-- From its expiration on a call is attempted. -/
  asks : e.expiration ≤ h.clock → .dispatch ∈ (c.onRequest h r).1.events

theorem replays_of_holds {c : Config} {h : Host} {r : InboundRequest} {concern : Concern}
    {e : Cache.Entry} (hc : c.concern? r = some concern) (hholds : h.Holds concern.entry.cacheId e)
    (hf : h.readFault = none) : c.Replays h r e := by
  have hserved (hvalid : h.clock < e.expiration) : c.onRequest h r =
      (⟨h, r.addAll e.headers, .read concern.entry.cacheId.key :: e.headers.map .addHeader⟩,
        .proceed) :=
    onRequest_of_usable hc
      (Host.usable?_eq_some_iff.2 ⟨e, (Host.fresh_iff_of_holds hholds hf).2 ⟨rfl, hvalid⟩, rfl⟩)
  refine ⟨fun hvalid => ?served, fun hvalid context host p body hbody hdecode => ?asAnswered,
    fun hexpired => ?asks⟩
  case served =>
    rw [hserved hvalid]
    exact ⟨rfl, by simp, HostEvent.added_additions e.headers, rfl, r.gains_addAll e.headers⟩
  case asAnswered =>
    have hheaders : providedHeaders? (.ok p) = some e.headers := by
      rw [providedHeaders?, ProviderResponse.authHeaders?, hbody]
      exact hdecode
    rw [hserved hvalid, RequestContext.onAnswer_request, hheaders]
    rfl
  case asks =>
    refine dispatch_mem_onRequest_iff.2 ⟨concern, hc, Host.usable?_eq_none_iff.2 fun f hfresh => ?_⟩
    obtain ⟨-, hvalid⟩ := (Host.fresh_iff_of_holds hholds hf).1 hfresh
    exact absurd hvalid (Int64.not_lt.2 hexpired)

end Plugin.Config

/-! ## Main statement -/

namespace Session

variable {s : Session} {id : String} {snapshot : Option String} {r : InboundRequest}
  {context : RequestContext} {between since : List Step}

/-- An entry stays in its slot as long as nothing is written there. -/
theorem holds_after {i : Cache.Id} {e : Cache.Entry} (h : s.host.Holds i e)
    (hquiet : s.landings since i.key = 0) : (s.after since).host.Holds i e := by
  obtain ⟨slot, hslot, hdata⟩ := h
  exact ⟨slot, (s.slot?_after_of_quiet hquiet).trans hslot, hdata⟩

/-- The answer to a request takes effect if nothing was written to its slot since the request came
in. -/
theorem holds_of_answer {e : Cache.Entry} {answer : Except HostError ProviderResponse}
    (hv : (s.verdictOn snapshot r).context? = some context)
    (hname : ∀ later q, .request id later q ∉ between)
    (hquiet : s.landings (.request id snapshot r :: between) context.entry.cacheId.key = 0)
    (he : keptOf? (s.after (.request id snapshot r :: between)).host.clock answer = some e)
    (hf : (s.after (.request id snapshot r :: between)).host.writeFault = none) :
    (s.after (.request id snapshot r :: between ++ [.answer id answer])).host.Holds
      context.entry.cacheId e := by
  obtain ⟨hwaits, hversion⟩ := waiting?_step_request id hv
  obtain ⟨hlands, hslot, -⟩ := lands_answer_iff (waiting?_after hwaits hname) he hf
  -- The write is tied to nothing or to the version that the slot still has.
  have htaken : ∃ store, (s.after (.request id snapshot r :: between)).host.store.write
      context.entry.cacheId.key e.encode context.cacheVersion = .ok store := by
    rw [hversion]
    cases hfound : s.host.lookUp context.entry.cacheId with
    | none => exact Cache.SharedStore.write_untied _ _ _
    | some slot =>
        have hbound : s.landings (.request id snapshot r :: between) context.entry.cacheId.key <
            UInt32.size := by
          rw [hquiet]
          decide
        exact (write_tied_iff (Host.slot?_of_lookUp hfound) hbound).2 hquiet
  rw [after_append]
  exact ⟨_, hslot (hlands.2 htaken), rfl⟩

/-- A request comes in, has to wait and is answered; nothing else is written to its slot before
that, and the body of the answer lists `e.headers` and its first `cache-control` value gives the
expiration `e.expiration`. Then, whatever the slot held before and whatever else happens, until the
next write to the slot it holds `e`, and every request of this slot, by whatever configuration, is
treated accordingly. -/
theorem answer_replayed {p : ProviderResponse} {body : Bytes} {value : String} {e : Cache.Entry}
    (hv : (s.verdictOn snapshot r).context? = some context)
    (hname : ∀ later q, .request id later q ∉ between)
    (hquiet : s.landings (.request id snapshot r :: between) context.entry.cacheId.key = 0)
    (hbody : p.body = some body) (hheaders : AuthHeader.decodeList? body = some e.headers)
    (hvalue : firstValue? p.headers "cache-control" = some value)
    (htime : Cache.Control.parse value (s.after (.request id snapshot r :: between)).host.clock =
      .expiresAt e.expiration)
    (hf : (s.after (.request id snapshot r :: between)).host.writeFault = none)
    (hsince : (s.after (.request id snapshot r :: between ++ [.answer id (.ok p)])).landings since
      context.entry.cacheId.key = 0) :
    let last := s.after (.request id snapshot r :: between ++ .answer id (.ok p) :: since)
    last.host.Holds context.entry.cacheId e ∧
    (last.host.readFault = none →
      ∀ (c : Plugin.Config) (q : InboundRequest) (concern : Concern), c.concern? q = some concern →
        concern.entry.cacheId = context.entry.cacheId → c.Replays last.host q e) := by
  intro last
  have he : keptOf? (s.after (.request id snapshot r :: between)).host.clock (.ok p) = some e := by
    refine ProviderResponse.kept?_eq_some_iff.2 ⟨?_, ?_⟩
    · rw [ProviderResponse.authHeaders?, hbody]
      exact hheaders
    · exact ProviderResponse.expiry?_eq_some_iff.2 ⟨value, hvalue, htime⟩
  have hlast : last =
      (s.after (.request id snapshot r :: between ++ [.answer id (.ok p)])).after since := by
    rw [← after_append]
    simp [last]
  have hholds : last.host.Holds context.entry.cacheId e := by
    rw [hlast]
    exact holds_after (holds_of_answer hv hname hquiet he hf) hsince
  refine ⟨hholds, fun hreads c q concern hc hid => ?_⟩
  exact Plugin.Config.replays_of_holds hc (hid ▸ hholds) hreads

/-- The slot holds unreadable data when the request comes in, and while it waits another slot is
written. Its answer may be kept for a minute: a later request is served with its header until the
second before that, and asks again in the very second. -/
theorem answer_replayed_of_unreadable_slot :
    let r := InboundRequest.listed [(":authority", "domain.org"), (":path", "/orders")]
    let q := InboundRequest.listed [(":authority", "other.org"), (":path", "/")]
    let body := Text.encode "[\x7b\"name\":\"Authorization\",\"value\":\"token\"\x7d]"
    let p : ProviderResponse := ⟨[("cache-control", "max-age=60")], some body⟩
    let s := (start Plugin.Config.default 0).after [.put "0" [] none]
    let steps : List Step := [.request "1" none r, .put "1" [7] none, .answer "1" (.ok p)]
    let before := s.after (steps ++ [.setClock 59])
    let last := s.after (steps ++ [.setClock 60])
    s.host.lookUp Cache.Id.shared = some ⟨[], 1⟩ ∧
      (Plugin.Config.default.onRequest before.host q).1.request =
        q.addAll [⟨"Authorization", "token"⟩] ∧
      .dispatch ∈ (Plugin.Config.default.onRequest last.host q).1.events := by
  intro r q body p s steps before last
  let context : RequestContext :=
    ⟨"domain.org", "/orders", Endpoint.Entry.catchAll "ISHARE" "domain.org" "/orders", some 1⟩
  let concern : Concern :=
    ⟨"other.org", "/", Endpoint.Entry.catchAll "ISHARE" "other.org" "/"⟩
  let e : Cache.Entry := ⟨60, [⟨"Authorization", "token"⟩]⟩
  have hv : (s.verdictOn none r).context? = some context := by
    decide +kernel
  have hname : ∀ later q, Step.request "1" later q ∉ [.put "1" [7] none] := by
    simp
  have hquiet : s.landings [.request "1" none r, .put "1" [7] none]
      context.entry.cacheId.key = 0 := by
    decide +kernel
  have hheaders : AuthHeader.decodeList? body = some e.headers := by
    decide +kernel
  have htime : Cache.Control.parse "max-age=60"
      (s.after [.request "1" none r, .put "1" [7] none]).host.clock = .expiresAt e.expiration := by
    decide +kernel
  have hlater (now : Instant) : (s.after steps).landings [.setClock now]
      context.entry.cacheId.key = 0 := rfl
  have hafter (now : Instant) :=
    (answer_replayed hv hname hquiet rfl hheaders rfl htime (by decide +kernel) (hlater now)).2
  have hconcern : Plugin.Config.default.concern? q = some concern := by
    decide +kernel
  have hserved := (hafter 59 (by decide +kernel) _ q concern hconcern rfl).served
  have hasks := (hafter 60 (by decide +kernel) _ q concern hconcern rfl).asks
  exact ⟨by decide +kernel, (hserved (by decide +kernel)).2.2.2.1, hasks (by decide +kernel)⟩

end Session
end EgressAuth
