/-
  EgressAuth.Proofs.Interception.AuthTypes

  For which authentication type the headers were issued that a request is
  served from the cache. A slot belongs to an endpoint, that is to a domain and
  a path, or to all requests while endpoints are not told apart; the type is no
  part of it. So what is served was issued for the same endpoint, for the type
  that this endpoint had in the configuration of the request that asked the
  provider (`served_issued`). A configuration loaded since may give the endpoint
  another type, and the headers stay in use (`not_always_issued_for_type`).
-/
import EgressAuth.Proofs.Cache.Entry
import EgressAuth.Proofs.Endpoint.Slots
import EgressAuth.Proofs.Interception.CacheSafety
import EgressAuth.Proofs.Interception.Provenance
import EgressAuth.Proofs.Interception.ProviderHeaders
import EgressAuth.Proofs.Plugin.RawEndpoints

namespace EgressAuth

/-! ## Endpoints and their slots -/

namespace Endpoint

/-- The entry of one of the registrations that have a path. -/
def Registers (gs : List Registration) (e : Entry) : Prop :=
  ∃ g ∈ gs, g.path ≠ "" ∧ e = g.entry

/-- No two of the hashed texts collide, and none hashes to the number of the shared slot. -/
structure SlotsApart (gs : List Registration) : Prop where
  apart : ∀ e f, Registers gs e → Registers gs f → e.cacheId = f.cacheId → e.slotText = f.slotText
  unshared : ∀ e, Registers gs e → e.cacheId ≠ Cache.Id.shared

theorem Registers.mono {gs ks : List Registration} {e : Entry} (h : Registers gs e)
    (hsub : ∀ g ∈ gs, g ∈ ks) : Registers ks e := by
  obtain ⟨g, hg, hentry⟩ := h
  exact ⟨g, hsub g hg, hentry⟩

end Endpoint

namespace Plugin.Config

open Endpoint

/-- With matching on, an entry is that of a registration; with matching off, it is the one for all
requests. -/
theorem entryFor?_cases {c : Config} {gs : List Registration} {domain path : String} {e : Entry}
    (hroutes : c.routes = RouteTable.compile gs) (h : c.entryFor? domain path = some e) :
    (c.settings.matchEndpoints = true ∧ Registers gs e) ∨
      (c.settings.matchEndpoints = false ∧
        e = Entry.catchAll c.settings.defaultAuthType domain path) := by
  cases hmatching : c.settings.matchEndpoints with
  | true =>
      obtain ⟨-, -, r, hr, hentry⟩ := (entryFor?_eq_some_iff hmatching).1 h
      rw [hroutes] at hr
      obtain ⟨g, hg, hgr, -⟩ := RouteTable.exists_registration (RouteTable.wins_of_find? hr).mem
      obtain ⟨hpath, hgentry, -⟩ := Registration.mem_routes.1 hgr
      exact Or.inl ⟨rfl, g, hg, hpath, hentry.symm.trans hgentry⟩
  | false =>
      unfold entryFor? at h
      rw [hmatching] at h
      exact Or.inr ⟨rfl, (Option.some.inj h).symm⟩

/-- Two entries, each of a configuration, are of one endpoint: their domains and paths in a row are
the same, or neither configuration tells endpoints apart. -/
structure SameEndpoint (c : Config) (e : Entry) (c' : Config) (e' : Entry) : Prop where
  matching : c.settings.matchEndpoints = c'.settings.matchEndpoints
  text : c.settings.matchEndpoints = true → e.slotText = e'.slotText

/-- Entries that have one slot are of one endpoint. -/
theorem sameEndpoint_of_cacheId {gs ks ls : List Registration} {c c' : Config} {e e' : Entry}
    {domain path domain' path' : String} (hslots : SlotsApart ls)
    (hroutes : c.routes = RouteTable.compile gs) (hgs : ∀ g ∈ gs, g ∈ ls)
    (hroutes' : c'.routes = RouteTable.compile ks) (hks : ∀ g ∈ ks, g ∈ ls)
    (he : c.entryFor? domain path = some e) (he' : c'.entryFor? domain' path' = some e')
    (hid : e.cacheId = e'.cacheId) : SameEndpoint c e c' e' := by
  rcases entryFor?_cases hroutes he with ⟨hon, hreg⟩ | ⟨hoff, rfl⟩
  · rcases entryFor?_cases hroutes' he' with ⟨hon', hreg'⟩ | ⟨-, rfl⟩
    · refine ⟨hon.trans hon'.symm, fun _ => ?_⟩
      exact hslots.apart e e' (hreg.mono hgs) (hreg'.mono hks) hid
    · exact absurd hid (hslots.unshared e (hreg.mono hgs))
  · rcases entryFor?_cases hroutes' he' with ⟨-, hreg'⟩ | ⟨hoff', -⟩
    · exact absurd hid.symm (hslots.unshared e' (hreg'.mono hks))
    · refine ⟨hoff.trans hoff'.symm, fun hon => ?_⟩
      rw [hoff] at hon
      cases hon

end Plugin.Config

/-! ## Calls for a type -/

/-- The call asks for headers of a type, at the path of this type and for a domain and a path. -/
def ProviderCall.AsksFor (call : ProviderCall) (authType domain path : String) : Prop :=
  ∀ target, (Http.pathName, target) ∈ call.headers ↔
    target = "/" ++ authType ++ "/auth?domain=" ++ Text.Percent.encode domain ++ "&path=" ++
      Text.Percent.encode path

/-- The call on behalf of a request asks for the type of its entry. -/
theorem Plugin.Config.providerCall_asksFor (c : Plugin.Config) (r : InboundRequest)
    (context : RequestContext) :
    (c.providerCall r context).AsksFor context.entry.authType context.domain context.path :=
  fun target => context.mem_providerHeaders r.headers target

/-! ## Issued headers -/

namespace Session

open Endpoint Plugin

/-- Among the steps, the provider issued the headers to a request that was processed by the
configuration `c` and matched with the entry `e`: the request had to wait for a call that asks for
the type of `e`, no request of its name came in before the answer, and the body of the answer lists
the headers. -/
def Issued (s : Session) (past : List Step) (c : Config) (e : Entry) (headers : List AuthHeader) :
    Prop :=
  ∃ before id snapshot r between p since, past =
      before ++ .request id snapshot r :: between ++ .answer id (.ok p) :: since ∧
    (∀ later q, .request id later q ∉ between) ∧
    (s.after before).configOf snapshot = c ∧
    (∃ concern callId call context, c.concern? r = some concern ∧ concern.entry = e ∧
      (s.after before).verdictOn snapshot r = .pause callId call context ∧
      call.AsksFor e.authType concern.domain concern.path) ∧
    ∃ body, p.body = some body ∧ AuthHeader.decodeList? body = some headers

/-- Among the steps, the provider issued the headers to a call for a type. -/
def IssuedFor (s : Session) (past : List Step) (authType : String) (headers : List AuthHeader) :
    Prop :=
  ∃ c e, s.Issued past c e headers ∧ e.authType = authType

variable {s : Session} {past : List Step} {headers : List AuthHeader}

/-- Usable headers were issued to a request that was matched with an entry of the same slot. -/
theorem exists_issued_of_usable? (hempty : s.host.store = .empty) (hnew : s.tickets = [])
    (hown : ∀ t ∈ past, t.isForeign = false) {i : Cache.Id}
    (hu : (s.after past).host.usable? i = some headers) :
    ∃ c e, s.Issued past c e headers ∧ e.cacheId = i := by
  obtain ⟨entry, ⟨slot, hslot, hdecode, -⟩, rfl⟩ := Host.usable?_eq_some_iff.1 hu
  obtain ⟨asked, t, since, w, rfl, hwritten, hkey, hdata⟩ :=
    exists_written_of_slot? hempty (Host.slot?_of_lookUp hslot)
  -- Only an answer writes, and it writes for the request that waits for it.
  cases t with
  | put key data cas =>
      have hforeign := hown (.put key data cas) (by simp)
      cases hforeign
  | answer id answer =>
      obtain ⟨context, hwaits, hwritten⟩ := Option.bind_eq_some_iff.1 hwritten
      obtain ⟨kept, hkept, rfl⟩ := Option.map_eq_some_iff.1 hwritten
      have hentry : kept = entry := by
        rw [← hdata, Cache.Entry.decode?_encode] at hdecode
        exact Option.some.inj hdecode
      obtain ⟨before, snapshot, r, between, rfl, hname, hv⟩ :=
        exists_request_of_waiting? hnew hwaits
      obtain ⟨concern, hc, rfl, hpause⟩ := Config.pause_of_onRequest hv
      cases answer with
      | error err => cases hkept
      | ok p =>
          obtain ⟨hheaders, -⟩ := ProviderResponse.kept?_eq_some_iff.1 hkept
          rw [hentry] at hheaders
          refine ⟨_, concern.entry, ⟨before, id, snapshot, r, between, p, since, rfl, hname, rfl,
            ⟨concern, _, _, _, hc, rfl, hpause, Config.providerCall_asksFor _ _ _⟩,
            Option.bind_eq_some_iff.1 hheaders⟩, ?_⟩
          exact Cache.Id.key_injective hkey
  | _ => cases hwritten

/-- Headers are issued by a configuration that was current at some time, to a request that it
matched. -/
theorem Issued.governed {c : Config} {e : Entry} (h : s.Issued past c e headers)
    (hnone : s.snapshots = []) :
    c ∈ s.configs past ∧ ∃ domain path, c.entryFor? domain path = some e := by
  obtain ⟨before, id, snapshot, r, between, p, since, rfl, -, rfl,
    ⟨concern, callId, call, context, hc, rfl, -⟩, -⟩ := h
  refine ⟨?_, concern.domain, concern.path, Config.entryFor?_of_concern? hc⟩
  rw [List.append_assoc]
  exact mem_configs_append (configOf_mem_configs hnone before snapshot) _

/-! ## Main statement -/

/-- The registrations of all configurations of a run: those of the first one, and those that steps
loaded. -/
def registered (gs : List Registration) (steps : List Step) : List Registration :=
  gs ++ steps.flatMap fun
    | .configure raw => (RawEndpoints.read raw).registrations
    | _ => []

/-- A session at its beginning: nothing is stored, no request has come in, no snapshot is taken,
and the endpoints are those of some registrations. -/
structure Opens (s : Session) (gs : List Registration) : Prop where
  store : s.host.store = .empty
  tickets : s.tickets = []
  snapshots : s.snapshots = []
  routes : s.config.routes = RouteTable.compile gs

theorem exists_routes_of_mem_configs {gs : List Registration} {c : Config}
    (hroutes : s.config.routes = RouteTable.compile gs) (hc : c ∈ s.configs past)
    (later : List Step) :
    ∃ ks, c.routes = RouteTable.compile ks ∧ ∀ g ∈ ks, g ∈ registered gs (past ++ later) := by
  rcases List.mem_cons.1 hc with rfl | hc
  · exact ⟨gs, hroutes, fun g hg => List.mem_append_left _ hg⟩
  · obtain ⟨t, ht, hload⟩ := List.mem_filterMap.1 hc
    cases t with
    | configure raw =>
        cases hload
        refine ⟨_, RawEndpoints.routes_load raw, fun g hg => ?_⟩
        refine List.mem_append_right _ (List.mem_flatMap.2 ⟨.configure raw, ?_, hg⟩)
        exact List.mem_append_left _ ht
    | _ => cases hload

/-- In a run from an empty store, without foreign writes, a matched request for which no call is
attempted is given headers that were issued for its endpoint, for the type that this endpoint had
in the configuration of the request that they were issued to. If no configuration that was current
so far gives the endpoint another type than it has now, they were issued for this type. -/
theorem served_issued {gs : List Registration} {steps : List Step} (hopens : s.Opens gs)
    (hown : ∀ t ∈ steps, t.isForeign = false) (hslots : SlotsApart (registered gs steps))
    {before since : List Step} {id : String} {snapshot : Option String} {r : InboundRequest}
    {concern : Concern} (hsteps : steps = before ++ .request id snapshot r :: since)
    (hc : ((s.after before).configOf snapshot).concern? r = some concern)
    (hno : .dispatch ∉ ((s.after before).step (.request id snapshot r)).2.1) :
    let c := (s.after before).configOf snapshot
    let served := HostEvent.added ((s.after before).step (.request id snapshot r)).2.1
    (∃ c' ∈ s.configs before, ∃ e', c.SameEndpoint concern.entry c' e' ∧
      s.Issued before c' e' served) ∧
    ((∀ c' ∈ s.configs before, ∀ domain path e', c'.entryFor? domain path = some e' →
        c.SameEndpoint concern.entry c' e' → e'.authType = concern.entry.authType) →
      s.IssuedFor before concern.entry.authType served) := by
  intro c served
  have hbefore : ∀ t ∈ before, t.isForeign = false := by
    intro t ht
    refine hown t ?_
    rw [hsteps]
    exact List.mem_append_left _ ht
  have hu : (s.after before).host.usable? concern.entry.cacheId = some served :=
    Config.usable?_of_no_dispatch hc hno
  obtain ⟨c', e', hissued, hid⟩ :=
    exists_issued_of_usable? hopens.store hopens.tickets hbefore hu
  obtain ⟨hmem', domain', path', hentry'⟩ := hissued.governed hopens.snapshots
  -- Both entries come from configurations of the run, so the slot tells their endpoint.
  have hsame : c.SameEndpoint concern.entry c' e' := by
    have hmem := configOf_mem_configs hopens.snapshots before snapshot
    obtain ⟨ks, hks, hksub⟩ :=
      exists_routes_of_mem_configs hopens.routes hmem (.request id snapshot r :: since)
    obtain ⟨ls, hls, hlsub⟩ :=
      exists_routes_of_mem_configs hopens.routes hmem' (.request id snapshot r :: since)
    rw [← hsteps] at hksub hlsub
    exact Config.sameEndpoint_of_cacheId hslots hks hksub hls hlsub
      (Config.entryFor?_of_concern? hc) hentry' hid.symm
  refine ⟨⟨c', hmem', e', hsame, hissued⟩, fun hstill => ⟨c', e', hissued, ?_⟩⟩
  exact hstill c' hmem' domain' path' e' hentry' hsame

/-- Two endpoints of different types, and two requests for the first one: the second request is
served what was issued to the first. -/
theorem served_issued_of_two_requests :
    let gs : List Registration :=
      [⟨"ISHARE", "domain.org", "/orders"⟩, ⟨"OIC", "domain.org", "/x"⟩]
    let s := start ⟨{ Settings.default with matchEndpoints := true }, RouteTable.compile gs⟩ 0
    let r := InboundRequest.listed [(":authority", "domain.org"), (":path", "/orders")]
    let p : ProviderResponse :=
      ⟨[("cache-control", "max-age=60")],
        some (Text.encode "[\x7b\"name\": \"Authorization\", \"value\": \"token\"\x7d]")⟩
    let before : List Step := [.request "1" none r, .answer "1" (.ok p)]
    let steps := before ++ [.request "2" none r]
    s.Opens gs ∧ (∀ t ∈ steps, t.isForeign = false) ∧ SlotsApart (registered gs steps) ∧
      .dispatch ∉ ((s.after before).step (.request "2" none r)).2.1 ∧
      s.IssuedFor before "ISHARE" [⟨"Authorization", "token"⟩] := by
  intro gs s r p before steps
  let orders : Entry :=
    ⟨Cache.Id.ofEndpoint "domain.org" "/orders", "ISHARE", "domain.org", "/orders"⟩
  let other : Entry := ⟨Cache.Id.ofEndpoint "domain.org" "/x", "OIC", "domain.org", "/x"⟩
  have hopens : s.Opens gs := ⟨rfl, rfl, rfl, rfl⟩
  have hown : ∀ t ∈ steps, t.isForeign = false := by
    simp [steps, before, Step.isForeign]
  have hregisters : ∀ e, Registers gs e → e = orders ∨ e = other := by
    rintro e ⟨g, hg, -, rfl⟩
    simp only [gs, List.mem_cons, List.not_mem_nil, or_false] at hg
    rcases hg with rfl | rfl
    · exact Or.inl (by decide +kernel)
    · exact Or.inr (by decide +kernel)
  have hids : orders.cacheId ≠ other.cacheId ∧ orders.cacheId ≠ Cache.Id.shared ∧
      other.cacheId ≠ Cache.Id.shared := by
    decide +kernel
  have hslots : SlotsApart (registered gs steps) := by
    refine ⟨fun e f he hf hid => ?_, fun e he => ?_⟩
    · rcases hregisters e he with rfl | rfl <;> rcases hregisters f hf with rfl | rfl
      · rfl
      · exact absurd hid hids.1
      · exact absurd hid.symm hids.1
      · rfl
    · rcases hregisters e he with rfl | rfl
      · exact hids.2.1
      · exact hids.2.2
  have hno : .dispatch ∉ ((s.after before).step (.request "2" none r)).2.1 := by
    decide +kernel
  have hc : ((s.after before).configOf none).concern? r =
      some ⟨"domain.org", "/orders", orders⟩ := by
    decide +kernel
  have hserved : HostEvent.added ((s.after before).step (.request "2" none r)).2.1 =
      [⟨"Authorization", "token"⟩] := by
    decide +kernel
  obtain ⟨-, htype⟩ := served_issued hopens hown hslots rfl hc hno
  rw [hserved] at htype
  refine ⟨hopens, hown, hslots, hno, htype fun c' hc' domain path e' he' hsame => ?_⟩
  -- The one configuration has one entry with the text of the endpoint.
  cases List.mem_singleton.1 hc'
  rcases Config.entryFor?_cases hopens.routes he' with ⟨-, hregisters'⟩ | ⟨hoff, -⟩
  · rcases hregisters e' hregisters' with rfl | rfl
    · rfl
    · have htext : orders.slotText = other.slotText := hsame.text rfl
      revert htext
      decide
  · cases hoff

/-- Headers that were issued for one default type are served after a configuration has made another
type the default. -/
theorem not_always_issued_for_type :
    ¬∀ (s : Session) (gs : List Registration) (steps : List Step), s.Opens gs →
      (∀ t ∈ steps, t.isForeign = false) → SlotsApart (registered gs steps) →
      ∀ before id snapshot r since concern, steps = before ++ .request id snapshot r :: since →
        ((s.after before).configOf snapshot).concern? r = some concern →
        .dispatch ∉ ((s.after before).step (.request id snapshot r)).2.1 →
        s.IssuedFor before concern.entry.authType
          (HostEvent.added ((s.after before).step (.request id snapshot r)).2.1) := by
  intro h
  let s := start Config.default 0
  let r := InboundRequest.listed [(":authority", "domain.org"), (":path", "/orders")]
  let p : ProviderResponse :=
    ⟨[("cache-control", "max-age=60")],
      some (Text.encode "[\x7b\"name\": \"Authorization\", \"value\": \"token\"\x7d]")⟩
  let raw : Option Bytes :=
    some (Text.encode "\x7b\"general\": \x7b\"authType\": \"OIC\"\x7d\x7d")
  let before : List Step := [.request "1" none r, .answer "1" (.ok p), .configure raw]
  let steps := before ++ [.request "2" none r]
  have hown : ∀ t ∈ steps, t.isForeign = false := by
    simp [steps, before, Step.isForeign]
  have hslots : SlotsApart (registered [] steps) := by
    have hnone : registered [] steps = [] := by
      decide +kernel
    rw [hnone]
    refine ⟨?_, ?_⟩
    · rintro e f ⟨g, hg, -⟩
      cases hg
    · rintro e ⟨g, hg, -⟩
      cases hg
  have hc : ((s.after before).configOf none).concern? r =
      some ⟨"domain.org", "/orders", Entry.catchAll "OIC" "domain.org" "/orders"⟩ := by
    decide +kernel
  have hno : .dispatch ∉ ((s.after before).step (.request "2" none r)).2.1 := by
    decide +kernel
  obtain ⟨c, e, ⟨first, id, snapshot, q, between, answer, since, hbefore, -, rfl,
      ⟨concern, callId, call, context, hfirst, rfl, -⟩, -⟩, htype⟩ :=
    h s [] steps ⟨rfl, rfl, rfl, rfl⟩ hown hslots before "2" none r [] _ rfl hc hno
  -- Only the first step is a request, and it came in when the default type was the old one.
  cases first with
  | nil =>
      obtain ⟨hrequest, -⟩ := List.cons_eq_cons.1 hbefore
      cases hrequest
      have hold : ((s.after []).configOf none).concern? r =
          some ⟨"domain.org", "/orders", Entry.catchAll "ISHARE" "domain.org" "/orders"⟩ := by
        decide +kernel
      rw [hold] at hfirst
      cases hfirst
      revert htype
      decide
  | cons t first =>
      obtain ⟨-, hrest⟩ := List.cons_eq_cons.1 hbefore
      have hmem : Step.request id snapshot q ∈ [.answer "1" (.ok p), .configure raw] := by
        rw [hrest]
        simp
      simp at hmem

end Session
end EgressAuth
