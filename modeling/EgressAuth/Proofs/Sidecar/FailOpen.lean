/-
  EgressAuth.Proofs.Sidecar.FailOpen

  The filter in the way of a request never stops it and only ever adds to it.
  `Supplied` lists the ways in which headers come to a request, most of which
  come to none; `suppliedTo` is the list that they come to. Whatever happens,
  the request is handed on once, as it was but for the sendable ones of these
  headers.
-/
import EgressAuth.Proofs.Http.Additions
import EgressAuth.Proofs.Interception.Outcomes
import EgressAuth.Sidecar.Service

namespace EgressAuth

/-- The filter is concerned with a request, the cache has nothing fresh for it, and `call` asks
the provider on its behalf. -/
structure Sidecar.Asks (s : Sidecar) (r : Http.Request) (call : ProviderCall) : Prop where
  notExempt : r.uri.path ∉ s.exempt
  onBehalf : ∃ concern, s.config.concern? (.http r) = some concern ∧
    (∀ e, ¬s.host.Fresh concern.entry.cacheId e) ∧
    call = s.config.providerCall (.http r) (concern.context s.host)

/-- How a list of headers comes to a request that arrives at a sidecar. -/
inductive Sidecar.Supplied (s : Sidecar) (t : Outbound.Transport) (r : Http.Request) :
    List AuthHeader → Prop where
  | exempt (h : r.uri.path ∈ s.exempt) : Supplied s t r []
  | noDomain (h : (InboundRequest.http r).domain? = none) : Supplied s t r []
  | noPath (h : (InboundRequest.http r).path? = none) : Supplied s t r []
  | unmatched {domain path : String} (hdomain : (InboundRequest.http r).domain? = some domain)
      (hpath : (InboundRequest.http r).path? = some path)
      (h : s.config.entryFor? domain path = none) : Supplied s t r []
  | cached {concern : Concern} {e : Cache.Entry} (hexempt : r.uri.path ∉ s.exempt)
      (hconcern : s.config.concern? (.http r) = some concern)
      (h : s.host.Fresh concern.entry.cacheId e) : Supplied s t r e.headers
  | refused {call : ProviderCall} {err : HostError} (hasks : s.Asks r call)
      (h : s.host.dispatcher.accept call = .error err) : Supplied s t r []
  | failed {call : ProviderCall} {err : HostError} (hasks : s.Asks r call)
      (haccepts : s.host.dispatcher.accept call = .ok ())
      (h : s.clusters.call t call = .error err) : Supplied s t r []
  | undecodable {call : ProviderCall} {p : ProviderResponse} (hasks : s.Asks r call)
      (haccepts : s.host.dispatcher.accept call = .ok ()) (hanswer : s.clusters.call t call = .ok p)
      (h : ∀ body, p.body = some body → AuthHeader.decodeList? body = none) : Supplied s t r []
  | provided {call : ProviderCall} {p : ProviderResponse} {body : Bytes} {hs : List AuthHeader}
      (hasks : s.Asks r call) (haccepts : s.host.dispatcher.accept call = .ok ())
      (hanswer : s.clusters.call t call = .ok p) (hbody : p.body = some body)
      (h : AuthHeader.decodeList? body = some hs) : Supplied s t r hs

namespace Sidecar

variable {s : Sidecar} {t : Outbound.Transport} {r : Http.Request}

/-- The headers that a request is given when its provider is asked with `call`. -/
def answered (s : Sidecar) (t : Outbound.Transport) (call : ProviderCall) : List AuthHeader :=
  match s.host.dispatcher.accept call with
  | .error _ => []
  | .ok _ => (providedHeaders? (s.clusters.call t call)).getD []

/-- The headers that a request is given. -/
def suppliedTo (s : Sidecar) (t : Outbound.Transport) (r : Http.Request) : List AuthHeader :=
  if r.uri.path ∈ s.exempt then []
  else match s.config.concern? (.http r) with
    | none => []
    | some concern => match s.host.usable? concern.entry.cacheId with
      | some headers => headers
      | none => s.answered t (s.config.providerCall (.http r) (concern.context s.host))

theorem suppliedTo_of_exempt (h : r.uri.path ∈ s.exempt) : s.suppliedTo t r = [] := if_pos h

theorem suppliedTo_of_no_concern (h : s.config.concern? (.http r) = none) :
    s.suppliedTo t r = [] := by
  unfold suppliedTo
  rw [h]
  exact ite_self []

theorem suppliedTo_of_usable {concern : Concern} {headers : List AuthHeader}
    (hexempt : r.uri.path ∉ s.exempt) (hconcern : s.config.concern? (.http r) = some concern)
    (h : s.host.usable? concern.entry.cacheId = some headers) : s.suppliedTo t r = headers := by
  unfold suppliedTo
  rw [if_neg hexempt, hconcern]
  simp only [h]

theorem asks_of_not_usable {concern : Concern} (hexempt : r.uri.path ∉ s.exempt)
    (hconcern : s.config.concern? (.http r) = some concern)
    (h : s.host.usable? concern.entry.cacheId = none) :
    s.Asks r (s.config.providerCall (.http r) (concern.context s.host)) :=
  ⟨hexempt, concern, hconcern, Host.usable?_eq_none_iff.1 h, rfl⟩

theorem suppliedTo_of_asks {call : ProviderCall} (h : s.Asks r call) :
    s.suppliedTo t r = s.answered t call := by
  obtain ⟨hexempt, concern, hconcern, hstale, rfl⟩ := h
  unfold suppliedTo
  rw [if_neg hexempt, hconcern]
  simp only [Host.usable?_eq_none_iff.2 hstale]

/-! ## One list of headers -/

/-- Asking the provider comes to some list of headers. -/
theorem supplied_answered {call : ProviderCall} (h : s.Asks r call) :
    s.Supplied t r (s.answered t call) := by
  unfold answered
  cases haccepts : s.host.dispatcher.accept call with
  | error err => exact .refused h haccepts
  | ok u =>
      cases hanswer : s.clusters.call t call with
      | error err => exact .failed h haccepts hanswer
      | ok p =>
          show s.Supplied t r ((p.body.bind AuthHeader.decodeList?).getD [])
          cases hprovided : p.body.bind AuthHeader.decodeList? with
          | none => exact .undecodable h haccepts hanswer (Option.bind_eq_none_iff.1 hprovided)
          | some hs =>
              obtain ⟨body, hbody, hdecode⟩ := Option.bind_eq_some_iff.1 hprovided
              exact .provided h haccepts hanswer hbody hdecode

/-- Headers come to every request, if only an empty list. -/
theorem supplied_suppliedTo (s : Sidecar) (t : Outbound.Transport) (r : Http.Request) :
    s.Supplied t r (s.suppliedTo t r) := by
  -- The cases are those of `suppliedTo`, and each is one way or another in which headers come.
  by_cases hexempt : r.uri.path ∈ s.exempt
  · rw [suppliedTo_of_exempt hexempt]
    exact .exempt hexempt
  · cases hconcern : s.config.concern? (.http r) with
    | none =>
        rw [suppliedTo_of_no_concern hconcern]
        rcases Plugin.Config.concern?_eq_none_iff.1 hconcern with h | h | ⟨domain, path, hd, hp, h⟩
        · exact .noDomain h
        · exact .noPath h
        · exact .unmatched hd hp h
    | some concern =>
        cases hu : s.host.usable? concern.entry.cacheId with
        | some headers =>
            rw [suppliedTo_of_usable hexempt hconcern hu]
            obtain ⟨e, he, rfl⟩ := Host.usable?_eq_some_iff.1 hu
            exact .cached hexempt hconcern he
        | none =>
            have hasks := asks_of_not_usable hexempt hconcern hu
            rw [suppliedTo_of_asks hasks]
            exact supplied_answered hasks

/-- No other headers come to a request. -/
theorem eq_suppliedTo_of_supplied {hs : List AuthHeader} (h : s.Supplied t r hs) :
    hs = s.suppliedTo t r := by
  cases h with
  | exempt h => exact (suppliedTo_of_exempt h).symm
  | noDomain h =>
      refine (suppliedTo_of_no_concern ?_).symm
      exact Plugin.Config.concern?_eq_none_iff.2 (.inl h)
  | noPath h =>
      refine (suppliedTo_of_no_concern ?_).symm
      exact Plugin.Config.concern?_eq_none_iff.2 (.inr (.inl h))
  | unmatched hdomain hpath h =>
      refine (suppliedTo_of_no_concern ?_).symm
      exact Plugin.Config.concern?_eq_none_iff.2 (.inr (.inr ⟨_, _, hdomain, hpath, h⟩))
  | cached hexempt hconcern h =>
      exact (suppliedTo_of_usable hexempt hconcern
        (Host.usable?_eq_some_iff.2 ⟨_, h, rfl⟩)).symm
  | refused hasks h =>
      rw [suppliedTo_of_asks hasks, answered, h]
  | failed hasks haccepts h =>
      rw [suppliedTo_of_asks hasks, answered, haccepts, h]
      rfl
  | @undecodable call p hasks haccepts hanswer h =>
      rw [suppliedTo_of_asks hasks, answered, haccepts, hanswer]
      show [] = (p.body.bind AuthHeader.decodeList?).getD []
      rw [Option.bind_eq_none_iff.2 h]
      rfl
  | @provided call p body hs hasks haccepts hanswer hbody h =>
      rw [suppliedTo_of_asks hasks, answered, haccepts, hanswer]
      show hs = (p.body.bind AuthHeader.decodeList?).getD []
      rw [hbody, Option.bind_some, h, Option.getD_some]

/-! ## Main statement -/

/-- A request that passes the filter is given the headers that are supplied to it. -/
theorem passFilter_request (hexempt : r.uri.path ∉ s.exempt) :
    (passFilter s.config s.host (s.clusters.call t) (.http r)).2 =
      (InboundRequest.http r).addAll (s.suppliedTo t r) := by
  unfold passFilter
  -- The request goes on at once in the first three ways, and after the answer in the last one.
  rcases Plugin.Config.onRequest_cases s.config s.host (.http r) with
    ⟨hnone, e⟩ | ⟨concern, hconcern, ⟨headers, hu, e⟩ | ⟨hu, ⟨err, haccepts, e⟩ | ⟨d, haccepts, e⟩⟩⟩
  · rw [e, suppliedTo_of_no_concern hnone]
    rfl
  · rw [e, suppliedTo_of_usable hexempt hconcern hu]
  · rw [e, suppliedTo_of_asks (asks_of_not_usable hexempt hconcern hu), answered, haccepts]
    rfl
  · rw [e, suppliedTo_of_asks (asks_of_not_usable hexempt hconcern hu), answered, haccepts]
    exact RequestContext.onAnswer_request _ _ _ _

/-- Whatever the provider, the cache and the configuration are up to, a request is handed on
exactly once, with method, target and body as they were and with every name's values followed by
those of the sendable headers of one list, the list that is supplied to the request. -/
theorem authenticate_fails_open (s : Sidecar) (t : Outbound.Transport) (r : Http.Request) :
    ∃ (after : Sidecar) (passed : Http.Request) (added : List (Http.HeaderName × Http.HeaderValue))
      (hs : List AuthHeader),
      (∀ {m : Type → Type} [Monad m] (next : Http.Request → m Http.Response),
        s.authenticate t next r = do
          let response ← next passed
          return ⟨after, response, passed⟩) ∧
      passed.method = r.method ∧ passed.uri = r.uri ∧ passed.body = r.body ∧
      (∀ n, passed.headers.values n =
        r.headers.values n ++ (added.filter fun p => p.1 = n).map Prod.snd) ∧
      added.map (fun p => (p.1.text, p.2.bytes)) = (hs.filter AuthHeader.isSendable).map
        (fun h => (Text.foldCase h.name, Text.encode h.value)) ∧
      ∀ other, s.Supplied t r other ↔ other = hs := by
  have hunique : ∀ other, s.Supplied t r other ↔ other = s.suppliedTo t r := by
    intro other
    constructor
    · exact eq_suppliedTo_of_supplied
    · rintro rfl
      exact supplied_suppliedTo s t r
  by_cases hexempt : r.uri.path ∈ s.exempt
  · -- An exempt request is handed on as it is, by a call of its own.
    refine ⟨s, r, AuthHeader.pairs (s.suppliedTo t r), s.suppliedTo t r, ?_, rfl, rfl, rfl, ?_,
      AuthHeader.pairs_texts _, hunique⟩
    · intro m inst next
      exact if_pos (List.contains_iff_mem.2 hexempt)
    · intro n
      rw [suppliedTo_of_exempt hexempt]
      exact (List.append_nil _).symm
  · have hpassed := passFilter_request (t := t) hexempt
    rw [InboundRequest.addAll_http] at hpassed
    refine ⟨{ s with host := (passFilter s.config s.host (s.clusters.call t) (.http r)).1 },
      { r with headers := r.headers.appendAll (AuthHeader.pairs (s.suppliedTo t r)) },
      AuthHeader.pairs (s.suppliedTo t r), s.suppliedTo t r, ?_, rfl, rfl, rfl, ?_,
      AuthHeader.pairs_texts _, hunique⟩
    · intro m inst next
      have hcontains : ¬s.exempt.contains r.uri.path = true := fun h =>
        hexempt (List.contains_iff_mem.1 h)
      unfold authenticate
      rw [if_neg hcontains]
      simp only [hpassed, httpRequest]
    · exact Http.HeaderMap.values_appendAll r.headers _

end Sidecar
end EgressAuth
