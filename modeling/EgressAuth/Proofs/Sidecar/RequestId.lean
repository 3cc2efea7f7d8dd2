/-
  EgressAuth.Proofs.Sidecar.RequestId

  One identifier follows a request all the way. It is the first one that the
  service receives, since the filter appends headers and replaces none; it is
  in the body that stands in for a response that could not be had; and it is
  the only one on the response, whatever was there.
-/
import EgressAuth.Proofs.Http.Selection
import EgressAuth.Proofs.Http.Uuid
import EgressAuth.Proofs.Json.Containers
import EgressAuth.Proofs.Sidecar.FailOpen

namespace EgressAuth

/-! ## Stamps -/

namespace Sidecar.RequestId

variable {id : Http.Uuid} {v : Http.HeaderValue} {headers : Http.HeaderMap}

/-- Every identifier can be sent as a header value. -/
theorem exists_value (id : Http.Uuid) : ∃ v : Http.HeaderValue, v.text? = some id.text :=
  (Http.HeaderValue.exists_of_visible id.visible_text).imp fun _ h => h.2

/-- A stamp leaves the identifier as the only one. -/
theorem values_stamp (hv : v.text? = some id.text) (headers : Http.HeaderMap) :
    (stamp headers id).values .requestId = [v] := by
  simp only [stamp, Http.HeaderValue.ofText?_of_text? hv, Http.HeaderMap.values_insert, if_true]

/-- A request keeps the identifier that its first header spells. -/
theorem choose_of_spelling {text : String} {u : Http.Uuid} (fresh : Http.Uuid)
    (h : headers.firstText? .requestId = some text) (hu : Text.foldCase text ∈ u.spellings) :
    choose fresh headers = u := by
  simp only [choose, stated?, h, Option.bind_some, Http.Uuid.ofText?_eq_some_iff.2 hu,
    Option.getD_some]

/-- An identifier that was given out is kept when it comes back. -/
theorem choose_of_value (fresh : Http.Uuid) (h : headers.first? .requestId = some v)
    (hv : v.text? = some id.text) : choose fresh headers = id := by
  have htext : headers.firstText? .requestId = some id.text := by
    rw [Http.HeaderMap.firstText?, h, Option.bind_some, hv]
  refine choose_of_spelling fresh htext (Http.Uuid.ofText?_eq_some_iff.1 ?_)
  exact id.ofText?_text

end Sidecar.RequestId

/-! ## Failures -/

namespace Outbound

/-- The request `q` goes out over the network when `r` is forwarded. -/
def Backend.Receives (b : Backend) (r q : Http.Request) : Prop :=
  (∃ u, Backend.resolve b.url r.uri = .ok u ∧ q = { r with uri := u }) ∧
    Transport.namesHost q = true

/-- What is received is all that the network is asked. -/
theorem Backend.forward_congr_of_receives {b : Backend} {r : Http.Request} {t t' : Transport}
    (h : ∀ q, b.Receives r q → t q b.timeout = t' q b.timeout) :
    b.forward t r = b.forward t' r := by
  unfold Backend.forward
  cases hu : Backend.resolve b.url r.uri with
  | error e => rfl
  | ok u =>
      have hexchange : Transport.exchange t { r with uri := u } b.timeout =
          Transport.exchange t' { r with uri := u } b.timeout := by
        unfold Transport.exchange
        split
        · rename_i hhost
          exact h _ ⟨⟨u, hu, rfl⟩, hhost⟩
        · rfl
      simp only [hexchange]

/-- Nothing can be forwarded where no connection can be made. -/
theorem Backend.forward_unreachable (b : Backend) (r : Http.Request) :
    ∃ e, b.forward .unreachable r = .error e := by
  unfold Backend.forward
  cases Backend.resolve b.url r.uri with
  | error e => exact ⟨e, rfl⟩
  | ok u =>
      cases hhost : Transport.namesHost { r with uri := u } with
      | false => simp [Transport.exchange, hhost]
      | true => simp [Transport.exchange, hhost, Transport.unreachable]

/-- The body of an error response is an object that says the request id. -/
theorem ForwardError.body_requestId (e : ForwardError) (id : String) :
    ∃ j, Json.read? (e.body (some id)).render = some j ∧
      j.member? "request_id" = some (.string id) := by
  have hread := Json.read?_render_strings
    [("code", e.code), ("message", e.detail), ("request_id", id)]
  exact ⟨_, hread, rfl⟩

theorem ForwardError.succeeded_response (e : ForwardError) (id : Option String) :
    (e.response id).succeeded = false := by
  have hstatus : (e.response id).status = e.status := by
    unfold ForwardError.response
    split <;> rfl
  rw [Http.Response.succeeded, hstatus]
  cases e <;> rfl

theorem ForwardError.body_response (e : ForwardError) (id : Option String) :
    (e.response id).body = some (e.body id).render := by
  unfold ForwardError.response
  split <;> rfl

end Outbound

/-! ## The way of a request -/

namespace Sidecar

variable {v : Http.HeaderValue}

/-- The request that is handed on when `r` arrives. -/
def handedOn (s : Sidecar) (t : Outbound.Transport) (r : Http.Request) : Http.Request :=
  { r with headers := r.headers.appendAll (AuthHeader.pairs (s.suppliedTo t r)) }

/-- The request is handed on once, exempt or not. -/
theorem authenticate_eq (s : Sidecar) (t : Outbound.Transport) (r : Http.Request) :
    ∃ after, ∀ next : Http.Request → Http.Response,
      Id.run (s.authenticate t (fun q => pure (next q)) r) =
        ⟨after, next (s.handedOn t r), s.handedOn t r⟩ := by
  by_cases hexempt : r.uri.path ∈ s.exempt
  · have hsame : s.handedOn t r = r := by
      rw [handedOn, suppliedTo_of_exempt hexempt]
      rfl
    refine ⟨s, fun next => ?_⟩
    rw [hsame, authenticate, if_pos (List.contains_iff_mem.2 hexempt)]
    rfl
  · have hpassed := passFilter_request (t := t) hexempt
    rw [InboundRequest.addAll_http] at hpassed
    refine ⟨{ s with host := (passFilter s.config s.host (s.clusters.call t) (.http r)).1 },
      fun next => ?_⟩
    rw [authenticate, if_neg (fun h => hexempt (List.contains_iff_mem.1 h))]
    simp only [hpassed, httpRequest]
    rfl

/-- A value that comes first stays first on the way through the filter. -/
theorem first?_handedOn {r : Http.Request} {n : Http.HeaderName}
    (h : r.headers.first? n = some v) (s : Sidecar) (t : Outbound.Transport) :
    (s.handedOn t r).headers.first? n = some v := by
  obtain ⟨vs, hvs⟩ := List.head?_eq_some_iff.1 h
  rw [Http.HeaderMap.first?, handedOn, Http.HeaderMap.values_appendAll, hvs]
  rfl

/-- The request with its identifier as the only one. -/
def stamped (fresh : Http.Uuid) (r : Http.Request) : Http.Request :=
  { r with headers := RequestId.stamp r.headers (RequestId.choose fresh r.headers) }

/-- What serving a request comes to. -/
theorem serve_eq (s : Sidecar) (t : Outbound.Transport) (fresh : Http.Uuid)
    (b : Outbound.Backend) (r : Http.Request) :
    (s.serve t fresh b r).passed = s.handedOn t (stamped fresh r) ∧
      (s.serve t fresh b r).response =
        trimBody r.method { route b t (s.handedOn t (stamped fresh r)) with
          headers := RequestId.stamp (route b t (s.handedOn t (stamped fresh r))).headers
            (RequestId.choose fresh r.headers) } := by
  obtain ⟨after, hafter⟩ := authenticate_eq s t (stamped fresh r)
  have hrun := hafter (route b t)
  unfold stamped at hrun
  simp only [serve, handle, hrun]
  exact ⟨rfl, rfl⟩

@[simp] theorem headers_trimBody (method : Http.Method) (response : Http.Response) :
    (trimBody method response).headers = response.headers := by
  unfold trimBody
  split <;> rfl

/-- The response carries the identifier of the request and no other one. -/
theorem values_response (s : Sidecar) (t : Outbound.Transport) (fresh : Http.Uuid)
    (b : Outbound.Backend) (r : Http.Request)
    (hv : v.text? = some (RequestId.choose fresh r.headers).text) :
    (s.serve t fresh b r).response.headers.values .requestId = [v] := by
  rw [(serve_eq s t fresh b r).2, headers_trimBody]
  exact RequestId.values_stamp hv _

/-- The identifier of the request comes first on the request that is handed on. -/
theorem first?_passed (s : Sidecar) (t : Outbound.Transport) (fresh : Http.Uuid)
    (b : Outbound.Backend) (r : Http.Request)
    (hv : v.text? = some (RequestId.choose fresh r.headers).text) :
    (s.serve t fresh b r).passed.headers.first? .requestId = some v := by
  rw [(serve_eq s t fresh b r).1]
  refine first?_handedOn ?_ s t
  rw [Http.HeaderMap.first?, stamped, RequestId.values_stamp hv]
  rfl

/-- The body of the response to a request that could not be forwarded. -/
theorem body_of_forward_error {s : Sidecar} {t : Outbound.Transport} {fresh : Http.Uuid}
    {b : Outbound.Backend} {r : Http.Request} {e : Outbound.ForwardError}
    (hv : v.text? = some (RequestId.choose fresh r.headers).text)
    (hpath : r.uri.path ≠ healthPath)
    (he : b.forward t (s.serve t fresh b r).passed = .error e) :
    (s.serve t fresh b r).response.body = some (if r.method = .head then []
      else (e.body (some (RequestId.choose fresh r.headers).text)).render) := by
  have hstated : RequestId.stated? (s.serve t fresh b r).passed.headers =
      some (RequestId.choose fresh r.headers).text := by
    rw [RequestId.stated?, Http.HeaderMap.firstText?, first?_passed s t fresh b r hv,
      Option.bind_some, hv]
  obtain ⟨hpassed, hresponse⟩ := serve_eq s t fresh b r
  rw [hpassed] at he hstated
  have hroute : route b t (s.handedOn t (stamped fresh r)) =
      e.response (some (RequestId.choose fresh r.headers).text) := by
    rw [route, if_neg (show (s.handedOn t (stamped fresh r)).uri.path ≠ healthPath from hpath),
      proxy, he, hstated]
  -- A failure is no success, so `HEAD` alone goes without its body.
  have hfailed := e.succeeded_response (some (RequestId.choose fresh r.headers).text)
  rw [hresponse, hroute, trimBody]
  rw [Http.Response.succeeded] at hfailed
  simp only [Http.Response.succeeded, hfailed, Bool.false_eq_true, and_false, or_false]
  split
  · rfl
  · exact e.body_response _

/-- Every request is followed by one identifier, the one that its first header spells if it does.
It is the only one on the response, and stays so for every request that brings it back; it comes
first on the request that the service receives; and the response to a request that could not be
forwarded says it in its body, unless the request was for headers only and there is no body. -/
theorem serve_one_request_id (s : Sidecar) (t : Outbound.Transport) (fresh : Http.Uuid)
    (b : Outbound.Backend) (r : Http.Request) :
    ∃ (id : Http.Uuid) (v : Http.HeaderValue), v.text? = some id.text ∧
      (s.serve t fresh b r).response.headers.values .requestId = [v] ∧
      (∀ text u, r.headers.firstText? .requestId = some text →
        Text.foldCase text ∈ u.spellings → id = u) ∧
      (∀ (s' : Sidecar) (t' : Outbound.Transport) (fresh' : Http.Uuid) (b' : Outbound.Backend)
        (r' : Http.Request), r'.headers.first? .requestId = some v →
          (s'.serve t' fresh' b' r').response.headers.values .requestId = [v]) ∧
      (∀ q, b.Receives (s.serve t fresh b r).passed q →
        q.headers.first? .requestId = some v) ∧
      ∀ e, r.uri.path ≠ healthPath → b.forward t (s.serve t fresh b r).passed = .error e →
        if r.method = .head then (s.serve t fresh b r).response.body = some []
        else ∃ body j, (s.serve t fresh b r).response.body = some body ∧
          Json.read? body = some j ∧ j.member? "request_id" = some (.string id.text) := by
  obtain ⟨v, hv⟩ := RequestId.exists_value (RequestId.choose fresh r.headers)
  refine ⟨RequestId.choose fresh r.headers, v, hv, values_response s t fresh b r hv, ?_, ?_, ?_, ?_⟩
  · intro text u htext hu
    exact RequestId.choose_of_spelling fresh htext hu
  · intro s' t' fresh' b' r' hfirst
    refine values_response s' t' fresh' b' r' ?_
    rw [RequestId.choose_of_value fresh' hfirst hv, hv]
  · rintro q ⟨⟨u, -, rfl⟩, -⟩
    exact first?_passed s t fresh b r hv
  · intro e hpath he
    have hbody := body_of_forward_error hv hpath he
    split
    · rename_i hhead
      rw [hbody, if_pos hhead]
    · rename_i hhead
      rw [if_neg hhead] at hbody
      obtain ⟨j, hread, hmember⟩ := e.body_requestId (RequestId.choose fresh r.headers).text
      exact ⟨_, j, hbody, hread, hmember⟩

/-- An identifier in capitals behind the word for names is shown as identifiers always are. -/
theorem serve_one_request_id_of_capitals :
    let s := start (Plugin.Config.load none) [] 0 []
    let b : Outbound.Backend := { url := ⟨"http://backend", by decide⟩ }
    let given : Http.HeaderValue :=
      ⟨Text.encode "URN:UUID:936DA01F-9ABD-4D9D-80C7-02AF85C822A8", by decide +kernel⟩
    let fresh : Http.Uuid := ⟨List.replicate 32 '0', by decide, by decide⟩
    let r : Http.Request :=
      ⟨.get, .origin ⟨"/orders".toList, none⟩, Http.HeaderMap.empty.insert .requestId given, []⟩
    let handled := s.serve .unreachable fresh b r
    ∃ v : Http.HeaderValue, v.text? = some "936da01f-9abd-4d9d-80c7-02af85c822a8" ∧
      handled.response.headers.values .requestId = [v] ∧
      (∃ q, b.Receives handled.passed q ∧ q.headers.first? .requestId = some v) ∧
      ∃ body j, handled.response.body = some body ∧ Json.read? body = some j ∧
        j.member? "request_id" = some (.string "936da01f-9abd-4d9d-80c7-02af85c822a8") := by
  intro s b given fresh r handled
  let u : Http.Uuid :=
    ⟨"936da01f9abd4d9d80c702af85c822a8".toList, by decide, by decide +kernel⟩
  obtain ⟨id, v, hv, hresponse, hid, -, hreceived, hbody⟩ :=
    serve_one_request_id s .unreachable fresh b r
  have htext : r.headers.firstText? .requestId =
      some "URN:UUID:936DA01F-9ABD-4D9D-80C7-02AF85C822A8" := by
    decide +kernel
  have hspelling : Text.foldCase "URN:UUID:936DA01F-9ABD-4D9D-80C7-02AF85C822A8" ∈
      u.spellings := by
    decide +kernel
  cases hid _ u htext hspelling
  have hu : u.text = "936da01f-9abd-4d9d-80c7-02af85c822a8" := by
    decide +kernel
  obtain ⟨e, he⟩ := b.forward_unreachable handled.passed
  have hresolve : Outbound.Backend.resolve b.url handled.passed.uri =
      .ok (.absolute "http".toList "backend".toList ⟨"/orders".toList, none⟩) := by
    have huri : handled.passed.uri = r.uri := by
      rw [(serve_eq s .unreachable fresh b r).1]
      rfl
    rw [huri]
    decide +kernel
  have hreceives : b.Receives handled.passed _ := ⟨⟨_, hresolve, rfl⟩, rfl⟩
  rw [hu] at hv hbody
  exact ⟨v, hv, hresponse, ⟨_, hreceives, hreceived _ hreceives⟩, hbody e (by decide) he⟩

/-- The response to `HEAD` says the identifier in its headers alone. -/
theorem not_always_in_error_body :
    ¬∀ (s : Sidecar) (t : Outbound.Transport) (fresh : Http.Uuid) (b : Outbound.Backend)
      (r : Http.Request) (e : Outbound.ForwardError), r.uri.path ≠ healthPath →
        b.forward t (s.serve t fresh b r).passed = .error e →
        ∃ id body j, (s.serve t fresh b r).response.headers.firstText? .requestId = some id ∧
          (s.serve t fresh b r).response.body = some body ∧ Json.read? body = some j ∧
          j.member? "request_id" = some (.string id) := by
  intro h
  let s := start (Plugin.Config.load none) [] 0 []
  let b : Outbound.Backend := { url := ⟨"http://backend", by decide⟩ }
  let fresh : Http.Uuid := ⟨List.replicate 32 '0', by decide, by decide⟩
  let r : Http.Request := ⟨.head, .origin ⟨"/orders".toList, none⟩, .empty, []⟩
  obtain ⟨e, he⟩ := b.forward_unreachable (s.serve .unreachable fresh b r).passed
  have hpath : r.uri.path ≠ healthPath := by
    decide +kernel
  obtain ⟨v, hv⟩ := RequestId.exists_value (RequestId.choose fresh r.headers)
  obtain ⟨id, body, j, -, hbody, hread, -⟩ := h s .unreachable fresh b r e hpath he
  rw [body_of_forward_error hv hpath he, if_pos rfl] at hbody
  cases hbody
  cases hread

end Sidecar
end EgressAuth
