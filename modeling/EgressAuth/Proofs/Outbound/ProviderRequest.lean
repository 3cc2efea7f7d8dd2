/-
  EgressAuth.Proofs.Outbound.ProviderRequest

  The request that a provider call becomes. A call is a list of texts in which
  method and path have been replaced (`providerHeaders_headerTexts`); made into
  a request, its pseudo-headers give method and path, and of the other headers
  those are appended that a call takes over (`takeAll_texts`). So the headers
  of the request are a selection of the inbound ones.
-/
import EgressAuth.Outbound.Cluster
import EgressAuth.Proofs.Http.Selection
import EgressAuth.Proofs.Interception.Outcomes
import EgressAuth.Proofs.Outbound.Destination

namespace EgressAuth

open Http

/-! ## The header list of a call -/

theorem Http.ne_of_not_pseudo {name other : String} (h : isPseudoName name = false)
    (hother : isPseudoName other = true) : name ≠ other := by
  rintro rfl
  rw [h] at hother
  cases hother

namespace RequestContext

/-- Only pseudo-headers are replaced. -/
theorem retarget_of_not_pseudo (c : RequestContext) {h : String × String}
    (hname : isPseudoName h.1 = false) : c.retarget h = h := by
  rw [retarget, if_neg (ne_of_not_pseudo hname rfl), if_neg (ne_of_not_pseudo hname rfl)]

/-- The list of a call made for an HTTP request: authority and scheme are still those of the
request, and its other headers are untouched. -/
theorem providerHeaders_headerTexts (c : RequestContext) (r : Request) :
    c.providerHeaders r.headerTexts =
      (r.authority?.map fun a => (authorityName, a)).toList ++
        [(pathName, c.providerPath), (methodName, "GET"), (schemeName, r.scheme)] ++
        r.headers.texts := by
  have htexts : r.headers.texts.map c.retarget = r.headers.texts := by
    refine (List.map_congr_left fun h hh => ?_).trans (List.map_id' _)
    obtain ⟨⟨n, v⟩, -, htext⟩ := List.mem_filterMap.1 hh
    obtain ⟨s, -, rfl⟩ := Option.map_eq_some_iff.1 htext
    exact retarget_of_not_pseudo c n.isPseudoName_text
  have hmethod : r.headerTexts.any (·.1 == methodName) = true := by
    simp [Request.headerTexts, Request.pseudoHeaders]
  have hpath : r.headerTexts.any (·.1 == pathName) = true := by
    simp [Request.headerTexts, Request.pseudoHeaders]
  simp only [providerHeaders, hmethod, hpath, if_true, List.append_nil]
  rw [Request.headerTexts, Request.pseudoHeaders, List.map_append, htexts]
  cases r.authority? with
  | none => rfl
  | some a => rfl

end RequestContext

namespace Outbound

/-! ## What a call takes over -/

/-- The names of headers that belong to one message and its recipient. -/
def messageNames : List String := ["content-length", "transfer-encoding", "host"]

/-- Whether a call takes over a header of the request that it is made for: its value is printable
ASCII and tabs, and its name is in no case one of `messageNames`. -/
def takesOver (h : HeaderName × HeaderValue) : Bool :=
  h.2.bytes.all Text.isVisible && !messageNames.any (Text.sameLetters h.1.text)

theorem mem_notForwarded_iff (n : HeaderName) :
    n ∈ notForwarded ↔ messageNames.any (Text.sameLetters n.text) = true := by
  have hnames : messageNames = notForwarded.map HeaderName.text := rfl
  rw [hnames, List.any_map, List.any_eq_true]
  constructor
  · intro hn
    exact ⟨n, hn, (HeaderName.sameLetters_text_iff n n).2 rfl⟩
  · rintro ⟨m, hm, hsame⟩
    rwa [(HeaderName.sameLetters_text_iff n m).1 hsame]

namespace Draft

theorem take_of_not_pseudo (d : Draft) {name : String} (value : String)
    (h : isPseudoName name = false) :
    d.take name value = match HeaderName.ofText? name, HeaderValue.ofText? value with
      | some n, some v =>
        if n ∈ notForwarded then .ok d else .ok { d with headers := d.headers.append n v }
      | _, _ => .ok d := by
  rw [take, if_neg (ne_of_not_pseudo h rfl), if_neg (ne_of_not_pseudo h rfl), h]
  rfl

/-- The text of a header is taken for the header, unless calls do not take that over. -/
theorem take_text (d : Draft) (n : HeaderName) {v : HeaderValue} {s : String}
    (hs : v.text? = some s) :
    d.take n.text s =
      .ok { d with headers := d.headers.appendAll ([(n, v)].filter takesOver) } := by
  have hvisible : v.bytes.all Text.isVisible = true := by
    rw [← HeaderValue.isSome_text?, hs]
    rfl
  rw [take_of_not_pseudo d s n.isPseudoName_text, HeaderName.ofText?_text,
    HeaderValue.ofText?_of_text? hs]
  -- What is left to decide is the name.
  have htakes : takesOver (n, v) = !decide (n ∈ notForwarded) := by
    simp only [takesOver, hvisible, Bool.true_and, mem_notForwarded_iff, Bool.decide_eq_true]
  by_cases hn : n ∈ notForwarded
  · simp [htakes, hn, HeaderMap.appendAll]
  · simp [htakes, hn, HeaderMap.appendAll]

/-- Of the headers of a map those are appended that calls take over. -/
theorem takeAll_texts (d : Draft) (m : HeaderMap) :
    d.takeAll m.texts =
      .ok { d with headers := d.headers.appendAll (m.toList.filter takesOver) } := by
  unfold HeaderMap.texts
  induction m.toList generalizing d with
  | nil => rfl
  | cons h hs ih =>
      obtain ⟨n, v⟩ := h
      cases hv : v.text? with
      | none =>
          -- Such a header is not even in the list of the call.
          have hno : takesOver (n, v) = false := by
            rw [takesOver, ← HeaderValue.isSome_text?, hv]
            rfl
          simp only [List.filterMap_cons, hv, Option.map_none, ih]
          rw [List.filter_cons_of_neg (by simp [hno])]
      | some s =>
          simp only [List.filterMap_cons, hv, Option.map_some, takeAll, take_text d n hv, ih]
          rw [← HeaderMap.appendAll_append, ← List.filter_append]
          rfl

theorem takeAll_append {d e : Draft} {first : List (String × String)}
    (h : d.takeAll first = .ok e) (second : List (String × String)) :
    d.takeAll (first ++ second) = e.takeAll second := by
  induction first generalizing d with
  | nil =>
      cases h
      rfl
  | cons x first ih =>
      obtain ⟨name, value⟩ := x
      simp only [List.cons_append, takeAll] at h ⊢
      cases ht : d.take name value with
      | error err =>
          rw [ht] at h
          cases h
      | ok d' =>
          rw [ht] at h
          exact ih h

/-- The draft of a call made for an HTTP request. -/
theorem takeAll_providerHeaders (c : RequestContext) (r : Request) :
    start.takeAll (c.providerHeaders r.headerTexts) =
      .ok ⟨.get, c.providerPath, r.headers.select takesOver⟩ := by
  have hpseudo : start.takeAll ((r.authority?.map fun a => (authorityName, a)).toList ++
      [(pathName, c.providerPath), (methodName, "GET"), (schemeName, r.scheme)]) =
      .ok ⟨.get, c.providerPath, .empty⟩ := by
    have hget : Method.ofText? "GET" = some .get := by
      decide +kernel
    cases r.authority? with
    | none => simp [takeAll, take, start, hget, pathName, methodName, schemeName, isPseudoName]
    | some a =>
        simp [takeAll, take, start, hget, pathName, methodName, schemeName, authorityName,
          isPseudoName]
  rw [c.providerHeaders_headerTexts, takeAll_append hpseudo, takeAll_texts,
    HeaderMap.appendAll_filter]

end Draft

/-! ## Main statement -/

/-- The path of a call starts with a slash. -/
theorem toList_providerPath (c : RequestContext) :
    ∃ tail, c.providerPath.toList = '/' :: tail := by
  unfold RequestContext.providerPath
  simp only [String.append_assoc]
  rw [String.toList_append]
  exact ⟨_, rfl⟩

namespace ClusterTable

/-- A call is accepted if there is a request for it. -/
theorem accept_eq_ok_iff {t : ClusterTable} {call : ProviderCall} :
    t.dispatcher.accept call = .ok () ↔ ∃ sent, t.request call = .ok sent := by
  simp only [dispatcher]
  cases t.request call with
  | error e => simp [Except.map]
  | ok sent => simp [Except.map]

/-- The request of a call made for an HTTP request: it asks at the path of the call below the URL
of the cluster, and takes over the headers of the inbound request but for those of its message. -/
theorem request_providerCall {t : ClusterTable} {c : Plugin.Config} {r : Request}
    {context : RequestContext} {sent : Request}
    (h : t.request (c.providerCall (.http r) context) = .ok sent) :
    ∃ base, t.lookup c.settings.providerName = some base ∧
      base.resolve context.providerPath = .ok sent.uri ∧
      sent = ⟨.get, sent.uri, r.headers.select takesOver, []⟩ := by
  have hname : (c.providerCall (.http r) context).cluster = c.settings.providerName := rfl
  have hheaders : (c.providerCall (.http r) context).headers =
      context.providerHeaders r.headerTexts := rfl
  rw [request, hname] at h
  cases hbase : t.lookup c.settings.providerName with
  | none =>
      rw [hbase] at h
      cases h
  | some base =>
      refine ⟨base, rfl, ?_⟩
      simp only [hbase, buildRequest, hheaders, Draft.takeAll_providerHeaders] at h
      cases huri : base.resolve context.providerPath with
      | error e =>
          rw [huri] at h
          cases h
      | ok uri =>
          rw [huri] at h
          cases h
          exact ⟨rfl, rfl⟩

/-- An accepted call made for an HTTP request is a `GET` without body whose headers are those of
the request that a call takes over, each as often as it was there and in the order that it had. It
goes to the scheme and the authority of the cluster's base URL if and only if that URL names a
host; nothing else is asked for when the call is made. -/
theorem providerCall_sent (t : ClusterTable) (c : Plugin.Config) (r : Request)
    (context : RequestContext)
    (h : t.dispatcher.accept (c.providerCall (.http r) context) = .ok ()) :
    ∃ base sent, t.lookup c.settings.providerName = some base ∧
      t.request (c.providerCall (.http r) context) = .ok sent ∧
      sent.method = .get ∧ sent.body = [] ∧
      sent.headers = r.headers.select takesOver ∧
      sent.headers.toList = r.headers.toList.filter takesOver ∧
      base.resolve context.providerPath = .ok sent.uri ∧
      (base.KeepsDestination sent.uri ↔ ¬base.Hostless) ∧
      ∀ transport, t.call transport (c.providerCall (.http r) context) =
        performCall transport sent c.settings.timeout := by
  obtain ⟨sent, hsent⟩ := accept_eq_ok_iff.1 h
  obtain ⟨base, hbase, huri, hrequest⟩ := request_providerCall hsent
  have hheaders : sent.headers = r.headers.select takesOver := by
    rw [hrequest]
  have hkeeps : base.KeepsDestination sent.uri ↔ ¬base.Hostless := by
    -- The slash at the head of the path ends the authority of the base URL.
    obtain ⟨tail, htail⟩ := toList_providerPath context
    have hstar : context.providerPath ≠ "*" := by
      intro hpath
      rw [hpath] at htail
      simp at htail
    rw [TargetUrl.keepsDestination_iff (Or.inr ⟨hstar, '/', tail, htail, rfl⟩) huri]
    simp [hstar]
  refine ⟨base, sent, hbase, hsent, ?_, ?_, hheaders, ?_, huri, hkeeps, fun transport => ?_⟩
  · rw [hrequest]
  · rw [hrequest]
  · rw [hheaders, HeaderMap.toList_select]
  · rw [call, hsent]
    rfl

/-- Of the headers of an inbound request the host, a length and a value that is not ASCII stay
behind, and both values of another name go along. -/
theorem providerCall_sent_of_mixed_headers :
    let accept : HeaderName := ⟨"accept", by decide⟩
    let note : HeaderName := ⟨"x-note", by decide⟩
    let first : HeaderValue := ⟨Text.encode "text/html", by decide⟩
    let second : HeaderValue := ⟨Text.encode "text/plain", by decide⟩
    let other : HeaderValue := ⟨Text.encode "é", by decide⟩
    let host : HeaderValue := ⟨Text.encode "domain.org", by decide⟩
    let size : HeaderValue := ⟨Text.encode "0", by decide⟩
    let r : Request := ⟨.head, .origin ⟨"/orders".toList, none⟩, HeaderMap.ofList [(.host, host),
      (accept, first), (note, other), (.contentLength, size), (accept, second)], [1, 2]⟩
    let base : TargetUrl := ⟨"http://provider:8080/", by decide⟩
    let t : ClusterTable := [("ext-authz", base)]
    let context : RequestContext :=
      ⟨"domain.org", "/orders", Endpoint.Entry.catchAll "ISHARE" "domain.org" "/orders", none⟩
    let call := Plugin.Config.default.providerCall (.http r) context
    t.dispatcher.accept call = .ok () ∧
      ∃ sent, t.request call = .ok sent ∧ sent.method = .get ∧ sent.body = [] ∧
        sent.headers.toList = [(accept, first), (accept, second)] ∧
        base.KeepsDestination sent.uri := by
  intro accept note first second other host size r base t context call
  have haccepts : t.dispatcher.accept call = .ok () := by
    decide +kernel
  obtain ⟨url, sent, hurl, hsent, hmethod, hbody, -, hlist, -, hkeeps, -⟩ :=
    providerCall_sent t Plugin.Config.default r context haccepts
  have hlookup : t.lookup Plugin.Config.default.settings.providerName = some base := by
    decide +kernel
  rw [hlookup] at hurl
  cases hurl
  have hhost : ¬base.Hostless := by
    unfold TargetUrl.Hostless
    decide +kernel
  have hselected : r.headers.toList.filter takesOver = [(accept, first), (accept, second)] := by
    decide +kernel
  exact ⟨haccepts, sent, hsent, hmethod, hbody, hlist.trans hselected, hkeeps.2 hhost⟩

/-- Below a URL that names no host the authentication type may name one: the call goes to
`https://other.org`. -/
theorem not_always_at_cluster :
    ¬∀ (t : ClusterTable) (c : Plugin.Config) (h : Host) (r : Request) (concern : Concern)
      (base : TargetUrl) (sent : Request),
      c.concern? (.http r) = some concern → t.lookup c.settings.providerName = some base →
      t.request (c.providerCall (.http r) (concern.context h)) = .ok sent →
      base.KeepsDestination sent.uri := by
  intro hall
  let base : TargetUrl := ⟨"https://", by decide⟩
  let t : ClusterTable := [("ext-authz", base)]
  let c : Plugin.Config :=
    ⟨{ Plugin.Settings.default with defaultAuthType := "/other.org" }, .empty⟩
  let h : Host := { store := .empty, clock := 0, dispatcher := t.dispatcher }
  let r : Request := ⟨.get, .absolute "http".toList "domain.org".toList ⟨"/orders".toList, none⟩,
    .empty, []⟩
  let concern : Concern :=
    ⟨"domain.org", "/orders", Endpoint.Entry.catchAll "/other.org" "domain.org" "/orders"⟩
  have hconcern : c.concern? (.http r) = some concern := by
    decide +kernel
  have hlookup : t.lookup c.settings.providerName = some base := by
    decide +kernel
  have haccepts : t.dispatcher.accept (c.providerCall (.http r) (concern.context h)) = .ok () := by
    decide +kernel
  obtain ⟨sent, hsent⟩ := accept_eq_ok_iff.1 haccepts
  obtain ⟨base', hbase', huri, -⟩ := request_providerCall hsent
  rw [hlookup] at hbase'
  cases hbase'
  have hhost : base.Hostless := by
    unfold TargetUrl.Hostless
    decide +kernel
  have hpath : (concern.context h).providerPath ≠ "" := by
    decide +kernel
  exact TargetUrl.not_keepsDestination_of_hostless hhost hpath huri
    (hall t c h r concern base sent hconcern hlookup hsent)

end ClusterTable
end Outbound
end EgressAuth
