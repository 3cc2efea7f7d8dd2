/-
  EgressAuth.Proofs.Interception.ProviderHeaders

  The header list of a provider call. Its members are the method, the path and
  what the inbound list has under other names (`mem_providerHeaders_iff`), and
  all stand where they stood. As domain and path are written in the path of the
  call without a separator, they can be told from it (`providerPath_injective`),
  and no request can put anything else into the query
  (`providerHeaders_no_injection`).
-/
import EgressAuth.Interception.Provider
import EgressAuth.Proofs.Text.Percent
import EgressAuth.Proofs.Text.Pieces
import Mathlib.Data.List.Forall2

namespace EgressAuth.RequestContext

open Text

/-! ## Paths -/

/-- The path of a call tells the domain and the path that it is made for. -/
theorem providerPath_injective {c c' : RequestContext}
    (htype : c.entry.authType = c'.entry.authType) (h : c.providerPath = c'.providerPath) :
    c.domain = c'.domain ∧ c.path = c'.path := by
  have hquery : (Percent.encode c.domain).toList ++ '&' :: ("path=".toList ++
        (Percent.encode c.path).toList) =
      (Percent.encode c'.domain).toList ++ '&' :: ("path=".toList ++
        (Percent.encode c'.path).toList) := by
    have hlist := congrArg String.toList h
    simpa [providerPath, htype] using hlist
  -- An encoded domain has no separator, so the first one ends it.
  have hcut (c : RequestContext) (after : List Char) :
      cut '&' ((Percent.encode c.domain).toList ++ '&' :: after) =
        ((Percent.encode c.domain).toList, some after) :=
    cut_append (fun hmem =>
      (Percent.encoded_encode c.domain).notMem_separators _ hmem (by decide)) after
  have hparts := congrArg (cut '&') hquery
  rw [hcut, hcut, Prod.mk.injEq, Option.some_inj] at hparts
  obtain ⟨hdomain, hpath⟩ := hparts
  exact ⟨Percent.encode_injective (String.toList_injective hdomain),
    Percent.encode_injective (String.toList_injective (List.append_cancel_left hpath))⟩

/-! ## Lists -/

variable (c : RequestContext) (headers : List (String × String))

theorem retarget_fst (h : String × String) : (c.retarget h).1 = h.1 := by
  unfold retarget
  split
  · rfl
  · split <;> rfl

theorem retarget_of_other {h : String × String} (hmethod : h.1 ≠ Http.methodName)
    (hpath : h.1 ≠ Http.pathName) : c.retarget h = h := by
  rw [retarget, if_neg hmethod, if_neg hpath]

theorem any_name_iff {name : String} :
    headers.any (·.1 == name) = true ↔ name ∈ headers.map Prod.fst := by
  simp

theorem mem_missing_iff {name value : String} {x : String × String} :
    x ∈ (if headers.any (·.1 == name) then [] else [(name, value)]) ↔
      name ∉ headers.map Prod.fst ∧ x = (name, value) := by
  simp only [any_name_iff]
  split
  · rename_i h
    simp [h]
  · rename_i h
    simp [h]

/-- In the list of a call stand the method, the path and the other headers of the inbound list. -/
theorem mem_providerHeaders_iff {x : String × String} :
    x ∈ c.providerHeaders headers ↔ x = (Http.methodName, "GET") ∨
      x = (Http.pathName, c.providerPath) ∨
      x ∈ headers ∧ x.1 ≠ Http.methodName ∧ x.1 ≠ Http.pathName := by
  have hnames : Http.pathName ≠ Http.methodName := by
    decide
  simp only [providerHeaders, List.mem_append, mem_missing_iff]
  constructor
  · rintro ((hkept | ⟨-, rfl⟩) | ⟨-, rfl⟩)
    · obtain ⟨h, hmem, rfl⟩ := List.mem_map.1 hkept
      unfold retarget
      split
      · rename_i hmethod
        exact Or.inl (by rw [hmethod])
      · split
        · rename_i hpath
          exact Or.inr (Or.inl (by rw [hpath]))
        · rename_i hmethod hpath
          exact Or.inr (Or.inr ⟨hmem, hmethod, hpath⟩)
    · exact Or.inl rfl
    · exact Or.inr (Or.inl rfl)
  · -- Method and path stand where there was one, and behind all others where there was none.
    rintro (rfl | rfl | ⟨hmem, hmethod, hpath⟩)
    · by_cases h : Http.methodName ∈ headers.map Prod.fst
      · obtain ⟨y, hy, hname⟩ := List.mem_map.1 h
        have hretarget : c.retarget y = (Http.methodName, "GET") := by
          rw [retarget, if_pos hname, hname]
        exact Or.inl (Or.inl (List.mem_map.2 ⟨y, hy, hretarget⟩))
      · exact Or.inl (Or.inr ⟨h, rfl⟩)
    · by_cases h : Http.pathName ∈ headers.map Prod.fst
      · obtain ⟨y, hy, hname⟩ := List.mem_map.1 h
        have hne : y.1 ≠ Http.methodName := by
          rw [hname]
          exact hnames
        have hretarget : c.retarget y = (Http.pathName, c.providerPath) := by
          rw [retarget, if_neg hne, if_pos hname, hname]
        exact Or.inl (Or.inl (List.mem_map.2 ⟨y, hy, hretarget⟩))
      · exact Or.inr ⟨h, rfl⟩
    · exact Or.inl (Or.inl (List.mem_map.2 ⟨x, hmem, c.retarget_of_other hmethod hpath⟩))

/-- The target of the call is the only path among its headers. -/
theorem mem_providerHeaders (target : String) :
    (Http.pathName, target) ∈ c.providerHeaders headers ↔ target = c.providerPath := by
  have hnames : Http.pathName ≠ Http.methodName := by
    decide
  simp [mem_providerHeaders_iff, hnames]

/-- The method of the call is the only one among its headers. -/
theorem method_mem_providerHeaders (method : String) :
    (Http.methodName, method) ∈ c.providerHeaders headers ↔ method = "GET" := by
  have hnames : Http.methodName ≠ Http.pathName := by
    decide
  simp [mem_providerHeaders_iff, hnames]

/-! ## Main statement -/

/-- The path of a call is made of the authentication type and of texts that stand for domain and
path, hold no separators and decode to their bytes; so of two calls for one type that have a path
in common both domains and both paths are the same. There are a path and a method in the list of a
call, all paths are this one and all methods are `GET`. Every other header is what it was where it
was, and only a missing method and then a missing path are added, at the end. -/
theorem providerHeaders_no_injection :
    (∃ domain path : String,
      Percent.Encoded domain.toList ∧ Percent.decode? domain.toList = some (encode c.domain) ∧
      Percent.Encoded path.toList ∧ Percent.decode? path.toList = some (encode c.path) ∧
      (∀ x ∈ domain.toList ++ path.toList, x ∉ Percent.separators) ∧
      ∀ target, (Http.pathName, target) ∈ c.providerHeaders headers ↔
        target = "/" ++ c.entry.authType ++ "/auth?domain=" ++ domain ++ "&path=" ++ path) ∧
    (∀ (c' : RequestContext) (headers' : List (String × String)) (target : String),
      c.entry.authType = c'.entry.authType →
      (Http.pathName, target) ∈ c.providerHeaders headers →
      (Http.pathName, target) ∈ c'.providerHeaders headers' →
      c.domain = c'.domain ∧ c.path = c'.path) ∧
    (∀ method, (Http.methodName, method) ∈ c.providerHeaders headers ↔ method = "GET") ∧
    ∃ kept, List.Forall₂ (fun h k => k.1 = h.1 ∧
        (h.1 ≠ Http.methodName → h.1 ≠ Http.pathName → k = h)) headers kept ∧
      c.providerHeaders headers = kept ++
        (if Http.methodName ∈ headers.map Prod.fst then [] else [(Http.methodName, "GET")]) ++
        if Http.pathName ∈ headers.map Prod.fst then [] else [(Http.pathName, c.providerPath)] := by
  refine ⟨⟨Percent.encode c.domain, Percent.encode c.path, Percent.encoded_encode _,
    Percent.decode?_encode _, Percent.encoded_encode _, Percent.decode?_encode _, ?_, ?_⟩, ?_,
    c.method_mem_providerHeaders headers, headers.map c.retarget, ?_, ?_⟩
  · intro x hx
    rcases List.mem_append.1 hx with hx | hx
    · exact (Percent.encoded_encode c.domain).notMem_separators x hx
    · exact (Percent.encoded_encode c.path).notMem_separators x hx
  · exact c.mem_providerHeaders headers
  · intro c' headers' target htype htarget htarget'
    rw [mem_providerHeaders] at htarget htarget'
    exact providerPath_injective htype (htarget.symm.trans htarget')
  · rw [List.forall₂_map_right_iff, List.forall₂_same]
    exact fun h _ => ⟨c.retarget_fst h, c.retarget_of_other⟩
  · simp only [providerHeaders, any_name_iff]

/-- A domain that looks like a query of its own stays a domain; two paths are replaced in place and
the missing method is added. -/
theorem providerHeaders_no_injection_of_query_in_domain :
    let c : RequestContext := ⟨"d&path=%2Fx", "/é y", .catchAll "OIC" "" "", none⟩
    let c' : RequestContext := ⟨"d&path=%2Fx", "/é y", .catchAll "OIC" "" "", some 3⟩
    let target := "/OIC/auth?domain=d%26path%3D%252Fx&path=%2F%C3%A9%20y"
    let headers := [(":path", "/a"), ("accept", "*"), (":path", "/b")]
    c.entry.authType = c'.entry.authType ∧
      c.providerHeaders headers =
        [(":path", target), ("accept", "*"), (":path", target), (":method", "GET")] ∧
      (Http.pathName, target) ∈ c.providerHeaders headers ∧
      (Http.pathName, target) ∈ c'.providerHeaders [] ∧
      c.domain = c'.domain ∧ c.path = c'.path := by
  intro c c' target headers
  have hlist : c.providerHeaders headers =
      [(":path", target), ("accept", "*"), (":path", target), (":method", "GET")] := by
    decide +kernel
  have htarget : (Http.pathName, target) ∈ c.providerHeaders headers := by
    rw [hlist]
    exact List.mem_cons_self
  have htarget' : (Http.pathName, target) ∈ c'.providerHeaders [] := by
    decide +kernel
  exact ⟨rfl, hlist, htarget, htarget',
    (c.providerHeaders_no_injection headers).2.1 c' [] target rfl htarget htarget'⟩

end EgressAuth.RequestContext
