/-
  EgressAuth.Proofs.Outbound.Placement

  Where the path and query of a request are put. They stand unchanged behind
  the path of the base URL, and the text that this makes can be read as long as
  it is not too long: the two were read apart from one another, and the path of
  the request begins where the base URL ends.
-/
import EgressAuth.Proofs.Http.PathAndQuery
import EgressAuth.Proofs.Outbound.Destination

namespace EgressAuth.Outbound

open Http

namespace TargetUrl

variable {b : TargetUrl} {scheme name : List Char}

/-- Slashes at the end of a URL are not part of its base. -/
theorem base_eq_of_slashes {b other : TargetUrl} {n : Nat}
    (h : other.text = b.text ++ String.ofList (List.replicate n '/')) : other.base = b.base := by
  have hslashes : ∀ c ∈ List.replicate n '/', (c == '/') = true := by
    intro c hc
    rw [List.eq_of_mem_replicate hc]
    rfl
  have hreverse : other.text.toList.reverse = List.replicate n '/' ++ b.text.toList.reverse := by
    rw [h, String.toList_append, String.toList_ofList, List.reverse_append, List.reverse_replicate]
  rw [base, hreverse, List.dropWhile_append_of_pos hslashes, ← base]

/-- How a base URL without query and fragment is read. -/
theorem read_base_split {t : PathAndQuery} (hbase : Uri.read b.base = .ok (.absolute scheme name t))
    (hquery : '?' ∉ b.base.toList) (hfragment : '#' ∉ b.base.toList) :
    IsWeb scheme ∧ t.WellFormed ∧ Authority.check name = .ok () ∧ name ≠ [] ∧
      ∃ rest, b.base.toList = scheme ++ ':' :: '/' :: '/' :: rest ∧
        Authority.split rest = (name, t.path) := by
  obtain ⟨scheme', hweb, hshort | ⟨rest, hrest⟩⟩ := b.exists_scheme
  · rw [read_base_of_hostless (hostless_of_toList_base hweb hshort)] at hbase
    cases hbase
  · obtain ⟨-, hcheck, hname, t', ht', heq⟩ := (Uri.read_web_iff hweb hrest).1 hbase
    cases heq
    have hsub : ∀ c ∈ (Authority.split rest).2, c ∈ b.base.toList := by
      intro c hc
      rw [hrest]
      have hc : c ∈ rest := (List.dropWhile_suffix _).subset hc
      simp [hc]
    have hpath := PathAndQuery.eq_path_of_read ht'
      (fun h => hquery (hsub _ h)) (fun h => hfragment (hsub _ h))
    refine ⟨hweb, (PathAndQuery.read_eq_ok_iff.1 ht').1, hcheck, hname, rest, hrest, ?_⟩
    rw [← hpath]

/-- Below such a URL a path and query are put behind its path. -/
theorem resolve_eq_ok_iff_placed {t t' : PathAndQuery} {s : String} {c : Char} {tail : List Char}
    {u : Uri} (hbase : Uri.read b.base = .ok (.absolute scheme name t))
    (hquery : '?' ∉ b.base.toList) (hfragment : '#' ∉ b.base.toList)
    (ht' : t'.WellFormed) (hs : s.toList = t'.path ++ t'.queryText)
    (hstart : s.toList = c :: tail) (hends : Authority.endsAuthority c = true) :
    b.resolve s = .ok u ↔ (b.base ++ s).utf8ByteSize ≤ Uri.maxLength ∧
      u = .absolute scheme name ⟨t.path ++ t'.path, t'.query⟩ := by
  obtain ⟨hweb, ht, hcheck, hname, rest, hrest, hsplit⟩ := read_base_split hbase hquery hfragment
  -- The authority ends where it did, and the rest is the path of the URL with `s` behind it.
  have hsplit' : Authority.split (rest ++ s.toList) = (name, t.path ++ s.toList) := by
    rw [hstart, Authority.split_append_of_ends hends, hsplit]
  have hread : PathAndQuery.read (t.path ++ s.toList) = .ok ⟨t.path ++ t'.path, t'.query⟩ := by
    rw [hs]
    exact PathAndQuery.read_below ht.path ht'
  rw [resolve, Uri.read_web_iff hweb (toList_base_append hrest s), hsplit', hread]
  simp [hcheck, hname]

/-- The path of such a URL is what stands behind its authority. -/
theorem toList_base_eq {t : PathAndQuery} (hbase : Uri.read b.base = .ok (.absolute scheme name t))
    (hquery : '?' ∉ b.base.toList) (hfragment : '#' ∉ b.base.toList) :
    b.base.toList = scheme ++ "://".toList ++ name ++ t.path := by
  obtain ⟨-, -, -, -, rest, hrest, hsplit⟩ := read_base_split hbase hquery hfragment
  have hjoin : rest = name ++ t.path := by
    rw [← (Prod.mk.inj hsplit).1, ← (Prod.mk.inj hsplit).2]
    exact List.takeWhile_append_dropWhile.symm
  rw [hrest, hjoin]
  simp

end TargetUrl

/-! ## Main statement -/

namespace Backend

/-- Whatever the reason is for which a target cannot be read, the error names the target. -/
theorem resolve_eq_error {base : TargetUrl} {uri : Uri} (h : ∀ u, resolve base uri ≠ .ok u) :
    resolve base uri = .error (.invalidTargetUrl (base.base ++ uri.pathAndQuery?.getD "/")) := by
  cases hread : base.resolve (uri.pathAndQuery?.getD "/") with
  | ok u => exact absurd (resolve_eq_ok_iff.2 hread) (h u)
  | error cause =>
      rw [resolve, hread]
      rfl

/-- The text of a path and query that was put behind a path. -/
theorem pathAndQuery?_placed {scheme name base : List Char} {t : PathAndQuery} {s : String}
    (hs : s.toList = t.path ++ t.queryText) (hne : s.toList ≠ []) :
    (Uri.absolute scheme name ⟨base ++ t.path, t.query⟩).pathAndQuery? =
      some (String.ofList base ++ s) := by
  have hlist : (base ++ t.path) ++ PathAndQuery.queryText ⟨base ++ t.path, t.query⟩ =
      base ++ s.toList := by
    rw [hs]
    simp [PathAndQuery.queryText]
  have htext : PathAndQuery.text ⟨base ++ t.path, t.query⟩ = base ++ s.toList := by
    simp [PathAndQuery.text, hlist, hne]
  rw [Uri.pathAndQuery?, htext, String.ofList_append, String.ofList_toList]

/-- A request is forwarded with its path and query behind the path of the base URL, unless the
target becomes too long; slashes at the end of the base URL make no difference. -/
theorem resolve_keeps_path_and_query {b : TargetUrl} {uri : Uri} {scheme name : List Char}
    {t : PathAndQuery} {s : String} (hbase : Uri.read b.base = .ok (.absolute scheme name t))
    (hquery : '?' ∉ b.base.toList) (hfragment : '#' ∉ b.base.toList) (huri : uri.Accepted)
    (hs : uri.pathAndQuery?.getD "/" = s)
    (hstart : s.toList.head? = some '/' ∨ s.toList.head? = some '?') :
    b.base.toList = scheme ++ "://".toList ++ name ++ t.path ∧
    ((∃ u, resolve b uri = .ok u) ↔ (b.base ++ s).utf8ByteSize ≤ Uri.maxLength) ∧
    (∀ u, resolve b uri = .ok u →
      u.scheme? = some (String.ofList scheme) ∧ u.authority? = some (String.ofList name) ∧
        u.pathAndQuery? = some (String.ofList t.path ++ s)) ∧
    (Uri.maxLength < (b.base ++ s).utf8ByteSize →
      resolve b uri = .error (.invalidTargetUrl (b.base ++ s))) ∧
    ∀ (other : TargetUrl) (n : Nat),
      other.text = b.text ++ String.ofList (List.replicate n '/') →
        resolve other uri = resolve b uri := by
  obtain ⟨t', ht', htext⟩ := Uri.exists_wellFormed_of_accepted huri
  rw [hs] at htext
  obtain ⟨c, tail, hcons, hends⟩ :
      ∃ c tail, s.toList = c :: tail ∧ Authority.endsAuthority c = true := by
    rcases hstart with h | h
    · obtain ⟨tail, htail⟩ := List.head?_eq_some_iff.1 h
      exact ⟨'/', tail, htail, rfl⟩
    · obtain ⟨tail, htail⟩ := List.head?_eq_some_iff.1 h
      exact ⟨'?', tail, htail, rfl⟩
  have hresolve : ∀ u, resolve b uri = .ok u ↔ (b.base ++ s).utf8ByteSize ≤ Uri.maxLength ∧
      u = .absolute scheme name ⟨t.path ++ t'.path, t'.query⟩ := by
    intro u
    rw [resolve_eq_ok_iff, hs]
    exact TargetUrl.resolve_eq_ok_iff_placed hbase hquery hfragment ht' htext hcons hends
  refine ⟨TargetUrl.toList_base_eq hbase hquery hfragment, ?_, ?_, ?_, ?_⟩
  · simp [hresolve]
  · intro u hu
    obtain ⟨-, rfl⟩ := (hresolve u).1 hu
    exact ⟨rfl, rfl, pathAndQuery?_placed htext (by simp [hcons])⟩
  · intro hlong
    rw [← hs]
    exact resolve_eq_error fun u hu => Nat.not_le_of_lt hlong ((hresolve u).1 hu).1
  · intro other n hother
    simp only [resolve, TargetUrl.resolve, TargetUrl.base_eq_of_slashes hother]

/-- Path and query go behind the path of a base URL that has one, without its last slashes. -/
theorem resolve_keeps_path_and_query_of_base_path :
    let b : TargetUrl := ⟨"http://backend:8080/api//", by decide⟩
    let uri : Uri := .origin ⟨"/orders".toList, some "limit=5".toList⟩
    Uri.read "/orders?limit=5" = .ok uri ∧ ∃ u, resolve b uri = .ok u ∧
      u.authority? = some "backend:8080" ∧ u.pathAndQuery? = some "/api/orders?limit=5" := by
  intro b uri
  have hbase : Uri.read b.base =
      .ok (.absolute "http".toList "backend:8080".toList ⟨"/api".toList, none⟩) := by
    decide +kernel
  have hread : Uri.read "/orders?limit=5" = .ok uri := by
    decide +kernel
  have hs : uri.pathAndQuery?.getD "/" = "/orders?limit=5" := by
    decide +kernel
  obtain ⟨-, hok, hplaced, -, -⟩ := resolve_keeps_path_and_query hbase
    (by decide +kernel) (by decide +kernel) (Uri.accepted_of_read hread) hs (by decide +kernel)
  obtain ⟨u, hu⟩ := hok.2 (by decide +kernel)
  obtain ⟨-, hauthority, hpath⟩ := hplaced u hu
  exact ⟨hread, u, hu, hauthority, hpath⟩

end Backend
end EgressAuth.Outbound
