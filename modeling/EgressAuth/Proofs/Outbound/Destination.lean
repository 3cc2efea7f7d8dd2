/-
  EgressAuth.Proofs.Outbound.Destination

  Where forwarded requests go. The target of a forwarded request is read from
  the base URL of the service with the path and query of the request put
  behind it. A path that starts with a slash and a query end the authority of
  the base URL, so the request goes to the host that the URL names. There are
  two exceptions: the target `*` becomes part of an authority that the base
  URL ends in, and a URL that names no host leaves it to the request.
-/
import EgressAuth.Outbound.Forward
import EgressAuth.Proofs.Http.Uri

namespace EgressAuth.Outbound

open Http

namespace TargetUrl

/-- A target has the scheme and the authority of the base URL. -/
def KeepsDestination (b : TargetUrl) (u : Uri) : Prop :=
  ∃ v, Uri.read b.base = .ok v ∧ u.scheme? = v.scheme? ∧ u.authority? = v.authority?

/-- The URL is nothing but a scheme and slashes. -/
def Hostless (b : TargetUrl) : Prop := b.base = "http:" ∨ b.base = "https:"

/-- Nothing comes behind the authority of the URL, no path, no query and no fragment. -/
def Bare (b : TargetUrl) : Prop :=
  ∃ scheme name, IsWeb scheme ∧ b.base.toList = scheme ++ ':' :: '/' :: '/' :: name ∧
    ∀ c ∈ name, Authority.endsAuthority c = false

/-- A base URL is a scheme and a colon, or goes on with two slashes. -/
theorem exists_scheme (b : TargetUrl) :
    ∃ scheme, IsWeb scheme ∧
      (b.base.toList = scheme ++ [':'] ∨
        ∃ rest, b.base.toList = scheme ++ ':' :: '/' :: '/' :: rest) := by
  obtain ⟨scheme, hweb, rest, hrest⟩ :
      ∃ scheme, IsWeb scheme ∧ ∃ rest, b.text.toList = scheme ++ ':' :: '/' :: '/' :: rest := by
    have hvalid := b.valid
    rw [startsLikeUrl, Bool.or_eq_true, List.isPrefixOf_iff_prefix, List.isPrefixOf_iff_prefix]
      at hvalid
    rcases hvalid with ⟨rest, hrest⟩ | ⟨rest, hrest⟩
    · exact ⟨"http".toList, Or.inl rfl, rest, hrest.symm⟩
    · exact ⟨"https".toList, Or.inr rfl, rest, hrest.symm⟩
  refine ⟨scheme, hweb, ?_⟩
  -- Slashes are taken off the end until something else comes, at the latest the colon.
  have hreverse : b.text.toList.reverse = rest.reverse ++ '/' :: '/' :: ':' :: scheme.reverse := by
    rw [hrest]
    simp
  have hbase : b.base.toList = (b.text.toList.reverse.dropWhile (· == '/')).reverse :=
    String.toList_ofList
  rw [hbase, hreverse, List.dropWhile_append]
  split
  · left
    simp
  · right
    exact ⟨(rest.reverse.dropWhile (· == '/')).reverse, by simp⟩

variable {b : TargetUrl} {scheme rest : List Char} {path : String} {u : Uri}

theorem toList_base_append (hbase : b.base.toList = scheme ++ ':' :: '/' :: '/' :: rest)
    (path : String) :
    (b.base ++ path).toList = scheme ++ ':' :: '/' :: '/' :: (rest ++ path.toList) := by
  rw [String.toList_append, hbase]
  simp

/-- A target keeps the destination if the text behind the base URL leaves the authority as it
is. -/
theorem keepsDestination_of_split (hweb : IsWeb scheme)
    (hbase : b.base.toList = scheme ++ ':' :: '/' :: '/' :: rest)
    (hsplit : Authority.split (rest ++ path.toList) =
      ((Authority.split rest).1, (Authority.split rest).2 ++ path.toList))
    (hu : b.resolve path = .ok u) : b.KeepsDestination u := by
  obtain ⟨hsize, hcheck, hname, t, ht, rfl⟩ :=
    (Uri.read_web_iff hweb (toList_base_append hbase path)).1 hu
  rw [hsplit] at hcheck hname ht
  -- The base URL reads as well: the same authority, and the head of the same path and query.
  obtain ⟨t', ht'⟩ := PathAndQuery.read_of_append ht
  rw [String.utf8ByteSize_append] at hsize
  refine ⟨.absolute scheme (Authority.split rest).1 t',
    (Uri.read_web_iff hweb hbase).2 ⟨by omega, hcheck, hname, t', ht', rfl⟩, rfl, ?_⟩
  rw [hsplit]
  rfl

/-- A star behind a bare base URL becomes part of the authority. -/
theorem not_keepsDestination_of_star (hweb : IsWeb scheme)
    (hbase : b.base.toList = scheme ++ ':' :: '/' :: '/' :: rest)
    (hopen : (Authority.split rest).2 = []) (hu : b.resolve "*" = .ok u) :
    ¬b.KeepsDestination u := by
  rintro ⟨v, hv, -, hauthority⟩
  obtain ⟨-, -, -, t, -, rfl⟩ := (Uri.read_web_iff hweb (toList_base_append hbase "*")).1 hu
  obtain ⟨-, -, -, t', -, rfl⟩ := (Uri.read_web_iff hweb hbase).1 hv
  rw [Authority.split_append_of_open hopen, Authority.split_of_open hopen] at hauthority
  have hlist : rest ++ ['*'] = rest := String.ofList_injective (Option.some.inj hauthority)
  simp at hlist

/-- A URL that goes on behind its scheme is not hostless. -/
theorem not_hostless (hbase : b.base.toList = scheme ++ ':' :: '/' :: '/' :: rest) :
    ¬b.Hostless := by
  have hslash : '/' ∈ b.base.toList := by
    rw [hbase]
    simp
  rintro (h | h)
  · rw [h] at hslash
    revert hslash
    decide
  · rw [h] at hslash
    revert hslash
    decide

theorem hostless_of_toList_base (hweb : IsWeb scheme) (hbase : b.base.toList = scheme ++ [':']) :
    b.Hostless := by
  rcases hweb with rfl | rfl
  · exact Or.inl (String.toList_injective hbase)
  · exact Or.inr (String.toList_injective hbase)

/-- A URL that names no host reads as an authority alone. -/
theorem read_base_of_hostless (hhost : b.Hostless) :
    Uri.read b.base = .ok (.authority b.base.toList) := by
  rcases hhost with h | h
  · rw [h]
    rfl
  · rw [h]
    rfl

/-- Whatever is forwarded below a URL that names no host goes elsewhere. -/
theorem not_keepsDestination_of_hostless (hhost : b.Hostless) (hpath : path ≠ "")
    (hu : b.resolve path = .ok u) : ¬b.KeepsDestination u := by
  rintro ⟨v, hv, hscheme, hauthority⟩
  rw [read_base_of_hostless hhost] at hv
  cases hv
  cases u with
  | origin t => cases hauthority
  | absolute s a t => cases hscheme
  | authority a =>
      have ha : a = b.base.toList := String.ofList_injective (Option.some.inj hauthority)
      have htext := Uri.toList_of_read_authority hu
      rw [ha, String.toList_append] at htext
      apply hpath
      exact String.toList_injective (List.append_right_eq_self.1 htext)

theorem bare_iff (hweb : IsWeb scheme)
    (hbase : b.base.toList = scheme ++ ':' :: '/' :: '/' :: rest) :
    b.Bare ↔ (Authority.split rest).2 = [] := by
  have hopen : ∀ name : List Char,
      (Authority.split name).2 = [] ↔ ∀ c ∈ name, Authority.endsAuthority c = false := by
    intro name
    rw [Authority.split, List.dropWhile_eq_nil_iff]
    simp
  constructor
  · rintro ⟨scheme', name, hweb', hbase', hname⟩
    -- A text has only one scheme.
    have hrest : rest = name := by
      rw [hbase] at hbase'
      rcases hweb with rfl | rfl
      · rcases hweb' with rfl | rfl
        · simpa using hbase'
        · simp at hbase'
      · rcases hweb' with rfl | rfl
        · simp at hbase'
        · simpa using hbase'
    rw [hrest]
    exact (hopen name).2 hname
  · intro h
    exact ⟨scheme, rest, hweb, hbase, (hopen rest).1 h⟩

/-- Below a URL that names a host everything goes there, but for a star below a bare URL. -/
theorem keepsDestination_iff
    (hpath : path = "*" ∨
      path ≠ "*" ∧ ∃ c tail, path.toList = c :: tail ∧ Authority.endsAuthority c = true)
    (hu : b.resolve path = .ok u) :
    b.KeepsDestination u ↔ ¬b.Hostless ∧ (path = "*" → ¬b.Bare) := by
  obtain ⟨scheme, hweb, hbase | ⟨rest, hbase⟩⟩ := b.exists_scheme
  · have hhost := hostless_of_toList_base hweb hbase
    have hne : path ≠ "" := by
      rintro rfl
      rcases hpath with h | ⟨-, c, tail, h, -⟩
      · simp at h
      · simp at h
    exact iff_of_false (not_keepsDestination_of_hostless hhost hne hu) fun h => h.1 hhost
  · rw [bare_iff hweb hbase, and_iff_right (not_hostless hbase)]
    rcases hpath with rfl | ⟨hstar, c, tail, htext, hends⟩
    · by_cases hopen : (Authority.split rest).2 = []
      · exact iff_of_false (not_keepsDestination_of_star hweb hbase hopen hu)
          fun h => h rfl hopen
      · exact iff_of_true
          (keepsDestination_of_split hweb hbase (Authority.split_append hopen) hu) fun _ => hopen
    · refine iff_of_true (keepsDestination_of_split hweb hbase ?_ hu) fun h => absurd h hstar
      rw [htext]
      exact Authority.split_append_of_ends hends

end TargetUrl

/-! ## Main statement -/

namespace Backend

/-- The target is resolved if the text of the base URL with path and query behind it can be read. -/
theorem resolve_eq_ok_iff {base : TargetUrl} {uri u : Uri} :
    resolve base uri = .ok u ↔ base.resolve (uri.pathAndQuery?.getD "/") = .ok u := by
  simp only [resolve, Except.mapError]
  cases base.resolve (uri.pathAndQuery?.getD "/") with
  | error e => simp
  | ok v => simp

/-- What is done with a request depends on what the network does at its resolved target alone. -/
theorem forward_congr {b : Backend} {r : Request} {t t' : Transport}
    (h : ∀ u, resolve b.url r.uri = .ok u → t { r with uri := u } b.timeout =
      t' { r with uri := u } b.timeout) :
    b.forward t r = b.forward t' r := by
  unfold forward
  cases hu : resolve b.url r.uri with
  | error e => rfl
  | ok u => simp only [Transport.exchange, h u hu]

/-- A request is forwarded to the scheme and the authority of the service's base URL if and only
if that URL names a host and the request does not ask for `*` below a bare URL. Under this condition
the network is asked for nothing at any other destination. -/
theorem forward_destination (b : Backend) {s : String} {uri : Uri} (hread : Uri.read s = .ok uri) :
    (∀ u, resolve b.url uri = .ok u →
      (b.url.KeepsDestination u ↔ ¬b.url.Hostless ∧ (s = "*" → ¬b.url.Bare))) ∧
    (¬b.url.Hostless → (s = "*" → ¬b.url.Bare) →
      ∀ (r : Request) (t t' : Transport), r.uri = uri →
        (∀ sent timeout, b.url.KeepsDestination sent.uri → t sent timeout = t' sent timeout) →
        b.forward t r = b.forward t' r) := by
  have hkeeps : ∀ u, resolve b.url uri = .ok u →
      (b.url.KeepsDestination u ↔ ¬b.url.Hostless ∧ (s = "*" → ¬b.url.Bare)) := by
    intro u hu
    have hresolve := resolve_eq_ok_iff.1 hu
    rcases Uri.pathAndQuery_of_read hread with ⟨hs, hpath⟩ | ⟨hs, c, tail, htext, hc⟩
    · rw [TargetUrl.keepsDestination_iff (Or.inl hpath) hresolve, hs, hpath]
    · have hstar : uri.pathAndQuery?.getD "/" ≠ "*" := by
        intro h
        rw [h] at htext
        cases htext
        revert hc
        decide
      have hends : Authority.endsAuthority c = true := by
        rcases hc with rfl | rfl <;> rfl
      rw [TargetUrl.keepsDestination_iff (Or.inr ⟨hstar, c, tail, htext, hends⟩) hresolve]
      simp [hstar, hs]
  refine ⟨hkeeps, fun hhost hstar r t t' hr hsame => forward_congr fun u hu => ?_⟩
  rw [hr] at hu
  exact hsame _ _ ((hkeeps u hu).2 ⟨hhost, hstar⟩)

/-- A path that starts like the mark of an authority stays a path. -/
theorem forward_destination_of_double_slash :
    let b : Backend := { url := ⟨"http://backend:8080/", by decide⟩ }
    let uri : Uri := .origin ⟨"//other.org/orders".toList, none⟩
    Uri.read "//other.org/orders" = .ok uri ∧
      ∃ u, resolve b.url uri = .ok u ∧ b.url.KeepsDestination u := by
  intro b uri
  have hread : Uri.read "//other.org/orders" = .ok uri := by
    decide +kernel
  have hu : resolve b.url uri = .ok (.absolute "http".toList "backend:8080".toList
      ⟨"//other.org/orders".toList, none⟩) := by
    decide +kernel
  have hhost : ¬b.url.Hostless := by
    unfold TargetUrl.Hostless
    decide +kernel
  obtain ⟨hkeeps, -⟩ := forward_destination b hread
  exact ⟨hread, _, hu, (hkeeps _ hu).2 ⟨hhost, fun h => by simp at h⟩⟩

/-- The target `*` changes the authority below a bare base URL. -/
theorem not_always_keepsDestination :
    ¬∀ (b : TargetUrl) (s : String) (uri u : Uri),
      Uri.read s = .ok uri → resolve b uri = .ok u → b.KeepsDestination u := by
  intro h
  let b : TargetUrl := ⟨"http://backend:8080/", by decide⟩
  let uri : Uri := .origin ⟨['*'], none⟩
  let u : Uri := .absolute "http".toList "backend:8080*".toList ⟨[], none⟩
  have hread : Uri.read "*" = .ok uri := by
    decide +kernel
  have hu : resolve b uri = .ok u := by
    decide +kernel
  have hstar : b.resolve "*" = .ok u := by
    decide +kernel
  have hbase : b.base.toList = "http".toList ++ ':' :: '/' :: '/' :: "backend:8080".toList := by
    decide +kernel
  have hopen : (Authority.split "backend:8080".toList).2 = [] := by
    decide +kernel
  exact TargetUrl.not_keepsDestination_of_star (Or.inl rfl) hbase hopen hstar
    (h b "*" uri u hread hu)

end Backend
end EgressAuth.Outbound
