/-
  EgressAuth.Proofs.Interception.Domains

  A request is told by its host alone: neither the number behind the host nor
  the case of its letters has a say in what becomes of the request
  (`governed_alike_of_number_and_case`). The host of an authority and what
  stands before the first colon of any other text are found in different ways;
  `hostOf_append_number` covers both, and that a number never leads from one to
  the other.
-/
import EgressAuth.Proofs.Endpoint.Specificity
import EgressAuth.Proofs.Http.Authority
import EgressAuth.Proofs.Interception.Laws

namespace EgressAuth

/-! ## Hosts -/

/-- A number behind the host changes nothing, be the text an authority or not. -/
theorem hostOf_append_number {host number : String} (huser : '@' ∉ host.toList)
    (hcolons : Http.Authority.ColonsBracketed host.toList)
    (hnumber : ∀ d ∈ number.toList, d.isDigit = true) :
    hostOf (host ++ ":" ++ number) = hostOf host := by
  have htext : (host ++ ":" ++ number).toList = host.toList ++ ':' :: number.toList := by
    simp
  unfold hostOf
  simp only [htext, Text.cut_append_fst]
  by_cases hempty : host.toList = []
  · -- No host is there, only a number.
    rw [hempty, List.nil_append]
    have hplain : Http.Authority.host (':' :: number.toList) = [] := by
      have huser' : '@' ∉ ':' :: number.toList := by
        simp only [List.mem_cons, not_or]
        exact ⟨by decide, fun h => absurd (hnumber _ h) (by decide)⟩
      have hafter := Http.Authority.afterUser_of_notMem huser'
      rw [Http.Authority.host_of_plain (by rw [hafter]; simp), hafter, Text.cut, if_pos rfl]
    rw [hplain]
    simp [Http.Authority.isAuthority, Text.cut]
  · rw [Http.Authority.isAuthority_append_number hempty huser hcolons hnumber]
    split
    · rename_i hauthority
      rw [Http.Authority.host_append_number hauthority huser hnumber]
    · rfl

/-- The host of a text in small letters is its host in small letters. -/
theorem hostOf_foldCase (text : String) :
    hostOf (Text.foldCase text) = Text.foldCase (hostOf text) := by
  unfold hostOf
  simp only [Text.toList_foldCase, Http.Authority.isAuthority_toLower, Http.Authority.host_toLower,
    Text.cut_map_fst fun c => Text.toLower_eq_iff (show ':'.isAlpha = false from rfl)]
  split
  · rw [Text.foldCase_ofList]
  · rw [Text.foldCase_ofList]

theorem foldCase_hostOf_congr {a b : String} (h : Text.sameLetters a b = true) :
    Text.foldCase (hostOf a) = Text.foldCase (hostOf b) := by
  rw [← hostOf_foldCase, ← hostOf_foldCase, Text.sameLetters_iff.1 h]

/-! ## Domains -/

theorem nonEmpty?_eq_some_iff {s t : String} : nonEmpty? s = some t ↔ s ≠ "" ∧ s = t := by
  unfold nonEmpty?
  split
  · simp_all
  · simp_all

namespace Plugin.Config

open Endpoint

variable {c : Config} {r r' : InboundRequest} {e : Entry}

/-- Endpoints are looked up without regard to letter case. -/
theorem entryFor?_congr_domain (hmatching : c.settings.matchEndpoints = true) {a b : String}
    (h : Text.foldCase a = Text.foldCase b) (path : String) :
    c.entryFor? a path = c.entryFor? b path := by
  have hempty : a.isEmpty = b.isEmpty := by
    rw [Bool.eq_iff_iff, String.isEmpty_iff, String.isEmpty_iff, ← Text.foldCase_eq_empty_iff, h,
      Text.foldCase_eq_empty_iff]
  have hroutes : c.routes.find? a path = c.routes.find? b path := by
    unfold RouteTable.find? RouteTable.routesFor?
    rw [h]
  unfold entryFor?
  rw [if_pos hmatching, if_pos hmatching, hempty, hroutes]

/-- With endpoint matching on, the entry that governs a request is that of its host and path. -/
theorem governs_iff_entryFor? (hmatching : c.settings.matchEndpoints = true) {authority : String}
    (h : r.header? Http.authorityName = some authority) :
    c.Governs r e ↔ ∃ path, r.path? = some path ∧ c.entryFor? (hostOf authority) path = some e := by
  unfold Governs InboundRequest.domain?
  rw [h, Option.bind_some]
  constructor
  · rintro ⟨domain, path, hdomain, hpath, he⟩
    obtain ⟨-, rfl⟩ := nonEmpty?_eq_some_iff.1 hdomain
    exact ⟨path, hpath, he⟩
  · rintro ⟨path, hpath, he⟩
    -- No endpoint is found for an empty host.
    have hhost := ((entryFor?_eq_some_iff hmatching).1 he).1
    exact ⟨hostOf authority, path, nonEmpty?_eq_some_iff.2 ⟨hhost, rfl⟩, hpath, he⟩

/-- A request that no entry governs is left alone. -/
theorem onRequest_of_not_governed (h : ∀ e, ¬c.Governs r e) (host : Host) :
    c.onRequest host r = (⟨host, r, []⟩, .proceed) := by
  apply onRequest_of_no_concern
  rw [Option.eq_none_iff_forall_ne_some]
  intro concern hconcern
  exact h concern.entry (governs_iff.2 ⟨concern, hconcern, rfl⟩)

/-- A request that an entry governs begins with a look-up of the entry's slot. -/
theorem head?_onRequest_of_governs (h : c.Governs r e) (host : Host) :
    (c.onRequest host r).1.events.head? = some (.read e.cacheId.key) := by
  obtain ⟨concern, hconcern, rfl⟩ := governs_iff.1 h
  rw [onRequest_events, hconcern]
  rfl

/-- With endpoint matching on, two requests for one path have the same outcome if their hosts
differ at most in the case of letters and one of them has a number behind it: both are left alone,
or one entry governs both and both look up its slot. The host has no user part, and its colons, if
any, stand between brackets at its head; it need not be valid in any other way. -/
theorem governed_alike_of_number_and_case (hmatching : c.settings.matchEndpoints = true)
    {host host' number : String} (huser : '@' ∉ host.toList)
    (hcolons : Http.Authority.ColonsBracketed host.toList)
    (hletters : Text.sameLetters host host' = true)
    (hnumber : ∀ d ∈ number.toList, d.isDigit = true)
    (hplain : r.header? Http.authorityName = some host)
    (hnumbered : r'.header? Http.authorityName = some (host' ++ ":" ++ number))
    (hpath : r.header? Http.pathName = r'.header? Http.pathName) :
    (∀ h : Host, c.onRequest h r = (⟨h, r, []⟩, .proceed) ∧
      c.onRequest h r' = (⟨h, r', []⟩, .proceed)) ∨
    ∃ e, c.Governs r e ∧ c.Governs r' e ∧ ∀ h : Host,
      (c.onRequest h r).1.events.head? = some (.read e.cacheId.key) ∧
      (c.onRequest h r').1.events.head? = some (.read e.cacheId.key) := by
  have hhosts : Text.foldCase (hostOf host) = Text.foldCase (hostOf (host' ++ ":" ++ number)) := by
    have hsame : Text.sameLetters (host ++ ":" ++ number) (host' ++ ":" ++ number) = true := by
      simp only [Text.sameLetters_iff, Text.foldCase_append, Text.sameLetters_iff.1 hletters]
    rw [← foldCase_hostOf_congr hsame, hostOf_append_number huser hcolons hnumber]
  have hpaths : r.path? = r'.path? := by
    unfold InboundRequest.path?
    rw [hpath]
  have hgoverns (e : Entry) : c.Governs r e ↔ c.Governs r' e := by
    rw [governs_iff_entryFor? hmatching hplain, governs_iff_entryFor? hmatching hnumbered, hpaths]
    simp only [entryFor?_congr_domain hmatching hhosts]
  by_cases h : ∃ e, c.Governs r e
  · obtain ⟨e, he⟩ := h
    have he' := (hgoverns e).1 he
    exact Or.inr ⟨e, he, he', fun h =>
      ⟨head?_onRequest_of_governs he h, head?_onRequest_of_governs he' h⟩⟩
  · have hno : ∀ e, ¬c.Governs r e := fun e he => h ⟨e, he⟩
    have hno' : ∀ e, ¬c.Governs r' e := fun e he => hno e ((hgoverns e).2 he)
    exact Or.inl fun h => ⟨onRequest_of_not_governed hno h, onRequest_of_not_governed hno' h⟩

/-- An address between brackets, in capitals or with a number behind it. -/
theorem governed_alike_of_number_and_case_of_address :
    let c : Config := ⟨{ Settings.default with matchEndpoints := true },
      .compile [⟨"ISHARE", "[2001:db8::A]", "/orders"⟩]⟩
    let r : InboundRequest := .listed [(":authority", "[2001:DB8::A]"), (":path", "/orders")]
    let r' : InboundRequest := .listed [(":path", "/orders"), (":authority", "[2001:db8::a]:8443")]
    '@' ∉ "[2001:DB8::A]".toList ∧ Http.Authority.ColonsBracketed "[2001:DB8::A]".toList ∧
      Text.sameLetters "[2001:DB8::A]" "[2001:db8::a]" = true ∧
      ∃ e, c.Governs r e ∧ c.Governs r' e := by
  intro c r r'
  have huser : '@' ∉ "[2001:DB8::A]".toList := by
    decide
  have hcolons : Http.Authority.ColonsBracketed "[2001:DB8::A]".toList :=
    Or.inr ⟨"2001:DB8::A".toList, [], by decide, by decide⟩
  have hletters : Text.sameLetters "[2001:DB8::A]" "[2001:db8::a]" = true := by
    decide +kernel
  have hnumber : ∀ d ∈ "8443".toList, d.isDigit = true :=
    List.all_eq_true.1 (by decide)
  have hgoverned : (c.concern? r).isSome = true := by
    decide +kernel
  refine ⟨huser, hcolons, hletters, ?_⟩
  have hplain : r.header? Http.authorityName = some "[2001:DB8::A]" := by
    decide +kernel
  have hnumbered : r'.header? Http.authorityName = some ("[2001:db8::a]" ++ ":" ++ "8443") := by
    decide +kernel
  have hpath : r.header? Http.pathName = r'.header? Http.pathName := by
    decide +kernel
  rcases governed_alike_of_number_and_case (c := c) rfl huser hcolons hletters hnumber hplain
    hnumbered hpath with hleft | ⟨e, he, he', -⟩
  · -- An endpoint is configured for the address, so the request is not left alone.
    obtain ⟨concern, hconcern⟩ := Option.isSome_iff_exists.1 hgoverned
    let host : Host := { store := .empty, clock := 0, dispatcher := Dispatcher.withFault 1 none }
    have hevents := head?_onRequest_of_governs (governs_iff.2 ⟨concern, hconcern, rfl⟩) host
    rw [(hleft host).1] at hevents
    cases hevents
  · exact ⟨e, he, he'⟩

end Plugin.Config
end EgressAuth
