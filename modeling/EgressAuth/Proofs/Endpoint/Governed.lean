/-
  EgressAuth.Proofs.Endpoint.Governed

  Which request paths have an entry at all. With configured paths that have no
  stars these are the paths that a configured one covers
  (`entryFor?_isSome_iff_covers`): the configured path itself and what lies
  below it, where a segment ends at a slash only (`covers_append_iff`). Further
  endpoints may change which entry governs a request, but take away none
  (`RouteTable.find?_ne_none_mono`).
-/
import EgressAuth.Proofs.Endpoint.Resolution

namespace EgressAuth

namespace Endpoint

/-! ## Segments -/

/-- What goes on behind a path is covered by it if it goes on with a slash. -/
theorem covers_append_iff {path rest : String} (hslash : ¬EndsInSlash path) :
    Covers path (path ++ rest) ↔ rest = "" ∨ ∃ below, rest = "/" ++ below := by
  unfold Covers
  rw [if_neg hslash]
  refine or_congr ?_ (exists_congr fun below => ?_)
  · have hself : path ++ rest = path ++ "" ↔ rest = "" := String.append_right_inj path
    rw [String.append_empty] at hself
    exact hself
  · rw [String.append_assoc, String.append_right_inj]

/-- A path with a slash at its end does not cover the path without it. -/
theorem not_covers_without_slash (path : String) : ¬Covers (path ++ "/") path := by
  unfold Covers
  rw [if_pos (endsInSlash_append_slash path)]
  rintro ⟨rest, hrest⟩
  have hsize := congrArg String.utf8ByteSize hrest
  rw [String.utf8ByteSize_append, String.utf8ByteSize_append] at hsize
  have hone : "/".utf8ByteSize = 1 := rfl
  omega

/-! ## Routes -/

namespace RouteTable

variable {rs rs' : List Registration} {domain q : String}

/-- A route is found exactly if a configured path covers the request path. -/
theorem find?_ne_none_iff_covers (hplain : Plain rs) (hq : '\n' ∉ q.toList) (hempty : q ≠ "") :
    (compile rs).find? domain q ≠ none ↔
      ∃ path, path ≠ "" ∧ Configured rs domain path ∧ Covers path q := by
  constructor
  · intro h
    obtain ⟨r, hr⟩ := Option.ne_none_iff_exists'.1 h
    have hwins := wins_of_find? hr
    obtain ⟨g, hg, hdomain, hpath, hentry, -⟩ := exists_registration_of_wins hplain hq hwins
    have hcovers := (hwins.specific hplain hq hempty).covers
    rw [hentry] at hcovers
    exact ⟨g.path, hpath, ⟨g, hg, hdomain, rfl⟩, hcovers⟩
  · rintro ⟨path, hpath, hconfigured, hcovers⟩
    exact find?_ne_none_of_covers hplain hq hpath hconfigured hcovers

/-- A request path for which a route is found has one, too, where more paths are configured. -/
theorem find?_ne_none_mono
    (hmore : ∀ path, Configured rs domain path → Configured rs' domain path)
    (h : (compile rs).find? domain q ≠ none) : (compile rs').find? domain q ≠ none := by
  intro hnone
  apply h
  rw [find?_compile_eq_none_iff_derives] at hnone ⊢
  rintro g hg text ⟨hdomain, hderives⟩
  -- The path derives the same patterns wherever it is configured.
  obtain ⟨k, hk, hkdomain, hpath⟩ := hmore g.path ⟨g, hg, hdomain, rfl⟩
  exact hnone k hk text ⟨hkdomain, hderives.of_path_eq hpath.symm⟩

end RouteTable
end Endpoint

/-! ## Main statement -/

namespace Plugin

open Endpoint

/-- The section lists a path for a domain under some type, letters of the domain compared without
case. -/
def RawEndpoints.Lists (raw : RawEndpoints) (domain path : String) : Prop :=
  ∃ authType domains d paths, raw.get? authType = some domains ∧ domains.get? d = some paths ∧
    Text.foldCase d = Text.foldCase domain ∧ path ∈ paths

theorem RawEndpoints.configured_registrations_iff {raw : RawEndpoints} {domain path : String} :
    Configured raw.registrations domain path ↔ raw.Lists domain path := by
  constructor
  · rintro ⟨g, hg, hdomain, rfl⟩
    obtain ⟨domains, paths, htype, hpaths, hpath⟩ := mem_registrations_iff.1 hg
    exact ⟨g.authType, domains, g.domain, paths, htype, hpaths, hdomain, hpath⟩
  · rintro ⟨authType, domains, d, paths, htype, hpaths, hdomain, hpath⟩
    exact ⟨⟨authType, d, path⟩, mem_registrations_iff.2 ⟨domains, paths, htype, hpaths, hpath⟩,
      hdomain, rfl⟩

namespace Config

theorem exists_entryFor?_iff {c : Config} (hmatching : c.settings.matchEndpoints = true)
    {domain q : String} :
    (∃ e, c.entryFor? domain q = some e) ↔
      domain ≠ "" ∧ q ≠ "" ∧ c.routes.find? domain q ≠ none := by
  rw [← Option.ne_none_iff_exists', Ne, entryFor?_eq_none_iff hmatching]
  simp only [not_or, Ne]

/-- A request has an entry exactly if a path that is listed for its domain covers its path. It
keeps having one when more paths are listed, with or without stars. A path that does not end in a
slash covers itself and what goes on with a slash behind it, and nothing else that goes on behind
it; the same path with a slash at its end does not cover it. -/
theorem entryFor?_isSome_iff_covers (raw : RawEndpoints) {c : Config}
    (hroutes : c.routes = RouteTable.compile raw.registrations)
    (hmatching : c.settings.matchEndpoints = true) (hplain : Plain raw.registrations)
    {domain q : String} (hdomain : domain ≠ "") (hempty : q ≠ "") (hq : '\n' ∉ q.toList) :
    ((∃ e, c.entryFor? domain q = some e) ↔
      ∃ path, path ≠ "" ∧ raw.Lists domain path ∧ Covers path q) ∧
    (∀ (raw' : RawEndpoints) (c' : Config), c'.routes = RouteTable.compile raw'.registrations →
      c'.settings.matchEndpoints = true →
      (∀ path, raw.Lists domain path → raw'.Lists domain path) →
      (∃ e, c.entryFor? domain q = some e) → ∃ e, c'.entryFor? domain q = some e) ∧
    ∀ path, ¬EndsInSlash path →
      (∀ rest, Covers path (path ++ rest) ↔ rest = "" ∨ ∃ below, rest = "/" ++ below) ∧
        ¬Covers (path ++ "/") path := by
  refine ⟨?governed, ?more, fun path hslash => ⟨fun rest => covers_append_iff hslash,
    not_covers_without_slash path⟩⟩
  case governed =>
    rw [exists_entryFor?_iff hmatching, hroutes,
      RouteTable.find?_ne_none_iff_covers hplain hq hempty]
    simp only [RawEndpoints.configured_registrations_iff]
    exact ⟨fun h => h.2.2, fun h => ⟨hdomain, hempty, h⟩⟩
  case more =>
    intro raw' c' hroutes' hmatching' hmore h
    rw [exists_entryFor?_iff hmatching, hroutes] at h
    rw [exists_entryFor?_iff hmatching', hroutes']
    refine ⟨hdomain, hempty, RouteTable.find?_ne_none_mono (fun path => ?_) h.2.2⟩
    rw [RawEndpoints.configured_registrations_iff, RawEndpoints.configured_registrations_iff]
    exact hmore path

/-- Of two requests next to each other one lies below a listed path and the other one only has a
name that begins like it. -/
theorem entryFor?_isSome_iff_covers_of_siblings :
    let raw : RawEndpoints :=
      SortedMap.ofList [("ISHARE", SortedMap.ofList [("Domain.org", ["/a.b"])])]
    let c : Config :=
      ⟨{ Settings.default with matchEndpoints := true }, RouteTable.compile raw.registrations⟩
    c.settings.matchEndpoints = true ∧ Plain raw.registrations ∧
      (∃ e, c.entryFor? "domain.org" "/a.b/c" = some e) ∧
      ¬∃ e, c.entryFor? "domain.org" "/a.bc" = some e := by
  intro raw c
  have hraw : raw.registrations = [⟨"ISHARE", "Domain.org", "/a.b"⟩] := by
    decide
  have hplain : Plain raw.registrations := by
    rw [hraw]
    exact ⟨by decide, by decide +kernel⟩
  have hlists : ∀ path, raw.Lists "domain.org" path ↔ path = "/a.b" := by
    intro path
    rw [← RawEndpoints.configured_registrations_iff, hraw]
    constructor
    · rintro ⟨g, hg, -, rfl⟩
      rw [List.mem_singleton.1 hg]
    · rintro rfl
      exact ⟨_, List.mem_singleton.2 rfl, by decide, rfl⟩
  have hslash : ¬EndsInSlash "/a.b" := by
    decide
  have hdomain : "domain.org" ≠ "" := by
    decide
  have hbelow : "/a.b/c" ≠ "" := by
    decide
  have hbeside : "/a.bc" ≠ "" := by
    decide
  obtain ⟨hcovered, -, hsegments⟩ :=
    entryFor?_isSome_iff_covers raw (c := c) rfl rfl hplain hdomain hbelow (by decide)
  obtain ⟨hmissed, -, -⟩ :=
    entryFor?_isSome_iff_covers raw (c := c) rfl rfl hplain hdomain hbeside (by decide)
  refine ⟨rfl, hplain, hcovered.2 ⟨"/a.b", by decide, (hlists _).2 rfl, ?_⟩, fun h => ?_⟩
  · exact ((hsegments "/a.b" hslash).1 "/c").2 (Or.inr ⟨"c", rfl⟩)
  · obtain ⟨path, -, hpath, hcovers⟩ := hmissed.1 h
    rw [(hlists path).1 hpath] at hcovers
    rcases ((hsegments "/a.b" hslash).1 "c").1 hcovers with h | ⟨below, h⟩
    · revert h
      decide
    · have hchars := congrArg String.toList h
      rw [String.toList_append] at hchars
      cases hchars

end Config
end Plugin
end EgressAuth
