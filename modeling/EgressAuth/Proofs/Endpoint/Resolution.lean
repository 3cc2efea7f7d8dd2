/-
  EgressAuth.Proofs.Endpoint.Resolution

  From the endpoint section of a configuration to the entry that governs a
  request. The section lists triples of type, domain and path, and each triple
  derives one or two patterns for its domain (`Registration.DerivesFor`). Which
  pattern wins and which triple owns it are said of the triples alone, without
  the table and the scan (`Winning`, `LastDeriving`); `entryFor?_resolution`
  says that the table that is compiled from the triples answers just so.
-/
import EgressAuth.Proofs.Endpoint.Matching
import EgressAuth.Proofs.Endpoint.Specificity
import EgressAuth.Proofs.Plugin.RawEndpoints
import EgressAuth.Proofs.SortedMap

namespace EgressAuth

namespace Endpoint

/-! ## Patterns of the registrations -/

namespace Registration

/-- The patterns that a registration derives: none for an empty path; everything below a path that
ends in a slash; any other path itself and everything below it. Patterns that cannot be compiled
are left out. -/
structure Derives (g : Registration) (text : String) : Prop where
  nonempty : g.path ≠ ""
  shape : if EndsInSlash g.path then text = g.path ++ "*"
    else text = g.path ∨ text = g.path ++ "/*"
  compiles : (PathPattern.ofText? text).isSome

/-- The registration derives the pattern for a domain, letters of the domain compared without
case. -/
def DerivesFor (g : Registration) (domain text : String) : Prop :=
  Text.foldCase g.domain = Text.foldCase domain ∧ g.Derives text

/-- What a registration derives depends on its path alone. -/
theorem Derives.of_path_eq {g k : Registration} {text : String} (h : g.Derives text)
    (hpath : g.path = k.path) : k.Derives text := by
  obtain ⟨hnonempty, hshape, hcompiles⟩ := h
  rw [hpath] at hnonempty hshape
  exact ⟨hnonempty, hshape, hcompiles⟩

theorem mem_patternTexts_iff_shape {path text : String} :
    text ∈ patternTexts path ↔
      if EndsInSlash path then text = path ++ "*" else text = path ∨ text = path ++ "/*" := by
  unfold patternTexts EndsInSlash
  by_cases h : path.toList.getLast? = some '/' <;> simp [h]

instance (g : Registration) (text : String) : Decidable (g.Derives text) :=
  decidable_of_iff
    (g.path ≠ "" ∧ text ∈ patternTexts g.path ∧ (PathPattern.ofText? text).isSome = true)
    ⟨fun h => ⟨h.1, mem_patternTexts_iff_shape.1 h.2.1, h.2.2⟩,
      fun h => ⟨h.nonempty, mem_patternTexts_iff_shape.2 h.shape, h.compiles⟩⟩

/-- The routes of a registration are those of the patterns that it derives. -/
theorem derives_iff {g : Registration} {text : String} :
    g.Derives text ↔ ∃ r ∈ g.routes, r.pattern.text = text := by
  constructor
  · rintro ⟨hpath, hshape, hcompiles⟩
    obtain ⟨p, hp⟩ := Option.isSome_iff_exists.1 hcompiles
    have htext := PathPattern.text_of_ofText? hp
    refine ⟨⟨p, g.entry⟩, mem_routes.2 ⟨hpath, rfl, ?_⟩, htext⟩
    rw [htext]
    exact mem_patternTexts_iff_shape.2 hshape
  · rintro ⟨r, hr, rfl⟩
    obtain ⟨hpath, -, htext⟩ := mem_routes.1 hr
    exact ⟨hpath, mem_patternTexts_iff_shape.1 htext, by rw [PathPattern.ofText?_text]; rfl⟩

theorem domain_of_mem_routes {g : Registration} {r : Route} (hr : r ∈ g.routes) :
    r.entry.domain = Text.foldCase g.domain := by
  rw [(mem_routes.1 hr).2.1]
  rfl

end Registration

/-- Of the registrations, `g` is the last one that derives a pattern for a domain. -/
def LastDeriving (rs : List Registration) (domain text : String) (g : Registration) : Prop :=
  ∃ before after, rs = before ++ g :: after ∧ g.DerivesFor domain text ∧
    ∀ later ∈ after, ¬later.DerivesFor domain text

theorem LastDeriving.exists_mem {rs : List Registration} {domain text : String} {g : Registration}
    (h : LastDeriving rs domain text g) : ∃ g ∈ rs, g.DerivesFor domain text := by
  obtain ⟨before, after, rfl, hg, -⟩ := h
  exact ⟨g, by simp, hg⟩

/-- A pattern that is derived for a domain and matches a path, and that no other one beats: it is
the longest in bytes, and of equally long ones the first in the order of bytes. -/
structure Winning (rs : List Registration) (domain path text : String) : Prop where
  derived : ∃ g ∈ rs, g.DerivesFor domain text
  matching : Glob.Matches text.toList path.toList
  beats : ∀ g ∈ rs, ∀ other, g.DerivesFor domain other → Glob.Matches other.toList path.toList →
    other.utf8ByteSize < text.utf8ByteSize ∨
      other.utf8ByteSize = text.utf8ByteSize ∧ Text.encode text ≤ Text.encode other

/-- One pattern wins at most. -/
theorem Winning.unique {rs : List Registration} {domain path s t : String}
    (hs : Winning rs domain path s) (ht : Winning rs domain path t) : s = t := by
  obtain ⟨g, hg, hgs⟩ := hs.derived
  obtain ⟨k, hk, hkt⟩ := ht.derived
  have hst := ht.beats g hg s hgs hs.matching
  have hts := hs.beats k hk t hkt ht.matching
  rcases hst with hlt | ⟨heq, hle⟩
  · omega
  · rcases hts with hlt | ⟨-, hge⟩
    · omega
    · exact String.le_antisymm (Text.encode_le_iff.1 hge) (Text.encode_le_iff.1 hle)

/-! ## The compiled table -/

namespace RouteTable

variable {rs : List Registration} {domain path text : String} {r : Route}

theorem lastRoute?_append (as bs : List Route) (domain text : String) :
    lastRoute? (as ++ bs) domain text =
      (lastRoute? bs domain text).or (lastRoute? as domain text) := by
  unfold lastRoute?
  rw [List.reverse_append, List.find?_append]

/-- What is found last is one of the routes, and stands under the pattern in the domain. -/
theorem of_lastRoute? {routes : List Route} (h : lastRoute? routes domain text = some r) :
    r ∈ routes ∧ r.entry.domain = Text.foldCase domain ∧ r.pattern.text = text := by
  have hfound := List.find?_some h
  simp only [Bool.and_eq_true, beq_iff_eq] at hfound
  exact ⟨List.mem_reverse.1 (List.mem_of_find?_eq_some h), hfound⟩

/-- A registration has a route under a pattern exactly if it derives the pattern. -/
theorem lastRoute?_routes_eq_none_iff {g : Registration} :
    lastRoute? g.routes domain text = none ↔ ¬g.DerivesFor domain text := by
  rw [lastRoute?, List.find?_eq_none, Registration.DerivesFor, Registration.derives_iff]
  simp only [List.mem_reverse, Bool.and_eq_true, beq_iff_eq, not_and, not_exists]
  constructor
  · intro h hdomain r hr
    refine h r hr ?_
    rw [Registration.domain_of_mem_routes hr]
    exact hdomain
  · intro h r hr hdomain
    rw [Registration.domain_of_mem_routes hr] at hdomain
    exact h hdomain r hr

theorem lastRoute?_flatMap_eq_none (h : ∀ g ∈ rs, ¬g.DerivesFor domain text) :
    lastRoute? (rs.flatMap Registration.routes) domain text = none := by
  induction rs with
  | nil => rfl
  | cons g rs ih =>
      obtain ⟨hg, hrs⟩ := List.forall_mem_cons.1 h
      rw [List.flatMap_cons, lastRoute?_append, ih hrs, lastRoute?_routes_eq_none_iff.2 hg]
      rfl

/-- Under a pattern stands the entry of the last registration that derives it. -/
theorem lastRoute?_of_lastDeriving {g : Registration} (h : LastDeriving rs domain text g) :
    ∃ r, lastRoute? (rs.flatMap Registration.routes) domain text = some r ∧
      r.entry = g.entry ∧ r.pattern.text = text := by
  obtain ⟨before, after, rfl, hg, hlater⟩ := h
  obtain ⟨r, hr⟩ := Option.ne_none_iff_exists'.1 fun hnone =>
    lastRoute?_routes_eq_none_iff.1 hnone hg
  obtain ⟨hmem, -, htext⟩ := of_lastRoute? hr
  refine ⟨r, ?_, (Registration.mem_routes.1 hmem).2.1, htext⟩
  rw [List.flatMap_append, List.flatMap_cons, lastRoute?_append, lastRoute?_append,
    lastRoute?_flatMap_eq_none hlater, hr]
  rfl

/-- Of the registrations that derive a pattern one is the last. -/
theorem exists_lastDeriving (h : ∃ g ∈ rs, g.DerivesFor domain text) :
    ∃ last, LastDeriving rs domain text last := by
  induction rs with
  | nil => simp at h
  | cons k rs ih =>
      by_cases hrs : ∃ g ∈ rs, g.DerivesFor domain text
      · obtain ⟨last, before, after, rfl, hlast⟩ := ih hrs
        exact ⟨last, k :: before, after, rfl, hlast⟩
      · have hk : k.DerivesFor domain text := by
          obtain ⟨g, hg, hderives⟩ := h
          rcases List.mem_cons.1 hg with rfl | hg
          · exact hderives
          · exact absurd ⟨g, hg, hderives⟩ hrs
        exact ⟨k, [], rs, rfl, hk, fun later hlater hderives => hrs ⟨later, hlater, hderives⟩⟩

/-- The routes of a domain are those of its derived patterns, each with the entry of the last
registration that derives it. -/
theorem mem_routesOf_compile :
    r ∈ (compile rs).routesOf domain ↔
      ∃ g, LastDeriving rs domain r.pattern.text g ∧ r.entry = g.entry := by
  rw [mem_routesOf (keyed_compile rs), route?_compile]
  constructor
  · intro h
    obtain ⟨hmem, hdomain, -⟩ := of_lastRoute? h
    obtain ⟨g, hg, hgr⟩ := List.mem_flatMap.1 hmem
    have hderives : g.DerivesFor domain r.pattern.text := by
      refine ⟨?_, Registration.derives_iff.2 ⟨r, hgr, rfl⟩⟩
      rw [← hdomain, Registration.domain_of_mem_routes hgr]
    obtain ⟨last, hlast⟩ := exists_lastDeriving ⟨g, hg, hderives⟩
    obtain ⟨found, hfound, hentry, -⟩ := lastRoute?_of_lastDeriving hlast
    rw [h] at hfound
    cases hfound
    exact ⟨last, hlast, hentry⟩
  · rintro ⟨g, hlast, hentry⟩
    obtain ⟨⟨⟨found, _⟩, e⟩, hfound, hfoundEntry, htext⟩ := lastRoute?_of_lastDeriving hlast
    -- A route is its pattern's text and its entry.
    obtain ⟨⟨text, _⟩, _⟩ := r
    cases htext
    cases hentry.trans hfoundEntry.symm
    exact hfound

/-- A pattern that a registration derives for a domain has a route there. -/
theorem exists_route_of_derivesFor {g : Registration} (hg : g ∈ rs) (h : g.DerivesFor domain text) :
    ∃ r ∈ (compile rs).routesOf domain, r.pattern.text = text := by
  obtain ⟨last, hlast⟩ := exists_lastDeriving ⟨g, hg, h⟩
  obtain ⟨r, -, hentry, rfl⟩ := lastRoute?_of_lastDeriving hlast
  exact ⟨r, mem_routesOf_compile.2 ⟨last, hlast, hentry⟩, rfl⟩

/-- No route is found exactly if no derived pattern matches. -/
theorem find?_compile_eq_none_iff_derives :
    (compile rs).find? domain path = none ↔
      ∀ g ∈ rs, ∀ text, g.DerivesFor domain text →
        ¬Glob.Matches text.toList path.toList := by
  rw [find?_compile_eq_none_iff]
  constructor
  · intro h g hg text hderives hmatches
    obtain ⟨r, hr, rfl⟩ := exists_route_of_derivesFor hg hderives
    have := h r hr
    rw [PathPattern.accepts_iff.2 hmatches] at this
    cases this
  · intro h r hr
    obtain ⟨g, hlast, -⟩ := mem_routesOf_compile.1 hr
    obtain ⟨k, hk, hderives⟩ := hlast.exists_mem
    rw [← Bool.not_eq_true, PathPattern.accepts_iff]
    exact h k hk r.pattern.text hderives

/-- The pattern of the route that wins the scan wins among the derived patterns. -/
theorem Wins.winning (h : Wins ((compile rs).routesOf domain) path r) :
    Winning rs domain path r.pattern.text := by
  obtain ⟨g, hlast, -⟩ := mem_routesOf_compile.1 h.mem
  refine ⟨hlast.exists_mem, PathPattern.accepts_iff.1 h.accepts, ?_⟩
  intro k hk other hderives hmatches
  obtain ⟨route, hroute, rfl⟩ := exists_route_of_derivesFor hk hderives
  rw [Text.encode_le_iff]
  exact h.beats route hroute (PathPattern.accepts_iff.2 hmatches)

/-- The route that is found has the winning pattern and the entry of its last registration. -/
theorem find?_compile_eq_some_iff :
    (compile rs).find? domain path = some r ↔
      Winning rs domain path r.pattern.text ∧
        ∃ g, LastDeriving rs domain r.pattern.text g ∧ r.entry = g.entry := by
  constructor
  · intro h
    have hwins := wins_of_find? h
    exact ⟨hwins.winning, mem_routesOf_compile.1 hwins.mem⟩
  · rintro ⟨hwinning, howner⟩
    have hmem := mem_routesOf_compile.2 howner
    -- The route matches, so the scan finds one, and only one pattern wins.
    obtain ⟨found, hfound⟩ := Option.ne_none_iff_exists'.1 fun hnone => by
      obtain ⟨g, hg, hderives⟩ := hwinning.derived
      exact find?_compile_eq_none_iff_derives.1 hnone g hg _ hderives hwinning.matching
    have hwins := wins_of_find? hfound
    have htext := hwins.winning.unique hwinning
    have hkeyed := keyed_compile rs
    have hfoundMem := (mem_routesOf hkeyed).1 hwins.mem
    rw [htext, (mem_routesOf hkeyed).1 hmem] at hfoundMem
    rw [hfound, hfoundMem]

/-! ## Domains -/

theorem isSome_get?_foldl_add (t : RouteTable) (routes : List Route) (domain : String) :
    ((routes.foldl add t).domains.get? domain).isSome ↔
      (∃ r ∈ routes, r.entry.domain = domain) ∨ (t.domains.get? domain).isSome := by
  induction routes generalizing t with
  | nil => simp
  | cons r routes ih =>
      have hadd : ((t.add r).domains.get? domain).isSome ↔
          r.entry.domain = domain ∨ (t.domains.get? domain).isSome := by
        unfold add
        rw [SortedMap.get?_insert]
        by_cases h : domain = r.entry.domain
        · simp [h]
        · simp [h, Ne.symm h]
      rw [List.foldl_cons, ih, hadd, List.exists_mem_cons_iff, or_assoc, or_left_comm]

/-- The table has the domains for which a pattern is derived, in small letters. -/
theorem isSome_get?_compile (rs : List Registration) (domain : String) :
    ((compile rs).domains.get? domain).isSome ↔
      ∃ g ∈ rs, Text.foldCase g.domain = domain ∧ ∃ text, g.Derives text := by
  rw [compile_eq_foldl_add, isSome_get?_foldl_add]
  constructor
  · rintro (⟨r, hr, rfl⟩ | h)
    · obtain ⟨g, hg, hgr⟩ := List.mem_flatMap.1 hr
      exact ⟨g, hg, (Registration.domain_of_mem_routes hgr).symm, r.pattern.text,
        Registration.derives_iff.2 ⟨r, hgr, rfl⟩⟩
    · cases h
  · rintro ⟨g, hg, rfl, text, hderives⟩
    obtain ⟨r, hr, -⟩ := Registration.derives_iff.1 hderives
    exact Or.inl ⟨r, List.mem_flatMap.2 ⟨g, hg, hr⟩, Registration.domain_of_mem_routes hr⟩

/-- The domains are counted once each. -/
theorem domainCount_compile (rs : List Registration) :
    (compile rs).domainCount =
      Set.ncard {domain | ∃ g ∈ rs, Text.foldCase g.domain = domain ∧ ∃ text, g.Derives text} := by
  show (compile rs).domains.size = _
  rw [SortedMap.size_eq_ncard]
  congr 1
  ext domain
  exact isSome_get?_compile rs domain

end RouteTable
end Endpoint

/-! ## Entries -/

namespace Plugin.Config

open Endpoint

theorem entryFor?_eq_none_iff {c : Config} (hmatching : c.settings.matchEndpoints = true)
    {domain path : String} :
    c.entryFor? domain path = none ↔
      domain = "" ∨ path = "" ∨ c.routes.find? domain path = none := by
  unfold entryFor?
  rw [if_pos hmatching, ite_eq_left_iff, Option.map_eq_none_iff]
  simp only [String.isEmpty_iff, ← or_assoc]
  exact ⟨fun h => or_iff_not_imp_left.2 h, fun h => or_iff_not_imp_left.1 h⟩

/-- The entry is absent exactly for an empty domain, an empty path, or a path that no derived
pattern of the domain matches. Otherwise it is that of the last triple that derives the winning
pattern: its type, its domain in small letters, its path as configured, and the slot of these two.
The table has one domain for every domain in small letters that has a pattern. The triples come in
the order of the bytes of types and domains. -/
theorem entryFor?_resolution (raw : RawEndpoints) {c : Config}
    (hroutes : c.routes = RouteTable.compile raw.registrations)
    (hmatching : c.settings.matchEndpoints = true) :
    (∀ domain path, c.entryFor? domain path = none ↔
      domain = "" ∨ path = "" ∨ ∀ g ∈ raw.registrations, ∀ text, g.DerivesFor domain text →
        ¬Glob.Matches text.toList path.toList) ∧
    (∀ domain path e, c.entryFor? domain path = some e ↔
      domain ≠ "" ∧ path ≠ "" ∧ ∃ text g, Winning raw.registrations domain path text ∧
        LastDeriving raw.registrations domain text g ∧
        e = { cacheId := Cache.Id.ofEndpoint (Text.foldCase g.domain) g.path
              authType := g.authType
              domain := Text.foldCase g.domain
              path := g.path }) ∧
    c.routes.domainCount = Set.ncard {domain | ∃ g ∈ raw.registrations,
      Text.foldCase g.domain = domain ∧ ∃ text, g.Derives text} ∧
    raw.registrations.Pairwise RawEndpoints.Precedes := by
  have hfind : ∀ domain path, c.routes.find? domain path =
      (RouteTable.compile raw.registrations).find? domain path := by
    intro domain path
    rw [hroutes]
  refine ⟨?absent, ?present, ?count, raw.pairwise_registrations⟩
  case absent =>
    intro domain path
    rw [entryFor?_eq_none_iff hmatching, hfind, RouteTable.find?_compile_eq_none_iff_derives]
  case present =>
    intro domain path e
    rw [entryFor?_eq_some_iff hmatching]
    refine and_congr_right fun _ => and_congr_right fun _ => ?_
    simp only [hfind, RouteTable.find?_compile_eq_some_iff]
    constructor
    · rintro ⟨r, ⟨hwinning, g, hlast, hentry⟩, rfl⟩
      exact ⟨r.pattern.text, g, hwinning, hlast, hentry⟩
    · rintro ⟨text, g, hwinning, hlast, rfl⟩
      obtain ⟨r, -, hentry, rfl⟩ := RouteTable.lastRoute?_of_lastDeriving hlast
      exact ⟨r, ⟨hwinning, g, hlast, hentry⟩, hentry⟩
  case count =>
    rw [hroutes, RouteTable.domainCount_compile]

/-- Two types list the same domain, in different letters, and derive one pattern: the later one
governs what lies below the path. -/
theorem entryFor?_resolution_of_two_types :
    let raw : RawEndpoints := SortedMap.ofList
      [("ISHARE", SortedMap.ofList [("domain.org", ["/x"])]),
        ("OIC", SortedMap.ofList [("Domain.org", ["/x/"])])]
    let c : Config :=
      ⟨{ Settings.default with matchEndpoints := true }, RouteTable.compile raw.registrations⟩
    c.settings.matchEndpoints = true ∧ c.entryFor? "DOMAIN.org" "/x/1" =
      some ⟨Cache.Id.ofEndpoint "domain.org" "/x/", "OIC", "domain.org", "/x/"⟩ := by
  intro raw c
  have hraw : raw.registrations =
      [⟨"ISHARE", "domain.org", "/x"⟩, ⟨"OIC", "Domain.org", "/x/"⟩] := by
    decide
  have hderives : (⟨"OIC", "Domain.org", "/x/"⟩ : Registration).DerivesFor "DOMAIN.org" "/x/*" :=
    ⟨by decide, by decide, by decide, by decide⟩
  have hlast : LastDeriving raw.registrations "DOMAIN.org" "/x/*" ⟨"OIC", "Domain.org", "/x/"⟩ :=
    ⟨[⟨"ISHARE", "domain.org", "/x"⟩], [], hraw, hderives, by simp⟩
  have hwinning : Winning raw.registrations "DOMAIN.org" "/x/1" "/x/*" := by
    refine ⟨hlast.exists_mem, Glob.accepts_iff_matches.1 (by decide), ?_⟩
    rintro g hg other ⟨-, -, hshape, -⟩ hmatches
    rw [hraw] at hg
    -- Both registrations derive the pattern, and the path `/x` itself does not match.
    have hother : other = "/x/*" := by
      simp only [List.mem_cons, List.not_mem_nil, or_false] at hg
      rcases hg with rfl | rfl
      · rw [if_neg (by decide)] at hshape
        rcases hshape with rfl | rfl
        · rw [← Glob.accepts_iff_matches] at hmatches
          revert hmatches
          decide
        · rfl
      · rw [if_pos (by decide)] at hshape
        exact hshape
    rw [hother]
    exact Or.inr ⟨rfl, List.le_refl _⟩
  refine ⟨rfl, ((entryFor?_resolution raw (c := c) rfl rfl).2.1 _ _ _).2 ?_⟩
  exact ⟨by decide, by decide, "/x/*", _, hwinning, hlast, rfl⟩

end Plugin.Config
end EgressAuth
