/-
  EgressAuth.Proofs.Endpoint.Specificity

  How specific the entry is that governs a request path. Among configured
  paths without stars the longest one that covers the request path governs it.
  There is one exception: patterns are ranked by their own lengths, so the
  pattern for everything below a path is as long as a configured path that lies
  one byte below it, and wins if that byte comes after the star (`Outranks`).
-/
import EgressAuth.Plugin.Config
import EgressAuth.Proofs.Endpoint.Coverage
import EgressAuth.Proofs.Endpoint.Winner

namespace EgressAuth

namespace Endpoint

/-! ## Texts -/

/-- Texts of one length that start the same text are the same. -/
theorem eq_of_append_eq {a b s t : String} (h : a ++ s = b ++ t)
    (hsize : a.utf8ByteSize = b.utf8ByteSize) : a = b := by
  have hlist : a.toList ++ s.toList = b.toList ++ t.toList := by
    rw [← String.toList_append, h, String.toList_append]
  have hle : ∀ {x y : String}, x.utf8ByteSize = y.utf8ByteSize → x.toList <+: y.toList → x = y := by
    intro x y hxy hprefix
    obtain ⟨rest, rfl⟩ := prefix_iff_exists_append.1 hprefix
    rw [String.utf8ByteSize_append] at hxy
    have hrest : rest.utf8ByteSize = 0 := by
      omega
    rw [String.utf8ByteSize_eq_zero_iff.1 hrest, String.append_empty]
  -- Two prefixes of one text are comparable.
  rcases List.prefix_or_prefix_of_prefix ⟨s.toList, hlist⟩ (List.prefix_append _ t.toList) with
    hab | hba
  · exact hle hsize hab
  · exact (hle hsize.symm hba).symm

/-- A text of one byte is one character. -/
theorem exists_singleton_of_utf8ByteSize {s : String} (h : s.utf8ByteSize = 1) :
    ∃ c : Char, s = String.singleton c ∧ c.utf8Size = 1 := by
  obtain ⟨l, rfl⟩ : ∃ l, s = String.ofList l := ⟨s.toList, String.ofList_toList.symm⟩
  cases l with
  | nil => cases h
  | cons c l =>
      rw [String.ofList_cons, String.utf8ByteSize_append, String.utf8ByteSize_singleton] at h
      have hc := c.utf8Size_pos
      have hrest : (String.ofList l).utf8ByteSize = 0 := by
        omega
      refine ⟨c, ?_, by omega⟩
      rw [String.ofList_cons, String.utf8ByteSize_eq_zero_iff.1 hrest, String.append_empty]

theorem append_lt_append {s t : String} (p : String) (h : s < t) : p ++ s < p ++ t := by
  rw [String.lt_iff, String.toList_append, String.toList_append]
  exact List.append_left_lt (String.lt_iff.1 h)

theorem singleton_lt_singleton {c d : Char} (h : c < d) :
    String.singleton c < String.singleton d := by
  rw [String.lt_iff, String.toList_singleton, String.toList_singleton]
  exact List.Lex.rel h

/-! ## Configured paths -/

/-- Whether a path is configured for a domain, the domain compared without regard to case. -/
def Configured (rs : List Registration) (domain path : String) : Prop :=
  ∃ g ∈ rs, Text.foldCase g.domain = Text.foldCase domain ∧ g.path = path

/-- No path has a star, and all derived patterns are small enough. -/
structure Plain (rs : List Registration) : Prop where
  noStar : ∀ g ∈ rs, Glob.star ∉ g.path.toList
  fits : ∀ g ∈ rs, ∀ text ∈ Registration.patternTexts g.path, programSize text ≤ maxProgramSize

/-- Both paths are configured, and `q` is `path`, a slash and one more character, which takes one
byte, is no slash and comes after the star. -/
structure Outranks (rs : List Registration) (domain path q : String) : Prop where
  parent : Configured rs domain path
  nonempty : path ≠ ""
  child : Configured rs domain q
  oneByte : ∃ c : Char, q = folder path ++ String.singleton c ∧ c.utf8Size = 1 ∧ c ≠ '/' ∧
    Glob.star < c

/-- The entry `e` may govern `q`: it belongs to a configured path that covers `q`, to a longest
one unless a path outranks `q`, and then to that path, with or without its slash. -/
structure Specific (rs : List Registration) (domain q : String) (e : Entry) : Prop where
  registered : ∃ g ∈ rs, Text.foldCase g.domain = Text.foldCase domain ∧ e = g.entry
  covers : Covers e.path q
  longest : (∀ path, ¬Outranks rs domain path q) →
    ∀ path, Configured rs domain path → Covers path q → bareLength path ≤ bareLength e.path
  outranked : ∀ path, Outranks rs domain path q → folder e.path = folder path

namespace RouteTable

variable {rs : List Registration} {domain q : String} {r : Route}

/-- The winner belongs to a registration whose path covers the request path: it is the path
itself, or the pattern for everything below it. -/
theorem exists_registration_of_wins (hplain : Plain rs) (hq : '\n' ∉ q.toList)
    (hr : Wins ((compile rs).routesOf domain) q r) :
    ∃ g ∈ rs, Text.foldCase g.domain = Text.foldCase domain ∧ g.path ≠ "" ∧ r.entry = g.entry ∧
      ((¬EndsInSlash q ∧ g.path = q ∧ r.pattern.text = q) ∨
        ((∃ rest, q = folder g.path ++ rest) ∧ r.pattern.text = folder g.path ++ "*")) := by
  obtain ⟨g, hg, hgr, hdomain⟩ := exists_registration hr.mem
  obtain ⟨hempty, hentry, htext⟩ := Registration.mem_routes.1 hgr
  have hgdomain : Text.foldCase g.domain = Text.foldCase domain := by
    rw [← hdomain, hentry]
    rfl
  have haccepts : Glob.accepts r.pattern.text.toList q.toList = true := hr.accepts
  refine ⟨g, hg, hgdomain, hempty, hentry, ?_⟩
  rcases mem_patternTexts.1 htext with ⟨hslash, hpath⟩ | hbelow
  · rw [hpath] at haccepts
    have hqpath : q = g.path := (accepts_path_iff (hplain.noStar g hg)).1 haccepts
    rw [hqpath]
    exact Or.inl ⟨hslash, rfl, hpath⟩
  · rw [hbelow] at haccepts
    exact Or.inr ⟨(accepts_folder_iff (hplain.noStar g hg) hq).1 haccepts, hbelow⟩

/-- A pattern that a configured path derives, and that matches, does not beat the winner. -/
theorem Wins.beats_text (hplain : Plain rs) (hr : Wins ((compile rs).routesOf domain) q r)
    {path text : String} (hpath : path ≠ "") (hconfigured : Configured rs domain path)
    (htext : text ∈ Registration.patternTexts path)
    (haccepts : Glob.accepts text.toList q.toList = true) :
    text.utf8ByteSize < r.pattern.length ∨
      text.utf8ByteSize = r.pattern.length ∧ r.pattern.text ≤ text := by
  obtain ⟨g, hg, hdomain, rfl⟩ := hconfigured
  obtain ⟨route, hroute, rfl⟩ :=
    Registration.exists_route hpath htext (hplain.fits g hg text htext)
  -- The pattern may stand for another registration by now, but it matches all the same.
  obtain ⟨other, hother, hsame⟩ := exists_mem_routesOf hg hroute hdomain
  have hmatches : other.pattern.accepts q = true := by
    rw [PathPattern.accepts, hsame]
    exact haccepts
  have hbeats := hr.beats other hother hmatches
  rw [PathPattern.length, hsame] at hbeats
  exact hbeats

/-- The pattern for what lies below a configured path does not beat the winner. -/
theorem Wins.beats_below (hplain : Plain rs) (hq : '\n' ∉ q.toList)
    (hr : Wins ((compile rs).routesOf domain) q r) {path : String} (hpath : path ≠ "")
    (hconfigured : Configured rs domain path) (hbelow : ∃ rest, q = folder path ++ rest) :
    bareLength path + 2 < r.pattern.length ∨
      bareLength path + 2 = r.pattern.length ∧ r.pattern.text ≤ folder path ++ "*" := by
  obtain ⟨g, hg, -, rfl⟩ := id hconfigured
  have hsize : (folder g.path ++ "*").utf8ByteSize = bareLength g.path + 2 :=
    utf8ByteSize_folder_append rfl
  rw [← hsize]
  exact hr.beats_text hplain hpath hconfigured (mem_patternTexts.2 (Or.inr rfl))
    ((accepts_folder_iff (hplain.noStar g hg) hq).2 hbelow)

/-- A configured path that is the request path does not beat the winner. -/
theorem Wins.beats_self (hplain : Plain rs) (hr : Wins ((compile rs).routesOf domain) q r)
    (hempty : q ≠ "") (hconfigured : Configured rs domain q) (hslash : ¬EndsInSlash q) :
    q.utf8ByteSize < r.pattern.length ∨
      q.utf8ByteSize = r.pattern.length ∧ r.pattern.text ≤ q := by
  obtain ⟨g, hg, -, rfl⟩ := id hconfigured
  exact hr.beats_text hplain hempty hconfigured (mem_patternTexts.2 (Or.inl ⟨hslash, rfl⟩))
    ((accepts_path_iff (hplain.noStar g hg)).2 rfl)

/-- If the pattern for what lies below a path wins although the request path is configured itself,
the path outranks the request path. -/
theorem Wins.outranks (hplain : Plain rs) (hr : Wins ((compile rs).routesOf domain) q r)
    {path : String} (hpath : path ≠ "") (hparent : Configured rs domain path)
    (htext : r.pattern.text = folder path ++ "*") (hbelow : ∃ rest, q = folder path ++ rest)
    (hempty : q ≠ "") (hchild : Configured rs domain q) (hslash : ¬EndsInSlash q) :
    Outranks rs domain path q := by
  obtain ⟨rest, hrest⟩ := hbelow
  have hlength : r.pattern.length = bareLength path + 2 := utf8ByteSize_folder_append htext
  have hsize := utf8ByteSize_folder_append hrest
  have hpos := utf8ByteSize_rest_pos hrest hslash
  rcases hr.beats_self hplain hempty hchild hslash with hlt | ⟨heq, hle⟩
  · omega
  · -- At least one byte lies below the path, and no more than one, or the request path is longer.
    obtain ⟨c, rfl, hc⟩ := exists_singleton_of_utf8ByteSize (s := rest) (by omega)
    refine ⟨hparent, hpath, hchild, c, hrest, hc, ?_, ?_⟩
    · intro hc
      apply hslash
      rw [hrest]
      exact endsInSlash_append_singleton_iff.2 hc
    · have hstar : c ≠ Glob.star := by
        rintro rfl
        obtain ⟨g, hg, -, rfl⟩ := id hchild
        apply hplain.noStar g hg
        rw [hrest, String.toList_append]
        simp
      -- A character before the star would put the request path before the pattern.
      have hnot : ¬c < Glob.star := by
        intro hlt
        have := append_lt_append (folder path) (singleton_lt_singleton hlt)
        rw [htext, hrest] at hle
        exact String.not_lt.2 hle this
      exact Std.lt_of_le_of_ne (Char.not_lt.1 hnot) hstar.symm

/-- A path that outranks the request path governs it, with or without its slash. -/
theorem Wins.folder_eq (hplain : Plain rs) (hq : '\n' ∉ q.toList)
    (hr : Wins ((compile rs).routesOf domain) q r) {path : String}
    (houtranks : Outranks rs domain path q) : folder r.entry.path = folder path := by
  obtain ⟨hparent, hpath, hchild, c, hqc, hc, hslash, hlt⟩ := houtranks
  have hbeats := hr.beats_below hplain hq hpath hparent ⟨_, hqc⟩
  have hsize : q.utf8ByteSize = bareLength path + 2 := by
    rw [utf8ByteSize_folder_append hqc, String.utf8ByteSize_singleton, hc]
  obtain ⟨g, -, -, -, hentry, ⟨-, -, htext⟩ | ⟨⟨rest, hrest⟩, htext⟩⟩ :=
    exists_registration_of_wins hplain hq hr
  · -- The request path itself would win only if it came before the pattern of its parent.
    rw [PathPattern.length, htext] at hbeats
    rcases hbeats with hbeats | ⟨-, hle⟩
    · omega
    · have := append_lt_append (folder path) (singleton_lt_singleton hlt)
      rw [← hqc] at this
      exact absurd this (String.not_lt.2 hle)
  · -- The winner's path is no shorter and leaves a byte of the request path, so it is as long.
    have hlength : r.pattern.length = bareLength g.path + 2 := utf8ByteSize_folder_append htext
    have hgsize := utf8ByteSize_folder_append hrest
    have hends : ¬EndsInSlash q := by
      rw [hqc, endsInSlash_append_singleton_iff]
      exact hslash
    have hpos := utf8ByteSize_rest_pos hrest hends
    rw [hentry]
    refine eq_of_append_eq (hrest.symm.trans hqc) ?_
    rw [utf8ByteSize_folder, utf8ByteSize_folder]
    show bareLength g.path + 1 = bareLength path + 1
    omega

/-- If no path outranks the request path, a longest path that covers it governs it. -/
theorem Wins.longest (hplain : Plain rs) (hq : '\n' ∉ q.toList)
    (hr : Wins ((compile rs).routesOf domain) q r) (hempty : q ≠ "")
    (hno : ∀ path, ¬Outranks rs domain path q) {path : String}
    (hconfigured : Configured rs domain path) (hcovers : Covers path q) :
    bareLength path ≤ bareLength r.entry.path := by
  obtain ⟨g, hg, hdomain, hpath, hentry, hshape⟩ := exists_registration_of_wins hplain hq hr
  rw [hentry]
  show bareLength path ≤ bareLength g.path
  rcases covers_iff.1 hcovers with ⟨hslash, rfl⟩ | ⟨rest, hrest⟩
  · rcases hshape with ⟨-, hself, -⟩ | ⟨hbelow, htext⟩
    · exact Nat.le_of_eq (congrArg bareLength hself.symm)
    · exact absurd (hr.outranks hplain hpath ⟨g, hg, hdomain, rfl⟩ htext hbelow hempty hconfigured
        hslash) (hno g.path)
  · have hsize := utf8ByteSize_folder_append hrest
    -- The lengths of patterns for what lies below paths are those of the paths, plus two.
    rcases hshape with ⟨hslash, hself, -⟩ | ⟨-, htext⟩
    · have hbare : bareLength q = q.utf8ByteSize := if_neg hslash
      rw [hself]
      omega
    · by_cases hp : path = ""
      · rw [hp]
        exact Nat.zero_le _
      · have hlength : r.pattern.length = bareLength g.path + 2 :=
          utf8ByteSize_folder_append htext
        rcases hr.beats_below hplain hq hp hconfigured ⟨rest, hrest⟩ with h | ⟨h, -⟩
        · omega
        · omega

theorem Wins.specific (hplain : Plain rs) (hq : '\n' ∉ q.toList)
    (hr : Wins ((compile rs).routesOf domain) q r) (hempty : q ≠ "") :
    Specific rs domain q r.entry := by
  obtain ⟨g, hg, hdomain, -, hentry, hshape⟩ := exists_registration_of_wins hplain hq hr
  refine ⟨⟨g, hg, hdomain, hentry⟩, ?_, fun hno path => hr.longest hplain hq hempty hno,
    fun path => hr.folder_eq hplain hq⟩
  rw [hentry]
  refine covers_iff.2 (hshape.imp ?_ fun h => h.1)
  rintro ⟨hslash, hself, -⟩
  have hpath : g.entry.path = q := hself
  rw [hpath]
  exact ⟨hslash, rfl⟩

/-- A route matches as soon as a configured path covers the request path. -/
theorem find?_ne_none_of_covers (hplain : Plain rs) (hq : '\n' ∉ q.toList) {path : String}
    (hpath : path ≠ "") (hconfigured : Configured rs domain path) (hcovers : Covers path q) :
    (compile rs).find? domain q ≠ none := by
  obtain ⟨g, hg, hdomain, rfl⟩ := hconfigured
  obtain ⟨text, htext, haccepts⟩ := (covers_iff_accepts (hplain.noStar g hg) hq).1 hcovers
  obtain ⟨route, hroute, rfl⟩ :=
    Registration.exists_route hpath htext (hplain.fits g hg text htext)
  obtain ⟨other, hother, hsame⟩ := exists_mem_routesOf hg hroute hdomain
  intro hnone
  have hfalse := find?_compile_eq_none_iff.1 hnone other hother
  rw [PathPattern.accepts, hsame, haccepts] at hfalse
  cases hfalse

end RouteTable

end Endpoint

/-! ## Main statement -/

namespace Plugin.Config

open Endpoint

variable {rs : List Registration} {domain q : String} {e : Entry}

theorem entryFor?_eq_some_iff {c : Config} (hmatching : c.settings.matchEndpoints = true) :
    c.entryFor? domain q = some e ↔
      domain ≠ "" ∧ q ≠ "" ∧ ∃ r, c.routes.find? domain q = some r ∧ r.entry = e := by
  unfold entryFor?
  rw [if_pos hmatching]
  simp only [String.isEmpty_iff]
  split
  · rename_i hempty
    simp only [reduceCtorEq, false_iff]
    rintro ⟨hdomain, hq, -⟩
    exact hempty.elim hdomain hq
  · rename_i hempty
    rw [not_or] at hempty
    rw [Option.map_eq_some_iff]
    exact ⟨fun h => ⟨hempty.1, hempty.2, h⟩, fun h => h.2.2⟩

/-- Every request path that an entry governs is governed by a specific one, and one that is
configured itself, and that no path outranks, by its own. -/
theorem entryFor?_specificity (settings : Settings) (domain : String) (hplain : Plain rs)
    (hmatching : settings.matchEndpoints = true) (hq : '\n' ∉ q.toList) :
    let c : Config := ⟨settings, RouteTable.compile rs⟩
    (∀ e, c.entryFor? domain q = some e → Specific rs domain q e) ∧
    (domain ≠ "" → q ≠ "" → Configured rs domain q → ¬EndsInSlash q →
      ∃ e, c.entryFor? domain q = some e ∧
        ((∀ path, ¬Outranks rs domain path q) → e.path = q)) := by
  intro c
  have hspecific : ∀ e, c.entryFor? domain q = some e → Specific rs domain q e := by
    intro e he
    obtain ⟨-, hempty, r, hfind, rfl⟩ := (entryFor?_eq_some_iff hmatching).1 he
    exact (RouteTable.wins_of_find? hfind).specific hplain hq hempty
  refine ⟨hspecific, fun hdomain hempty hconfigured hslash => ?_⟩
  have hcovers : Covers q q := covers_iff.2 (Or.inl ⟨hslash, rfl⟩)
  obtain ⟨r, hfind⟩ := Option.ne_none_iff_exists'.1
    (RouteTable.find?_ne_none_of_covers hplain hq hempty hconfigured hcovers)
  have he : c.entryFor? domain q = some r.entry :=
    (entryFor?_eq_some_iff hmatching).2 ⟨hdomain, hempty, r, hfind, rfl⟩
  refine ⟨r.entry, he, fun hno => ?_⟩
  have hr := hspecific r.entry he
  have hle := hr.longest hno q hconfigured hcovers
  rcases covers_iff.1 hr.covers with ⟨-, hself⟩ | ⟨rest, hrest⟩
  · exact hself.symm
  · -- A path with the request path below it is shorter.
    have hsize := utf8ByteSize_folder_append hrest
    have hbare : bareLength q = q.utf8ByteSize := if_neg hslash
    omega

/-- Two configured paths, of which neither outranks the other one. -/
theorem entryFor?_specificity_of_two_paths :
    let rs : List Registration := [⟨"ISHARE", "domain.org", "/"⟩, ⟨"OIC", "domain.org", "/orders"⟩]
    let settings : Settings := { Settings.default with matchEndpoints := true }
    let c : Config := ⟨settings, RouteTable.compile rs⟩
    Plain rs ∧ settings.matchEndpoints = true ∧ '\n' ∉ "/orders".toList ∧
      ∃ e, c.entryFor? "domain.org" "/orders" = some e ∧ Specific rs "domain.org" "/orders" e := by
  intro rs settings c
  have hplain : Plain rs := ⟨by decide, by decide +kernel⟩
  have hq : '\n' ∉ "/orders".toList := by
    decide
  obtain ⟨hspecific, hself⟩ :=
    entryFor?_specificity settings "domain.org" hplain rfl hq
  have hconfigured : Configured rs "domain.org" "/orders" :=
    ⟨⟨"OIC", "domain.org", "/orders"⟩, by decide, rfl, rfl⟩
  obtain ⟨e, he, -⟩ := hself (by decide) (by decide) hconfigured (by decide)
  exact ⟨hplain, rfl, hq, e, he, hspecific e he⟩

/-- A configured path one byte below another one is governed by the other one's entry, although it
covers the request path itself and is longer. -/
theorem not_always_longest :
    ¬∀ (rs : List Registration) (settings : Settings) (domain q path : String) (e : Entry),
      Plain rs → settings.matchEndpoints = true → '\n' ∉ q.toList →
      (⟨settings, RouteTable.compile rs⟩ : Config).entryFor? domain q = some e →
      Configured rs domain path → Covers path q → bareLength path ≤ bareLength e.path := by
  intro h
  let rs : List Registration := [⟨"ISHARE", "domain.org", "/a"⟩, ⟨"OIC", "domain.org", "/a/b"⟩]
  let settings : Settings := { Settings.default with matchEndpoints := true }
  let c : Config := ⟨settings, RouteTable.compile rs⟩
  have hpath : (c.entryFor? "domain.org" "/a/b").map (fun e => e.path) = some "/a" := by
    decide +kernel
  obtain ⟨e, he, hea⟩ := Option.map_eq_some_iff.1 hpath
  have hconfigured : Configured rs "domain.org" "/a/b" :=
    ⟨⟨"OIC", "domain.org", "/a/b"⟩, by decide, rfl, rfl⟩
  have hcovers : Covers "/a/b" "/a/b" := covers_iff.2 (Or.inl ⟨by decide, rfl⟩)
  have hle := h rs settings "domain.org" "/a/b" "/a/b" e ⟨by decide, by decide +kernel⟩ rfl
    (by decide) he hconfigured hcovers
  rw [hea] at hle
  revert hle
  decide

end Plugin.Config
end EgressAuth
