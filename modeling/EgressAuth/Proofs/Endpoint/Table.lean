/-
  EgressAuth.Proofs.Endpoint.Table

  What a compiled table of routes holds. Under each pattern of a domain stands
  the route of the last registration that derives the pattern
  (`route?_compile`), and the routes of a domain are in the strict order of
  their patterns (`routesOf_sorted`). The scan for the winner starts from there.
-/
import EgressAuth.Endpoint.Routes

namespace EgressAuth.Endpoint

/-! ## Registrations -/

namespace PathPattern

@[simp] theorem ofText?_text (p : PathPattern) : ofText? p.text = some p := by
  rw [ofText?, dif_pos p.fits]

theorem text_of_ofText? {s : String} {p : PathPattern} (h : ofText? s = some p) : p.text = s := by
  unfold ofText? at h
  split at h
  · cases h
    rfl
  · cases h

end PathPattern

/-- The routes of a registration are those of its patterns, all with its entry. -/
theorem Registration.mem_routes {g : Registration} {r : Route} :
    r ∈ g.routes ↔
      g.path ≠ "" ∧ r.entry = g.entry ∧ r.pattern.text ∈ patternTexts g.path := by
  unfold routes
  by_cases hempty : g.path = ""
  · rw [if_pos (by simp [hempty])]
    simp [hempty]
  · rw [if_neg (by simpa using hempty), List.mem_filterMap]
    constructor
    · rintro ⟨text, htext, hr⟩
      obtain ⟨p, hp, rfl⟩ := Option.map_eq_some_iff.1 hr
      rw [PathPattern.text_of_ofText? hp]
      exact ⟨hempty, rfl, htext⟩
    · rintro ⟨-, hentry, htext⟩
      refine ⟨r.pattern.text, htext, ?_⟩
      rw [PathPattern.ofText?_text, Option.map_some, ← hentry]

/-- A pattern that is derived, and whose program fits, gives a route. -/
theorem Registration.exists_route {g : Registration} {text : String} (hpath : g.path ≠ "")
    (htext : text ∈ patternTexts g.path) (hfits : programSize text ≤ maxProgramSize) :
    ∃ r ∈ g.routes, r.pattern.text = text :=
  ⟨⟨⟨text, hfits⟩, g.entry⟩, mem_routes.2 ⟨hpath, rfl, htext⟩, rfl⟩

/-! ## Look-up -/

namespace RouteTable

variable {t : RouteTable} {routes : List Route} {domain text : String}

/-- The route that stands under a pattern of a domain. -/
def route? (t : RouteTable) (domain text : String) : Option Route :=
  (t.domains.get? (Text.foldCase domain)).bind fun m => m.get? text

/-- The routes of a domain, none if the domain is not there. -/
def routesOf (t : RouteTable) (domain : String) : List Route := (t.routesFor? domain).getD []

/-- The last one of some routes that has the pattern in the domain. -/
def lastRoute? (routes : List Route) (domain text : String) : Option Route :=
  routes.reverse.find? fun r => r.entry.domain == Text.foldCase domain && r.pattern.text == text

/-- Every route stands under the text of its pattern. -/
def Keyed (t : RouteTable) : Prop :=
  ∀ domain m, t.domains.get? domain = some m → ∀ e ∈ m.entries, e.1 = e.2.pattern.text

theorem find?_eq_foldl (t : RouteTable) (domain path : String) :
    t.find? domain path = (t.routesOf domain).foldl (better path) none := by
  unfold find? routesOf
  cases t.routesFor? domain <;> rfl

/-- An added route takes its pattern in its domain over and leaves all others. -/
theorem route?_add (t : RouteTable) (r : Route) (domain text : String) :
    (t.add r).route? domain text =
      if r.entry.domain = Text.foldCase domain ∧ r.pattern.text = text then some r
      else t.route? domain text := by
  unfold route? add
  simp only [SortedMap.get?_insert]
  by_cases hdomain : Text.foldCase domain = r.entry.domain
  · simp only [hdomain, if_true, Option.bind_some, SortedMap.get?_insert, true_and]
    by_cases htext : text = r.pattern.text
    · rw [if_pos htext, if_pos htext.symm]
    · rw [if_neg htext, if_neg fun h => htext h.symm]
      cases t.domains.get? r.entry.domain <;> simp
  · rw [if_neg hdomain, if_neg fun h => hdomain h.1.symm]

theorem lastRoute?_cons (r : Route) (routes : List Route) (domain text : String) :
    lastRoute? (r :: routes) domain text =
      (lastRoute? routes domain text).or
        (if r.entry.domain = Text.foldCase domain ∧ r.pattern.text = text then some r
          else none) := by
  unfold lastRoute?
  rw [List.reverse_cons, List.find?_append, List.find?_singleton]
  simp only [Bool.and_eq_true, beq_iff_eq]

theorem route?_foldl_add (t : RouteTable) (routes : List Route) (domain text : String) :
    (routes.foldl add t).route? domain text =
      (lastRoute? routes domain text).or (t.route? domain text) := by
  induction routes generalizing t with
  | nil => rfl
  | cons r routes ih =>
      -- The routes behind `r` go before it, and `r` goes before what the table had.
      rw [List.foldl_cons, ih, route?_add, lastRoute?_cons, Option.or_assoc]
      congr 1
      split
      · rw [Option.some_or]
      · rw [Option.none_or]

/-- The registrations add their routes one after the other. -/
theorem compile_eq_foldl_add (rs : List Registration) :
    compile rs = (rs.flatMap Registration.routes).foldl add empty := by
  unfold compile
  generalize empty = t
  induction rs generalizing t with
  | nil => rfl
  | cons g rs ih =>
      rw [List.foldl_cons, ih, List.flatMap_cons, List.foldl_append]
      rfl

/-- Under a pattern of a domain stands the last route that was derived for it. -/
theorem route?_compile (rs : List Registration) (domain text : String) :
    (compile rs).route? domain text = lastRoute? (rs.flatMap Registration.routes) domain text := by
  rw [compile_eq_foldl_add, route?_foldl_add]
  exact Option.or_none

/-! ## Scanned routes -/

theorem keyed_add (ht : t.Keyed) (r : Route) : (t.add r).Keyed := by
  intro domain m hm e he
  unfold add at hm
  rw [SortedMap.get?_insert] at hm
  by_cases hdomain : domain = r.entry.domain
  · -- In the domain of `r` an entry is the new one or was there before.
    rw [if_pos hdomain] at hm
    cases hm
    rcases SortedMap.mem_put he with rfl | he
    · rfl
    · cases hold : t.domains.get? r.entry.domain with
      | none =>
          rw [hold] at he
          cases he
      | some old =>
          rw [hold] at he
          exact ht _ old hold e he
  · rw [if_neg hdomain] at hm
    exact ht domain m hm e he

theorem keyed_compile (rs : List Registration) : (compile rs).Keyed := by
  rw [compile_eq_foldl_add]
  -- The empty table is keyed, and every route that is added keeps it so.
  have hempty : empty.Keyed := by
    intro domain m hm
    cases hm
  revert hempty
  generalize empty = t
  induction rs.flatMap Registration.routes generalizing t with
  | nil => exact id
  | cons r routes ih => exact fun ht => ih _ (keyed_add ht r)

theorem mem_routesOf (ht : t.Keyed) {r : Route} :
    r ∈ t.routesOf domain ↔ t.route? domain r.pattern.text = some r := by
  unfold routesOf routesFor? route?
  cases hm : t.domains.get? (Text.foldCase domain) with
  | none => simp
  | some m =>
      show r ∈ m.entries.map Prod.snd ↔ m.get? r.pattern.text = some r
      rw [List.mem_map, ← SortedMap.mem_entries_iff]
      constructor
      · rintro ⟨e, he, rfl⟩
        rw [← ht _ m hm e he]
        exact he
      · exact fun he => ⟨_, he, rfl⟩

/-- The scan meets the routes of a domain in the strict order of their patterns. -/
theorem routesOf_sorted (ht : t.Keyed) (domain : String) :
    (t.routesOf domain).Pairwise fun a b => a.pattern.text < b.pattern.text := by
  unfold routesOf routesFor?
  cases hm : t.domains.get? (Text.foldCase domain) with
  | none => exact List.Pairwise.nil
  | some m =>
      show (m.entries.map Prod.snd).Pairwise _
      rw [List.pairwise_map]
      refine m.sorted.imp_of_mem fun {a b} ha hb hlt => ?_
      rw [← ht _ m hm a ha, ← ht _ m hm b hb]
      exact hlt

/-- A route of a compiled table is a route of one of its registrations. -/
theorem exists_registration {rs : List Registration} {r : Route}
    (hr : r ∈ (compile rs).routesOf domain) :
    ∃ g ∈ rs, r ∈ g.routes ∧ r.entry.domain = Text.foldCase domain := by
  rw [mem_routesOf (keyed_compile rs), route?_compile] at hr
  have hmem := List.mem_of_find?_eq_some hr
  rw [List.mem_reverse, List.mem_flatMap] at hmem
  obtain ⟨g, hg, hgr⟩ := hmem
  have hfound := List.find?_some hr
  simp only [Bool.and_eq_true, beq_iff_eq] at hfound
  exact ⟨g, hg, hgr, hfound.1⟩

/-- Every pattern that a registration derives is among those of its domain. -/
theorem exists_mem_routesOf {rs : List Registration} {g : Registration} {r : Route} (hg : g ∈ rs)
    (hr : r ∈ g.routes) (hdomain : Text.foldCase g.domain = Text.foldCase domain) :
    ∃ other ∈ (compile rs).routesOf domain, other.pattern.text = r.pattern.text := by
  have hsome : (lastRoute? (rs.flatMap Registration.routes) domain r.pattern.text).isSome := by
    rw [lastRoute?, List.find?_isSome]
    refine ⟨r, by simpa using ⟨g, hg, hr⟩, ?_⟩
    rw [(Registration.mem_routes.1 hr).2.1]
    simp [Registration.entry, hdomain]
  obtain ⟨other, hother⟩ := Option.isSome_iff_exists.1 hsome
  have htext := List.find?_some hother
  simp only [Bool.and_eq_true, beq_iff_eq] at htext
  refine ⟨other, ?_, htext.2⟩
  rw [mem_routesOf (keyed_compile rs), htext.2, route?_compile]
  exact hother

end RouteTable
end EgressAuth.Endpoint
