/-
  EgressAuth.Proofs.Endpoint.Winner

  Which route wins. The scan of a domain's routes keeps the longest one that
  matches so far and lets a later one take over only if it is longer still. As
  the routes come in the order of their patterns, the winner is the first in
  that order among the longest (`wins_of_foldl`), and there is one as soon as
  any route matches (`find?_compile_eq_none_iff`).
-/
import EgressAuth.Proofs.Endpoint.Table
import Mathlib.Data.List.Induction

namespace EgressAuth.Endpoint.RouteTable

variable {routes : List Route} {rs : List Registration} {domain path : String} {r : Route}

/-- Of some routes, `r` is the longest that matches a path, and the first in order of equally long
ones. -/
structure Wins (routes : List Route) (path : String) (r : Route) : Prop where
  mem : r ∈ routes
  accepts : r.pattern.accepts path = true
  beats : ∀ other ∈ routes, other.pattern.accepts path = true →
    other.pattern.length < r.pattern.length ∨
      other.pattern.length = r.pattern.length ∧ r.pattern.text ≤ other.pattern.text

/-- A route takes over if it matches and is longer than the best one so far. -/
theorem better_eq (best : Option Route) :
    better path best r =
      if best.elim 0 (fun b => b.pattern.length) < r.pattern.length ∧
          r.pattern.accepts path = true then some r
      else best := by
  cases best <;> rfl

theorem better_eq_none_iff {best : Option Route} :
    better path best r = none ↔
      best = none ∧ (r.pattern.accepts path = true → r.pattern.length = 0) := by
  rw [better_eq]
  split
  · rename_i hover
    simp only [reduceCtorEq, false_iff, not_and]
    intro hnone h
    have := h hover.2
    omega
  · rename_i hover
    rw [iff_self_and]
    rintro rfl haccepts
    by_contra hlength
    exact hover ⟨Nat.pos_of_ne_zero hlength, haccepts⟩

/-- The scan finds none exactly if every route that matches has an empty pattern. -/
theorem foldl_better_eq_none_iff :
    routes.foldl (better path) none = none ↔
      ∀ r ∈ routes, r.pattern.accepts path = true → r.pattern.length = 0 := by
  induction routes using List.reverseRecOn with
  | nil => simp
  | append_singleton routes r ih =>
      rw [List.foldl_append, List.foldl_cons, List.foldl_nil, better_eq_none_iff, ih,
        List.forall_mem_append, List.forall_mem_singleton]

/-- What the scan finds is one of the routes. -/
theorem mem_of_foldl_better (h : routes.foldl (better path) none = some r) : r ∈ routes := by
  induction routes using List.reverseRecOn with
  | nil => cases h
  | append_singleton routes last ih =>
      rw [List.foldl_append, List.foldl_cons, List.foldl_nil, better_eq] at h
      split at h
      · cases h
        simp
      · exact List.mem_append_left _ (ih h)

/-- What the scan finds wins. -/
theorem wins_of_foldl (hsorted : routes.Pairwise fun a b => a.pattern.text < b.pattern.text)
    (h : routes.foldl (better path) none = some r) : Wins routes path r := by
  induction routes using List.reverseRecOn generalizing r with
  | nil => cases h
  | append_singleton routes last ih =>
      obtain ⟨hbefore, -, hlast⟩ := List.pairwise_append.1 hsorted
      rw [List.foldl_append, List.foldl_cons, List.foldl_nil, better_eq] at h
      split at h
      · -- The last route takes over: it is longer than the best one, so than all that match.
        rename_i hover
        obtain ⟨hlonger, haccepts⟩ := hover
        cases h
        refine ⟨by simp, haccepts, fun other hother hmatches => ?_⟩
        rcases List.mem_append.1 hother with hother | hother
        · left
          cases hb : routes.foldl (better path) none with
          | none =>
              rw [hb] at hlonger
              rw [foldl_better_eq_none_iff.1 hb other hother hmatches]
              exact hlonger
          | some b =>
              rw [hb] at hlonger
              have hbest : b.pattern.length < last.pattern.length := hlonger
              rcases (ih hbefore hb).beats other hother hmatches with hlt | ⟨heq, -⟩
              · omega
              · omega
        · rw [List.mem_singleton.1 hother]
          exact Or.inr ⟨rfl, String.le_refl _⟩
      · -- The best route stays: the last one does not match, is shorter or comes later.
        rename_i hover
        obtain ⟨hmem, haccepts, hbeats⟩ := ih hbefore h
        refine ⟨List.mem_append_left _ hmem, haccepts, fun other hother hmatches => ?_⟩
        rcases List.mem_append.1 hother with hother | hother
        · exact hbeats other hother hmatches
        · rw [List.mem_singleton.1 hother] at hmatches ⊢
          have hle : last.pattern.length ≤ r.pattern.length := by
            rw [h] at hover
            exact Nat.le_of_not_lt fun hlt => hover ⟨hlt, hmatches⟩
          have htext : r.pattern.text < last.pattern.text := hlast r hmem last (by simp)
          rcases Nat.lt_or_eq_of_le hle with hlt | heq
          · exact Or.inl hlt
          · exact Or.inr ⟨heq, String.not_lt.1 (String.lt_asymm htext)⟩

/-! ## Compiled tables -/

/-- A derived pattern is not empty. -/
theorem length_pos_of_mem_routes {g : Registration} (hr : r ∈ g.routes) :
    0 < r.pattern.length := by
  obtain ⟨hpath, -, htext⟩ := Registration.mem_routes.1 hr
  have hsize : g.path.utf8ByteSize ≠ 0 := by
    rw [Ne, String.utf8ByteSize_eq_zero_iff]
    exact hpath
  unfold PathPattern.length
  unfold Registration.patternTexts at htext
  split at htext
  · rw [List.mem_singleton.1 htext, String.utf8ByteSize_append]
    omega
  · simp only [List.mem_cons, List.not_mem_nil, or_false] at htext
    rcases htext with h | h
    · rw [h]
      omega
    · rw [h, String.utf8ByteSize_append]
      omega

theorem wins_of_find? (h : (compile rs).find? domain path = some r) :
    Wins ((compile rs).routesOf domain) path r := by
  rw [find?_eq_foldl] at h
  exact wins_of_foldl (routesOf_sorted (keyed_compile rs) domain) h

/-- No route of a domain wins exactly if none matches. -/
theorem find?_compile_eq_none_iff :
    (compile rs).find? domain path = none ↔
      ∀ r ∈ (compile rs).routesOf domain, r.pattern.accepts path = false := by
  rw [find?_eq_foldl, foldl_better_eq_none_iff]
  -- Derived patterns are not empty, so matching alone decides.
  refine forall_congr' fun r => forall_congr' fun hr => ?_
  obtain ⟨g, -, hgr, -⟩ := exists_registration hr
  have := length_pos_of_mem_routes hgr
  cases hb : r.pattern.accepts path with
  | false => simp
  | true =>
      simp only [forall_const, reduceCtorEq, iff_false]
      omega

end EgressAuth.Endpoint.RouteTable
