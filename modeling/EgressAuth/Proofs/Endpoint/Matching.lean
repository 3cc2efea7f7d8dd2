/-
  EgressAuth.Proofs.Endpoint.Matching

  What a pattern matches, as a relation with one rule for every kind of
  character (`Glob.Matches`). The matcher decides it (`accepts_iff_matches`);
  the proof goes through the recursion that tries all lengths for every star.
-/
import EgressAuth.Endpoint.Pattern

namespace EgressAuth.Endpoint

namespace Glob

/-- A star matches a run of characters without a break, any other character matches itself. -/
inductive Matches : List Char → List Char → Prop
  | nil : Matches [] []
  | literal {c : Char} {p s : List Char} (hc : c ≠ star) (h : Matches p s) :
      Matches (c :: p) (c :: s)
  | wild {run p s : List Char} (hrun : ∀ c ∈ run, isBreak c = false) (h : Matches p s) :
      Matches (star :: p) (run ++ s)

theorem matches_nil_iff {s : List Char} : Matches [] s ↔ s = [] := by
  constructor
  · rintro ⟨⟩
    rfl
  · rintro rfl
    exact Matches.nil

theorem matches_literal_iff {c : Char} {p s : List Char} (hc : c ≠ star) :
    Matches (c :: p) s ↔ ∃ rest, s = c :: rest ∧ Matches p rest := by
  constructor
  · intro h
    cases h with
    | literal _ h => exact ⟨_, rfl, h⟩
    | wild => exact absurd rfl hc
  · rintro ⟨rest, rfl, h⟩
    exact Matches.literal hc h

theorem matches_star_iff {p s : List Char} :
    Matches (star :: p) s ↔
      ∃ run rest, s = run ++ rest ∧ (∀ c ∈ run, isBreak c = false) ∧ Matches p rest := by
  constructor
  · intro h
    cases h with
    | literal hstar => exact absurd rfl hstar
    | wild hrun h => exact ⟨_, _, rfl, hrun, h⟩
  · rintro ⟨run, rest, rfl, hrun, h⟩
    exact Matches.wild hrun h

/-- The recursion tries every run that a star may stand for. -/
theorem tryAll_iff {p s : List Char} :
    matchesBy.tryAll p s = true ↔
      ∃ run rest, s = run ++ rest ∧ (∀ c ∈ run, isBreak c = false) ∧
        matchesBy p rest = true := by
  induction s with
  | nil =>
      rw [matchesBy.tryAll]
      constructor
      · exact fun h => ⟨[], [], rfl, by simp, h⟩
      · rintro ⟨run, rest, hs, -, h⟩
        rw [(List.append_eq_nil_iff.1 hs.symm).2] at h
        exact h
  | cons d s ih =>
      rw [matchesBy.tryAll, Bool.or_eq_true, Bool.and_eq_true, ih, Bool.not_eq_true']
      constructor
      · rintro (h | ⟨hd, run, rest, rfl, hrun, h⟩)
        · exact ⟨[], d :: s, rfl, by simp, h⟩
        · exact ⟨d :: run, rest, rfl, List.forall_mem_cons.2 ⟨hd, hrun⟩, h⟩
      · rintro ⟨run, rest, hs, hrun, h⟩
        -- The star takes nothing, or it takes `d` and more.
        cases run with
        | nil =>
            rw [hs]
            exact Or.inl h
        | cons c run =>
            obtain ⟨rfl, rfl⟩ := List.cons_eq_cons.1 hs
            obtain ⟨hd, hrun⟩ := List.forall_mem_cons.1 hrun
            exact Or.inr ⟨hd, run, rest, rfl, hrun, h⟩

theorem matchesBy_iff_matches {p s : List Char} : matchesBy p s = true ↔ Matches p s := by
  induction p generalizing s with
  | nil => rw [matchesBy, List.isEmpty_iff, matches_nil_iff]
  | cons c p ih =>
      by_cases hc : c = star
      · rw [hc, matchesBy_star, tryAll_iff, matches_star_iff]
        simp only [ih]
      · rw [matches_literal_iff hc]
        cases s with
        | nil => simp [matchesBy, hc]
        | cons d s =>
            rw [matchesBy, if_neg hc, Bool.and_eq_true, beq_iff_eq, ih]
            constructor
            · rintro ⟨rfl, h⟩
              exact ⟨s, rfl, h⟩
            · rintro ⟨rest, heq, h⟩
              obtain ⟨rfl, rfl⟩ := List.cons_eq_cons.1 heq
              exact ⟨rfl, h⟩

/-- The matcher decides what a pattern matches. -/
theorem accepts_iff_matches {p s : List Char} : accepts p s = true ↔ Matches p s := by
  rw [accepts_eq_matchesBy, matchesBy_iff_matches]

end Glob

theorem PathPattern.accepts_iff {p : PathPattern} {path : String} :
    p.accepts path = true ↔ Glob.Matches p.text.toList path.toList :=
  Glob.accepts_iff_matches

end EgressAuth.Endpoint
