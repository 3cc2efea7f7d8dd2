/-
  EgressAuth.Endpoint.Glob

  Glob patterns: a star stands for any run of characters other than line
  breaks, every other character for itself.

  The matcher works out, for one pattern character after the other from the
  last to the first, which suffixes of the path the rest of the pattern
  matches. `suffixAnswers_eq` says that this is the obvious recursion, applied
  to every suffix.
-/

namespace EgressAuth.Endpoint.Glob

/-- The character that stands for a run of others. -/
def star : Char := '*'

/-- The characters that a star does not cover. -/
def isBreak (c : Char) : Bool := c == '\n'

/-! ## Answers for all suffixes -/

/-- The answers for `c :: p` from the answers for `p`, when `c` stands for itself. -/
def stepLiteral (c : Char) : List Char → List Bool → List Bool
  | d :: s, _ :: b :: bs => (c == d && b) :: stepLiteral c s (b :: bs)
  | _, _ => [false]

/-- The answers for a star before `p` from the answers for `p`. -/
def stepStar : List Char → List Bool → List Bool
  | d :: s, b :: bs =>
    -- The star ends here, or it takes `d` and goes on.
    let rest := stepStar s bs
    (b || (!isBreak d && rest.headD false)) :: rest
  | _, bs => bs

/-- The answers for the empty pattern: only the empty suffix matches it. -/
def emptyAnswers : List Char → List Bool
  | [] => [true]
  | _ :: s => false :: emptyAnswers s

/-- For every suffix of the path, longest first, whether the pattern matches it. -/
def suffixAnswers (s : List Char) : List Char → List Bool
  | [] => emptyAnswers s
  | c :: p =>
    if c = star then stepStar s (suffixAnswers s p) else stepLiteral c s (suffixAnswers s p)

/-- Whether the pattern matches the path. Characters before the first star are compared one by
one. -/
def accepts : List Char → List Char → Bool
  | [], s => s.isEmpty
  | c :: p, s =>
    if c = star then (suffixAnswers s (c :: p)).headD false
    else match s with
      | [] => false
      | d :: s => c == d && accepts p s

/-! ## The obvious recursion -/

/-- Whether the pattern matches the path, by trying all lengths for every star. -/
def matchesBy : List Char → List Char → Bool
  | [], s => s.isEmpty
  | c :: p, s =>
    if c = star then tryAll p s
    else match s with
      | [] => false
      | d :: s => c == d && matchesBy p s
  termination_by p => (p.length, 0)
where
  /-- Whether the rest of the pattern matches after some run of the path that has no break. -/
  tryAll (p : List Char) : List Char → Bool
    | [] => matchesBy p []
    | d :: s => matchesBy p (d :: s) || (!isBreak d && tryAll p s)
  termination_by s => (p.length, s.length + 1)

theorem matchesBy_star (p s : List Char) : matchesBy (star :: p) s = matchesBy.tryAll p s := by
  cases s <;> simp [matchesBy]

/-- All suffixes of a list, longest first. -/
def suffixes : List Char → List (List Char)
  | [] => [[]]
  | d :: s => (d :: s) :: suffixes s

theorem suffixes_eq_cons (s : List Char) : ∃ rest, suffixes s = s :: rest := by
  cases s <;> exact ⟨_, rfl⟩

theorem emptyAnswers_eq (s : List Char) : emptyAnswers s = (suffixes s).map (matchesBy []) := by
  induction s with
  | nil => simp [emptyAnswers, suffixes, matchesBy]
  | cons d s ih => simp [emptyAnswers, suffixes, matchesBy, ih]

theorem stepStar_eq (p s : List Char) :
    stepStar s ((suffixes s).map (matchesBy p)) = (suffixes s).map (matchesBy (star :: p)) := by
  induction s with
  | nil => simp [stepStar, suffixes, matchesBy, matchesBy.tryAll]
  | cons d s ih =>
    obtain ⟨rest, hr⟩ := suffixes_eq_cons s
    have hhead : ((suffixes s).map (matchesBy (star :: p))).headD false =
        matchesBy (star :: p) s := by
      rw [hr]; rfl
    simp only [suffixes, List.map_cons, stepStar, ih, hhead]
    congr 1
    rw [matchesBy_star, matchesBy_star, matchesBy.tryAll]

theorem stepLiteral_eq {c : Char} (hc : c ≠ star) (p s : List Char) :
    stepLiteral c s ((suffixes s).map (matchesBy p)) = (suffixes s).map (matchesBy (c :: p)) := by
  induction s with
  | nil => simp [stepLiteral, suffixes, matchesBy, hc]
  | cons d s ih =>
    obtain ⟨rest, hr⟩ := suffixes_eq_cons s
    rw [hr] at ih
    simp only [suffixes, hr, List.map_cons, stepLiteral] at ih ⊢
    rw [ih]
    simp [matchesBy, hc]

/-- The answers for all suffixes are those of the obvious recursion. -/
theorem suffixAnswers_eq (p s : List Char) :
    suffixAnswers s p = (suffixes s).map (matchesBy p) := by
  induction p with
  | nil => exact emptyAnswers_eq s
  | cons c p ih =>
    unfold suffixAnswers
    split
    · rename_i hc
      rw [ih, hc, stepStar_eq]
    · rename_i hc
      rw [ih, stepLiteral_eq hc]

/-- The matcher agrees with the obvious recursion. -/
theorem accepts_eq_matchesBy (p s : List Char) : accepts p s = matchesBy p s := by
  induction p generalizing s with
  | nil => simp [accepts, matchesBy]
  | cons c p ih =>
    by_cases hc : c = star
    · obtain ⟨rest, hr⟩ := suffixes_eq_cons s
      have : accepts (c :: p) s = (suffixAnswers s (c :: p)).headD false := by
        cases s <;> simp [accepts, hc]
      rw [this, suffixAnswers_eq, hr]
      rfl
    · cases s <;> simp [accepts, matchesBy, hc, ih]

end EgressAuth.Endpoint.Glob
