/-
  EgressAuth.Proofs.Endpoint.Expression

  What a path pattern matches, said in two further ways. It is what comes from
  the pattern by putting a run of characters in the place of every star
  (`Glob.matches_iff_fill`). And it is where a regular expression is found, in
  which a star is written as a dot that is repeated, characters with a meaning
  of their own are escaped, and both ends are anchored
  (`Expression.finds_ofPattern_iff`).

  Of regular expressions only what such an expression is made of has a meaning
  here: anchors, and single characters that may be repeated.
-/
import EgressAuth.Proofs.Endpoint.Matching
import EgressAuth.Proofs.Endpoint.Table
import EgressAuth.Proofs.Text.Pieces

namespace EgressAuth.Endpoint

/-! ## Replacing the stars -/

namespace Glob

/-- The pattern with the runs in the places of its stars, in order. -/
def fill : List Char → List (List Char) → List Char
  | [], _ => []
  | c :: p, runs => if c = star then runs.headD [] ++ fill p runs.tail else c :: fill p runs

/-- The runs can be put in the places of the stars: one for each, and none of them with a line
break. -/
structure Fits (p : List Char) (runs : List (List Char)) : Prop where
  length_eq : runs.length = p.count star
  noBreak : ∀ run ∈ runs, '\n' ∉ run

section Fill

variable {c : Char} {p run : List Char} {runs : List (List Char)}

theorem fill_star : fill (star :: p) (run :: runs) = run ++ fill p runs := by
  rw [fill, if_pos rfl]
  rfl

theorem fill_literal (hc : c ≠ star) : fill (c :: p) runs = c :: fill p runs := by
  rw [fill, if_neg hc]

theorem noBreak_iff : (∀ c ∈ run, isBreak c = false) ↔ '\n' ∉ run := by
  simp only [isBreak, beq_eq_false_iff_ne]
  exact ⟨fun h hmem => h _ hmem rfl, fun h c hc e => h (e ▸ hc)⟩

theorem fits_star_iff : Fits (star :: p) runs ↔
    ∃ run rest, runs = run :: rest ∧ '\n' ∉ run ∧ Fits p rest := by
  constructor
  · rintro ⟨hlength, hbreak⟩
    rw [List.count_cons_self] at hlength
    obtain ⟨run, rest, rfl⟩ := List.exists_cons_of_length_eq_add_one hlength
    obtain ⟨hrun, hrest⟩ := List.forall_mem_cons.1 hbreak
    exact ⟨run, rest, rfl, hrun, by simpa using hlength, hrest⟩
  · rintro ⟨run, rest, rfl, hrun, hlength, hrest⟩
    exact ⟨by rw [List.length_cons, hlength, List.count_cons_self],
      List.forall_mem_cons.2 ⟨hrun, hrest⟩⟩

theorem fits_literal_iff (hc : c ≠ star) : Fits (c :: p) runs ↔ Fits p runs := by
  have hcount : (c :: p).count star = p.count star := List.count_cons_of_ne hc
  constructor
  · rintro ⟨hlength, hbreak⟩
    exact ⟨hlength.trans hcount, hbreak⟩
  · rintro ⟨hlength, hbreak⟩
    exact ⟨hlength.trans hcount.symm, hbreak⟩

end Fill

/-- A pattern matches what it is with some run in the place of every star. -/
theorem matches_iff_fill {p s : List Char} :
    Matches p s ↔ ∃ runs, Fits p runs ∧ fill p runs = s := by
  induction p generalizing s with
  | nil =>
      rw [matches_nil_iff]
      constructor
      · rintro rfl
        exact ⟨[], ⟨rfl, by simp⟩, rfl⟩
      · rintro ⟨runs, -, rfl⟩
        rfl
  | cons c p ih =>
      by_cases hc : c = star
      · subst hc
        -- The first run belongs to this star, the others to the stars behind it.
        rw [matches_star_iff]
        simp only [ih, noBreak_iff, fits_star_iff]
        constructor
        · rintro ⟨run, -, rfl, hrun, runs, hruns, rfl⟩
          exact ⟨run :: runs, ⟨run, runs, rfl, hrun, hruns⟩, fill_star⟩
        · rintro ⟨-, ⟨run, runs, rfl, hrun, hruns⟩, rfl⟩
          exact ⟨run, fill p runs, fill_star, hrun, runs, hruns, rfl⟩
      · rw [matches_literal_iff hc]
        simp only [ih, fits_literal_iff hc, fill_literal hc]
        constructor
        · rintro ⟨-, rfl, runs, hruns, rfl⟩
          exact ⟨runs, hruns, rfl⟩
        · rintro ⟨runs, hruns, rfl⟩
          exact ⟨_, rfl, runs, hruns, rfl⟩

end Glob

/-! ## Regular expressions -/

namespace Expression

/-- What a single character of the text is compared with. -/
inductive Atom where
  | any
  | char (c : Char)

/-- The parts of an expression: its anchors, and atoms for one character or for any number of
them. -/
inductive Item where
  | start
  | finish
  | one (a : Atom)
  | many (a : Atom)

/-- The characters with a meaning of their own. Behind a backslash they stand for themselves. -/
def specials : List Char :=
  ['\\', '.', '+', '*', '?', '(', ')', '|', '[', ']', '{', '}', '^', '$', '#', '&', '-', '~']

/-- Takes an atom off an expression. -/
def atom? : List Char → Option (Atom × List Char)
  | [] => none
  | c :: e =>
    if c = '.' then some (.any, e)
    else if c = '\\' then
      match e with
      | d :: e => if d ∈ specials then some (.char d, e) else none
      | [] => none
    else if c ∈ specials then none
    else some (.char c, e)

/-- Takes an item off an expression: an anchor, or an atom with the star behind it if there is
one. -/
def item? : List Char → Option (Item × List Char)
  | [] => none
  | c :: e =>
    if c = '^' then some (.start, e)
    else if c = '$' then some (.finish, e)
    else (atom? (c :: e)).map fun (a, rest) =>
      match rest with
      | d :: after => if d = '*' then (.many a, after) else (.one a, d :: after)
      | [] => (.one a, [])

/-- The expression is made of these items. -/
inductive Spells : List Char → List Item → Prop
  | nil : Spells [] []
  | cons {e rest : List Char} {i : Item} {is : List Item} (hi : item? e = some (i, rest))
      (his : Spells rest is) : Spells e (i :: is)

/-- The characters that an atom stands for. -/
def Atom.Covers : Atom → Char → Prop
  | any, c => c ≠ '\n'
  | char d, c => c = d

/-- Behind `before`, the items take a beginning of the text ahead. -/
inductive Takes : List Item → List Char → List Char → Prop
  | nil {before ahead : List Char} : Takes [] before ahead
  | start {is : List Item} {ahead : List Char} (h : Takes is [] ahead) :
      Takes (.start :: is) [] ahead
  | finish {is : List Item} {before : List Char} (h : Takes is before []) :
      Takes (.finish :: is) before []
  | one {a : Atom} {is : List Item} {c : Char} {before ahead : List Char} (hc : a.Covers c)
      (h : Takes is (before ++ [c]) ahead) : Takes (.one a :: is) before (c :: ahead)
  | many {a : Atom} {is : List Item} {run before ahead : List Char}
      (hrun : ∀ c ∈ run, a.Covers c) (h : Takes is (before ++ run) ahead) :
      Takes (.many a :: is) before (run ++ ahead)

/-- The expression is found somewhere in the text. -/
def Finds (e text : List Char) : Prop :=
  ∃ is before ahead, Spells e is ∧ text = before ++ ahead ∧ Takes is before ahead

theorem Spells.unique {e : List Char} {is js : List Item} (h : Spells e is) (h' : Spells e js) :
    is = js := by
  induction h generalizing js with
  | nil =>
      cases h' with
      | nil => rfl
      | cons hi _ => cases hi
  | cons hi _ ih =>
      cases h' with
      | nil => cases hi
      | cons hj hjs =>
          rw [hi] at hj
          cases hj
          rw [ih hjs]

/-! ## The expression of a pattern -/

/-- A character, escaped if it has a meaning of its own. -/
def escape (c : Char) : List Char := if c ∈ specials then ['\\', c] else [c]

/-- The expression of a pattern: the pieces between its stars, escaped, with repeated dots between
them and anchors around them. -/
def ofPattern (p : List Char) : List Char :=
  '^' :: (['.', '*'].intercalate ((Text.pieces Glob.star p).map (List.flatMap escape)) ++ ['$'])

/-- What a character of the pattern becomes. -/
def written (c : Char) : List Char := if c = Glob.star then ['.', '*'] else escape c

/-- The item that a character of the pattern becomes. -/
def itemOf (c : Char) : Item := if c = Glob.star then .many .any else .one (.char c)

section Pattern

variable {c : Char} {p : List Char}

theorem written_literal (hc : c ≠ Glob.star) : written c = escape c := if_neg hc

theorem itemOf_literal (hc : c ≠ Glob.star) : itemOf c = .one (.char c) := if_neg hc

/-- Cutting at the stars and joining again goes over the pattern character by character. -/
theorem intercalate_pieces (p : List Char) :
    ['.', '*'].intercalate ((Text.pieces Glob.star p).map (List.flatMap escape)) =
      p.flatMap written := by
  induction p with
  | nil => rfl
  | cons c p ih =>
      obtain ⟨q, qs, hqs⟩ := List.exists_cons_of_ne_nil (Text.pieces_ne_nil Glob.star p)
      rw [hqs] at ih
      by_cases hc : c = Glob.star
      · subst hc
        rw [Text.pieces_sep, hqs, List.flatMap_cons, ← ih]
        rfl
      · rw [Text.pieces_cons hc hqs, List.flatMap_cons, ← ih, written_literal hc]
        -- The first piece takes `c` in front, whether there are others or not.
        cases qs with
        | nil => simp
        | cons r qs => simp [List.intercalate_cons_cons]

/-- Nothing that comes from a pattern begins with a star that is not escaped. -/
theorem head?_written_ne_star (p : List Char) : (p.flatMap written ++ ['$']).head? ≠ some '*' := by
  cases p with
  | nil => decide
  | cons c p =>
      rw [List.flatMap_cons]
      by_cases hc : c = Glob.star
      · rw [written, if_pos hc]
        simp
      · rw [written_literal hc, escape]
        split
        · simp
        · exact fun e => hc (Option.some.inj e)

theorem atom?_escape (c : Char) (rest : List Char) :
    atom? (escape c ++ rest) = some (.char c, rest) := by
  unfold escape
  split
  · rename_i hc
    show (if c ∈ specials then some (Atom.char c, rest) else none) = _
    rw [if_pos hc]
  · rename_i hc
    have hne {d : Char} (hd : d ∈ specials) : c ≠ d := by
      rintro rfl
      exact hc hd
    simp only [List.singleton_append, atom?, if_neg (hne (d := '.') (by decide)),
      if_neg (hne (d := '\\') (by decide)), if_neg hc]

/-- An escaped character is one item, unless a star follows. -/
theorem item?_escape (c : Char) {rest : List Char} (hrest : rest.head? ≠ some '*') :
    item? (escape c ++ rest) = some (.one (.char c), rest) := by
  obtain ⟨d, e, hd, hanchor⟩ : ∃ d e, escape c ++ rest = d :: e ∧ d ≠ '^' ∧ d ≠ '$' := by
    unfold escape
    split
    · exact ⟨_, _, rfl, by decide, by decide⟩
    · rename_i hc
      refine ⟨_, _, rfl, ?_, ?_⟩
      · rintro rfl
        exact hc (by decide)
      · rintro rfl
        exact hc (by decide)
  have hatom := atom?_escape c rest
  rw [hd] at hatom ⊢
  rw [item?, if_neg hanchor.1, if_neg hanchor.2, hatom]
  cases rest with
  | nil => rfl
  | cons b rest =>
      have hb : b ≠ '*' := fun e => hrest (congrArg some e)
      simp [hb]

/-- The expression of a pattern has one item for every character, between its anchors. -/
theorem spells_ofPattern (p : List Char) :
    Spells (ofPattern p) (.start :: (p.map itemOf ++ [.finish])) := by
  have hinner : Spells (p.flatMap written ++ ['$']) (p.map itemOf ++ [.finish]) := by
    induction p with
    | nil => exact .cons rfl .nil
    | cons c p ih =>
        rw [List.flatMap_cons, List.append_assoc]
        by_cases hc : c = Glob.star
        · subst hc
          exact .cons rfl ih
        · rw [written_literal hc, List.map_cons, itemOf_literal hc]
          exact .cons (item?_escape c (head?_written_ne_star p)) ih
  rw [ofPattern, intercalate_pieces]
  exact .cons rfl hinner

/-- The items take what the pattern matches, and no less than all that is ahead. -/
theorem takes_iff_matches {before ahead : List Char} :
    Takes (p.map itemOf ++ [.finish]) before ahead ↔ Glob.Matches p ahead := by
  induction p generalizing before ahead with
  | nil =>
      rw [Glob.matches_nil_iff]
      constructor
      · rintro ⟨⟩
        rfl
      · rintro rfl
        exact .finish .nil
  | cons c p ih =>
      rw [List.map_cons, List.cons_append]
      by_cases hc : c = Glob.star
      · subst hc
        constructor
        · rintro ⟨⟩
          rename_i run ahead hrun h
          exact .wild (fun c hc => beq_eq_false_iff_ne.2 (hrun c hc)) (ih.1 h)
        · intro h
          obtain ⟨run, rest, rfl, hrun, hrest⟩ := Glob.matches_star_iff.1 h
          exact .many (fun c hc => beq_eq_false_iff_ne.1 (hrun c hc)) (ih.2 hrest)
      · rw [itemOf_literal hc]
        constructor
        · rintro ⟨⟩
          rename_i d ahead hd h
          have hd : d = c := hd
          rw [hd]
          exact .literal hc (ih.1 h)
        · intro h
          obtain ⟨rest, rfl, hrest⟩ := (Glob.matches_literal_iff hc).1 h
          exact .one rfl (ih.2 hrest)

/-- The expression of a pattern is found where the pattern matches the whole text. -/
theorem finds_ofPattern_iff {text : List Char} :
    Finds (ofPattern p) text ↔ Glob.Matches p text := by
  constructor
  · rintro ⟨is, before, ahead, hspells, rfl, htakes⟩
    -- An expression is read in one way, and its first item keeps anything from standing before.
    rw [hspells.unique (spells_ofPattern p)] at htakes
    cases htakes with
    | start h => exact takes_iff_matches.1 h
  · intro h
    exact ⟨_, [], text, spells_ofPattern p, rfl, .start (takes_iff_matches.2 h)⟩

end Pattern

end Expression

/-! ## Main statement -/

namespace PathPattern

/-- A pattern accepts the paths that come from its text by putting a run of characters without a
line break in the place of every star, each chosen on its own, and leaving all other characters as
they are. These are the paths in which the expression of the pattern is found. -/
theorem accepts_iff_replaced {s : String} {p : PathPattern} (h : ofText? s = some p)
    (path : String) :
    (p.accepts path = true ↔
      ∃ runs, Glob.Fits s.toList runs ∧ Glob.fill s.toList runs = path.toList) ∧
    (p.accepts path = true ↔
      Expression.Finds (Expression.ofPattern s.toList) path.toList) := by
  obtain rfl : p.text = s := text_of_ofText? h
  rw [Expression.finds_ofPattern_iff, ← Glob.matches_iff_fill, accepts_iff]
  exact ⟨Iff.rfl, Iff.rfl⟩

/-- Parentheses, dots and plus signs are plain characters, two stars share what lies between them,
and a line break is covered by no star. -/
theorem accepts_iff_replaced_of_special_characters :
    ∃ p, ofText? "/(a.b)+**c" = some p ∧ p.accepts "/(a.b)+/x/c" = true ∧
      Expression.Finds (Expression.ofPattern "/(a.b)+**c".toList) "/(a.b)+/x/c".toList ∧
      ¬∃ runs, Glob.Fits "/(a.b)+**c".toList runs ∧
        Glob.fill "/(a.b)+**c".toList runs = "/(a.b)+\nc".toList := by
  have h : ofText? "/(a.b)+**c" = some ⟨"/(a.b)+**c", by decide⟩ := by decide
  have haccepts : accepts ⟨"/(a.b)+**c", by decide⟩ "/(a.b)+/x/c" = true :=
    (accepts_iff_replaced h _).1.2 ⟨["/x".toList, "/".toList], ⟨by decide, by decide⟩, by decide⟩
  refine ⟨_, h, haccepts, (accepts_iff_replaced h _).2.1 haccepts, fun hruns => ?_⟩
  exact absurd ((accepts_iff_replaced h _).1.2 hruns) (by decide)

end PathPattern
end EgressAuth.Endpoint
