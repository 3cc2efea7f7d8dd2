/-
  EgressAuth.Proofs.Text.Pieces

  Cutting and trimming said without the functions that do it. The pieces of a
  text are the one way to write it with separators between texts that have none
  (`pieces_eq_iff`), a cut is at the first separator if there is one
  (`cut_append`, `cut_of_notMem`), and a trimmed text is what is left between
  runs of the characters to be dropped (`trimBy_eq_iff`).
-/
import EgressAuth.Text.Blank
import EgressAuth.Text.Pieces
import Mathlib.Data.List.TakeWhile

namespace EgressAuth.Text

/-! ## Pieces -/

/-- The texts have no separator, and with separators between them they are `cs`. -/
structure ArePieces (sep : Char) (cs : List Char) (ps : List (List Char)) : Prop where
  nonempty : ps ≠ []
  apart : ∀ p ∈ ps, sep ∉ p
  joined : [sep].intercalate ps = cs

variable {sep c : Char} {cs : List Char} {ps : List (List Char)}

theorem pieces_sep (sep : Char) (cs : List Char) : pieces sep (sep :: cs) = [] :: pieces sep cs := by
  rw [pieces, if_pos rfl]

theorem pieces_cons (hc : c ≠ sep) {p : List Char} (h : pieces sep cs = p :: ps) :
    pieces sep (c :: cs) = (c :: p) :: ps := by
  rw [pieces, if_neg hc, h]

theorem arePieces_pieces (sep : Char) (cs : List Char) : ArePieces sep cs (pieces sep cs) := by
  induction cs with
  | nil => exact ⟨by simp [pieces], by simp [pieces], by simp [pieces]⟩
  | cons c cs ih =>
      obtain ⟨p, ps, hps⟩ := List.exists_cons_of_ne_nil ih.nonempty
      obtain ⟨-, hapart, hjoined⟩ := ih
      rw [hps] at hapart hjoined
      by_cases hc : c = sep
      · subst hc
        rw [pieces_sep, hps]
        refine ⟨by simp, List.forall_mem_cons.2 ⟨by simp, hapart⟩, ?_⟩
        rw [List.intercalate_cons_cons, hjoined]
        rfl
      · rw [pieces_cons hc hps]
        obtain ⟨hp, hapart⟩ := List.forall_mem_cons.1 hapart
        refine ⟨by simp, List.forall_mem_cons.2 ⟨by simp [Ne.symm hc, hp], hapart⟩, ?_⟩
        rw [← hjoined]
        -- The first piece takes `c` in front, whether there are others or not.
        cases ps with
        | nil => simp
        | cons q ps => simp [List.intercalate_cons_cons]

/-- Separators between texts that have none are found again. -/
theorem pieces_append {p : List Char} (hp : sep ∉ p) (rest : List Char) :
    pieces sep (p ++ sep :: rest) = p :: pieces sep rest := by
  induction p with
  | nil => exact pieces_sep sep rest
  | cons c p ih =>
      rw [List.mem_cons, not_or] at hp
      exact pieces_cons (Ne.symm hp.1) (ih hp.2)

theorem pieces_of_notMem {p : List Char} (hp : sep ∉ p) : pieces sep p = [p] := by
  induction p with
  | nil => rfl
  | cons c p ih =>
      rw [List.mem_cons, not_or] at hp
      exact pieces_cons (Ne.symm hp.1) (ih hp.2)

/-- A text has one list of pieces. -/
theorem pieces_eq_iff : pieces sep cs = ps ↔ ArePieces sep cs ps := by
  constructor
  · rintro rfl
    exact arePieces_pieces sep cs
  · rintro ⟨hnonempty, hapart, rfl⟩
    induction ps with
    | nil => exact absurd rfl hnonempty
    | cons p ps ih =>
        obtain ⟨hp, hapart⟩ := List.forall_mem_cons.1 hapart
        cases ps with
        | nil => rw [List.intercalate_singleton, pieces_of_notMem hp]
        | cons q ps =>
            have hrest : [sep].intercalate (p :: q :: ps) =
                p ++ sep :: [sep].intercalate (q :: ps) := by
              rw [List.intercalate_cons_cons]
              simp
            rw [hrest, pieces_append hp, ih (by simp) hapart]

/-! ## Cuts -/

theorem cut_of_notMem (hcs : sep ∉ cs) : cut sep cs = (cs, none) := by
  induction cs with
  | nil => rfl
  | cons c cs ih =>
      rw [List.mem_cons, not_or] at hcs
      rw [cut, if_neg (Ne.symm hcs.1), ih hcs.2]

theorem cut_append {before : List Char} (hbefore : sep ∉ before) (after : List Char) :
    cut sep (before ++ sep :: after) = (before, some after) := by
  induction before with
  | nil => rw [List.nil_append, cut, if_pos rfl]
  | cons c before ih =>
      rw [List.mem_cons, not_or] at hbefore
      rw [List.cons_append, cut, if_neg (Ne.symm hbefore.1), ih hbefore.2]

/-- What stands before the first separator does not change behind another one. -/
theorem cut_append_fst (sep : Char) (cs after : List Char) :
    (cut sep (cs ++ sep :: after)).1 = (cut sep cs).1 := by
  induction cs with
  | nil => simp [cut]
  | cons c cs ih =>
      rw [List.cons_append, cut, cut]
      split
      · rfl
      · rw [ih]

/-! ## Changed characters -/

section Changed

variable {f : Char → Char}

/-- A change that neither makes nor removes separators changes the pieces one by one. -/
theorem pieces_map (hf : ∀ c, f c = sep ↔ c = sep) (cs : List Char) :
    pieces sep (cs.map f) = (pieces sep cs).map (List.map f) := by
  induction cs with
  | nil => rfl
  | cons c cs ih =>
      rw [List.map_cons]
      by_cases hc : c = sep
      · subst hc
        rw [(hf c).2 rfl, pieces_sep, pieces_sep, ih]
        rfl
      · obtain ⟨p, ps, hps⟩ := List.exists_cons_of_ne_nil (pieces_ne_nil sep cs)
        rw [hps] at ih
        rw [pieces_cons hc hps, pieces_cons (fun h => hc ((hf c).1 h)) ih]
        rfl

theorem cut_map_fst (hf : ∀ c, f c = sep ↔ c = sep) (cs : List Char) :
    (cut sep (cs.map f)).1 = (cut sep cs).1.map f := by
  induction cs with
  | nil => rfl
  | cons c cs ih =>
      rw [List.map_cons, cut, cut]
      simp only [hf]
      split
      · rfl
      · rw [ih]
        rfl

end Changed

/-! ## Trimmed texts -/

/-- `mid` stands between two runs of characters to be dropped and neither begins nor ends with
one. -/
structure Trims (p : Char → Bool) (cs mid : List Char) : Prop where
  between : ∃ front back, cs = front ++ mid ++ back ∧ (∀ c ∈ front, p c = true) ∧
    ∀ c ∈ back, p c = true
  head : ∀ c ∈ mid.head?, p c = false
  last : ∀ c ∈ mid.getLast?, p c = false

theorem dropWhile_of_head {p : Char → Bool} (hcs : ∀ c ∈ cs.head?, p c = false) :
    cs.dropWhile p = cs := by
  cases cs with
  | nil => rfl
  | cons c cs => rw [List.dropWhile_cons, if_neg (by simpa using hcs c rfl)]

theorem head_dropWhile (p : Char → Bool) (cs : List Char) :
    ∀ c ∈ (cs.dropWhile p).head?, p c = false := by
  intro c hc
  have hhead := List.head?_dropWhile_not p cs
  rw [Option.mem_def.1 hc] at hhead
  simpa using hhead

theorem trims_trimBy (p : Char → Bool) (cs : List Char) : Trims p cs (trimBy p cs) := by
  let rest := cs.dropWhile p
  let back := (rest.reverse.takeWhile p).reverse
  have hrest : trimBy p cs ++ back = rest := by
    rw [trimBy, ← List.reverse_append, List.takeWhile_append_dropWhile, List.reverse_reverse]
  refine ⟨⟨cs.takeWhile p, back, ?_, fun c => List.mem_takeWhile_imp, ?_⟩, ?_, ?_⟩
  · rw [List.append_assoc, hrest, List.takeWhile_append_dropWhile]
  · intro c hc
    exact List.mem_takeWhile_imp (List.mem_reverse.1 hc)
  · intro c hc
    apply head_dropWhile p cs
    rw [show cs.dropWhile p = rest from rfl, ← hrest, List.head?_append, Option.mem_def.1 hc]
    rfl
  · rw [trimBy, List.getLast?_reverse]
    exact head_dropWhile p _

/-- A text is trimmed in one way. -/
theorem trimBy_eq_iff {p : Char → Bool} {mid : List Char} :
    trimBy p cs = mid ↔ Trims p cs mid := by
  constructor
  · rintro rfl
    exact trims_trimBy p cs
  · rintro ⟨⟨front, back, rfl, hfront, hback⟩, hhead, hlast⟩
    rw [trimBy, List.append_assoc, List.dropWhile_append_of_pos hfront]
    cases mid with
    | nil => rw [List.nil_append, List.dropWhile_eq_nil_iff.2 hback]; rfl
    | cons c mid =>
        -- The first run ends where `mid` begins, and the last one begins where it ends.
        have hfirst : (c :: mid ++ back).dropWhile p = c :: mid ++ back := dropWhile_of_head hhead
        rw [hfirst, List.reverse_append,
          List.dropWhile_append_of_pos fun c hc => hback c (List.mem_reverse.1 hc),
          dropWhile_of_head (by rwa [List.head?_reverse]), List.reverse_reverse]

end EgressAuth.Text
