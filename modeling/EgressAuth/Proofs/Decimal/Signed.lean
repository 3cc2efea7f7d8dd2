/-
  EgressAuth.Proofs.Decimal.Signed

  Which texts spell an integer: one or more digits behind an optional sign
  (`int?_eq_some_iff`), the digits worth powers of ten from the last to the
  first.
-/
import EgressAuth.Decimal.Digits
import Mathlib.Data.Nat.Digits.Defs

namespace EgressAuth.Decimal

/-- The number that decimal digits spell, the last one worth one. -/
def value (ds : List Char) : Nat :=
  Nat.ofDigits 10 (ds.reverse.map fun d => d.toNat - '0'.toNat)

/-- One or more digits. -/
def IsNumeral (ds : List Char) : Prop := ds ≠ [] ∧ ∀ d ∈ ds, d.isDigit = true

instance (ds : List Char) : Decidable (IsNumeral ds) :=
  inferInstanceAs (Decidable (_ ∧ _))

/-- A text spells an integer: digits, behind a sign or without one. -/
inductive Spells : List Char → Int → Prop
  | plain {ds : List Char} (hds : IsNumeral ds) : Spells ds (value ds)
  | plus {ds : List Char} (hds : IsNumeral ds) : Spells ('+' :: ds) (value ds)
  | minus {ds : List Char} (hds : IsNumeral ds) : Spells ('-' :: ds) (-value ds)

/-- The number that is read from digits, if there are any and nothing else. -/
def magnitude? (ds : List Char) : Option Nat := if IsNumeral ds then some (value ds) else none

theorem foldl_eq_value (ds : List Char) :
    ds.foldl (fun n d => 10 * n + (d.toNat - 0x30)) 0 = value ds := by
  rw [value, Nat.ofDigits_eq_foldr, List.foldr_map, List.foldr_reverse]
  congr 1
  funext n d
  exact Nat.add_comm _ _

theorem int?_eq (cs : List Char) :
    int? cs = match cs with
      | '+' :: ds => (magnitude? ds).map Int.ofNat
      | '-' :: ds => (magnitude? ds).map fun n => -Int.ofNat n
      | ds => (magnitude? ds).map Int.ofNat := by
  have hmagnitude : magnitude? = fun ds => if ds.isEmpty then none
      else if ds.all Char.isDigit then some (ds.foldl (fun n d => 10 * n + (d.toNat - 0x30)) 0)
      else none := by
    funext ds
    rw [foldl_eq_value, magnitude?]
    by_cases hempty : ds = []
    · rw [if_neg fun h => h.1 hempty, if_pos (by simp [hempty])]
    · have hfull : ¬ds.isEmpty = true := by simpa using hempty
      rw [if_neg hfull]
      refine if_congr ?_ rfl rfl
      rw [List.all_eq_true, IsNumeral, and_iff_right hempty]
  rw [hmagnitude]
  rfl

theorem map_magnitude?_eq_some_iff {ds : List Char} {f : Nat → Int} {i : Int} :
    (magnitude? ds).map f = some i ↔ IsNumeral ds ∧ i = f (value ds) := by
  unfold magnitude?
  split
  · rename_i h
    rw [Option.map_some, Option.some_inj, and_iff_right h, eq_comm]
  · rename_i h
    simp [h]

/-- An integer is read from exactly the texts that spell it. -/
theorem int?_eq_some_iff {cs : List Char} {i : Int} : int? cs = some i ↔ Spells cs i := by
  rw [int?_eq]
  constructor
  · intro h
    split at h
    · obtain ⟨hds, rfl⟩ := map_magnitude?_eq_some_iff.1 h
      exact Spells.plus hds
    · obtain ⟨hds, rfl⟩ := map_magnitude?_eq_some_iff.1 h
      exact Spells.minus hds
    · obtain ⟨hds, rfl⟩ := map_magnitude?_eq_some_iff.1 h
      exact Spells.plain hds
  · intro h
    cases h with
    | plus hds => exact map_magnitude?_eq_some_iff.2 ⟨hds, rfl⟩
    | minus hds => exact map_magnitude?_eq_some_iff.2 ⟨hds, rfl⟩
    | plain hds =>
        -- A sign is no digit.
        split
        · exact absurd (hds.2 '+' List.mem_cons_self) (by decide)
        · exact absurd (hds.2 '-' List.mem_cons_self) (by decide)
        · exact map_magnitude?_eq_some_iff.2 ⟨hds, rfl⟩

end EgressAuth.Decimal
