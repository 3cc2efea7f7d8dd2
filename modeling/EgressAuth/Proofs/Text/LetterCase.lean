/-
  EgressAuth.Proofs.Text.LetterCase

  What putting capitals in small letters does not change: whether a character
  is a letter (`isAlpha_toLower`), is a given sign (`toLower_eq_iff`) or belongs
  to a class that has all letters (`class_toLower`), and how a text is put
  together (`foldCase_append`).
-/
import EgressAuth.Text.Ascii

namespace EgressAuth.Text

/-! ## Characters -/

theorem isUpper_iff {c : Char} : c.isUpper = true ↔ 65 ≤ c.toNat ∧ c.toNat ≤ 90 :=
  decide_eq_true_iff

theorem isLower_iff {c : Char} : c.isLower = true ↔ 97 ≤ c.toNat ∧ c.toNat ≤ 122 :=
  Bool.and_eq_true_iff.trans (and_congr decide_eq_true_iff decide_eq_true_iff)

theorem isAlpha_of_isUpper {c : Char} (h : c.isUpper = true) : c.isAlpha = true :=
  Bool.or_eq_true_iff.2 (.inl h)

theorem toLower_of_not_isUpper {c : Char} (h : c.isUpper = false) : c.toLower = c :=
  dif_neg (of_decide_eq_false h)

/-- A small letter comes 32 places behind its capital. -/
theorem toNat_toLower {c : Char} (h : c.isUpper = true) : c.toLower.toNat = c.toNat + 32 := by
  have hval : c.toLower.val = c.val + 32 :=
    congrArg Char.val (dif_pos (of_decide_eq_true h))
  rw [← Char.toNat_val, ← Char.toNat_val, hval, UInt32.toNat_add]
  refine Nat.mod_eq_of_lt ?_
  have hhigh : c.val.toNat ≤ 90 := (isUpper_iff.1 h).2
  show c.val.toNat + 32 < 2 ^ 32
  omega

theorem isUpper_toLower (c : Char) : c.toLower.isUpper = false := by
  cases h : c.isUpper with
  | false => rw [toLower_of_not_isUpper h, h]
  | true =>
      obtain ⟨hlow, -⟩ := isUpper_iff.1 h
      rw [Bool.eq_false_iff, ne_eq, isUpper_iff, toNat_toLower h]
      omega

theorem isAlpha_toLower (c : Char) : c.toLower.isAlpha = c.isAlpha := by
  cases h : c.isUpper with
  | false => rw [toLower_of_not_isUpper h]
  | true =>
      have hlower : c.toLower.isLower = true := by
        obtain ⟨hlow, hhigh⟩ := isUpper_iff.1 h
        rw [isLower_iff, toNat_toLower h]
        omega
      rw [isAlpha_of_isUpper h]
      exact Bool.or_eq_true_iff.2 (.inr hlower)

/-- No letter becomes or stops being a sign. -/
theorem toLower_eq_iff {c sign : Char} (hsign : sign.isAlpha = false) :
    c.toLower = sign ↔ c = sign := by
  cases hc : c.isUpper with
  | false => rw [toLower_of_not_isUpper hc]
  | true =>
      have hne {x : Char} (hx : x.isAlpha = true) : x ≠ sign := by
        rintro rfl
        rw [hsign] at hx
        cases hx
      have hlower : c.toLower.isAlpha = true := by
        rw [isAlpha_toLower, isAlpha_of_isUpper hc]
      simp only [hne (isAlpha_of_isUpper hc), hne hlower]

/-- A class that has all letters does not tell their cases apart. -/
theorem class_toLower {p : Char → Bool} (hp : ∀ c, c.isAlpha = true → p c = true) (c : Char) :
    p c.toLower = p c := by
  cases hc : c.isUpper with
  | false => rw [toLower_of_not_isUpper hc]
  | true =>
      have hlower : c.toLower.isAlpha = true := by
        rw [isAlpha_toLower, isAlpha_of_isUpper hc]
      rw [hp c (isAlpha_of_isUpper hc), hp c.toLower hlower]

/-! ## Texts -/

theorem map_toLower_toLower (cs : List Char) :
    (cs.map Char.toLower).map Char.toLower = cs.map Char.toLower := by
  rw [List.map_map]
  refine List.map_congr_left fun c _ => ?_
  exact toLower_of_not_isUpper (isUpper_toLower c)

theorem toList_foldCase (s : String) : (foldCase s).toList = s.toList.map Char.toLower :=
  String.toList_ofList

theorem foldCase_ofList (cs : List Char) :
    foldCase (String.ofList cs) = String.ofList (cs.map Char.toLower) := by
  rw [foldCase, String.toList_ofList]

theorem foldCase_eq_empty_iff {s : String} : foldCase s = "" ↔ s = "" := by
  rw [← String.toList_eq_nil_iff, toList_foldCase, List.map_eq_nil_iff, String.toList_eq_nil_iff]

theorem foldCase_append (s t : String) : foldCase (s ++ t) = foldCase s ++ foldCase t := by
  apply String.toList_injective
  simp only [toList_foldCase, String.toList_append, List.map_append]

theorem sameLetters_iff {s t : String} : sameLetters s t = true ↔ foldCase s = foldCase t :=
  beq_iff_eq

end EgressAuth.Text
