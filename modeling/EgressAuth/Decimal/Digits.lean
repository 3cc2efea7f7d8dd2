/-
  EgressAuth.Decimal.Digits

  Decimal digits of natural numbers, and the reading of signed decimal
  integers. Reading the digits of a number gives the number (`ofDigits_digits`).
-/
import EgressAuth.Text.Bytes

namespace EgressAuth.Decimal

def isDigit (b : UInt8) : Bool := 0x30 ≤ b && b ≤ 0x39

/-- The number that a digit stands for. -/
def digitValue (b : UInt8) : Nat := b.toNat - 0x30

/-- The decimal digits of `n`, without leading zeros. -/
def digits (n : Nat) : Bytes :=
  if n < 10 then [UInt8.ofNat (0x30 + n)]
  else digits (n / 10) ++ [UInt8.ofNat (0x30 + n % 10)]

/-- The power of ten with so many zeros. -/
def tenTo (k : Nat) : Nat := Nat.pow 10 k

/-- The number that digits spell, leading zeros allowed. -/
def ofDigits (ds : Bytes) : Nat := ds.foldl (fun n d => 10 * n + digitValue d) 0

theorem ofDigits_append_singleton (ds : Bytes) (d : UInt8) :
    ofDigits (ds ++ [d]) = 10 * ofDigits ds + digitValue d := by
  simp [ofDigits]

theorem toNat_digit {k : Nat} (h : k < 10) : (UInt8.ofNat (0x30 + k)).toNat = 0x30 + k := by
  simp; omega

theorem digitValue_digit {k : Nat} (h : k < 10) : digitValue (UInt8.ofNat (0x30 + k)) = k := by
  rw [digitValue, toNat_digit h]; omega

theorem isDigit_digit {k : Nat} (h : k < 10) : isDigit (UInt8.ofNat (0x30 + k)) = true := by
  have : k = 0 ∨ k = 1 ∨ k = 2 ∨ k = 3 ∨ k = 4 ∨ k = 5 ∨ k = 6 ∨ k = 7 ∨ k = 8 ∨ k = 9 := by omega
  rcases this with rfl | rfl | rfl | rfl | rfl | rfl | rfl | rfl | rfl | rfl <;> decide

@[simp] theorem ofDigits_digits (n : Nat) : ofDigits (digits n) = n := by
  induction n using digits.induct with
  | case1 n h =>
    rw [digits, if_pos h]
    show 10 * 0 + digitValue (UInt8.ofNat (0x30 + n)) = n
    rw [digitValue_digit h, Nat.mul_zero, Nat.zero_add]
  | case2 n h ih =>
    rw [digits, if_neg h, ofDigits_append_singleton, ih, digitValue_digit (by omega)]
    omega

theorem isDigit_of_mem_digits {n : Nat} {b : UInt8} (h : b ∈ digits n) : isDigit b = true := by
  induction n using digits.induct with
  | case1 n hn =>
    rw [digits, if_pos hn] at h
    rw [List.mem_singleton.1 h]
    exact isDigit_digit hn
  | case2 n hn ih =>
    rw [digits, if_neg hn, List.mem_append] at h
    rcases h with h | h
    · exact ih h
    · rw [List.mem_singleton.1 h]
      exact isDigit_digit (by omega)

theorem digits_ne_nil (n : Nat) : digits n ≠ [] := by
  rw [digits]
  split <;> simp

/-- Only the digits of zero begin with a zero. -/
theorem eq_zero_of_head?_digits {n : Nat} (h : (digits n).head? = some 0x30) : n = 0 := by
  induction n using digits.induct with
  | case1 n hn =>
    rw [digits, if_pos hn] at h
    have := congrArg UInt8.toNat (Option.some.inj h)
    rw [toNat_digit hn] at this
    have h30 : (0x30 : UInt8).toNat = 0x30 := rfl
    omega
  | case2 n hn ih =>
    obtain ⟨d, ds, hds⟩ := List.exists_cons_of_ne_nil (digits_ne_nil (n / 10))
    rw [digits, if_neg hn, hds] at h
    have := ih (by rw [hds]; exact h)
    omega

theorem digits_injective {n m : Nat} (h : digits n = digits m) : n = m := by
  have := congrArg ofDigits h
  simpa using this

def natText (n : Nat) : String := String.ofList ((digits n).map fun b => Char.ofNat b.toNat)

/-- Distinct bytes are distinct characters. -/
theorem charOfByte_injective {a b : UInt8} (h : Char.ofNat a.toNat = Char.ofNat b.toNat) :
    a = b := by
  have hn := congrArg Char.toNat h
  rw [Text.toNat_charOfByte, Text.toNat_charOfByte] at hn
  exact UInt8.toNat_inj.1 hn

theorem natText_injective {n m : Nat} (h : natText n = natText m) : n = m := by
  have hmap : (digits n).map (fun b => Char.ofNat b.toNat) =
      (digits m).map fun b => Char.ofNat b.toNat := by
    have := congrArg String.toList h
    simpa [natText] using this
  exact digits_injective ((List.map_inj_right fun _ _ => charOfByte_injective).1 hmap)

/-- The decimal text of an integer, a minus sign in front of negative ones. -/
def intText (i : Int) : String := if i < 0 then "-" ++ natText i.natAbs else natText i.natAbs

/-- The integer that a text spells: an optional sign and then one or more digits. -/
def int? (cs : List Char) : Option Int :=
  let magnitude (ds : List Char) : Option Nat :=
    if ds.isEmpty then none
    else if ds.all Char.isDigit then some (ds.foldl (fun n d => 10 * n + (d.toNat - 0x30)) 0)
    else none
  match cs with
  | '+' :: ds => (magnitude ds).map Int.ofNat
  | '-' :: ds => (magnitude ds).map fun n => -Int.ofNat n
  | ds => (magnitude ds).map Int.ofNat

end EgressAuth.Decimal
