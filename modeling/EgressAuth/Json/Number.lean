/-
  EgressAuth.Json.Number

  Number literals. `Numeral` is the literal as written; its value is an
  integer where it has neither point nor exponent and fits into 64 bits, and a
  floating-point number otherwise. Minus zero is no integer.
-/
import EgressAuth.Decimal.Binary64
import EgressAuth.Json.Reader

namespace EgressAuth.Json

open Decimal

/-- A number literal as written. Absent parts are empty. -/
structure Numeral where
  negative : Bool
  whole : Bytes
  fraction : Bytes
  exponentNegative : Bool
  exponent : Bytes
  deriving DecidableEq, Repr

/-- A number as it is understood. -/
inductive Number where
  | int (i : Int)
  | float (x : Binary64)
  deriving DecidableEq, Repr

/-! ## Reading literals -/

/-- The digits at the head of a text and what follows them. -/
def splitDigits (s : Bytes) : Bytes × Bytes := (s.takeWhile isDigit, s.dropWhile isDigit)

theorem splitDigits_append (s : Bytes) : (splitDigits s).1 ++ (splitDigits s).2 = s :=
  List.takeWhile_append_dropWhile

theorem length_splitDigits_snd (s : Bytes) :
    (splitDigits s).2.length + (splitDigits s).1.length = s.length := by
  have h := congrArg List.length (splitDigits_append s)
  simp at h
  omega

/-- The sign, if there is one. -/
def takeMinus (s : Bytes) : Bool × Bytes :=
  match s with
  | b :: t => if b = 0x2D then (true, t) else (false, s)
  | [] => (false, [])

/-- The digits after a point: none if there is no point, nothing valid if no digit follows it. -/
def takeFraction (s : Bytes) : Option (Bytes × Bytes) :=
  match s with
  | b :: t =>
    if b = 0x2E then
      if (splitDigits t).1.isEmpty then none else some (splitDigits t)
    else some ([], s)
  | [] => some ([], [])

/-- The sign and digits after an `e` or `E`: none if there is no such letter. -/
def takeExponent (s : Bytes) : Option (Bool × Bytes × Bytes) :=
  match s with
  | b :: t =>
    if b = 0x65 ∨ b = 0x45 then
      -- The sign is minus, plus or left out.
      let (negative, t) := match t with
        | c :: t' => if c = 0x2D then (true, t') else if c = 0x2B then (false, t') else (false, t)
        | [] => (false, [])
      if (splitDigits t).1.isEmpty then none else some (negative, splitDigits t)
    else some (false, [], s)
  | [] => some (false, [], [])

/-- Reads a literal: no leading zeros, at least one digit in every part that is there. -/
def numeral? (s : Bytes) : Option (Numeral × Bytes) :=
  let (negative, s) := takeMinus s
  let (whole, s) := splitDigits s
  if whole.isEmpty ∨ (whole.head? = some 0x30 ∧ 1 < whole.length) then none
  else match takeFraction s with
    | none => none
    | some (fraction, s) => match takeExponent s with
      | none => none
      | some (exponentNegative, exponent, s) =>
        some (⟨negative, whole, fraction, exponentNegative, exponent⟩, s)

theorem length_takeMinus_le (s : Bytes) : (takeMinus s).2.length ≤ s.length := by
  unfold takeMinus
  split
  · split <;> simp
  · simp

theorem length_le_of_takeFraction {s ds r : Bytes} (h : takeFraction s = some (ds, r)) :
    r.length ≤ s.length := by
  unfold takeFraction at h
  split at h
  · rename_i b t
    have := length_splitDigits_snd t
    split at h
    · split at h
      · cases h
      · have h := Option.some.inj h
        rw [h] at this
        simp only [List.length_cons] at this ⊢
        omega
    · cases h; simp
  · cases h; simp

theorem length_le_of_takeExponent {s ds r : Bytes} {n : Bool}
    (h : takeExponent s = some (n, ds, r)) : r.length ≤ s.length := by
  unfold takeExponent at h
  split at h
  · rename_i b t
    split at h
    · split at h
      rename_i negative t' e
      have hle : t'.length ≤ t.length := by
        split at e
        · split at e
          · cases e; simp
          · split at e <;> cases e <;> simp
        · cases e; simp
      have := length_splitDigits_snd t'
      split at h
      · cases h
      · have h := (Prod.mk.inj (Option.some.inj h)).2
        rw [h] at this
        simp only [List.length_cons] at this ⊢
        omega
    · cases h; simp
  · cases h; simp

/-- Number literals. -/
def Reader.numeral : Reader Numeral where
  run := numeral?
  run_lt {s n r} h := by
    unfold numeral? at h
    have hm := length_takeMinus_le s
    have hd := length_splitDigits_snd (takeMinus s).2
    split at h
    rename_i negative s₁ e₁
    split at h
    rename_i whole s₂ e₂
    split at h
    · cases h
    · rename_i hw
      split at h
      · cases h
      · rename_i fraction s₃ e₃
        split at h
        · cases h
        · rename_i en ex s₄ e₄
          cases h
          have h₃ := length_le_of_takeFraction e₃
          have h₄ := length_le_of_takeExponent e₄
          have hw' : 0 < whole.length := by
            rw [List.length_pos_iff]
            intro hnil
            exact hw (Or.inl (by simp [hnil]))
          rw [e₁] at hm hd
          simp only at hm hd
          rw [e₂] at hd
          simp only at hd
          omega

/-! ## The value of a literal -/

/-- The integer of a literal without point and exponent, if it fits into 64 bits. -/
def Numeral.int? (n : Numeral) : Option Int :=
  if n.fraction.isEmpty ∧ n.exponent.isEmpty then
    -- The bounds are those of signed words below zero and of unsigned ones above.
    let m : Int := ofDigits n.whole
    if n.negative then (if 0 < m ∧ Int64.minValue.toInt ≤ -m then some (-m) else none)
    else if m < UInt64.size then some m
    else none
  else none

/-- The value of a literal; a literal too large for floating point has none. -/
def Numeral.value? (n : Numeral) : Option Number :=
  match n.int? with
  | some i => some (.int i)
  | none =>
    let e : Int := ofDigits n.exponent
    (Binary64.ofLiteral? n.negative n.whole n.fraction (if n.exponentNegative then -e else e)).map
      .float

def Reader.number : Reader Number := Reader.numeral.filterMap Numeral.value?

/-- Integers between `low` and `high`. -/
def Reader.intIn (low high : Int) : Reader Int :=
  Reader.number.filterMap fun
    | .int i => if low ≤ i ∧ i ≤ high then some i else none
    | .float _ => none

end EgressAuth.Json
