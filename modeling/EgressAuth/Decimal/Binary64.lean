/-
  EgressAuth.Decimal.Binary64

  Finite numbers of 64-bit binary floating point, in exact integer arithmetic:
  rounding of quotients to the nearest such number, and the number that a
  decimal literal denotes.

  A literal is read in three steps, each of which rounds on its own: the digits
  that fit into 64 bits, the power of ten, and their product or quotient. The
  number so read may differ from the one nearest to the literal in its last
  bit. A literal too large for the format denotes nothing.
-/
import EgressAuth.Decimal.Digits

namespace EgressAuth.Decimal

/-- The number `mantissa * 2 ^ exponent`, or its negative. -/
structure Binary64 where
  negative : Bool
  mantissa : Nat
  exponent : Int
  deriving DecidableEq, Repr

/-- An unsigned number `mantissa * 2 ^ exponent`. -/
structure Magnitude where
  mantissa : Nat
  exponent : Int
  deriving DecidableEq, Repr

namespace Magnitude

def zero : Magnitude := ⟨0, 0⟩

/-- The least exponent of the format. -/
def minExponent : Int := -1074

/-- The greatest exponent that a mantissa of 53 bits may have. -/
def maxExponent : Int := 971

/-- The least mantissa of 53 bits. -/
def leastFull : Nat := 1 <<< 52

/-- The least number that does not fit into a mantissa of 53 bits. -/
def mantissaLimit : Nat := 1 <<< 53

/-- The numerator and denominator of `num / den / 2 ^ e`. -/
def unscale (num den : Nat) (e : Int) : Nat × Nat :=
  if 0 ≤ e then (num, den <<< e.toNat) else (num <<< (-e).toNat, den)

/-- The natural number nearest to a quotient; of two equally near ones the even one. -/
def nearest (num den : Nat) : Nat :=
  let q := num / den
  let twice := 2 * (num % den)
  if den < twice ∨ (twice = den ∧ q % 2 = 1) then q + 1 else q

/-- The number of the format nearest to `num / den`, if that is not too large for it. -/
def round? (num den : Nat) : Option Magnitude :=
  if num = 0 then some zero
  else
    -- Scaled by this exponent the quotient has 53 or 54 bits before the point.
    let low : Int := (Nat.log2 num : Int) - Nat.log2 den - 53
    let (n, d) := unscale num den low
    let fitted := if n / d < mantissaLimit then low else low + 1
    let e := max fitted minExponent
    let (n, d) := unscale num den e
    -- Rounding up may carry into one bit more.
    let m := nearest n d
    let result : Magnitude := if m < mantissaLimit then ⟨m, e⟩ else ⟨m / 2, e + 1⟩
    if result.exponent ≤ maxExponent then some result else none

/-- The number as a fraction. -/
def fraction (x : Magnitude) : Nat × Nat :=
  if 0 ≤ x.exponent then (x.mantissa <<< x.exponent.toNat, 1)
  else (x.mantissa, 1 <<< (-x.exponent).toNat)

/-- The rounded product. -/
def mul? (x y : Magnitude) : Option Magnitude :=
  round? (x.fraction.1 * y.fraction.1) (x.fraction.2 * y.fraction.2)

/-- The rounded quotient by a number other than zero. -/
def div? (x y : Magnitude) : Option Magnitude :=
  round? (x.fraction.1 * y.fraction.2) (x.fraction.2 * y.fraction.1)

/-- The power of ten `10 ^ k`, rounded. -/
def ten? (k : Nat) : Option Magnitude := round? (tenTo k) 1

/-- The exponent of the greatest power of ten in the format. -/
def maxTen : Nat := 308

/-- The number divided by `10 ^ maxTen` as often as told, unless it vanishes before. -/
def divMaxTen? (x : Magnitude) : Nat → Option Magnitude
  | 0 => some x
  | times + 1 =>
    if x.mantissa = 0 then some x
    else do
      let y ← div? x (← ten? maxTen)
      y.divMaxTen? times

/-- The number `x / 10 ^ k`, one greatest power of ten at a time. -/
def divTen? (x : Magnitude) (k : Nat) : Option Magnitude := do
  let times := (k - 1) / maxTen
  let y ← x.divMaxTen? times
  if y.mantissa = 0 then return y
  div? y (← ten? (k - maxTen * times))

/-- The number `x * 10 ^ k`; nothing if it is too large. -/
def mulTen? (x : Magnitude) (k : Nat) : Option Magnitude :=
  if k ≤ maxTen then do mul? x (← ten? k)
  else if x.mantissa = 0 then some x
  else none

end Magnitude

/-! ## Decimal literals -/

/-- The leading digits that keep the number within 64 bits, joined to `n`, and how many are left. -/
def absorbDigits : Nat → Bytes → Nat × Nat
  | n, [] => (n, 0)
  | n, d :: ds =>
    if 10 * n + digitValue d < UInt64.size then absorbDigits (10 * n + digitValue d) ds
    else (n, ds.length + 1)

namespace Binary64

/-- The number denoted by a literal with these digits before and after the point and this
exponent. -/
def ofLiteral? (negative : Bool) (whole fraction : Bytes) (exponent : Int) : Option Binary64 := do
  let (n, left) := absorbDigits 0 whole
  let (n, ignored) := absorbDigits n fraction
  -- Digits that no longer fit count as zeros, those behind the point not at all.
  let e : Int := left - (fraction.length - ignored : Nat) + exponent
  let start ← Magnitude.round? n 1
  let x ← if 0 ≤ e then start.mulTen? e.toNat else start.divTen? (-e).toNat
  return ⟨negative, x.mantissa, x.exponent⟩

def magnitude (x : Binary64) : Magnitude := ⟨x.mantissa, x.exponent⟩

/-- The nearest natural number, zero for negative numbers; a half goes up. -/
def roundToNat (x : Binary64) : Nat :=
  if x.negative then 0
  else
    let (n, d) := x.magnitude.fraction
    (2 * n + d) / (2 * d)

end Binary64
end EgressAuth.Decimal
