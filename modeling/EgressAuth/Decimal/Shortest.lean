/-
  EgressAuth.Decimal.Shortest

  The decimal text of a floating-point number: the fewest digits that still
  lie among the reals which round to the number, of these the nearest ones
  and of two equally near the upper ones, always written positionally.
-/
import EgressAuth.Decimal.Binary64

namespace EgressAuth.Decimal

/-- A range of fractions over one denominator, with or without its ends. -/
structure Interval where
  low : Nat
  high : Nat
  den : Nat
  closed : Bool

namespace Interval

/-- Whether the fraction `n / d` lies in the range. -/
def holds (i : Interval) (n d : Nat) : Bool :=
  if i.closed then i.low * d ≤ n * i.den && n * i.den ≤ i.high * d
  else i.low * d < n * i.den && n * i.den < i.high * d

/-- The reals that round to `x`. -/
def around (x : Magnitude) : Interval :=
  let (n, d) := x.fraction
  let (unit, unitDen) := Magnitude.fraction ⟨1, x.exponent⟩
  -- Everything over four times the denominators: a quarter of a unit is the finest step needed.
  let centre := 4 * n * unitDen
  let quarter := unit * d
  let below :=
    if x.mantissa = Magnitude.leastFull ∧ Magnitude.minExponent < x.exponent then quarter
    else 2 * quarter
  ⟨centre - below, centre + 2 * quarter, 4 * d * unitDen, x.mantissa % 2 == 0⟩

end Interval

/-- The multiple of `10 ^ p` in the interval that is nearest to `n / d`, as its factor; of two
equally near ones the greater. -/
def nearestOnGrid? (i : Interval) (n d : Nat) (p : Int) : Option Nat :=
  let up := tenTo p.toNat
  let down := tenTo (-p).toNat
  -- The factor `k` stands for `k * up / down`.
  let k := n * down / (d * up)
  let candidate (k : Nat) : Bool := i.holds (k * up) down
  let distance (k : Nat) : Nat := (Int.natAbs ((k * up * d : Nat) - (n * down : Nat) : Int))
  match candidate k, candidate (k + 1) with
  | true, true => some (if distance (k + 1) ≤ distance k then k + 1 else k)
  | true, false => some k
  | false, true => some (k + 1)
  | false, false => none

/-- The first hit on the grids `10 ^ p`, `10 ^ (p - 1)`, and so on for `fuel` grids. -/
def firstOnGrids (i : Interval) (n d : Nat) : Nat → Int → Nat × Int
  | 0, p => (n / d, p)
  | fuel + 1, p => match nearestOnGrid? i n d p with
    | some k => (k, p)
    | none => firstOnGrids i n d fuel (p - 1)

/-- The number `k * 10 ^ p` written positionally. -/
def positional (k : Nat) (p : Int) : String :=
  let ds := (digits k).map fun b => Char.ofNat b.toNat
  if 0 ≤ p then String.ofList (ds ++ List.replicate p.toNat '0')
  else
    let places := (-p).toNat
    let padded := List.replicate (places + 1 - ds.length) '0' ++ ds
    let split := padded.length - places
    String.ofList (padded.take split ++ '.' :: padded.drop split)

/-- The shortest text of a number. Grids from `10 ^ 308` down to `10 ^ (-342)` cover the format. -/
def Binary64.text (x : Binary64) : String :=
  let sign := if x.negative then "-" else ""
  if x.mantissa = 0 then sign ++ "0"
  else
    let (n, d) := x.magnitude.fraction
    let (k, p) := firstOnGrids (Interval.around x.magnitude) n d 651 308
    sign ++ positional k p

end EgressAuth.Decimal
