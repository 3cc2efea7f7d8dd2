/-
  EgressAuth.Text.Duration

  Spans of time and their text: the number of the largest unit that fits at
  least once, with all decimals that it needs and no more.
-/
import EgressAuth.Decimal.Digits

namespace EgressAuth

/-- A span of time, exact to the nanosecond. -/
structure Duration where
  nanoseconds : Nat
  deriving DecidableEq, Repr

namespace Duration

def ofMilliseconds (ms : Nat) : Duration := ⟨ms * 1000000⟩

def milliseconds (d : Duration) : Nat := d.nanoseconds / 1000000

/-- The number of units in so many nanoseconds as a decimal fraction; a unit is a power of ten. -/
def inUnits (n unit : Nat) : String :=
  let rest := (Decimal.digits (unit + n % unit)).drop 1
  let decimals := ((rest.reverse.dropWhile (· == 0x30)).reverse).map fun b => Char.ofNat b.toNat
  Decimal.natText (n / unit) ++
    if decimals.isEmpty then "" else String.ofList ('.' :: decimals)

/-- The span in the largest of seconds, milli-, micro- and nanoseconds that it fills. -/
def text (d : Duration) : String :=
  let n := d.nanoseconds
  if 1000000000 ≤ n then inUnits n 1000000000 ++ "s"
  else if 1000000 ≤ n then inUnits n 1000000 ++ "ms"
  else if 1000 ≤ n then inUnits n 1000 ++ "µs"
  else Decimal.natText n ++ "ns"

end Duration
end EgressAuth
