/-
  EgressAuth.Cache.Control

  What a `cache-control` header says about keeping a response. Only an
  explicit positive `max-age` allows it, and a directive that forbids caching
  wins wherever it stands.
-/
import EgressAuth.Cache.Entry
import EgressAuth.Text.Blank
import EgressAuth.Text.Pieces

namespace EgressAuth.Cache

/-- How long a response may be kept. -/
inductive Control where
  | expiresAt (time : Instant)
  | doNotCache
  deriving DecidableEq, Repr

/-- A directive: its name and the argument after the equals sign. -/
structure Directive where
  name : String
  argument : Option (List Char)

namespace Directive

/-- Reads one of the pieces between commas. Blanks, and quotes around the argument, are dropped. -/
def ofPiece (piece : List Char) : Directive :=
  let (name, argument) := Text.cut '=' piece
  ⟨String.ofList (Text.trim name), argument.map fun a => Text.trimBy (· == '"') (Text.trim a)⟩

/-- The directives of a header value. -/
def ofHeader (value : String) : List Directive := (Text.pieces ',' value.toList).map ofPiece

/-- Whether the directive forbids caching. -/
def forbids (d : Directive) : Bool :=
  ["no-cache", "no-store", "must-revalidate"].any (Text.sameLetters d.name)

/-- Whether the directive states an age. -/
def isMaxAge (d : Directive) : Bool := Text.sameLetters d.name "max-age"

/-- The integer that is the argument, if it fits into 64 bits. -/
def seconds? (d : Directive) : Option Int :=
  (d.argument.bind Decimal.int?).filter fun s =>
    Int64.minValue.toInt ≤ s ∧ s ≤ Int64.maxValue.toInt

end Directive

namespace Control

/-- What the first stated age allows, given the directives still to come. -/
def decide (now : Instant) : Option (Option Int) → List Directive → Control
  | some (some s), [] => if 0 < s then expiresAt (Int64.ofIntClamp (now.toInt + s)) else doNotCache
  | _, [] => doNotCache
  | age, d :: ds =>
    -- A later age does not count, but a later prohibition does.
    if d.forbids then doNotCache
    else decide now (age.or (if d.isMaxAge then some d.seconds? else none)) ds

/-- What a header value allows at a time. Expirations beyond the last instant become that
instant. -/
def parse (value : String) (now : Instant) : Control := decide now none (Directive.ofHeader value)

/-- The expiration that is allowed, if caching is. -/
def expiry? : Control → Option Instant
  | expiresAt t => some t
  | doNotCache => none

end Control
end EgressAuth.Cache
