/-
  EgressAuth.Setup.Place

  Places in a tree of settings, and the keys that spell them. A key is a name,
  further names after dots, and indices in brackets after any of the names:
  `server.port`, `servers[0].port`, `servers[ -1 ]`. A key that is not of this
  form is one name as it stands.
-/
import EgressAuth.Decimal.Digits
import EgressAuth.Text.Blank
import EgressAuth.Text.Pieces

namespace EgressAuth.Setup

/-- A part of a table or of a list. A negative index counts from the end of the list. -/
inductive Place.Part where
  | member (name : String)
  | item (index : Int)
  deriving DecidableEq, Repr

/-- The parts to go into one after the other, from the root of a tree. -/
abbrev Place := List Place.Part

namespace Place

/-- The characters of a name in a key. -/
def isNameChar (c : Char) : Bool := c.isAlphanum || c == '_' || c == '-'

/-- The blanks that may surround an index. -/
def isIndexBlank (c : Char) : Bool := c == ' ' || c == '\t'

/-- The index after an opening bracket: digits, a minus sign in front of them or not, of 64 bits. -/
def index? : List Char → Option Int
  | '[' :: cs =>
    match Text.trimBy isIndexBlank cs with
    | '+' :: _ => none
    | cs => (Decimal.int? cs).filter fun i =>
      Int64.minValue.toInt ≤ i && i ≤ Int64.maxValue.toInt
  | _ => none

/-- The parts spelt between two dots: a name and indices, each of which ends with a bracket. -/
def segment? (cs : List Char) : Option (List Part) :=
  let name := cs.takeWhile isNameChar
  let indices := Text.pieces ']' (cs.dropWhile isNameChar)
  if name.isEmpty || indices.getLast? != some [] then none
  else (indices.dropLast.mapM index?).map fun is => .member (String.ofList name) :: is.map .item

/-- The place that a key spells. -/
def ofKey (key : String) : Place :=
  match (Text.pieces '.' key.toList).mapM segment? with
  | some segments => segments.flatten
  | none => [.member key]

example : ofKey "servers[ -1 ].port" = [.member "servers", .item (-1), .member "port"] := by
  decide +kernel

example : ofKey "servers[+1]" = [.member "servers[+1]"] := by decide +kernel

end Place
end EgressAuth.Setup
