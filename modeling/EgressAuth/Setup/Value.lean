/-
  EgressAuth.Setup.Value

  Trees of settings. A value is set at a place: what stands in the way gives
  way to a table or list, and what is missing is made. A table is set by
  setting its members, anything else replaces what was there.
-/
import EgressAuth.Decimal.Shortest
import EgressAuth.Json.Value
import EgressAuth.Setup.Place
import EgressAuth.SortedMap

namespace EgressAuth.Setup

/-- A value in a tree of settings. -/
inductive Value where
  | nothing
  | bool (b : Bool)
  | int (i : Int)
  | float (x : Decimal.Binary64)
  | text (s : String)
  | list (items : List Value)
  | table (members : List (String × Value))

namespace Value

/-! ## Values of JSON -/

/-- The value of a JSON number. -/
def ofNumber : Json.Number → Value
  | .int i => int i
  | .float x => float x

mutual

/-- The value of a JSON value. Of members of one name the last one counts. -/
def ofJson : Json → Value
  | .null => nothing
  | .bool b => bool b
  | .number n => ofNumber n
  | .string s => text s
  | .list js => list (ofItems js)
  | .object ms => table (SortedMap.ofList (ofMembers ms)).entries

/-- The values of JSON values. -/
def ofItems : List Json → List Value
  | [] => []
  | j :: js => ofJson j :: ofItems js

/-- The values of the members of a JSON object. -/
def ofMembers : List (String × Json) → List (String × Value)
  | [] => []
  | (name, j) :: ms => (name, ofJson j) :: ofMembers ms

end

/-! ## Parts -/

/-- The members of a table, none of anything else. -/
def members : Value → List (String × Value)
  | table ms => ms
  | _ => []

/-- The items of a list, none of anything else. -/
def items : Value → List Value
  | list vs => vs
  | _ => []

def member? (v : Value) (name : String) : Option Value := v.members.lookup name

/-- The table with a value under a name. A new name goes to the end. -/
def setMember (v : Value) (name : String) (new : Value) : Value :=
  let ms := v.members
  if ms.any (·.1 == name) then table (ms.map fun m => if m.1 = name then (name, new) else m)
  else table (ms ++ [(name, new)])

/-- The most items that a list may have. -/
def maxItems : Nat := 1 <<< 24

/-- A list long enough to have an item at an index, and the item's position in it. Nothing is added
behind the list for an index beyond its end, and in front of it for one before its start. There is
no such list if it were too long. -/
def makeRoom? (vs : List Value) (index : Int) : Option (List Value × Nat) :=
  -- The item `-1` is the last one, so `n` items are enough for an index from the end.
  let n := index.natAbs
  let missing := (if 0 ≤ index then n + 1 else n) - vs.length
  let room := List.replicate missing nothing
  if maxItems < vs.length + missing then none
  else if 0 ≤ index then some (vs ++ room, n)
  else some (room ++ vs, vs.length + missing - n)

/-- The tree with the value at a place changed; there is none if a list became too long. -/
def change? (f : Value → Value) : Place → Value → Option Value
  | [], v => some (f v)
  | .member name :: place, v => do
    return v.setMember name (← change? f place ((v.member? name).getD nothing))
  | .item index :: place, v => do
    let (vs, position) ← makeRoom? v.items index
    return list (vs.set position (← change? f place (vs.getD position nothing)))

/-! ## Merging -/

mutual

/-- What stands where `old` stood once a value is set there. A table goes over the members of a
table that was there. -/
def merge (old : Value) : Value → Value
  | table ms => mergeMembers (table old.members) ms
  | v => v

/-- The value with all members set in it. -/
def mergeMembers (old : Value) : List (String × Value) → Value
  | [] => old
  | (name, v) :: ms =>
    mergeMembers (old.setMember name (((old.member? name).getD nothing).merge v)) ms

end

/-- The tree with the members of a source set at the places that their names spell. -/
def layer? (tree : Value) (source : List (String × Value)) : Option Value :=
  source.foldlM (fun t m => t.change? (fun old => old.merge m.2) (Place.ofKey m.1)) tree

/-! ## Reading by type -/

/-- The text of a text, number or truth value. -/
def asText? : Value → Option String
  | text s => some s
  | bool b => some (if b then "true" else "false")
  | int i => some (Decimal.intText i)
  | float x => some x.text
  | _ => none

/-- The natural number that a text spells: a word for yes or no, or digits after an optional
plus. -/
def naturalOfText? (s : String) : Option Nat :=
  let word := Text.foldCase s
  if ["true", "on", "yes"].contains word then some 1
  else if ["false", "off", "no"].contains word then some 0
  else match s.toList with
    | '-' :: _ => none
    | cs => (Decimal.int? cs).map Int.toNat

/-- The natural number of at most 64 bits that a value stands for. Numbers with a fraction are
rounded and kept within that range. -/
def asNatural? : Value → Option Nat
  | int i => if 0 ≤ i then some i.toNat else none
  | bool b => some b.toNat
  | float x => some (min x.roundToNat (UInt64.size - 1))
  | text s => (naturalOfText? s).filter (· < UInt64.size)
  | _ => none

/-- The natural number up to `limit` that a value stands for. -/
def asNaturalUpTo? (limit : Nat) (v : Value) : Option Nat := v.asNatural?.filter (· ≤ limit)

/-- The field of a section: a member of a table by name, or an item of a list by position. -/
def field? (v : Value) (name : String) (position : Nat) : Option Value :=
  match v with
  | table ms => ms.lookup name
  | list vs => vs[position]?
  | _ => none

end Value
end EgressAuth.Setup
