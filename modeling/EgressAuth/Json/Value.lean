/-
  EgressAuth.Json.Value

  JSON values and their reading. An object keeps its members in the order of
  the text, repeated names included; a look-up by name takes the last one.

  A value is read to a limited depth: `Reader.value n` accepts at most `n`
  containers inside one another.
-/
import EgressAuth.Json.Number
import EgressAuth.Json.Text

namespace EgressAuth

/-- A JSON value. -/
inductive Json where
  | null
  | bool (b : Bool)
  | number (n : Json.Number)
  | string (s : String)
  | list (items : List Json)
  | object (members : List (String × Json))

namespace Json

/-! ## Views -/

/-- The value of the last member with that name. -/
def lookup? (name : String) (members : List (String × Json)) : Option Json :=
  (members.reverse.find? fun m => m.1 == name).map Prod.snd

/-- The value of an object's member. -/
def member? (name : String) : Json → Option Json
  | object ms => lookup? name ms
  | _ => none

/-- The text of a string. -/
def string? : Json → Option String
  | string s => some s
  | _ => none

/-- The truth value of a boolean. -/
def bool? : Json → Option Bool
  | bool b => some b
  | _ => none

/-- The integer between `low` and `high` that a number is. -/
def intIn? (low high : Int) : Json → Option Int
  | number (.int i) => if low ≤ i ∧ i ≤ high then some i else none
  | _ => none

/-- The items of a list. -/
def list? : Json → Option (List Json)
  | list js => some js
  | _ => none

/-- The members of an object. -/
def object? : Json → Option (List (String × Json))
  | object ms => some ms
  | _ => none

def int (i : Int) : Json := number (.int i)

/-! ## Reading -/

/-- A member of an object; its name decides how its value is read. -/
def Reader.keyed {α : Type} (f : String → Reader α) : Reader α where
  run s := match Reader.text.run s with
    | none => none
    | some (name, r) => match expect colon r with
      | none => none
      | some t => (f name).run (skipBlank t)
  run_lt {s a r} h := by
    split at h
    · cases h
    · rename_i name r₁ h₁
      split at h
      · cases h
      · rename_i t h₂
        have := Reader.text.run_lt h₁
        have := length_lt_of_expect h₂
        have := length_skipBlank_le t
        have := (f name).run_lt h
        omega

/-- The words `null`, `true` and `false`. -/
def Reader.word : Reader Json :=
  (literal [0x6E, 0x75, 0x6C, 0x6C] null (by decide)).orElse <|
    (literal [0x74, 0x72, 0x75, 0x65] (bool true) (by decide)).orElse <|
      literal [0x66, 0x61, 0x6C, 0x73, 0x65] (bool false) (by decide)

/-- Values that hold no other values. -/
def Reader.scalar : Reader Json :=
  Reader.word.orElse <| (Reader.number.map Json.number).orElse (Reader.text.map Json.string)

/-- Values with at most `depth` containers inside one another. -/
def Reader.value : Nat → Reader Json
  | 0 => Reader.scalar
  | depth + 1 =>
    Reader.scalar.orElse <|
      (((Reader.value depth).container openList closeList).map Json.list).orElse <|
        ((Reader.keyed fun name => (Reader.value depth).map fun v => (name, v)).container
          openObject closeObject).map Json.object

/-- How many containers may stand inside one another in a text. -/
def maxDepth : Nat := 127

/-- The value that a text consists of. -/
def read? (s : Bytes) : Option Json := (Reader.value maxDepth).readAll s

end Json
end EgressAuth
