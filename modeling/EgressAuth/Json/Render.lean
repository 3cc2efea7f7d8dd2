/-
  EgressAuth.Json.Render

  JSON values written compactly: no blanks, members in order, strings escaped
  only where they must be.
-/
import EgressAuth.Decimal.Shortest
import EgressAuth.Json.Value

namespace EgressAuth.Json

/-- The bytes of an integer's decimal text. -/
def intBytes (i : Int) : Bytes :=
  if i < 0 then 0x2D :: Decimal.digits i.natAbs else Decimal.digits i.natAbs

/-- The bytes of a number. A floating-point number always shows a point. -/
def Number.render : Number → Bytes
  | .int i => intBytes i
  | .float x =>
    let text := x.text
    Text.encode (if text.toList.contains '.' then text else text ++ ".0")

mutual

/-- The text of a value. -/
def render : Json → Bytes
  | null => [0x6E, 0x75, 0x6C, 0x6C]
  | bool true => [0x74, 0x72, 0x75, 0x65]
  | bool false => [0x66, 0x61, 0x6C, 0x73, 0x65]
  | number n => n.render
  | string s => quoted s
  | list js => openList :: (renderItems js ++ [closeList])
  | object ms => openObject :: (renderMembers ms ++ [closeObject])

/-- The texts of values, commas between them. -/
def renderItems : List Json → Bytes
  | [] => []
  | [j] => render j
  | j :: k :: js => render j ++ comma :: renderItems (k :: js)

/-- The texts of members, commas between them. -/
def renderMembers : List (String × Json) → Bytes
  | [] => []
  | [(name, j)] => quoted name ++ colon :: render j
  | (name, j) :: m :: ms => quoted name ++ colon :: (render j ++ comma :: renderMembers (m :: ms))

end

end EgressAuth.Json
