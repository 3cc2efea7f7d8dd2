/-
  EgressAuth.Http.Uuid

  Universally unique identifiers. They may be written as 32 hexadecimal
  digits, hyphenated, hyphenated between braces, or hyphenated after
  `urn:uuid:`; they are always shown hyphenated and in small letters.
-/
import EgressAuth.Text.Ascii

namespace EgressAuth.Http

/-- The hexadecimal digits with small letters. -/
def isSmallHexDigit (c : Char) : Bool := (Text.hexValue? c).isSome && !c.isUpper

/-- An identifier of 32 hexadecimal digits, kept in small letters. -/
structure Uuid where
  digits : List Char
  size : digits.length = 32
  hex : digits.all isSmallHexDigit = true
  deriving DecidableEq

namespace Uuid

/-- The identifier with these digits in either case. -/
def ofDigits? (cs : List Char) : Option Uuid :=
  let small := cs.map Char.toLower
  if h : small.length = 32 ∧ small.all isSmallHexDigit = true then some ⟨small, h.1, h.2⟩ else none

/-- The groups of a hyphenated identifier joined, if their lengths are 8, 4, 4, 4 and 12. -/
def joinGroups? (cs : List Char) : Option (List Char) :=
  let isHyphen (i : Nat) : Bool := cs[i]? == some '-'
  if cs.length = 36 ∧ isHyphen 8 ∧ isHyphen 13 ∧ isHyphen 18 ∧ isHyphen 23 then
    some (cs.take 8 ++ (cs.drop 9).take 4 ++ (cs.drop 14).take 4 ++ (cs.drop 19).take 4 ++
      cs.drop 24)
  else none

/-- The word that may stand before a hyphenated identifier. -/
def urn : List Char := "urn:uuid:".toList

/-- The hyphenated identifier inside braces or after the word for names; other texts as they are. -/
def unwrap (cs : List Char) : List Char :=
  if cs.length = 38 ∧ cs.head? = some '{' ∧ cs.getLast? = some '}' then (cs.drop 1).take 36
  else if cs.length = 45 ∧ (cs.take 9).map Char.toLower = urn then cs.drop 9
  else cs

/-- The identifier that a text spells. -/
def ofText? (s : String) : Option Uuid :=
  let cs := s.toList
  if cs.length = 32 then ofDigits? cs else (joinGroups? (unwrap cs)).bind ofDigits?

/-- The identifier hyphenated. -/
def text (u : Uuid) : String :=
  let d := u.digits
  String.ofList (d.take 8 ++ '-' :: (d.drop 8).take 4 ++ '-' :: (d.drop 12).take 4 ++
    '-' :: (d.drop 16).take 4 ++ '-' :: d.drop 20)

end Uuid
end EgressAuth.Http
