/-
  EgressAuth.Text.Ascii

  The letter and digit classes of ASCII, and comparison of texts without
  regard to the case of ASCII letters. Letters outside ASCII have no case here.
-/
import EgressAuth.Text.Bytes

namespace EgressAuth.Text

/-- The text with `A` to `Z` replaced by `a` to `z`. -/
def foldCase (s : String) : String := String.ofList (s.toList.map Char.toLower)

/-- Whether two texts differ at most in the case of ASCII letters. -/
def sameLetters (s t : String) : Bool := foldCase s == foldCase t

/-- A printable ASCII character or the tab. -/
def isVisible (b : UInt8) : Bool := (0x20 ≤ b && b ≤ 0x7E) || b == 0x09

/-- The value of a hexadecimal digit of either case. -/
def hexValue? (c : Char) : Option Nat :=
  if c.isDigit then some (c.toNat - '0'.toNat)
  else if 'a' ≤ c ∧ c ≤ 'f' then some (c.toNat - 'a'.toNat + 10)
  else if 'A' ≤ c ∧ c ≤ 'F' then some (c.toNat - 'A'.toNat + 10)
  else none

/-- The hexadecimal digits, capitals above nine. -/
def upperHexDigit (n : Nat) : Char :=
  Char.ofNat (if n % 16 < 10 then '0'.toNat + n % 16 else 'A'.toNat + (n % 16 - 10))

/-- The hexadecimal digits, small letters above nine. -/
def lowerHexDigit (n : Nat) : Char :=
  Char.ofNat (if n % 16 < 10 then '0'.toNat + n % 16 else 'a'.toNat + (n % 16 - 10))

end EgressAuth.Text
