/-
  EgressAuth.Text.Percent

  Percent encoding: unreserved characters stand for themselves, every other
  byte is written as `%` and two hexadecimal digits. `decode?` undoes it.
-/
import EgressAuth.Text.Ascii

namespace EgressAuth.Text.Percent

/-- The bytes that need no encoding: letters, digits and `-`, `_`, `.`, `~`. -/
def isUnreserved (b : UInt8) : Bool :=
  let c := Char.ofNat b.toNat
  c.isAlphanum || c == '-' || c == '_' || c == '.' || c == '~'

/-- How one byte is written. -/
def encodeByte (b : UInt8) : List Char :=
  if isUnreserved b then [Char.ofNat b.toNat]
  else ['%', upperHexDigit (b.toNat / 16), upperHexDigit (b.toNat % 16)]

def encodeBytes (bs : Bytes) : List Char := bs.flatMap encodeByte

def encode (s : String) : String := String.ofList (encodeBytes (Text.encode s))

/-- The bytes that a percent-encoded text stands for. -/
def decode? : List Char → Option Bytes
  | [] => some []
  | '%' :: h :: l :: cs => do
    let high ← hexValue? h
    let low ← hexValue? l
    return UInt8.ofNat (high * 16 + low) :: (← decode? cs)
  | c :: cs => if c = '%' then none else (decode? cs).map (UInt8.ofNat c.toNat :: ·)

end EgressAuth.Text.Percent
