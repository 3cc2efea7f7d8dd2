/-
  EgressAuth.Json.Text

  String literals. A literal is first cut into pieces, plain bytes and 16-bit
  units written with `\u`; that much decides where it ends and is all that is
  asked of a literal whose value nobody wants. To have a value its units must
  pair up to characters and the whole must spell a text in UTF-8.
-/
import EgressAuth.Text.Ascii
import EgressAuth.Json.Reader

namespace EgressAuth.Json

/-! ## Pieces -/

/-- What a string literal is made of: bytes, and units of UTF-16 written as four hex digits. -/
inductive Piece where
  | byte (b : UInt8)
  | unit (u : Nat)
  deriving DecidableEq, Repr

/-- The byte that a one-letter escape stands for. -/
def shortEscape? (letter : UInt8) : Option UInt8 :=
  if letter = 0x22 then some 0x22        -- "
  else if letter = 0x5C then some 0x5C   -- \
  else if letter = 0x2F then some 0x2F   -- /
  else if letter = 0x62 then some 0x08   -- b
  else if letter = 0x66 then some 0x0C   -- f
  else if letter = 0x6E then some 0x0A   -- n
  else if letter = 0x72 then some 0x0D   -- r
  else if letter = 0x74 then some 0x09   -- t
  else none

/-- The value of a hex digit given as a byte. -/
def hexByte? (b : UInt8) : Option Nat := Text.hexValue? (Char.ofNat b.toNat)

/-- The unit that four hex digits spell. -/
def hexUnit? (a b c d : UInt8) : Option Nat := do
  return ((← hexByte? a) * 16 + (← hexByte? b)) * 256 + ((← hexByte? c) * 16 + (← hexByte? d))

def unitLetter : UInt8 := 0x75

/-- The pieces of a literal up to its closing quote. Bytes below 0x20 have to be escaped. -/
def pieces : Bytes → List Piece → Option (List Piece × Bytes)
  | [], _ => none
  | b :: s, acc =>
    if b = quote then some (acc.reverse, s)
    else if b = backslash then
      match s with
      | e :: s =>
        if e = unitLetter then
          match s with
          | h₁ :: h₂ :: h₃ :: h₄ :: s =>
            match hexUnit? h₁ h₂ h₃ h₄ with
            | some u => pieces s (.unit u :: acc)
            | none => none
          | _ => none
        else match shortEscape? e with
          | some c => pieces s (.byte c :: acc)
          | none => none
      | [] => none
    else if b < 0x20 then none
    else pieces s (.byte b :: acc)

theorem length_le_of_pieces {s : Bytes} {acc ps : List Piece} {r : Bytes}
    (h : pieces s acc = some (ps, r)) : r.length ≤ s.length := by
  fun_induction pieces s acc <;> simp_all <;> omega

/-- The pieces of a string literal. -/
def Reader.pieces : Reader (List Piece) where
  run s := match s with
    | b :: t => if b = quote then Json.pieces t [] else none
    | [] => none
  run_lt h := by
    split at h
    · split at h
      · have := length_le_of_pieces h
        simp; omega
      · cases h
    · cases h

/-! ## The text of a literal -/

/-- The units that need a second one after them. -/
def isHighUnit (u : Nat) : Bool := 0xD800 ≤ u && u ≤ 0xDBFF

/-- The units that complete a pair. -/
def isLowUnit (u : Nat) : Bool := 0xDC00 ≤ u && u ≤ 0xDFFF

def codePointBytes (n : Nat) : Bytes := String.utf8EncodeChar (Char.ofNat n)

/-- The bytes that pieces stand for, behind those read already (last one first). A high unit must
be followed at once by a low one, and a low one must follow a high one. -/
def assemble : List Piece → Bytes → Option Bytes
  | [], acc => some acc.reverse
  | .byte b :: ps, acc => assemble ps (b :: acc)
  | .unit u :: ps, acc =>
    if isHighUnit u then
      match ps with
      | .unit v :: ps =>
        if isLowUnit v then
          -- A pair stands for a code point beyond those of one unit.
          let point := 0x10000 + (u - 0xD800) * 0x400 + (v - 0xDC00)
          assemble ps ((codePointBytes point).reverse ++ acc)
        else none
      | _ => none
    else if isLowUnit u then none
    else assemble ps ((codePointBytes u).reverse ++ acc)

/-- The text of a string literal. -/
def Reader.text : Reader String :=
  Reader.pieces.filterMap fun ps => (assemble ps []).bind Text.decode?

/-! ## Writing -/

/-- How a byte stands in a literal: quote, backslash and controls escaped, all else as it is. -/
def escape (b : UInt8) : Bytes :=
  let short (letter : UInt8) : Bytes := [backslash, letter]
  if b = 0x22 then short 0x22
  else if b = 0x5C then short 0x5C
  else if b = 0x08 then short 0x62
  else if b = 0x0C then short 0x66
  else if b = 0x0A then short 0x6E
  else if b = 0x0D then short 0x72
  else if b = 0x09 then short 0x74
  else if b < 0x20 then
    -- Controls are below 0x20, so the first two of the four digits are zeros.
    let digit (n : Nat) : UInt8 := UInt8.ofNat (Text.lowerHexDigit n).toNat
    [backslash, unitLetter, 0x30, 0x30, digit (b.toNat / 16), digit (b.toNat % 16)]
  else [b]

/-- The literal that stands for a text. -/
def quoted (s : String) : Bytes := quote :: ((Text.encode s).flatMap escape ++ [quote])

end EgressAuth.Json
