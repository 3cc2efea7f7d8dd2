/-
  EgressAuth.Proofs.Json.Literals

  Literals read back as they were written, whatever text follows them.

  A written string holds plain bytes, one-letter escapes and, for the other
  controls, four hexadecimal digits. `pieces_escape` says as which piece each
  byte is read; `text_run_quoted` is the round trip of a whole string. The
  digits of an integer are read up to the first byte that cannot belong to a
  number (`number_run_intBytes`).
-/
import EgressAuth.Json.Render

namespace EgressAuth.Json

/-! ## String literals -/

/-- The bytes that are written with an escape of one letter. -/
def shortEscaped : Bytes := [0x22, 0x5C, 0x08, 0x0C, 0x0A, 0x0D, 0x09]

/-- The controls that are written with four hexadecimal digits. -/
def needsUnit (b : UInt8) : Bool := b < 0x20 && !shortEscaped.contains b

/-- The piece that a byte of a written string is read as. -/
def pieceOf (b : UInt8) : Piece := if needsUnit b then .unit b.toNat else .byte b

theorem pieces_plain {b : UInt8} (hq : b ≠ quote) (hs : b ≠ backslash) (hc : ¬b < 0x20)
    (s : Bytes) (acc : List Piece) : pieces (b :: s) acc = pieces s (.byte b :: acc) := by
  rw [pieces.eq_def]
  simp only [if_neg hq, if_neg hs, if_neg hc]

theorem pieces_short {letter b : UInt8} (hu : letter ≠ unitLetter)
    (hb : shortEscape? letter = some b) (s : Bytes) (acc : List Piece) :
    pieces (backslash :: letter :: s) acc = pieces s (.byte b :: acc) := by
  rw [pieces.eq_def]
  have hq : backslash ≠ quote := by decide
  simp only [if_neg hq, if_true, if_neg hu, hb]

theorem pieces_unit {a b c d : UInt8} {u : Nat} (h : hexUnit? a b c d = some u) (s : Bytes)
    (acc : List Piece) :
    pieces (backslash :: unitLetter :: a :: b :: c :: d :: s) acc = pieces s (.unit u :: acc) := by
  rw [pieces.eq_def]
  have hq : backslash ≠ quote := by decide
  simp only [if_neg hq, if_true, h]

/-- The digits that stand for a control are read as the control. -/
theorem hexUnit?_control : ∀ n < 0x20,
    hexUnit? 0x30 0x30 (UInt8.ofNat (Text.lowerHexDigit (n / 16)).toNat)
      (UInt8.ofNat (Text.lowerHexDigit (n % 16)).toNat) = some n := by decide

/-- A written byte is read as its piece. -/
theorem pieces_escape (b : UInt8) (s : Bytes) (acc : List Piece) :
    pieces (escape b ++ s) acc = pieces s (pieceOf b :: acc) := by
  by_cases hshort : b ∈ shortEscaped
  · simp only [shortEscaped, List.mem_cons, List.not_mem_nil, or_false] at hshort
    rcases hshort with rfl | rfl | rfl | rfl | rfl | rfl | rfl <;>
      exact pieces_short (by decide) (by decide) s acc
  -- What is left is a control without a letter of its own, or a byte that stands for itself.
  have hne := hshort
  simp only [shortEscaped, List.mem_cons, List.not_mem_nil, or_false, not_or] at hne
  obtain ⟨hq, hs, h₁, h₂, h₃, h₄, h₅⟩ := hne
  simp only [escape, if_neg hq, if_neg hs, if_neg h₁, if_neg h₂, if_neg h₃, if_neg h₄, if_neg h₅]
  by_cases hc : b < 0x20
  · have hn : needsUnit b = true := by
      simp [needsUnit, hc, hshort]
    rw [if_pos hc, pieceOf, if_pos hn]
    exact pieces_unit (hexUnit?_control b.toNat (UInt8.lt_iff_toNat_lt.1 hc)) s acc
  · have hn : needsUnit b = false := by
      simp [needsUnit, hc]
    rw [if_neg hc, pieceOf, hn]
    exact pieces_plain hq hs hc s acc

theorem pieces_flatMap_escape (bs : Bytes) (r : Bytes) (acc : List Piece) :
    pieces (bs.flatMap escape ++ quote :: r) acc = some (acc.reverse ++ bs.map pieceOf, r) := by
  induction bs generalizing acc with
  | nil =>
      rw [List.flatMap_nil, List.nil_append, pieces.eq_def]
      simp
  | cons b bs ih =>
      -- The piece of the first byte joins those that have been read, latest first.
      rw [List.flatMap_cons, List.append_assoc, pieces_escape, ih]
      simp

theorem codePointBytes_control : ∀ n < 0x20, codePointBytes n = [UInt8.ofNat n] := by decide

/-- The pieces of written bytes stand for these bytes. -/
theorem assemble_map_pieceOf (bs acc : Bytes) :
    assemble (bs.map pieceOf) acc = some (acc.reverse ++ bs) := by
  induction bs generalizing acc with
  | nil => simp [assemble]
  | cons b bs ih =>
      have hb : assemble (pieceOf b :: bs.map pieceOf) acc =
          assemble (bs.map pieceOf) (b :: acc) := by
        unfold pieceOf
        split
        · -- A control is read as a unit that is no half of a surrogate pair.
          rename_i hn
          have hc : b.toNat < 0x20 := by
            simp only [needsUnit, Bool.and_eq_true, decide_eq_true_eq] at hn
            exact UInt8.lt_iff_toNat_lt.1 hn.1
          have hhigh : isHighUnit b.toNat = false := by
            simp [isHighUnit]; omega
          have hlow : isLowUnit b.toNat = false := by
            simp [isLowUnit]; omega
          rw [assemble.eq_def]
          simp [hhigh, hlow, codePointBytes_control _ hc]
        · rw [assemble]
      rw [List.map_cons, hb, ih]
      simp

/-- A written string reads back. -/
theorem text_run_quoted (s : String) (r : Bytes) :
    Reader.text.run (quoted s ++ r) = some (s, r) := by
  have hp : Reader.pieces.run (quoted s ++ r) = some ((Text.encode s).map pieceOf, r) := by
    show pieces ((Text.encode s).flatMap escape ++ [quote] ++ r) [] = _
    rw [List.append_assoc]
    exact pieces_flatMap_escape (Text.encode s) r []
  have ha : assemble ((Text.encode s).map pieceOf) [] = some (Text.encode s) :=
    assemble_map_pieceOf (Text.encode s) []
  simp [Reader.text, Reader.filterMap, hp, ha]

/-! ## Integer literals -/

/-- The bytes that may stand right after a written value. -/
def endsValue (b : UInt8) : Bool := b == comma || b == closeList || b == closeObject

/-- Whether a text is what may follow a written value. -/
def Ends (r : Bytes) : Prop := ∀ b t, r = b :: t → endsValue b = true

theorem ends_nil : Ends [] := by
  intro b t h
  cases h

theorem ends_cons {b : UInt8} (h : endsValue b = true) (t : Bytes) : Ends (b :: t) := by
  intro b' t' e
  cases e
  exact h

/-- The bytes that would make a number in front of them longer. -/
def continuesNumber (b : UInt8) : Bool :=
  Decimal.isDigit b || b == 0x2E || b == 0x65 || b == 0x45

/-- Whether a number in front of a text ends where the text begins. -/
def Stops (r : Bytes) : Prop := ∀ b t, r = b :: t → continuesNumber b = false

theorem stops_nil : Stops [] := by
  intro b t h
  cases h

theorem stops_cons {b : UInt8} (h : continuesNumber b = false) (t : Bytes) : Stops (b :: t) := by
  intro b' t' e
  cases e
  exact h

theorem continuesNumber_eq_false_iff {b : UInt8} : continuesNumber b = false ↔
    Decimal.isDigit b = false ∧ b ≠ 0x2E ∧ b ≠ 0x65 ∧ b ≠ 0x45 := by
  simp [continuesNumber, and_assoc]

/-- None of the bytes that end a value belongs to a number. -/
theorem Ends.stops {r : Bytes} (h : Ends r) : Stops r := by
  intro b t hr
  have hb : b = comma ∨ b = closeList ∨ b = closeObject := by
    simpa [endsValue, or_assoc] using h b t hr
  rcases hb with rfl | rfl | rfl <;> decide

/-- Digits are taken off a text up to the first byte that is none. -/
theorem splitDigits_append_of_not_digit {ds r : Bytes}
    (hd : ∀ b ∈ ds, Decimal.isDigit b = true)
    (hr : ∀ b t, r = b :: t → Decimal.isDigit b = false) : splitDigits (ds ++ r) = (ds, r) := by
  have htake : r.takeWhile Decimal.isDigit = [] := by
    cases r with
    | nil => rfl
    | cons b t => simp [hr b t rfl]
  have hdrop : r.dropWhile Decimal.isDigit = r := by
    cases r with
    | nil => rfl
    | cons b t => simp [hr b t rfl]
  rw [splitDigits, List.takeWhile_append_of_pos hd, List.dropWhile_append_of_pos hd, htake, hdrop,
    List.append_nil]

theorem Stops.not_digit {r : Bytes} (hr : Stops r) :
    ∀ b t, r = b :: t → Decimal.isDigit b = false :=
  fun b t h => (continuesNumber_eq_false_iff.1 (hr b t h)).1

theorem takeFraction_of_ne_point {r : Bytes} (hr : ∀ b t, r = b :: t → b ≠ 0x2E) :
    takeFraction r = some ([], r) := by
  cases r with
  | nil => rfl
  | cons b t => simp only [takeFraction, if_neg (hr b t rfl)]

theorem takeExponent_of_stops {r : Bytes} (hr : Stops r) :
    takeExponent r = some (false, [], r) := by
  cases r with
  | nil => rfl
  | cons b t =>
      obtain ⟨-, -, hsmall, hcapital⟩ := continuesNumber_eq_false_iff.1 (hr b t rfl)
      simp only [takeExponent, hsmall, hcapital, or_self, if_false]

/-- The literal of an integer. -/
def intNumeral (i : Int) : Numeral := ⟨i < 0, Decimal.digits i.natAbs, [], false, []⟩

theorem numeral?_intBytes (i : Int) {r : Bytes} (hr : Ends r) :
    numeral? (intBytes i ++ r) = some (intNumeral i, r) := by
  have hsign : takeMinus (intBytes i ++ r) = (decide (i < 0), Decimal.digits i.natAbs ++ r) := by
    unfold intBytes
    split
    · rename_i hi
      simp [takeMinus, hi]
    · -- The text begins with a digit, so no sign is taken off it.
      rename_i hi
      obtain ⟨d, ds, hds⟩ := List.exists_cons_of_ne_nil (Decimal.digits_ne_nil i.natAbs)
      have hd : Decimal.isDigit d = true :=
        Decimal.isDigit_of_mem_digits (n := i.natAbs) (by rw [hds]; exact List.mem_cons_self)
      have hminus : d ≠ 0x2D := by
        rintro rfl
        exact absurd hd (by decide)
      simp only [hds, List.cons_append, takeMinus, if_neg hminus]
      simp [hi]
  have hsplit : splitDigits (Decimal.digits i.natAbs ++ r) = (Decimal.digits i.natAbs, r) :=
    splitDigits_append_of_not_digit (fun _ hb => Decimal.isDigit_of_mem_digits hb)
      hr.stops.not_digit
  have hzero : ¬((Decimal.digits i.natAbs).isEmpty ∨
      ((Decimal.digits i.natAbs).head? = some 0x30 ∧ 1 < (Decimal.digits i.natAbs).length)) := by
    -- Only the number zero has digits that begin with a zero.
    rintro (h | ⟨h, hlen⟩)
    · exact Decimal.digits_ne_nil i.natAbs (List.isEmpty_iff.1 h)
    · rw [Decimal.eq_zero_of_head?_digits h, Decimal.digits, if_pos (by decide)] at hlen
      simp at hlen
  have hpoint : ∀ b t, r = b :: t → b ≠ 0x2E :=
    fun b t h => (continuesNumber_eq_false_iff.1 (hr.stops b t h)).2.1
  unfold numeral?
  simp only [hsign, hsplit, if_neg hzero, takeFraction_of_ne_point hpoint,
    takeExponent_of_stops hr.stops]
  rfl

/-- The integers that a number literal keeps as such. -/
def FitsWord (i : Int) : Prop := Int64.minValue.toInt ≤ i ∧ i < UInt64.size

theorem value?_intNumeral {i : Int} (h : FitsWord i) : (intNumeral i).value? = some (.int i) := by
  have hint : (intNumeral i).int? = some i := by
    obtain ⟨hlow, hhigh⟩ := h
    by_cases hi : i < 0
    · have habs : (i.natAbs : Int) = -i := by omega
      simp [intNumeral, Numeral.int?, hi, habs]
      exact hlow
    · have habs : (i.natAbs : Int) = i := by omega
      simp [intNumeral, Numeral.int?, hi, habs]
      exact hhigh
  simp [Numeral.value?, hint]

/-- A written integer reads back, up to what cannot belong to a number. -/
theorem number_run_intBytes {i : Int} (h : FitsWord i) {r : Bytes} (hr : Ends r) :
    Reader.number.run (intBytes i ++ r) = some (.int i, r) := by
  have hn : Reader.numeral.run (intBytes i ++ r) = some (intNumeral i, r) :=
    numeral?_intBytes i hr
  simp [Reader.number, Reader.filterMap, hn, value?_intNumeral h]

end EgressAuth.Json
