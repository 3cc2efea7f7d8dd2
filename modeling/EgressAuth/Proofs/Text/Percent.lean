/-
  EgressAuth.Proofs.Text.Percent

  Percent-encoded texts are read back (`decode?_encodeBytes`) and hold nothing
  but unreserved characters and triples (`encoded_encodeBytes`), so they cannot
  be taken for anything that is written around them.
-/
import EgressAuth.Text.Percent

namespace EgressAuth.Text.Percent

/-- The characters that stand for themselves. -/
def IsPlain (c : Char) : Prop := c.isAlphanum = true ∨ c ∈ ['-', '_', '.', '~']

/-- Unreserved characters, and triples of a percent sign and two hexadecimal digits. -/
inductive Encoded : List Char → Prop where
  | nil : Encoded []
  | plain {c : Char} {cs : List Char} (hc : IsPlain c) (h : Encoded cs) : Encoded (c :: cs)
  | triple {high low : Char} {cs : List Char} (hhigh : (hexValue? high).isSome = true)
      (hlow : (hexValue? low).isSome = true) (h : Encoded cs) : Encoded ('%' :: high :: low :: cs)

variable {c : Char} {cs : List Char}

/-! ## Single bytes -/

theorem hexValue?_upperHexDigit : ∀ n < 16, hexValue? (upperHexDigit n) = some n := by
  decide

theorem isPlain_of_isUnreserved {b : UInt8} (h : isUnreserved b = true) :
    IsPlain (Char.ofNat b.toNat) := by
  simpa [isUnreserved, IsPlain, or_assoc] using h

theorem IsPlain.ne_percent (h : IsPlain c) : c ≠ '%' := by
  rintro rfl
  revert h
  unfold IsPlain
  decide

theorem decode?_plain (hc : c ≠ '%') (cs : List Char) :
    decode? (c :: cs) = (decode? cs).map (UInt8.ofNat c.toNat :: ·) := by
  rw [decode?.eq_def]
  split
  · rename_i h
    cases h
  · rename_i h
    exact absurd (List.cons.inj h).1 hc
  · rename_i h
    obtain ⟨rfl, rfl⟩ := List.cons.inj h
    rw [if_neg hc]

/-- A written byte is read back, whatever stands behind it. -/
theorem decode?_encodeByte (b : UInt8) (cs : List Char) :
    decode? (encodeByte b ++ cs) = (decode? cs).map (b :: ·) := by
  unfold encodeByte
  split
  · rename_i h
    rw [List.singleton_append, decode?_plain (isPlain_of_isUnreserved h).ne_percent,
      toNat_charOfByte, UInt8.ofNat_toNat]
  · have hlt := b.toNat_lt
    have hhigh := hexValue?_upperHexDigit (b.toNat / 16) (by omega)
    have hlow := hexValue?_upperHexDigit (b.toNat % 16) (by omega)
    have hvalue : UInt8.ofNat (b.toNat / 16 * 16 + b.toNat % 16) = b := by
      rw [Nat.div_add_mod', UInt8.ofNat_toNat]
    simp only [List.cons_append, List.nil_append, decode?, hhigh, hlow, Option.bind_eq_bind,
      Option.bind_some, hvalue]
    cases decode? cs <;> rfl

theorem encoded_encodeByte (b : UInt8) (h : Encoded cs) : Encoded (encodeByte b ++ cs) := by
  unfold encodeByte
  split
  · rename_i hb
    exact .plain (isPlain_of_isUnreserved hb) h
  · have hlt := b.toNat_lt
    refine .triple ?_ ?_ h
    · rw [hexValue?_upperHexDigit _ (by omega)]
      rfl
    · rw [hexValue?_upperHexDigit _ (by omega)]
      rfl

/-! ## Texts -/

theorem decode?_encodeBytes (bs : Bytes) : decode? (encodeBytes bs) = some bs := by
  unfold encodeBytes
  induction bs with
  | nil => rfl
  | cons b bs ih => rw [List.flatMap_cons, decode?_encodeByte, ih, Option.map_some]

theorem encoded_encodeBytes (bs : Bytes) : Encoded (encodeBytes bs) := by
  unfold encodeBytes
  induction bs with
  | nil => exact .nil
  | cons b bs ih =>
      rw [List.flatMap_cons]
      exact encoded_encodeByte b ih

theorem toList_encode (s : String) : (encode s).toList = encodeBytes (Text.encode s) :=
  String.toList_ofList

theorem encoded_encode (s : String) : Encoded (encode s).toList := by
  rw [toList_encode]
  exact encoded_encodeBytes _

theorem decode?_encode (s : String) : decode? (encode s).toList = some (Text.encode s) := by
  rw [toList_encode, decode?_encodeBytes]

theorem encode_injective {s t : String} (h : encode s = encode t) : s = t := by
  have hbytes := decode?_encode s
  rw [h, decode?_encode, Option.some_inj] at hbytes
  exact Text.encode_injective hbytes.symm

/-- The characters that separate the parts of a target and its query. -/
def separators : List Char := ['&', '=', '?', '#', '/', ' ']

/-- No separator stands for itself, or is a digit of a triple. -/
theorem not_isPlain_of_mem_separators (hmem : c ∈ separators) :
    ¬IsPlain c ∧ hexValue? c = none := by
  have hall : (separators.all fun c =>
      !(c.isAlphanum || ['-', '_', '.', '~'].contains c) && (hexValue? c).isNone) = true := by
    decide
  have hc := List.all_eq_true.1 hall c hmem
  simpa [IsPlain] using hc

/-- No separator stands in an encoded text. -/
theorem Encoded.notMem_separators (h : Encoded cs) : ∀ c ∈ cs, c ∉ separators := by
  have hdigit {c : Char} (hc : (hexValue? c).isSome = true) : c ∉ separators := by
    intro hmem
    rw [(not_isPlain_of_mem_separators hmem).2] at hc
    cases hc
  induction h with
  | nil => simp
  | plain hc _ ih =>
      exact List.forall_mem_cons.2 ⟨fun hmem => (not_isPlain_of_mem_separators hmem).1 hc, ih⟩
  | triple hhigh hlow _ ih =>
      simp only [List.forall_mem_cons]
      exact ⟨by decide, hdigit hhigh, hdigit hlow, ih⟩

end EgressAuth.Text.Percent
