/-
  EgressAuth.Proofs.Cache.Entry

  Cache entries read back as they were written (`Entry.decode?_encode`), so
  the bytes of a slot determine the entry, however they spell it
  (`Entry.codec_roundTrip`), and slots with different numbers have different
  keys (`Id.key_injective`).
-/
import EgressAuth.Cache.Entry
import EgressAuth.Cache.Id
import EgressAuth.Proofs.Json.Containers

namespace EgressAuth

open Json

namespace AuthHeader

theorem reader_reads (h : AuthHeader) : reader.Reads (render h.toJson) h :=
  (fullRecord_reads (by decide) (text_reads h.name) (text_reads h.value)).map _

theorem listReader_reads (hs : List AuthHeader) :
    listReader.Reads (render (.list (hs.map toJson))) hs := by
  have h : (reader.container openList closeList).Reads (render (.list (hs.map toJson)))
      (hs.map id) := list_reads fun h _ => reader_reads h
  rwa [List.map_id] at h

end AuthHeader

namespace Cache

namespace Entry

/-- An instant fits into a word, so its literal is read as an integer. -/
theorem fitsWord_toInt (t : Instant) : FitsWord t.toInt := by
  have hlow := t.minValue_le_toInt
  have hhigh := t.toInt_lt
  refine ⟨by rw [Int64.toInt_minValue]; exact hlow, ?_⟩
  have hsize : (UInt64.size : Int) = 2 ^ 64 := rfl
  omega

theorem instantReader_reads (t : Instant) : instantReader.Reads (intBytes t.toInt) t := by
  have hlow : Int64.minValue.toInt ≤ t.toInt := (fitsWord_toInt t).1
  have hhigh : t.toInt ≤ Int64.maxValue.toInt := by
    have := t.toInt_lt
    rw [Int64.toInt_maxValue]
    omega
  -- As no instant is out of range, going to integers and back changes none.
  have h := (intIn_reads hlow hhigh (fitsWord_toInt t)).map Int64.ofInt
  rwa [Int64.ofInt_toInt] at h

theorem reader_reads (e : Entry) : reader.Reads e.encode e := by
  have htime : instantReader.Reads (render (.int e.expiration.toInt)) e.expiration := by
    have h := instantReader_reads e.expiration
    simpa [render, Json.int, Number.render] using h
  exact (fullRecord_reads (by decide) htime (AuthHeader.listReader_reads e.headers)).map _

/-- A written entry reads back. -/
@[simp] theorem decode?_encode (e : Entry) : decode? e.encode = some e :=
  (reader_reads e).readAll

theorem encode_injective {e f : Entry} (h : e.encode = f.encode) : e = f := by
  have := congrArg decode? h
  simpa using this

/-- Every entry reads back as it was written, so no two entries are written alike; and whatever
text an entry was read from, writing it and reading it once more changes nothing. -/
theorem codec_roundTrip :
    (∀ e : Entry, decode? e.encode = some e) ∧
    Function.Injective encode ∧
    (∀ b : Bytes, (decode? b).bind (fun e => decode? e.encode) = decode? b) := by
  refine ⟨decode?_encode, fun e f => encode_injective, fun b => ?_⟩
  cases decode? b with
  | none => rfl
  | some e => exact decode?_encode e

/-- An entry that is spelled with its members in the other order, with blanks, escapes and members
that nobody knows. -/
theorem codec_roundTrip_of_reordered :
    let b := Text.encode (" \x7b\"new\": [1, \x7b\x7d], \"cachedHeaders\": [\x7b\"value\":" ++
      "\"caf\\u00e9\\/\\n\", \"name\": \"A\\\"\"\x7d],\n\"expiration\": -9223372036854775808\x7d ")
    let e : Entry := ⟨Int64.minValue, [⟨"A\"", "café/\n"⟩]⟩
    decode? b = some e ∧ e.encode ≠ b ∧ decode? e.encode = some e := by
  intro b e
  have hb : decode? b = some e := by
    decide +kernel
  have hne : e.encode ≠ b := by
    decide +kernel
  have hagain := codec_roundTrip.2.2 b
  rw [hb] at hagain
  exact ⟨hb, hne, hagain⟩

end Entry

namespace Id

theorem key_injective {i j : Id} (h : i.key = j.key) : i = j := by
  have hn : i.number.toNat = j.number.toNat := Decimal.natText_injective h
  exact congrArg Id.mk (UInt32.toNat_inj.1 hn)

end Id

end Cache
end EgressAuth
