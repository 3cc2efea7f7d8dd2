/-
  EgressAuth.Proofs.Cache.Id

  When two endpoints have one slot. The number of a slot is the word that the
  first four bytes of a hash spell, and a word is spelled by four bytes only
  (`bytesOf_wordOf`), so slots are the same exactly if the hashes begin alike
  (`Id.ofEndpoint_eq_iff`).
-/
import EgressAuth.Cache.Id

namespace EgressAuth

namespace Digest.Sha256

/-- The bytes of the word that four bytes spell are these four. -/
theorem bytesOf_wordOf (a b c d : UInt8) : bytesOf (wordOf a b c d) = [a, b, c, d] := by
  -- Each of the four bytes of the word sees one byte and zero bits of the other three.
  have hbeyond : ∀ (x : UInt8) (i : Nat), 8 ≤ i → x.toBitVec.getLsbD i = false :=
    fun x i hi => BitVec.getLsbD_of_ge x.toBitVec i hi
  simp only [bytesOf, wordOf, List.cons.injEq, and_true]
  refine ⟨?_, ?_, ?_, ?_⟩
  all_goals
    apply UInt8.eq_of_toBitVec_eq
    ext i hi
    simp <;> grind

theorem wordOf_eq_iff {a b c d a' b' c' d' : UInt8} :
    wordOf a b c d = wordOf a' b' c' d' ↔ [a, b, c, d] = [a', b', c', d'] := by
  constructor
  · intro h
    rw [← bytesOf_wordOf a b c d, ← bytesOf_wordOf a' b' c' d', h]
  · intro h
    simp only [List.cons.injEq, and_true] at h
    obtain ⟨rfl, rfl, rfl, rfl⟩ := h
    rfl

/-- A hash has four bytes and more. -/
theorem exists_hash_eq (message : Bytes) :
    ∃ a b c d rest, hash message = a :: b :: c :: d :: rest :=
  ⟨_, _, _, _, _, rfl⟩

end Digest.Sha256

namespace Cache.Id

open Digest

/-- Two endpoints have one slot exactly if the hashes of their texts begin with the same four
bytes. -/
theorem ofEndpoint_eq_iff {domain path domain' path' : String} :
    ofEndpoint domain path = ofEndpoint domain' path' ↔
      (Sha256.hash (Text.encode domain ++ Text.encode path)).take 4 =
        (Sha256.hash (Text.encode domain' ++ Text.encode path')).take 4 := by
  obtain ⟨a, b, c, d, rest, h⟩ :=
    Sha256.exists_hash_eq (Text.encode domain ++ Text.encode path)
  obtain ⟨a', b', c', d', rest', h'⟩ :=
    Sha256.exists_hash_eq (Text.encode domain' ++ Text.encode path')
  rw [ofEndpoint, ofEndpoint, h, h']
  simp only [Id.mk.injEq, List.take_succ_cons, List.take_zero]
  exact Sha256.wordOf_eq_iff

end Cache.Id
end EgressAuth
