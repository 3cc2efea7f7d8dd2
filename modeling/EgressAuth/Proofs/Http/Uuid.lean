/-
  EgressAuth.Proofs.Http.Uuid

  The ways in which an identifier may be written (`ofText?_eq_some_iff`): in
  either case, its digits alone, hyphenated, between braces or behind the word
  for names. The way in which it is shown is one of them (`ofText?_text`).
-/
import EgressAuth.Http.Uuid
import EgressAuth.Proofs.Text.LetterCase
import Mathlib.Tactic.SplitIfs

namespace EgressAuth.Http.Uuid

open Text

variable {u : Uuid} {cs ds : List Char}

/-- The digits with hyphens between their groups. -/
def hyphenated (ds : List Char) : List Char :=
  ds.take 8 ++ '-' :: (ds.drop 8).take 4 ++ '-' :: (ds.drop 12).take 4 ++
    '-' :: (ds.drop 16).take 4 ++ '-' :: ds.drop 20

/-- The four ways to write an identifier, in small letters. -/
def spellings (u : Uuid) : List String :=
  [String.ofList u.digits, u.text, "\x7b" ++ u.text ++ "\x7d", "urn:uuid:" ++ u.text]

theorem toList_text (u : Uuid) : u.text.toList = hyphenated u.digits :=
  String.toList_ofList

/-! ## Groups -/

/-- The digits are five groups with nothing between them, and the text is the same groups with
hyphens between them. -/
structure Grouped (cs ds : List Char) (a b c d e : List Char) : Prop where
  text : cs = a ++ '-' :: (b ++ '-' :: (c ++ '-' :: (d ++ '-' :: e)))
  digits : ds = a ++ (b ++ (c ++ (d ++ e)))
  lengths : a.length = 8 ∧ b.length = 4 ∧ c.length = 4 ∧ d.length = 4 ∧ e.length = 12

theorem drop_eq_take_append (n m : Nat) (cs : List Char) :
    cs.drop n = (cs.drop n).take m ++ cs.drop (n + m) := by
  rw [← List.drop_drop, List.take_append_drop]

theorem drop_eq_cons_of_getElem? {n : Nat} {c : Char} (h : cs[n]? = some c) :
    cs.drop n = c :: cs.drop (n + 1) := by
  obtain ⟨hn, hc⟩ := List.getElem?_eq_some_iff.1 h
  rw [List.drop_eq_getElem_cons hn, hc]

theorem grouped_hyphenated (h : ds.length = 32) :
    Grouped (hyphenated ds) ds (ds.take 8) ((ds.drop 8).take 4) ((ds.drop 12).take 4)
      ((ds.drop 16).take 4) (ds.drop 20) where
  text := by simp [hyphenated]
  digits := by
    rw [← drop_eq_take_append 16 4, ← drop_eq_take_append 12 4, ← drop_eq_take_append 8 4,
      List.take_append_drop]
  lengths := by
    simp only [List.length_take, List.length_drop]
    omega

theorem Grouped.eq_hyphenated {a b c d e : List Char} (h : Grouped cs ds a b c d e) :
    ds.length = 32 ∧ cs = hyphenated ds := by
  obtain ⟨rfl, rfl, ha, hb, hc, hd, he⟩ := h
  refine ⟨by simp [ha, hb, hc, hd, he], ?_⟩
  simp [hyphenated, List.drop_append, List.drop_of_length_le, ha, hb, hc, hd]

/-- Groups are joined if the text is that of 32 digits with hyphens between their groups. -/
theorem joinGroups?_eq_some_iff :
    joinGroups? cs = some ds ↔ ds.length = 32 ∧ cs = hyphenated ds := by
  constructor
  · intro h
    simp only [joinGroups?, beq_iff_eq, Option.ite_none_right_eq_some, Option.some_inj] at h
    obtain ⟨⟨hlength, h8, h13, h18, h23⟩, rfl⟩ := h
    refine Grouped.eq_hyphenated (a := cs.take 8) (b := (cs.drop 9).take 4)
      (c := (cs.drop 14).take 4) (d := (cs.drop 19).take 4) (e := cs.drop 24) ⟨?_, ?_, ?_⟩
    · rw [← drop_eq_cons_of_getElem? h23, ← drop_eq_take_append 19 4,
        ← drop_eq_cons_of_getElem? h18, ← drop_eq_take_append 14 4,
        ← drop_eq_cons_of_getElem? h13, ← drop_eq_take_append 9 4,
        ← drop_eq_cons_of_getElem? h8, List.take_append_drop]
    · simp
    · simp only [List.length_take, List.length_drop]
      omega
  · rintro ⟨hlength, rfl⟩
    obtain ⟨htext, hdigits, ha, hb, hc, hd, he⟩ := grouped_hyphenated hlength
    rw [htext]
    generalize ds.take 8 = a at *
    generalize (ds.drop 8).take 4 = b at *
    generalize (ds.drop 12).take 4 = c at *
    generalize (ds.drop 16).take 4 = d at *
    generalize ds.drop 20 = e at *
    subst hdigits
    simp [joinGroups?, List.drop_append, List.drop_of_length_le, ha, hb, hc, hd, he]

theorem length_hyphenated (h : ds.length = 32) : (hyphenated ds).length = 36 := by
  simp [hyphenated, h]

/-! ## Letter case -/

theorem getElem?_toLower_eq_hyphen_iff (cs : List Char) (i : Nat) :
    (cs.map Char.toLower)[i]? = some '-' ↔ cs[i]? = some '-' := by
  rw [List.getElem?_map]
  cases cs[i]? with
  | none => simp
  | some c => simp [toLower_eq_iff (show '-'.isAlpha = false from rfl)]

theorem joinGroups?_toLower (cs : List Char) :
    joinGroups? (cs.map Char.toLower) = (joinGroups? cs).map (List.map Char.toLower) := by
  simp only [joinGroups?, beq_iff_eq, getElem?_toLower_eq_hyphen_iff, List.length_map]
  split
  · simp [List.map_take, List.map_drop]
  · rfl

theorem unwrap_toLower (cs : List Char) :
    unwrap (cs.map Char.toLower) = (unwrap cs).map Char.toLower := by
  have hopen : (cs.map Char.toLower).head? = some '{' ↔ cs.head? = some '{' := by
    cases cs with
    | nil => simp
    | cons c cs => simp [toLower_eq_iff (show '{'.isAlpha = false from rfl)]
  have hclose : (cs.map Char.toLower).getLast? = some '}' ↔ cs.getLast? = some '}' := by
    rw [List.getLast?_map]
    cases cs.getLast? with
    | none => simp
    | some c => simp [toLower_eq_iff (show '}'.isAlpha = false from rfl)]
  simp only [unwrap, List.length_map, hopen, hclose, ← List.map_take, map_toLower_toLower]
  split
  · simp [List.map_take]
  · split
    · rw [List.map_drop]
    · rfl

theorem ofDigits?_eq_some_iff : ofDigits? cs = some u ↔ cs.map Char.toLower = u.digits := by
  unfold ofDigits?
  simp only [Option.dite_none_right_eq_some, Option.some_inj]
  constructor
  · rintro ⟨-, rfl⟩
    rfl
  · intro h
    refine ⟨by rw [h]; exact ⟨u.size, u.hex⟩, ?_⟩
    cases u
    cases h
    rfl

/-! ## Spellings -/

/-- What is left of a text when braces or the word for names are taken off it. -/
theorem unwrap_eq_iff (hds : ds.length = 36) (hcs : cs.map Char.toLower = cs) :
    unwrap cs = ds ↔ cs = ds ∨ cs = '{' :: ds ++ ['}'] ∨ cs = urn ++ ds := by
  have hurn : urn.length = 9 := rfl
  unfold unwrap
  constructor
  · intro h
    split at h
    · rename_i hbraces
      obtain ⟨hlength, hopen, hclose⟩ := hbraces
      obtain ⟨rest, rfl⟩ := List.head?_eq_some_iff.1 hopen
      obtain ⟨front, hfront⟩ := List.getLast?_eq_some_iff.1 hclose
      cases front with
      | nil =>
          rw [hfront] at hlength
          simp at hlength
      | cons c mid =>
          obtain ⟨rfl, rfl⟩ := List.cons.inj hfront
          have hmid : mid.length = 36 := by
            simpa using hlength
          refine Or.inr (Or.inl ?_)
          rw [← h]
          simp [hmid]
    · split at h
      · rename_i hname
        refine Or.inr (Or.inr ?_)
        rw [← h, ← hname.2, List.map_take, hcs, List.take_append_drop]
      · exact Or.inl h
  · rintro (rfl | rfl | rfl)
    · rw [if_neg (by omega), if_neg (by omega)]
    · have hclose : ('{' :: ds ++ ['}']).getLast? = some '}' := List.getLast?_concat
      rw [if_pos ⟨by simp [hds], rfl, hclose⟩]
      simp [hds]
    · have hname : (urn ++ ds).take 9 = urn := by
        simp [hurn]
      rw [if_neg (by simp [hurn, hds]), if_pos ⟨by simp [hurn, hds], by rw [hname]; decide⟩]
      simp [hurn]

/-- A text spells an identifier exactly if in small letters it is one of its spellings. -/
theorem ofText?_eq_some_iff {s : String} : ofText? s = some u ↔ foldCase s ∈ u.spellings := by
  have hlength := length_hyphenated u.size
  have hsmall := map_toLower_toLower s.toList
  have hspellings : foldCase s ∈ u.spellings ↔ s.toList.map Char.toLower = u.digits ∨
      s.toList.map Char.toLower = hyphenated u.digits ∨
      s.toList.map Char.toLower = '{' :: hyphenated u.digits ++ ['}'] ∨
      s.toList.map Char.toLower = urn ++ hyphenated u.digits := by
    simp only [spellings, List.mem_cons, List.not_mem_nil, or_false, ← String.toList_inj,
      toList_foldCase, String.toList_append, String.toList_ofList, toList_text]
    rfl
  have hunwrapped : (joinGroups? (unwrap s.toList)).bind ofDigits? = some u ↔
      unwrap (s.toList.map Char.toLower) = hyphenated u.digits := by
    have hjoin : joinGroups? (unwrap (s.toList.map Char.toLower)) = some u.digits ↔ _ :=
      joinGroups?_eq_some_iff
    simp only [u.size, true_and] at hjoin
    rw [← hjoin, unwrap_toLower, joinGroups?_toLower, Option.bind_eq_some_iff,
      Option.map_eq_some_iff]
    simp only [ofDigits?_eq_some_iff]
  rw [hspellings, ← unwrap_eq_iff hlength hsmall, ← hunwrapped]
  simp only [ofText?]
  split
  · rename_i h32
    have hother : ¬(joinGroups? (unwrap s.toList)).bind ofDigits? = some u := by
      rw [hunwrapped, unwrap_eq_iff hlength hsmall]
      -- The other spellings are longer.
      have hshort : (s.toList.map Char.toLower).length = 32 := by
        rw [List.length_map, h32]
      have hurn : urn.length = 9 := rfl
      rintro (h | h | h) <;>
        simp only [h, List.length_append, List.length_cons, List.length_nil, hurn, hlength]
          at hshort <;> omega
    rw [ofDigits?_eq_some_iff, or_iff_left hother]
  · rename_i h32
    have hdigits : ¬s.toList.map Char.toLower = u.digits := by
      intro h
      have hsize := u.size
      rw [← h, List.length_map] at hsize
      exact h32 hsize
    rw [or_iff_right hdigits]

theorem foldCase_text (u : Uuid) : foldCase u.text = u.text := by
  have hsmall : u.digits.map Char.toLower = u.digits := by
    refine (List.map_congr_left fun c hc => ?_).trans (List.map_id' _)
    have hdigit := List.all_eq_true.1 u.hex c hc
    simp only [isSmallHexDigit, Bool.and_eq_true, Bool.not_eq_true'] at hdigit
    exact toLower_of_not_isUpper hdigit.2
  rw [← String.toList_inj, toList_foldCase, toList_text]
  simp [hyphenated, List.map_take, List.map_drop, hsmall]

/-- An identifier is read from the text that shows it. -/
theorem ofText?_text (u : Uuid) : ofText? u.text = some u := by
  rw [ofText?_eq_some_iff, foldCase_text]
  simp [spellings]

/-! ## Visible characters -/

theorem visible_of_hexValue? {c : Char} (h : (hexValue? c).isSome = true) :
    0x20 ≤ c.toNat ∧ c.toNat ≤ 0x7E := by
  have hle {a b : Char} (h : a ≤ b) : a.toNat ≤ b.toNat := h
  unfold hexValue? at h
  split_ifs at h with hdigit hsmall hcapital
  · simp only [Char.isDigit, Bool.and_eq_true, decide_eq_true_eq] at hdigit
    exact ⟨Nat.le_trans (by decide) (hle hdigit.1), Nat.le_trans (hle hdigit.2) (by decide)⟩
  · exact ⟨Nat.le_trans (by decide) (hle hsmall.1), Nat.le_trans (hle hsmall.2) (by decide)⟩
  · exact ⟨Nat.le_trans (by decide) (hle hcapital.1), Nat.le_trans (hle hcapital.2) (by decide)⟩
  · cases h

theorem mem_hyphenated {c : Char} (h : c ∈ hyphenated ds) : c = '-' ∨ c ∈ ds := by
  simp only [hyphenated, List.mem_append, List.mem_cons] at h
  rcases h with (((h | h | h) | h | h) | h | h) | h | h
  · exact Or.inr (List.mem_of_mem_take h)
  · exact Or.inl h
  · exact Or.inr (List.mem_of_mem_drop (List.mem_of_mem_take h))
  · exact Or.inl h
  · exact Or.inr (List.mem_of_mem_drop (List.mem_of_mem_take h))
  · exact Or.inl h
  · exact Or.inr (List.mem_of_mem_drop (List.mem_of_mem_take h))
  · exact Or.inl h
  · exact Or.inr (List.mem_of_mem_drop h)

/-- All characters that an identifier is shown with are printable. -/
theorem visible_text (u : Uuid) : ∀ c ∈ u.text.toList, 0x20 ≤ c.toNat ∧ c.toNat ≤ 0x7E := by
  intro c hc
  rw [toList_text] at hc
  rcases mem_hyphenated hc with rfl | hdigit
  · decide
  · have hhex := List.all_eq_true.1 u.hex c hdigit
    simp only [isSmallHexDigit, Bool.and_eq_true] at hhex
    exact visible_of_hexValue? hhex.1

end EgressAuth.Http.Uuid
