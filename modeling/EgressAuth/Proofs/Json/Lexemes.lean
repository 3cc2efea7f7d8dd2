/-
  EgressAuth.Proofs.Json.Lexemes

  The readers of words, numbers and strings decide what the grammar says of
  them. Each part of a number is read by a function of its own, so there is
  one lemma about what that function takes and one about where it stops.
-/
import EgressAuth.Proofs.Json.Recognition

namespace EgressAuth.Json

variable {α : Type}

/-! ## Words -/

theorem literal_decides (word : Bytes) (a : α) (hw : word ≠ [])
    (hstart : ∃ b t, word = b :: t ∧ startsValue b = true) :
    (Reader.literal word a hw).Decides fun w x => w = word ∧ x = a where
  starts := by
    rintro _ _ ⟨rfl, -⟩
    exact hstart
  sound _ hrun := by
    obtain ⟨⟨t, rfl⟩, rfl, rfl⟩ := Reader.literal_run_eq_some_iff.1 hrun
    exact ⟨word, by simp, rfl, rfl⟩
  complete := by
    rintro _ _ r ⟨rfl, rfl⟩ -
    exact Reader.literal_run_eq_some_iff.2 ⟨List.prefix_append _ _, rfl, List.drop_left⟩

theorem word_decides : Reader.word.Decides IsWord := by
  have hnull := literal_decides [0x6E, 0x75, 0x6C, 0x6C] Json.null (by decide)
    ⟨_, _, rfl, by decide⟩
  have htrue := literal_decides [0x74, 0x72, 0x75, 0x65] (Json.bool true) (by decide)
    ⟨_, _, rfl, by decide⟩
  have hfalse := literal_decides [0x66, 0x61, 0x6C, 0x73, 0x65] (Json.bool false) (by decide)
    ⟨_, _, rfl, by decide⟩
  -- The words begin with letters of their own.
  have hboth := htrue.orElse hfalse (by rintro _ _ ⟨rfl, -⟩ r; rfl)
  refine (hnull.orElse hboth (by rintro _ _ (⟨rfl, -⟩ | ⟨rfl, -⟩) r <;> rfl)).congr ?_
  intro w j
  constructor
  · rintro (⟨rfl, rfl⟩ | ⟨rfl, rfl⟩ | ⟨rfl, rfl⟩)
    · exact .null
    · exact .true
    · exact .false
  · rintro (_ | _ | _)
    · exact .inl ⟨rfl, rfl⟩
    · exact .inr (.inl ⟨rfl, rfl⟩)
    · exact .inr (.inr ⟨rfl, rfl⟩)

/-! ## Numbers -/

theorem isDigits_splitDigits {s : Bytes} (h : (splitDigits s).1.isEmpty = false) :
    IsDigits (splitDigits s).1 :=
  ⟨by simpa using h, fun _ hd => List.mem_takeWhile_imp hd⟩

theorem IsDigits.exists_cons {ds : Bytes} (h : IsDigits ds) :
    ∃ d t, ds = d :: t ∧ Decimal.isDigit d = true := by
  obtain ⟨d, t, rfl⟩ := List.exists_cons_of_ne_nil h.1
  exact ⟨d, t, rfl, h.2 d List.mem_cons_self⟩

theorem IsDigits.isEmpty {ds : Bytes} (h : IsDigits ds) : ds.isEmpty = false := by
  simpa using h.1

theorem exists_isSign (s : Bytes) :
    ∃ w, s = w ++ (takeMinus s).2 ∧ IsSign w (takeMinus s).1 := by
  unfold takeMinus
  split
  · split
    · rename_i hb
      exact ⟨[0x2D], by rw [hb]; rfl, .minus⟩
    · exact ⟨[], rfl, .absent⟩
  · exact ⟨[], rfl, .absent⟩

theorem IsSign.takeMinus {w r : Bytes} {negative : Bool} (h : IsSign w negative)
    (hr : ∀ b t, r = b :: t → b ≠ 0x2D) : takeMinus (w ++ r) = (negative, r) := by
  cases h with
  | absent =>
      cases r with
      | nil => rfl
      | cons b t => exact if_neg (hr b t rfl)
  | minus => rfl

theorem exists_isFraction {s ds r : Bytes} (h : takeFraction s = some (ds, r)) :
    ∃ w, s = w ++ r ∧ IsFraction w ds := by
  unfold takeFraction at h
  split at h
  · rename_i b t
    split at h
    · rename_i hb
      split at h
      · cases h
      · rename_i hdigits
        have hsplit := splitDigits_append t
        rw [Option.some_inj] at h
        rw [h] at hsplit
        have hds := isDigits_splitDigits (Bool.eq_false_iff.2 hdigits)
        rw [h] at hds
        exact ⟨0x2E :: ds, by rw [hb, ← hsplit]; rfl, .point hds⟩
    · cases h
      exact ⟨[], rfl, .absent⟩
  · cases h
    exact ⟨[], rfl, .absent⟩

theorem IsFraction.takeFraction {w ds r : Bytes} (h : IsFraction w ds)
    (hr : ∀ b t, r = b :: t → Decimal.isDigit b = false ∧ b ≠ 0x2E) :
    takeFraction (w ++ r) = some (ds, r) := by
  cases h with
  | absent => exact takeFraction_of_ne_point fun b t e => (hr b t e).2
  | point h =>
      have hsplit := splitDigits_append_of_not_digit h.2 fun b t e => (hr b t e).1
      simp [Json.takeFraction, hsplit, h.isEmpty]

/-- What stands behind the mark of an exponent: a sign or none, and digits. -/
theorem exists_isExponent {s ds r : Bytes} {negative : Bool}
    (h : takeExponent s = some (negative, ds, r)) : ∃ w, s = w ++ r ∧ IsExponent w negative ds := by
  unfold takeExponent at h
  split at h
  · rename_i b t
    split at h
    · rename_i hb
      split at h
      rename_i negative' t' hsign
      split at h
      · cases h
      · rename_i hdigits
        have hsplit := splitDigits_append t'
        obtain ⟨rfl, hpair⟩ := Prod.mk.inj (Option.some.inj h)
        have hds := isDigits_splitDigits (Bool.eq_false_iff.2 hdigits)
        rw [hpair] at hsplit hds
        split at hsign
        · rename_i c t''
          split at hsign
          · rename_i hc
            obtain ⟨rfl, rfl⟩ := Prod.mk.inj hsign
            exact ⟨b :: 0x2D :: ds, by rw [hc, ← hsplit]; rfl, .minus hb hds⟩
          · split at hsign
            · rename_i hc
              obtain ⟨rfl, rfl⟩ := Prod.mk.inj hsign
              exact ⟨b :: 0x2B :: ds, by rw [hc, ← hsplit]; rfl, .plus hb hds⟩
            · obtain ⟨rfl, rfl⟩ := Prod.mk.inj hsign
              exact ⟨b :: ds, by rw [← hsplit]; rfl, .bare hb hds⟩
        · obtain ⟨rfl, rfl⟩ := Prod.mk.inj hsign
          exact ⟨b :: ds, by rw [← hsplit]; rfl, .bare hb hds⟩
    · cases h
      exact ⟨[], rfl, .absent⟩
  · cases h
    exact ⟨[], rfl, .absent⟩

theorem IsExponent.takeExponent {w ds r : Bytes} {negative : Bool}
    (h : IsExponent w negative ds) (hr : Stops r) :
    takeExponent (w ++ r) = some (negative, ds, r) := by
  have hsplit {ds : Bytes} (h : IsDigits ds) : splitDigits (ds ++ r) = (ds, r) :=
    splitDigits_append_of_not_digit h.2 hr.not_digit
  have hmark {e : UInt8} (he : marksExponent e) : e = 0x65 ∨ e = 0x45 := he
  cases h with
  | absent => exact takeExponent_of_stops hr
  | bare he h =>
      -- The first digit is not taken for a sign.
      obtain ⟨d, t, rfl, hd⟩ := h.exists_cons
      have hminus : d ≠ 0x2D := by
        rintro rfl
        exact absurd hd (by decide)
      have hplus : d ≠ 0x2B := by
        rintro rfl
        exact absurd hd (by decide)
      have hsplit := hsplit h
      rw [List.cons_append] at hsplit
      simp [Json.takeExponent, hmark he, hminus, hplus, hsplit]
  | plus he h => simp [Json.takeExponent, hmark he, hsplit h, h.isEmpty]
  | minus he h => simp [Json.takeExponent, hmark he, hsplit h, h.isEmpty]

/-- An exponent or the end of the number follows the digits of a fraction. -/
theorem IsExponent.stops_fraction {w ds r : Bytes} {negative : Bool} (h : IsExponent w negative ds)
    (hr : Stops r) : ∀ b t, w ++ r = b :: t → Decimal.isDigit b = false ∧ b ≠ 0x2E := by
  have hmark {e : UInt8} (he : marksExponent e) : Decimal.isDigit e = false ∧ e ≠ 0x2E := by
    rcases he with rfl | rfl <;> decide
  intro b t hb
  cases h with
  | absent =>
      obtain ⟨hdigit, hpoint, -⟩ := continuesNumber_eq_false_iff.1 (hr b t hb)
      exact ⟨hdigit, hpoint⟩
  | bare he _ => exact (List.cons.inj hb).1 ▸ hmark he
  | plus he _ => exact (List.cons.inj hb).1 ▸ hmark he
  | minus he _ => exact (List.cons.inj hb).1 ▸ hmark he

/-- A fraction or what may follow one follows the whole digits. -/
theorem IsFraction.stops_whole {w ds r : Bytes} (h : IsFraction w ds)
    (hr : ∀ b t, r = b :: t → Decimal.isDigit b = false) :
    ∀ b t, w ++ r = b :: t → Decimal.isDigit b = false := by
  intro b t hb
  cases h with
  | absent => exact hr b t hb
  | point _ =>
      rw [← (List.cons.inj hb).1]
      decide

theorem numeral_sound {s r : Bytes} {n : Numeral} (h : numeral? s = some (n, r)) :
    ∃ w, s = w ++ r ∧ IsNumeral w n := by
  obtain ⟨sign, hs, hsign⟩ := exists_isSign s
  unfold numeral? at h
  have hsplit := splitDigits_append (takeMinus s).2
  simp only at h
  split at h
  · cases h
  · rename_i hwhole
    rw [not_or] at hwhole
    split at h
    · cases h
    · rename_i fraction s₁ hfraction
      split at h
      · cases h
      · rename_i negative exponent s₂ hexponent
        cases h
        obtain ⟨f, hs₁, hf⟩ := exists_isFraction hfraction
        obtain ⟨e, hs₂, he⟩ := exists_isExponent hexponent
        have hzero : (splitDigits (takeMinus s).2).1.head? = some 0x30 →
            (splitDigits (takeMinus s).2).1 = [0x30] := by
          -- A zero in front of other digits is refused.
          intro hzero
          have hlength : ¬1 < (splitDigits (takeMinus s).2).1.length :=
            fun hlength => hwhole.2 ⟨hzero, hlength⟩
          obtain ⟨rest, hrest⟩ := List.head?_eq_some_iff.1 hzero
          rw [hrest] at hlength ⊢
          cases rest with
          | nil => rfl
          | cons b t => simp at hlength
        refine ⟨_, ?_, .parts (n := ⟨_, _, _, _, _⟩) hsign
          (isDigits_splitDigits (Bool.eq_false_iff.2 hwhole.1)) hzero hf he⟩
        simp only [List.append_assoc]
        rw [← hs₂, ← hs₁, hsplit, ← hs]

theorem numeral_complete {w r : Bytes} {n : Numeral} (h : IsNumeral w n) (hr : Stops r) :
    numeral? (w ++ r) = some (n, r) := by
  cases h with
  | parts hsign hwhole hzero hf he =>
      rename_i sign f e
      have hexponent := he.takeExponent hr
      have hfraction := hf.takeFraction (he.stops_fraction hr)
      have hsplit := splitDigits_append_of_not_digit hwhole.2
        (hf.stops_whole fun b t hb => (he.stops_fraction hr b t hb).1)
      have hminus := hsign.takeMinus (r := n.whole ++ (f ++ (e ++ r))) (by
        obtain ⟨d, t, hd, hdigit⟩ := hwhole.exists_cons
        intro b u hb
        rw [hd] at hb
        cases hb
        rintro rfl
        exact absurd hdigit (by decide))
      have hlong : ¬(n.whole.isEmpty ∨ (n.whole.head? = some 0x30 ∧ 1 < n.whole.length)) := by
        rintro (hempty | ⟨hhead, hlength⟩)
        · exact hwhole.1 (List.isEmpty_iff.1 hempty)
        · rw [hzero hhead] at hlength
          simp at hlength
      have htext : sign ++ (n.whole ++ (f ++ e)) ++ r = sign ++ (n.whole ++ (f ++ (e ++ r))) := by
        simp
      rw [htext]
      unfold numeral?
      simp only [hminus, hsplit, if_neg hlong, hfraction, hexponent]

theorem IsNumeral.starts {w : Bytes} {n : Numeral} (h : IsNumeral w n) :
    ∃ b t, w = b :: t ∧ (b = 0x2D ∨ Decimal.isDigit b = true) := by
  cases h with
  | parts hsign hwhole _ _ _ =>
      obtain ⟨d, t, hd, hdigit⟩ := hwhole.exists_cons
      generalize n.negative = negative at hsign
      cases hsign with
      | absent => exact ⟨d, _, by rw [hd]; rfl, .inr hdigit⟩
      | minus => exact ⟨0x2D, _, rfl, .inl rfl⟩

theorem numeral_decides : Reader.numeral.Decides IsNumeral where
  starts hw := by
    obtain ⟨b, t, rfl, rfl | hb⟩ := hw.starts
    · exact ⟨0x2D, t, rfl, by decide⟩
    · exact ⟨b, t, rfl, startsValue_of_isDigit hb⟩
  sound _ := numeral_sound
  complete := numeral_complete

/-! ## Strings -/

theorem shortEscape?_ne_unitLetter {letter b : UInt8} (h : shortEscape? letter = some b) :
    letter ≠ unitLetter := by
  rintro rfl
  have hnone : shortEscape? unitLetter = none := by decide
  rw [hnone] at h
  cases h

theorem pieces_sound {s r : Bytes} {acc ps : List Piece} (h : pieces s acc = some (ps, r)) :
    ∃ w qs, s = w ++ quote :: r ∧ Writes w qs ∧ ps = acc.reverse ++ qs := by
  fun_induction pieces s acc with
  | case2 s acc =>
      cases h
      exact ⟨[], [], rfl, .nil, by simp⟩
  | case3 acc h₁ h₂ h₃ h₄ s u hu hq ih =>
      obtain ⟨w, qs, rfl, hw, rfl⟩ := ih h
      exact ⟨_, _, rfl, .unit hu hw, by simp⟩
  | case6 acc e s hu b hb hq ih =>
      obtain ⟨w, qs, rfl, hw, rfl⟩ := ih h
      exact ⟨_, _, rfl, .short hb hw, by simp⟩
  | case10 b s acc hq hs hc ih =>
      obtain ⟨w, qs, rfl, hw, rfl⟩ := ih h
      exact ⟨_, _, rfl, .plain hq hs hc hw, by simp⟩
  | case1 | case4 | case5 | case7 | case8 | case9 => cases h

theorem pieces_complete {w : Bytes} {ps : List Piece} (h : Writes w ps) (r : Bytes)
    (acc : List Piece) : pieces (w ++ quote :: r) acc = some (acc.reverse ++ ps, r) := by
  induction h generalizing acc with
  | nil =>
      rw [List.nil_append, pieces.eq_def]
      simp
  | plain hquote hbackslash hcontrol _ ih =>
      rw [List.cons_append, pieces_plain hquote hbackslash hcontrol, ih]
      simp
  | short hb _ ih =>
      rw [List.cons_append, List.cons_append, pieces_short (shortEscape?_ne_unitLetter hb) hb, ih]
      simp
  | unit hu _ ih =>
      simp only [List.cons_append]
      rw [pieces_unit hu, ih]
      simp

theorem pieces_decides : Reader.pieces.Decides IsLiteral where
  starts := by
    rintro _ _ ⟨-⟩
    exact ⟨quote, _, rfl, by decide⟩
  sound {s ps r} _ hrun := by
    simp only [Reader.pieces] at hrun
    split at hrun
    · split at hrun
      · rename_i hb
        obtain ⟨w, qs, rfl, hw, rfl⟩ := pieces_sound hrun
        refine ⟨quote :: (w ++ [quote]), ?_, .quoted hw⟩
        simp [hb]
      · cases hrun
    · cases hrun
  complete {w ps r} hw _ := by
    cases hw with
    | quoted h =>
        rename_i w
        show pieces (w ++ [quote] ++ r) [] = some (ps, r)
        rw [List.append_assoc]
        exact pieces_complete h r []

theorem assemble_eq_some_iff {ps : List Piece} {acc bs : Bytes} :
    assemble ps acc = some bs ↔ ∃ cs, Means ps cs ∧ bs = acc.reverse ++ cs := by
  constructor
  · intro h
    fun_induction assemble ps acc with
    | case1 acc =>
        cases h
        exact ⟨[], .nil, by simp⟩
    | case2 b ps acc ih =>
        obtain ⟨cs, hcs, rfl⟩ := ih h
        exact ⟨_, .byte hcs, by simp⟩
    | case3 u acc hhigh v ps hlow point ih =>
        obtain ⟨cs, hcs, hbs⟩ := ih h
        refine ⟨_, .pair hhigh hlow hcs, ?_⟩
        rw [hbs, List.reverse_append, List.reverse_reverse, List.append_assoc]
    | case4 => cases h
    | case5 => cases h
    | case6 => cases h
    | case7 u ps acc hhigh hlow ih =>
        obtain ⟨cs, hcs, rfl⟩ := ih h
        refine ⟨_, .unit (Bool.eq_false_iff.2 hhigh) (Bool.eq_false_iff.2 hlow) hcs, ?_⟩
        rw [List.reverse_append, List.reverse_reverse, List.append_assoc]
  · rintro ⟨cs, hcs, rfl⟩
    induction hcs generalizing acc with
    | nil => simp [assemble]
    | byte _ ih =>
        rw [assemble, ih]
        simp
    | unit hhigh hlow _ ih =>
        rw [assemble.eq_def]
        simp [hhigh, hlow, ih]
    | pair hhigh hlow _ ih =>
        rw [assemble.eq_def]
        simp [hhigh, hlow, ih]

theorem text_decides : Reader.text.Decides Spells := by
  refine (pieces_decides.filterMap _).congr fun w s => ?_
  simp only [Option.bind_eq_some_iff, assemble_eq_some_iff]
  constructor
  · rintro ⟨ps, hps, bs, ⟨cs, hcs, rfl⟩, hdecode⟩
    rw [← Text.encode_of_decode? hdecode] at hcs
    exact ⟨ps, hps, hcs⟩
  · rintro ⟨ps, hps, hmeans⟩
    exact ⟨ps, hps, _, ⟨_, hmeans, rfl⟩, Text.decode?_encode s⟩

end EgressAuth.Json
