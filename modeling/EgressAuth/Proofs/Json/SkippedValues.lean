/-
  EgressAuth.Proofs.Json.SkippedValues

  What is passed over is a JSON value and every JSON value is passed over
  (`skip_decides`), whatever it holds and however deep it goes.

  Passing over keeps the open containers on a stack. `Unwinds` says what a
  stack asks of a text; the run of the machine is shown to give a derivation
  of that, and a value to leave the stack as it was.
-/
import EgressAuth.Json.Skip
import EgressAuth.Proofs.Json.Lexemes

namespace EgressAuth.Json

/-! ## Single steps -/

section Steps

variable {c : Enclosing} {stack : List Enclosing} {b : UInt8} {s t : Bytes}

/-- Behind a value a comma leads to the next one, and the closing byte out of the container. -/
theorem skipThrough_sequel (hs : skipBlank s = b :: t) :
    skipThrough .sequel (c :: stack) s =
      if b = comma then (skipToValue c t).bind (skipThrough .value (c :: stack))
      else if b = c.closing then skipThrough .sequel stack t
      else none := by
  -- The definition matches under equations that its termination needs, hence the splits.
  rw [skipThrough]
  split
  · rename_i hnil
    rw [hs] at hnil
    cases hnil
  · rename_i b' t' hcons
    rw [hs] at hcons
    obtain ⟨rfl, rfl⟩ := List.cons.inj hcons
    congr 1
    split <;> rename_i h <;> simp [h]

/-- A value is a scalar, or a container that is empty or has a first item. -/
theorem skipThrough_value (hs : skipBlank s = b :: t) :
    skipThrough .value stack s =
      match opened? b with
      | some c => match expect c.closing t with
        | some r => skipThrough .sequel stack r
        | none => (skipToValue c t).bind (skipThrough .value (c :: stack))
      | none => (Reader.scalarForm.run (b :: t)).bind fun x => skipThrough .sequel stack x.2 := by
  rw [skipThrough]
  split
  · rename_i hnil
    rw [hs] at hnil
    cases hnil
  · rename_i b' t' hcons
    rw [hs] at hcons
    obtain ⟨rfl, rfl⟩ := List.cons.inj hcons
    cases ho : opened? b with
    | some c =>
        dsimp only
        split <;> rename_i h
        · rw [h]
        · rw [h]
          dsimp only
          split <;> rename_i h' <;> simp [h']
    | none =>
        dsimp only
        split <;> rename_i h <;> simp [h]

/-- No scalar begins like a container. -/
theorem scalarForm_run_of_opened? (hb : opened? b = some c) (t : Bytes) :
    Reader.scalarForm.run (b :: t) = none := by
  unfold opened? at hb
  split at hb
  · subst b
    rfl
  · split at hb
    · subst b
      rfl
    · cases hb

end Steps

/-! ## Scalars -/

/-- No word begins with a sign or a digit. -/
theorem word_run_of_number {b : UInt8} (hb : b = 0x2D ∨ Decimal.isDigit b = true) (t : Bytes) :
    Reader.word.run (b :: t) = none := by
  have hne (letter : UInt8) (hminus : letter ≠ 0x2D) (hdigit : Decimal.isDigit letter = false) :
      letter ≠ b := by
    rintro rfl
    rcases hb with rfl | hb
    · exact hminus rfl
    · rw [hdigit] at hb
      cases hb
  simp [Reader.word, Reader.orElse, Reader.literal, List.cons_prefix_cons,
    hne 0x6E (by decide) (by decide), hne 0x74 (by decide) (by decide),
    hne 0x66 (by decide) (by decide)]

theorem scalarForm_decides : Reader.scalarForm.Decides fun w _ => IsScalar w := by
  have hword := word_decides.map fun _ => ()
  have hnumber := numeral_decides.map fun _ => ()
  have hstring := pieces_decides.map fun _ => ()
  -- Numbers and strings are told from what comes before them by their first byte.
  have hrest := hnumber.orElse hstring (by rintro _ _ ⟨ps, ⟨-⟩, -⟩ r; rfl)
  refine (hword.orElse hrest ?_).congr ?_
  · rintro _ _ (⟨n, hn, -⟩ | ⟨ps, ⟨-⟩, -⟩) r
    · obtain ⟨b, t, rfl, hb⟩ := hn.starts
      have hnone := word_run_of_number hb (t ++ r)
      simp [Reader.map, hnone]
    · rfl
  · intro w u
    constructor
    · rintro (⟨j, h, -⟩ | ⟨n, h, -⟩ | ⟨ps, h, -⟩)
      · exact .word h
      · exact .number h
      · exact .string h
    · rintro (h | h | h)
      · exact .inl ⟨_, h, rfl⟩
      · exact .inr (.inl ⟨_, h, rfl⟩)
      · exact .inr (.inr ⟨_, h, rfl⟩)

theorem IsScalar.starts {w : Bytes} (h : IsScalar w) :
    ∃ b t, w = b :: t ∧ startsValue b = true :=
  scalarForm_decides.starts (a := ()) h

theorem IsScalar.not_opened {w t : Bytes} {b : UInt8} (h : IsScalar w) (hw : w = b :: t) :
    opened? b = none := by
  cases ho : opened? b with
  | none => rfl
  | some c =>
      have hrun := scalarForm_decides.complete (a := ()) h stops_nil
      rw [hw, List.append_nil, scalarForm_run_of_opened? ho] at hrun
      cases hrun

/-! ## Brackets -/

theorem opened?_opening (c : Enclosing) : opened? c.opening = some c := by
  cases c <;> rfl

theorem eq_opening_of_opened? {b : UInt8} {c : Enclosing} (h : opened? b = some c) :
    b = c.opening := by
  unfold opened? at h
  split at h
  · rename_i hb
    cases h
    exact hb
  · split at h
    · rename_i hb
      cases h
      exact hb
    · cases h

theorem Enclosing.closes (c : Enclosing) : Closes c.closing := by
  cases c with
  | list => exact .inl rfl
  | object => exact .inr rfl

theorem Enclosing.startsValue_opening (c : Enclosing) : startsValue c.opening = true := by
  cases c <;> rfl

theorem IsValue.starts {w : Bytes} (h : IsValue w) :
    ∃ b t, w = b :: t ∧ startsValue b = true := by
  cases h with
  | scalar h => exact h.starts
  | container h _ =>
      cases h with
      | empty _ => exact ⟨_, _, rfl, Enclosing.startsValue_opening _⟩
      | items _ _ _ => exact ⟨_, _, rfl, Enclosing.startsValue_opening _⟩

/-! ## Leading texts -/

/-- The value of an item is found behind what leads to it. -/
theorem Leads.skipToValue {c : Enclosing} {lead g : Bytes} (h : Leads c lead) (hg : Blanks g)
    (s : Bytes) : ∃ u, skipToValue c (g ++ (lead ++ s)) = some u ∧ skipBlank u = skipBlank s := by
  cases h with
  | list => exact ⟨_, rfl, hg.skipBlank_append s⟩
  | object hname hg₁ hg₂ =>
      rename_i n g₁ g₂ ps
      refine ⟨g₂ ++ s, ?_, hg₂.skipBlank_append s⟩
      have hstops : Stops (g₁ ++ colon :: (g₂ ++ s)) := hg₁.stops (stops_cons (by decide) _)
      have hrun := pieces_decides.run_skipBlank hname hg hstops
      have htext : g ++ (n ++ (g₁ ++ colon :: g₂) ++ s) =
          g ++ (n ++ (g₁ ++ colon :: (g₂ ++ s))) := by
        simp
      have hcolon := hg₁.expect (b := colon) (by decide) (g₂ ++ s)
      simp only [Json.skipToValue, skipName, htext, hrun, hcolon]

/-- What stands in front of the place where a value is looked for leads to it. -/
theorem exists_leads {c : Enclosing} {s u : Bytes} (h : skipToValue c s = some u) {g t : Bytes}
    (hu : u = g ++ t) (hg : Blanks g) :
    ∃ g' lead, s = g' ++ (lead ++ t) ∧ Blanks g' ∧ Leads c lead := by
  cases c with
  | list =>
      cases h
      exact ⟨g, [], hu, hg, .list⟩
  | object =>
      simp only [skipToValue, skipName] at h
      split at h
      · rename_i ps r hname
        obtain ⟨g', n, rfl, hg', hn⟩ := pieces_decides.of_run_skipBlank hname
        obtain ⟨g₁, rfl, hg₁⟩ := exists_blanks_of_expect h
        refine ⟨g', n ++ (g₁ ++ colon :: g), ?_, hg', .object hn hg₁ hg⟩
        rw [hu]
        simp
      · cases h

/-! ## The machine -/

/-- What a stack of open containers asks of a text that is left at `r` when they are all closed. -/
def Unwinds : List Enclosing → Bytes → Bytes → Prop
  | [], s, r => s = r
  | c :: outer, s, r => ∃ v xs t, s = v ++ c.closing :: t ∧ Tail (IsItem c) v xs ∧
      (∀ x ∈ xs, IsValue x.2) ∧ Unwinds outer t r

/-- What the machine asks of a text, by what it awaits. -/
def Asks : Awaiting → List Enclosing → Bytes → Bytes → Prop
  | .sequel, stack, s, r => Unwinds stack s r
  | .value, stack, s, r => ∃ g w t, s = g ++ (w ++ t) ∧ Blanks g ∧ IsValue w ∧ Unwinds stack t r

/-- A run of the machine has a derivation behind it. -/
theorem skipThrough_sound {awaiting : Awaiting} {stack : List Enclosing} {s r : Bytes}
    (h : skipThrough awaiting stack s = some r) : Asks awaiting stack s r := by
  -- The induction is on the run: what is left to do behind a step is asked of the rest of the text.
  fun_induction skipThrough awaiting stack s with
  | case1 s => exact Option.some.inj h
  | case3 s c outer t u hu hle hs hlt ih =>
      obtain ⟨g, w, t', hu', hg, hw, v, xs, t'', rfl, htail, hxs, hrest⟩ := ih h
      obtain ⟨g', lead, rfl, hg', hlead⟩ := exists_leads hu hu' hg
      obtain ⟨g₀, hs₀, hg₀⟩ := exists_blanks s
      refine ⟨_, (lead, w) :: xs, t'', ?_, .comma hg₀ hg' ⟨hlead, rfl⟩ htail, ?_, hrest⟩
      · rw [hs₀, hs]
        simp
      · exact List.forall_mem_cons.2 ⟨hw, hxs⟩
  | case5 s c outer t hs hlt hne ih =>
      obtain ⟨g₀, hs₀, hg₀⟩ := exists_blanks s
      exact ⟨g₀, [], t, by rw [hs₀, hs], .blanks hg₀, by simp, ih h⟩
  | case8 s stack b t hs hlt c ho u hu hlt' ih =>
      obtain ⟨g₀, hs₀, hg₀⟩ := exists_blanks s
      obtain ⟨g, rfl, hg⟩ := exists_blanks_of_expect hu
      refine ⟨g₀, _, u, ?_, hg₀, .container (c := c) (.empty hg) (by simp), ih h⟩
      rw [hs₀, hs, eq_opening_of_opened? ho]
      simp
  | case9 s stack b t hs hlt c ho hopen u hu hle ih =>
      obtain ⟨g, w, t', hu', hg, hw, v, xs, t'', rfl, htail, hxs, hrest⟩ := ih h
      obtain ⟨g', lead, rfl, hg', hlead⟩ := exists_leads hu hu' hg
      obtain ⟨g₀, hs₀, hg₀⟩ := exists_blanks s
      have hitem : IsItem c (lead ++ w) (lead, w) := ⟨hlead, rfl⟩
      refine ⟨g₀, _, t'', ?_, hg₀, .container (c := c) (.items hg' hitem htail)
        (List.forall_mem_cons.2 ⟨hw, hxs⟩), hrest⟩
      rw [hs₀, hs, eq_opening_of_opened? ho]
      simp
  | case11 s stack b t hs hlt ho x u hu hle ih =>
      obtain ⟨g₀, hs₀, hg₀⟩ := exists_blanks s
      have hblank : skipBlank (b :: t) = b :: t := hs ▸ skipBlank_skipBlank s
      obtain ⟨w, hw, hscalar⟩ := scalarForm_decides.sound hblank hu
      exact ⟨g₀, w, u, by rw [hs₀, hs, hw], hg₀, .scalar hscalar, ih h⟩
  | case2 | case4 | case6 | case7 | case10 | case12 => cases h

/-- What is the same behind blanks is passed over in the same way. -/
theorem skipThrough_value_congr {stack : List Enclosing} {s t : Bytes}
    (h : skipBlank s = skipBlank t) : skipThrough .value stack s = skipThrough .value stack t := by
  cases ht : skipBlank t with
  | nil =>
      have hnil {s : Bytes} (hs : skipBlank s = []) : skipThrough .value stack s = none := by
        rw [skipThrough]
        split
        · rfl
        · rename_i hcons
          rw [hs] at hcons
          cases hcons
      rw [hnil ht, hnil (h.trans ht)]
  | cons b u => rw [skipThrough_value ht, skipThrough_value (h.trans ht)]

/-- A value leaves the stack as it was. -/
def PassedOver (w : Bytes) : Prop :=
  ∀ stack r, Stops r → skipThrough .value stack (w ++ r) = skipThrough .sequel stack r

/-- Items are passed over up to the bracket behind them. -/
theorem skipThrough_items {c : Enclosing} {g w v : Bytes} {x : Bytes × Bytes}
    {xs : List (Bytes × Bytes)} (hg : Blanks g) (hw : IsItem c w x) (hv : Tail (IsItem c) v xs)
    (hxs : ∀ y ∈ x :: xs, PassedOver y.2) (stack : List Enclosing) (r : Bytes) :
    (skipToValue c (g ++ (w ++ (v ++ c.closing :: r)))).bind (skipThrough .value (c :: stack)) =
      skipThrough .sequel stack r := by
  induction hv generalizing g w x with
  | blanks hg' =>
      rename_i g'
      obtain ⟨hlead, rfl⟩ := hw
      obtain ⟨u, hu, hskip⟩ := hlead.skipToValue hg (x.2 ++ (g' ++ c.closing :: r))
      rw [List.append_assoc, hu, Option.bind_some, skipThrough_value_congr hskip,
        hxs x List.mem_cons_self _ _ (hg'.stops (c.closes.stops r)),
        skipThrough_sequel (hg'.skipBlank_cons c.closes.not_blank r), if_neg c.closes.ne_comma,
        if_pos rfl]
  | @comma g₁ g₂ w₂ v y ys hg₁ hg₂ hy htail ih =>
      obtain ⟨hlead, rfl⟩ := hw
      have htext : g₁ ++ comma :: (g₂ ++ (w₂ ++ v)) ++ c.closing :: r =
          g₁ ++ comma :: (g₂ ++ (w₂ ++ (v ++ c.closing :: r))) := by
        simp
      obtain ⟨u, hu, hskip⟩ := hlead.skipToValue hg
        (x.2 ++ (g₁ ++ comma :: (g₂ ++ (w₂ ++ (v ++ c.closing :: r)))))
      rw [htext, List.append_assoc, hu, Option.bind_some, skipThrough_value_congr hskip,
        hxs x List.mem_cons_self _ _ (hg₁.stops (stops_cons (by decide) _)),
        skipThrough_sequel (hg₁.skipBlank_cons (by decide) _), if_pos rfl,
        ih hg₂ hy fun z hz => hxs z (List.mem_cons_of_mem _ hz)]

theorem IsScalar.passedOver {w : Bytes} (h : IsScalar w) : PassedOver w := by
  intro stack r hr
  have hrun := scalarForm_decides.complete (a := ()) h hr
  have hskip := skipBlank_append_of_starts h.starts r
  obtain ⟨b, t, rfl, -⟩ := h.starts
  rw [List.cons_append] at hrun hskip ⊢
  rw [skipThrough_value hskip, h.not_opened rfl]
  simp only [hrun, Option.bind_some]

theorem IsItem.starts {c : Enclosing} {w : Bytes} {x : Bytes × Bytes} (h : IsItem c w x)
    (hx : IsValue x.2) : ∃ b t, w = b :: t ∧ startsValue b = true := by
  obtain ⟨lead, v⟩ := x
  obtain ⟨hlead, rfl⟩ := h
  cases hlead with
  | list => exact hx.starts
  | object hname _ _ =>
      obtain ⟨b, t, rfl, hb⟩ := pieces_decides.starts hname
      exact ⟨b, _, rfl, hb⟩

/-- Every value is passed over, by induction on how it is made. -/
theorem IsValue.passedOver {w : Bytes} (h : IsValue w) : PassedOver w := by
  induction h with
  | scalar h => exact h.passedOver
  | @container c w xs h hxs ih =>
      intro stack r _
      have hopening (s : Bytes) : skipBlank (c.opening :: s) = c.opening :: s :=
        skipBlank_append_of_starts ⟨_, [], rfl, c.startsValue_opening⟩ s
      cases h with
      | @empty g hg =>
          have htext : c.opening :: (g ++ [c.closing]) ++ r =
              c.opening :: (g ++ c.closing :: r) := by
            simp
          rw [htext, skipThrough_value (hopening _), opened?_opening]
          simp only [hg.expect c.closes.not_blank]
      | @items g w v x ys hg hw htail =>
          have htext : c.opening :: (g ++ (w ++ (v ++ [c.closing]))) ++ r =
              c.opening :: (g ++ (w ++ (v ++ c.closing :: r))) := by
            simp
          have hopen : expect c.closing (g ++ (w ++ (v ++ c.closing :: r))) = none := by
            rw [hg.expect_append]
            exact expect_closing_of_starts (hw.starts (hxs x List.mem_cons_self)) c.closes _
          rw [htext, skipThrough_value (hopening _), opened?_opening]
          simp only [hopen]
          exact skipThrough_items hg hw htail ih stack r

/-- Exactly the texts of values are passed over. -/
theorem skip_decides : Reader.skip.Decides fun w _ => IsValue w where
  starts hw := hw.starts
  sound {s u r} hblank hrun := by
    obtain ⟨r', hskip, e⟩ := Option.map_eq_some_iff.1 hrun
    cases e
    obtain ⟨g, w, t, rfl, hg, hw, rfl⟩ := skipThrough_sound hskip
    rw [hg.skipBlank_append, skipBlank_append_of_starts hw.starts] at hblank
    exact ⟨w, hblank.symm, hw⟩
  complete {w u r} hw hr := by
    have hpassed := hw.passedOver [] r hr
    rw [skipThrough] at hpassed
    show (skipThrough .value [] (w ++ r)).map _ = _
    rw [hpassed]
    rfl

/-! ## Texts of values -/

/-- Takes the text of a value. -/
def Reader.valueText : Reader Bytes where
  run s := (Reader.skip.run s).map fun x => (s.take (s.length - x.2.length), x.2)
  run_lt h := by
    obtain ⟨x, hrun, e⟩ := Option.map_eq_some_iff.1 h
    cases e
    exact Reader.skip.run_lt hrun

theorem valueText_decides : Reader.valueText.Decides fun w v => v = w ∧ IsValue w where
  starts hw := hw.2.starts
  sound hblank hrun := by
    obtain ⟨⟨⟨⟩, r⟩, hskip, e⟩ := Option.map_eq_some_iff.1 hrun
    cases e
    obtain ⟨w, rfl, hw⟩ := skip_decides.sound hblank hskip
    exact ⟨w, rfl, by simp, hw⟩
  complete := by
    rintro w _ r ⟨rfl, hw⟩ hr
    have hskip := skip_decides.complete (a := ()) hw hr
    simp [Reader.valueText, hskip]

/-- A list is cut into the texts of its values in one way. -/
theorem listTexts_decides :
    (Reader.valueText.container openList closeList).Decides IsList :=
  valueText_decides.container (by decide) (.inl rfl)

/-- `b` is the value with the text `w`, and blanks around it. -/
def IsText (b w : Bytes) : Prop := Padded (fun w v => v = w ∧ IsValue w) b w

theorem IsValue.isText {w : Bytes} (h : IsValue w) : IsText w w := by
  have hnone : Blanks [] := fun _ hb => absurd hb List.not_mem_nil
  have htext : IsText ([] ++ (w ++ [])) w := .blanks hnone ⟨rfl, h⟩ hnone
  rwa [List.nil_append, List.append_nil] at htext

section Texts

variable {α : Type} {b w : Bytes} {R : Bytes → α → Prop} {a : α}

theorem exists_isText (hR : ∀ w a, R w a → IsValue w) (h : Padded R b a) :
    ∃ w, IsText b w ∧ R w a := by
  obtain ⟨hg, hw, hg'⟩ := h
  exact ⟨_, .blanks hg ⟨rfl, hR _ _ hw⟩ hg', hw⟩

/-- What holds of a value with blanks around it is a matter of the value's own text. -/
theorem IsText.padded_iff (h : IsText b w) (hR : ∀ w a, R w a → IsValue w) :
    Padded R b a ↔ R w a := by
  constructor
  · intro hpadded
    obtain ⟨v, hsame, hv⟩ := exists_isText hR hpadded
    -- A text is cut from its blanks in one way.
    rw [IsText, ← valueText_decides.readAll_eq_some_iff] at h hsame
    rw [Option.some.inj (h.symm.trans hsame)]
    exact hv
  · intro hw
    obtain ⟨hg, ⟨rfl, -⟩, hg'⟩ := h
    exact .blanks hg hw hg'

end Texts

end EgressAuth.Json
