/-
  EgressAuth.Proofs.Json.Recognition

  Readers against the grammar. A reader decides a relation (`Reader.Decides`)
  if whatever it takes off a text is related to the item that it gives, and if
  it takes off every text so related, provided that the text behind could not
  make a number longer. Readers are used behind blanks only, so nothing is
  asked of them on a text that begins with one. The combined readers decide
  what their parts decide.
-/
import EgressAuth.Proofs.Json.Containers
import EgressAuth.Proofs.Json.Grammar

namespace EgressAuth.Json

variable {α β : Type}

/-- A reader takes off a text exactly what `R` relates to the item it gives. -/
structure Reader.Decides (p : Reader α) (R : Bytes → α → Prop) : Prop where
  starts : ∀ {w a}, R w a → ∃ b t, w = b :: t ∧ startsValue b = true
  sound : ∀ {s a r}, skipBlank s = s → p.run s = some (a, r) → ∃ w, s = w ++ r ∧ R w a
  complete : ∀ {w a r}, R w a → Stops r → p.run (w ++ r) = some (a, r)

/-! ## Blanks -/

theorem exists_blanks (s : Bytes) : ∃ g, s = g ++ skipBlank s ∧ Blanks g :=
  ⟨s.takeWhile isBlank, List.takeWhile_append_dropWhile.symm, fun _ h => List.mem_takeWhile_imp h⟩

namespace Blanks

variable {g : Bytes}

theorem skipBlank_append (hg : Blanks g) (s : Bytes) : skipBlank (g ++ s) = skipBlank s :=
  List.dropWhile_append_of_pos hg

theorem skipBlank_cons (hg : Blanks g) {b : UInt8} (hb : isBlank b = false) (t : Bytes) :
    skipBlank (g ++ b :: t) = b :: t := by
  rw [hg.skipBlank_append, skipBlank_cons_of_not_blank hb]

theorem stops (hg : Blanks g) {r : Bytes} (hr : Stops r) : Stops (g ++ r) := by
  cases g with
  | nil => exact hr
  | cons b g =>
      have hb : isBlank b = true := hg b List.mem_cons_self
      refine stops_cons ?_ _
      simp only [isBlank, Bool.or_eq_true, beq_iff_eq, or_assoc] at hb
      rcases hb with rfl | rfl | rfl | rfl <;> decide

theorem expect_append (hg : Blanks g) (b : UInt8) (s : Bytes) :
    Json.expect b (g ++ s) = Json.expect b s := by
  rw [Json.expect, hg.skipBlank_append, Json.expect]

theorem expect (hg : Blanks g) {b : UInt8} (hb : isBlank b = false) (t : Bytes) :
    Json.expect b (g ++ b :: t) = some t := by
  rw [Json.expect, hg.skipBlank_cons hb]
  exact if_pos rfl

end Blanks

theorem blanks_of_skipBlank {s : Bytes} (h : skipBlank s = []) : Blanks s := by
  obtain ⟨g, hs, hg⟩ := exists_blanks s
  rw [h, List.append_nil] at hs
  exact hs ▸ hg

theorem exists_blanks_of_expect {b : UInt8} {s t : Bytes} (h : expect b s = some t) :
    ∃ g, s = g ++ b :: t ∧ Blanks g := by
  obtain ⟨g, hs, hg⟩ := exists_blanks s
  refine ⟨g, ?_, hg⟩
  unfold expect at h
  split at h
  · rename_i c u hc
    split at h
    · rename_i hb
      cases h
      rw [hs, hc, hb]
    · cases h
  · cases h

theorem Closes.stops {c : UInt8} (hc : Closes c) (t : Bytes) : Stops (c :: t) :=
  (ends_cons hc.endsValue t).stops

theorem Closes.not_blank {c : UInt8} (hc : Closes c) : isBlank c = false :=
  not_blank_of_endsValue hc.endsValue

/-! ## Combined readers -/

namespace Reader.Decides

variable {p q : Reader α} {R S : Bytes → α → Prop} {w : Bytes} {a : α}

theorem skipBlank_append (h : p.Decides R) (hw : R w a) {g : Bytes} (hg : Blanks g) (r : Bytes) :
    skipBlank (g ++ (w ++ r)) = w ++ r := by
  rw [hg.skipBlank_append, skipBlank_append_of_starts (h.starts hw)]

theorem expect_closing (h : p.Decides R) (hw : R w a) {g : Bytes} (hg : Blanks g) {c : UInt8}
    (hc : Closes c) (r : Bytes) : expect c (g ++ (w ++ r)) = none := by
  rw [hg.expect_append, expect_closing_of_starts (h.starts hw) hc]

/-- An item behind blanks is read. -/
theorem run_skipBlank (h : p.Decides R) (hw : R w a) {g : Bytes} (hg : Blanks g) {r : Bytes}
    (hr : Stops r) : p.run (skipBlank (g ++ (w ++ r))) = some (a, r) := by
  rw [h.skipBlank_append hw hg]
  exact h.complete hw hr

/-- What is read is an item behind blanks. -/
theorem of_run_skipBlank (h : p.Decides R) {s r : Bytes}
    (hrun : p.run (skipBlank s) = some (a, r)) :
    ∃ g w, s = g ++ (w ++ r) ∧ Blanks g ∧ R w a := by
  obtain ⟨g, hs, hg⟩ := exists_blanks s
  obtain ⟨w, hw, hR⟩ := h.sound (skipBlank_skipBlank s) hrun
  exact ⟨g, w, by rw [← hw, ← hs], hg, hR⟩

theorem map (h : p.Decides R) (f : α → β) :
    (p.map f).Decides fun w b => ∃ a, R w a ∧ f a = b where
  starts := fun ⟨_, hw, _⟩ => h.starts hw
  sound hblank hrun := by
    obtain ⟨a, hrun, hb⟩ := Reader.map_run_eq_some_iff.1 hrun
    obtain ⟨w, hs, hw⟩ := h.sound hblank hrun
    exact ⟨w, hs, a, hw, hb⟩
  complete := fun ⟨a, hw, hb⟩ hr => Reader.map_run_eq_some_iff.2 ⟨a, h.complete hw hr, hb⟩

theorem filterMap (h : p.Decides R) (f : α → Option β) :
    (p.filterMap f).Decides fun w b => ∃ a, R w a ∧ f a = some b where
  starts := fun ⟨_, hw, _⟩ => h.starts hw
  sound hblank hrun := by
    obtain ⟨a, hrun, hb⟩ := Reader.filterMap_run_eq_some_iff.1 hrun
    obtain ⟨w, hs, hw⟩ := h.sound hblank hrun
    exact ⟨w, hs, a, hw, hb⟩
  complete := fun ⟨a, hw, hb⟩ hr => Reader.filterMap_run_eq_some_iff.2 ⟨a, h.complete hw hr, hb⟩

/-- Of two readers the second one decides what the first one does not take. -/
theorem orElse (hp : p.Decides R) (hq : q.Decides S)
    (hapart : ∀ {w a}, S w a → ∀ r, p.run (w ++ r) = none) :
    (p.orElse q).Decides fun w a => R w a ∨ S w a where
  starts := fun hw => hw.elim hp.starts hq.starts
  sound hblank hrun := by
    rcases Reader.orElse_run_eq_some_iff.1 hrun with hrun | ⟨-, hrun⟩
    · obtain ⟨w, hs, hw⟩ := hp.sound hblank hrun
      exact ⟨w, hs, .inl hw⟩
    · obtain ⟨w, hs, hw⟩ := hq.sound hblank hrun
      exact ⟨w, hs, .inr hw⟩
  complete hw hr := by
    rw [Reader.orElse_run_eq_some_iff]
    rcases hw with hw | hw
    · exact .inl (hp.complete hw hr)
    · exact .inr ⟨hapart hw _, hq.complete hw hr⟩

/-- A reader decides every relation that holds of the same texts and items. -/
theorem congr (h : p.Decides R) (hRS : ∀ w a, R w a ↔ S w a) : p.Decides S where
  starts hw := h.starts ((hRS _ _).2 hw)
  sound hblank hrun := by
    obtain ⟨w, hs, hw⟩ := h.sound hblank hrun
    exact ⟨w, hs, (hRS _ _).1 hw⟩
  complete hw hr := h.complete ((hRS _ _).2 hw) hr

/-- A text stands for one item at most. -/
theorem unique (h : p.Decides R) {b : α} (ha : R w a) (hb : R w b) : a = b := by
  have hrun := (h.complete ha stops_nil).symm.trans (h.complete hb stops_nil)
  exact (Prod.mk.inj (Option.some.inj hrun)).1

/-- A text that is read to its end is an item. -/
theorem of_run (h : p.Decides R) (hblank : skipBlank w = w) (hrun : p.run w = some (a, [])) :
    R w a := by
  obtain ⟨v, hv, hR⟩ := h.sound hblank hrun
  rw [List.append_nil] at hv
  exact hv ▸ hR

/-- A text is read as a whole if it is an item with blanks around it. -/
theorem readAll_eq_some_iff (h : p.Decides R) {s : Bytes} :
    p.readAll s = some a ↔ Padded R s a := by
  rw [Reader.readAll_eq_some_iff]
  constructor
  · rintro ⟨r, hrun, hr⟩
    obtain ⟨g, w, rfl, hg, hw⟩ := h.of_run_skipBlank hrun
    exact .blanks hg hw (blanks_of_skipBlank hr)
  · rintro ⟨hg, hw, hg'⟩
    rename_i g w g'
    have hstops : Stops g' := by
      rw [← List.append_nil g']
      exact hg'.stops stops_nil
    refine ⟨g', h.run_skipBlank hw hg hstops, ?_⟩
    rw [← List.append_nil g', hg'.skipBlank_append, skipBlank_nil]

/-! ## Containers -/

/-- The items that are read are those between the brackets. -/
theorem of_items (h : p.Decides R) {c : UInt8} {s r : Bytes} {acc as : List α}
    (hrun : p.items c s acc = some (as, r)) :
    ∃ g w v b bs, s = g ++ (w ++ (v ++ c :: r)) ∧ Blanks g ∧ R w b ∧ Tail R v bs ∧
      as = acc.reverse ++ b :: bs := by
  fun_induction Reader.items p c s acc with
  | case1 => cases hrun
  | case2 => cases hrun
  | case3 s acc a r' hitem t hnext hlt ih =>
      obtain ⟨g, w, rfl, hg, hw⟩ := h.of_run_skipBlank hitem
      obtain ⟨g', hr', hg'⟩ := exists_blanks r'
      obtain ⟨g₂, w₂, v, b, bs, rfl, hg₂, hb, hbs, rfl⟩ := ih hrun
      refine ⟨g, w, _, a, b :: bs, ?_, hg, hw, .comma hg' hg₂ hb hbs, by simp⟩
      rw [hr', hnext]
      simp
  | case4 s acc a r' hitem t hnext hlt hne =>
      cases hrun
      obtain ⟨g, w, rfl, hg, hw⟩ := h.of_run_skipBlank hitem
      obtain ⟨g', hr', hg'⟩ := exists_blanks r'
      refine ⟨g, w, g', a, [], ?_, hg, hw, .blanks hg', by simp⟩
      rw [hr', hnext]
  | case5 => cases hrun

/-- The items between brackets are read up to the closing one. -/
theorem items_of_tail (h : p.Decides R) {c : UInt8} (hc : Closes c) {g v : Bytes} {as : List α}
    (hg : Blanks g) (hw : R w a) (hv : Tail R v as) (r : Bytes) (acc : List α) :
    p.items c (g ++ (w ++ (v ++ c :: r))) acc = some (acc.reverse ++ a :: as, r) := by
  induction hv generalizing g w a acc with
  | blanks hg' =>
      rw [Reader.items_of_run (h.run_skipBlank hw hg (hg'.stops (hc.stops r)))
        (hg'.skipBlank_cons hc.not_blank r), if_neg hc.ne_comma, if_pos rfl]
      simp
  | @comma g₁ g₂ w₂ v b bs hg₁ hg₂ hb htail ih =>
      have htext : g₁ ++ comma :: (g₂ ++ (w₂ ++ v)) ++ c :: r =
          g₁ ++ comma :: (g₂ ++ (w₂ ++ (v ++ c :: r))) := by
        simp
      have hstops : Stops (g₁ ++ comma :: (g₂ ++ (w₂ ++ (v ++ c :: r)))) :=
        hg₁.stops (stops_cons (by decide) _)
      rw [htext, Reader.items_of_run (h.run_skipBlank hw hg hstops)
        (hg₁.skipBlank_cons (by decide) _), if_pos rfl, ih hg₂ hb]
      simp

theorem container (h : p.Decides R) {o c : UInt8} (ho : startsValue o = true) (hc : Closes c) :
    (p.container o c).Decides (Enclosed o c R) where
  starts := by
    rintro _ _ (_ | _) <;> exact ⟨o, _, rfl, ho⟩
  sound _ hrun := by
    obtain ⟨t, rfl, ⟨hclose, rfl⟩ | ⟨-, hitems⟩⟩ := Reader.container_run_eq_some_iff.1 hrun
    · obtain ⟨g, rfl, hg⟩ := exists_blanks_of_expect hclose
      exact ⟨o :: (g ++ [c]), by simp, .empty hg⟩
    · obtain ⟨g, w, v, b, bs, rfl, hg, hb, hbs, rfl⟩ := h.of_items hitems
      exact ⟨o :: (g ++ (w ++ (v ++ [c]))), by simp, .items hg hb hbs⟩
  complete {w as r} hw _ := by
    cases hw with
    | empty hg =>
        rename_i g
        have htext : o :: (g ++ [c]) ++ r = o :: (g ++ c :: r) := by
          simp
        rw [htext]
        exact Reader.container_run_eq_some_iff.2
          ⟨_, rfl, .inl ⟨hg.expect hc.not_blank r, rfl⟩⟩
    | items hg hb hbs =>
        rename_i g w v b bs
        have htext : o :: (g ++ (w ++ (v ++ [c]))) ++ r = o :: (g ++ (w ++ (v ++ c :: r))) := by
          simp
        rw [htext]
        exact Reader.container_run_eq_some_iff.2 ⟨_, rfl, .inr
          ⟨h.expect_closing hb hg hc _, h.items_of_tail hc hg hb hbs r []⟩⟩

end Reader.Decides
end EgressAuth.Json
