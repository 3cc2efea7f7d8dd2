/-
  EgressAuth.Proofs.Json.Records

  The texts that are read as a record of two fields: objects with at most one
  member of either name, whatever other members they have, and lists of the
  values from the first one on (`record_decides`). A record that needs both
  fields is read from those texts that have both (`fullRecord_decides`).
-/
import EgressAuth.Json.Record
import EgressAuth.Proofs.Json.SkippedValues

namespace EgressAuth.Json

variable {α β : Type}

/-! ## Members -/

/-- Members are read if what stands behind each name is. -/
theorem keyed_decides {f : String → Reader α} {F : String → Bytes → α → Prop}
    (h : ∀ name, (f name).Decides (F name)) : (Reader.keyed f).Decides (Member F) where
  starts := by
    rintro _ _ ⟨hname, -, -, -⟩
    obtain ⟨b, t, rfl, hb⟩ := text_decides.starts hname
    exact ⟨b, _, rfl, hb⟩
  sound hblank hrun := by
    obtain ⟨name, t, u, hname, hcolon, hvalue⟩ := Reader.keyed_run_eq_some_iff.1 hrun
    obtain ⟨n, rfl, hn⟩ := text_decides.sound hblank hname
    obtain ⟨g, rfl, hg⟩ := exists_blanks_of_expect hcolon
    obtain ⟨g', w, rfl, hg', hw⟩ := (h name).of_run_skipBlank hvalue
    exact ⟨_, by simp, .named hn hg hg' hw⟩
  complete := by
    rintro _ a r ⟨hname, hg, hg', hw⟩ hr
    rename_i n g g' w name
    have htext : n ++ (g ++ colon :: (g' ++ w)) ++ r = n ++ (g ++ colon :: (g' ++ (w ++ r))) := by
      simp
    have hstops : Stops (g ++ colon :: (g' ++ (w ++ r))) := hg.stops (stops_cons (by decide) _)
    rw [htext]
    exact Reader.keyed_run_eq_some_iff.2 ⟨name, _, _, text_decides.complete hname hstops,
      hg.expect (by decide) _, (h name).run_skipBlank hw hg' hr⟩

/-- An object is cut into its names and the texts of its values in one way. -/
theorem objectTexts_decides :
    ((Reader.keyed fun name => Reader.valueText.map fun w => (name, w)).container openObject
      closeObject).Decides IsObject := by
  have hmember : (Reader.keyed fun name => Reader.valueText.map fun w => (name, w)).Decides
      IsMember := by
    refine keyed_decides fun name => (valueText_decides.map fun w => (name, w)).congr fun w m => ?_
    constructor
    · rintro ⟨_, ⟨rfl, hw⟩, rfl⟩
      exact ⟨rfl, hw⟩
    · rintro ⟨rfl, hw⟩
      exact ⟨w, ⟨rfl, hw⟩, rfl⟩
  exact hmember.container (by decide) (.inr rfl)

/-! ## Fields -/

section Fields

variable {first second : String} {P : Bytes → α → Prop} {Q : Bytes → β → Prop}

/-- What the value behind a name has to be, and the field of the record that it gives. -/
def FieldOf (first second : String) (P : Bytes → α → Prop) (Q : Bytes → β → Prop) (name : String)
    (w : Bytes) (f : Field α β) : Prop :=
  if name = first then ∃ a, P w a ∧ Field.first a = f
  else if name = second then ∃ b, Q w b ∧ Field.second b = f
  else IsValue w ∧ Field.unknown = f

/-- The object of `ms` has one member of that name, and `T` holds of its value. -/
def Sole (name : String) (ms : List (String × Bytes)) (T : Bytes → Prop) : Prop :=
  ∃ w, ms.filter (fun m => m.1 == name) = [(name, w)] ∧ T w

theorem Sole.of_mem {name : String} {ms : List (String × Bytes)} {T : Bytes → Prop}
    (h : Sole name ms T) {w : Bytes} (hw : (name, w) ∈ ms) : T w := by
  obtain ⟨v, hv, hT⟩ := h
  have hmem : (name, w) ∈ ms.filter fun m => m.1 == name :=
    List.mem_filter.2 ⟨hw, beq_self_eq_true name⟩
  rw [hv, List.mem_singleton] at hmem
  rw [(Prod.mk.inj hmem).2]
  exact hT

theorem FieldOf.isValue (hP : ∀ {w a}, P w a → IsValue w) (hQ : ∀ {w b}, Q w b → IsValue w)
    {name : String} {w : Bytes} {f : Field α β} (h : FieldOf first second P Q name w f) :
    IsValue w := by
  unfold FieldOf at h
  split at h
  · obtain ⟨a, ha, -⟩ := h
    exact hP ha
  · split at h
    · obtain ⟨b, hb, -⟩ := h
      exact hQ hb
    · exact h.1

/-- What a view shows of some fields belongs to the members of one name, in order. -/
theorem forall₂_filterMap_filter {γ : Type} {view : Field α β → Option γ} {S : Bytes → γ → Prop}
    {R : Field α β → String × Bytes → Prop} {name : String} {fs : List (Field α β)}
    {ms : List (String × Bytes)} (h : List.Forall₂ R fs ms)
    (hsome : ∀ f w, R f (name, w) → ∃ c, view f = some c ∧ S w c)
    (hnone : ∀ f m, R f m → m.1 ≠ name → view f = none) :
    List.Forall₂ (fun c m => S m.2 c) (fs.filterMap view) (ms.filter fun m => m.1 == name) := by
  induction h with
  | nil => exact .nil
  | @cons f m fs ms hf _ ih =>
      obtain ⟨other, w⟩ := m
      by_cases hname : other = name
      · subst hname
        obtain ⟨c, hc, hS⟩ := hsome f w hf
        rw [List.filterMap_cons_some hc, List.filter_cons_of_pos (by simp)]
        exact .cons hS ih
      · rw [List.filterMap_cons_none (hnone f _ hf hname), List.filter_cons_of_neg (by simpa)]
        exact ih

theorem forall₂_firsts {fs : List (Field α β)} {ms : List (String × Bytes)}
    (h : List.Forall₂ (fun f m => FieldOf first second P Q m.1 m.2 f) fs ms) :
    List.Forall₂ (fun a m => P m.2 a) (fs.filterMap Field.first?)
      (ms.filter fun m => m.1 == first) := by
  refine forall₂_filterMap_filter h (fun f w hf => ?_) fun f m hf hname => ?_
  · rw [FieldOf, if_pos rfl] at hf
    obtain ⟨a, ha, rfl⟩ := hf
    exact ⟨a, rfl, ha⟩
  · rw [FieldOf, if_neg hname] at hf
    split at hf
    · obtain ⟨b, -, rfl⟩ := hf
      rfl
    · rw [← hf.2]
      rfl

theorem forall₂_seconds (hne : second ≠ first) {fs : List (Field α β)}
    {ms : List (String × Bytes)}
    (h : List.Forall₂ (fun f m => FieldOf first second P Q m.1 m.2 f) fs ms) :
    List.Forall₂ (fun b m => Q m.2 b) (fs.filterMap Field.second?)
      (ms.filter fun m => m.1 == second) := by
  refine forall₂_filterMap_filter h (fun f w hf => ?_) fun f m hf hname => ?_
  · rw [FieldOf, if_neg hne, if_pos rfl] at hf
    obtain ⟨b, hb, rfl⟩ := hf
    exact ⟨b, rfl, hb⟩
  · rw [FieldOf, if_neg hname] at hf
    split at hf
    · obtain ⟨a, -, rfl⟩ := hf
      rfl
    · rw [← hf.2]
      rfl

/-- There is at most one item, and it is `x` if there is one. -/
theorem eq_toList_iff {l : List α} {x : Option α} :
    l = x.toList ↔ l.length ≤ 1 ∧ l.head? = x := by
  match l with
  | [] => cases x <;> simp
  | [b] => cases x <;> simp
  | b :: c :: l => cases x <;> simp

/-- A record has what stands in its fields, each given at most once. -/
theorem gather?_eq_some_iff {fs : List (Field α β)} {x : Option α × Option β} :
    Field.gather? fs = some x ↔
      fs.filterMap Field.first? = x.1.toList ∧ fs.filterMap Field.second? = x.2.toList := by
  simp only [Field.gather?, eq_toList_iff, Option.ite_none_right_eq_some, Option.some_inj,
    Prod.ext_iff]
  tauto

/-! ## Objects -/

/-- The object of `ms` has no member of that name if there is no item, and one member if there is
one; then `T` relates its value to the item. -/
def AtMostOne {γ : Type} (name : String) (ms : List (String × Bytes)) (T : Bytes → γ → Prop) :
    Option γ → Prop
  | none => ∀ m ∈ ms, m.1 ≠ name
  | some c => Sole name ms (T · c)

section AtMostOne

variable {γ : Type} {T : Bytes → γ → Prop} {name : String} {ms : List (String × Bytes)}
  {x : Option γ}

/-- The members of a name belong to the items one by one, of which there is at most one. -/
theorem atMostOne_iff_forall₂ : AtMostOne name ms T x ↔
    List.Forall₂ (fun c m => T m.2 c) x.toList (ms.filter fun m => m.1 == name) := by
  cases x with
  | none =>
      rw [Option.toList_none, List.forall₂_nil_left_iff, List.filter_eq_nil_iff]
      simp only [AtMostOne, beq_iff_eq]
  | some c =>
      rw [Option.toList_some, List.forall₂_cons_left_iff]
      simp only [List.forall₂_nil_left_iff]
      constructor
      · rintro ⟨w, hw, hT⟩
        exact ⟨_, _, hT, rfl, hw⟩
      · rintro ⟨m, _, hT, rfl, hm⟩
        have hmem : m ∈ ms.filter fun m => m.1 == name := hm ▸ List.mem_singleton_self m
        have hname : m.1 = name := beq_iff_eq.1 (List.mem_filter.1 hmem).2
        exact ⟨m.2, by rw [hm, ← hname], hT⟩

theorem atMostOne_nil_iff : AtMostOne name [] T x ↔ x = none := by
  rw [atMostOne_iff_forall₂, List.filter_nil, List.forall₂_nil_right_iff,
    Option.toList_eq_nil_iff]

/-- A member of the name has the item. -/
theorem AtMostOne.exists_of_mem (h : AtMostOne name ms T x) {w : Bytes} (hw : (name, w) ∈ ms) :
    ∃ c, T w c := by
  cases x with
  | none => exact absurd rfl (h _ hw)
  | some c => exact ⟨c, Sole.of_mem h hw⟩

end AtMostOne

theorem fields_decides {p : Reader α} {q : Reader β} (hp : p.Decides P) (hq : q.Decides Q)
    (name : String) :
    (if name = first then p.map Field.first
      else if name = second then q.map Field.second
      else Reader.skip.map fun _ => Field.unknown).Decides (FieldOf first second P Q name) := by
  unfold FieldOf
  split
  · exact hp.map Field.first
  · split
    · exact hq.map Field.second
    · exact (skip_decides.map fun _ => Field.unknown).congr fun w f => exists_const Unit

/-- Items that are read from the same texts are the same. -/
theorem Reader.Decides.eq_of_forall₂ {γ : Type} {p : Reader γ} {R : Bytes → γ → Prop}
    (hp : p.Decides R) {as bs : List γ} {ms : List (String × Bytes)}
    (ha : List.Forall₂ (fun a m => R m.2 a) as ms) (hb : List.Forall₂ (fun b m => R m.2 b) bs ms) :
    as = bs := by
  have hunique : Relator.LeftUnique fun (a : γ) (m : String × Bytes) => R m.2 a :=
    fun _ _ _ ha hb => hp.unique ha hb
  exact List.left_unique_forall₂' hunique ha hb

/-- The fields of an object are given by its members of their names. -/
theorem exists_fields_iff {p : Reader α} {q : Reader β} (hp : p.Decides P) (hq : q.Decides Q)
    (hP : ∀ {w a}, P w a → IsValue w) (hQ : ∀ {w b}, Q w b → IsValue w) (hne : second ≠ first)
    {w : Bytes} {x : Option α × Option β} :
    (∃ fs, Enclosed openObject closeObject (Member (FieldOf first second P Q)) w fs ∧
      Field.gather? fs = some x) ↔
    ∃ ms, IsObject w ms ∧ AtMostOne first ms P x.1 ∧ AtMostOne second ms Q x.2 := by
  constructor
  · rintro ⟨fs, hfs, hgather⟩
    obtain ⟨ms, hms, hfields⟩ := hfs.exists_forall₂ (S := IsMember)
      (Q := fun f m => FieldOf first second P Q m.1 m.2 f) (by
        rintro _ f - ⟨hname, hg, hg', hf⟩
        exact ⟨(_, _), .named hname hg hg' ⟨rfl, hf.isValue hP hQ⟩, hf⟩)
    obtain ⟨hfirsts, hseconds⟩ := gather?_eq_some_iff.1 hgather
    exact ⟨ms, hms, atMostOne_iff_forall₂.2 (hfirsts ▸ forall₂_firsts hfields),
      atMostOne_iff_forall₂.2 (hseconds ▸ forall₂_seconds hne hfields)⟩
  · rintro ⟨ms, hms, ha, hb⟩
    -- Only a member of a field's name needs more than a value, and there is one such member.
    have hfield : ∀ w, ∀ m ∈ ms, IsMember w m → ∃ f,
        Member (FieldOf first second P Q) w f ∧ FieldOf first second P Q m.1 m.2 f := by
      rintro _ _ hm ⟨hname, hg, hg', rfl, hvalue⟩
      rename_i name
      suffices h : ∃ f, FieldOf first second P Q name _ f from
        h.imp fun f hf => ⟨.named hname hg hg' hf, hf⟩
      unfold FieldOf
      split
      · rename_i hfirst
        obtain ⟨a, hP⟩ := ha.exists_of_mem (hfirst ▸ hm)
        exact ⟨_, a, hP, rfl⟩
      · split
        · rename_i hsecond
          obtain ⟨b, hQ⟩ := hb.exists_of_mem (hsecond ▸ hm)
          exact ⟨_, b, hQ, rfl⟩
        · exact ⟨_, hvalue, rfl⟩
    obtain ⟨fs, hfs, hfields⟩ := hms.exists_forall₂ hfield
    refine ⟨fs, hfs, gather?_eq_some_iff.2 ⟨?_, ?_⟩⟩
    · exact hp.eq_of_forall₂ (forall₂_firsts hfields.flip) (atMostOne_iff_forall₂.1 ha)
    · exact hq.eq_of_forall₂ (forall₂_seconds hne hfields.flip) (atMostOne_iff_forall₂.1 hb)

theorem recordObject_decides {p : Reader α} {q : Reader β} (hp : p.Decides P)
    (hq : q.Decides Q) (hP : ∀ {w a}, P w a → IsValue w) (hQ : ∀ {w b}, Q w b → IsValue w)
    (hne : second ≠ first) :
    (Reader.recordObject first second p q).Decides fun w x =>
      ∃ ms, IsObject w ms ∧ AtMostOne first ms P x.1 ∧ AtMostOne second ms Q x.2 :=
  (((keyed_decides (fields_decides hp hq)).container (by decide) (.inr rfl)).filterMap _).congr
    fun _ _ => exists_fields_iff hp hq hP hQ hne

/-! ## Lists -/

/-- The fields that the values of a list give, from the first one on. -/
inductive FieldsOf (P : Bytes → α → Prop) (Q : Bytes → β → Prop) :
    List Bytes → Option α × Option β → Prop where
  | none : FieldsOf P Q [] (none, none)
  | first {u : Bytes} {a : α} (ha : P u a) : FieldsOf P Q [u] (some a, none)
  | both {u v : Bytes} {a : α} {b : β} (ha : P u a) (hb : Q v b) :
      FieldsOf P Q [u, v] (some a, some b)

theorem recordItems_sound {p : Reader α} {q : Reader β} (hp : p.Decides P) (hq : q.Decides Q)
    (hP : ∀ {w a}, P w a → IsValue w) (hQ : ∀ {w b}, Q w b → IsValue w) {s r : Bytes}
    {x : Option α × Option β} (h : Reader.recordItems p q s = some (x, r)) :
    ∃ w ws, openList :: s = w ++ r ∧ IsList w ws ∧ FieldsOf P Q ws x := by
  unfold Reader.recordItems at h
  split at h
  · rename_i r' hclose
    cases h
    obtain ⟨g, rfl, hg⟩ := exists_blanks_of_expect hclose
    exact ⟨_, [], by simp, .empty hg, .none⟩
  · split at h
    · cases h
    · rename_i a r₁ hfirst
      obtain ⟨g, u, rfl, hg, hu⟩ := hp.of_run_skipBlank hfirst
      split at h
      · rename_i r' hclose
        cases h
        obtain ⟨g₁, rfl, hg₁⟩ := exists_blanks_of_expect hclose
        exact ⟨_, [u], by simp, .items hg ⟨rfl, hP hu⟩ (.blanks hg₁), .first hu⟩
      · split at h
        · cases h
        · rename_i r₂ hcomma
          obtain ⟨g₁, rfl, hg₁⟩ := exists_blanks_of_expect hcomma
          split at h
          · cases h
          · rename_i b r₃ hsecond
            obtain ⟨g₂, v, rfl, hg₂, hv⟩ := hq.of_run_skipBlank hsecond
            split at h
            · rename_i r' hclose
              cases h
              obtain ⟨g₃, rfl, hg₃⟩ := exists_blanks_of_expect hclose
              exact ⟨_, [u, v], by simp, .items hg ⟨rfl, hP hu⟩
                (.comma hg₁ hg₂ ⟨rfl, hQ hv⟩ (.blanks hg₃)), .both hu hv⟩
            · cases h

/-- A list of the fields' values is read up to its closing bracket. -/
theorem recordList_complete {p : Reader α} {q : Reader β} (hp : p.Decides P)
    (hq : q.Decides Q) {w : Bytes} {ws : List Bytes} {x : Option α × Option β}
    (hws : IsList w ws) (h : FieldsOf P Q ws x) (r : Bytes) :
    (Reader.recordList p q).run (w ++ r) = some (x, r) := by
  have hclose {g : Bytes} (hg : Blanks g) :
      expect closeList (g ++ closeList :: r) = some r ∧ Stops (g ++ closeList :: r) :=
    ⟨hg.expect (by decide) r, hg.stops (stops_cons (by decide) r)⟩
  have hcomma {g : Bytes} (hg : Blanks g) (t : Bytes) :
      expect closeList (g ++ comma :: t) = none ∧ expect comma (g ++ comma :: t) = some t ∧
        Stops (g ++ comma :: t) :=
    ⟨by rw [hg.expect_append]; rfl, hg.expect (by decide) t, hg.stops (stops_cons (by decide) t)⟩
  cases hws with
  | @empty g hg =>
      cases h
      have htext : g ++ [closeList] ++ r = g ++ closeList :: r := by
        simp
      simp only [Reader.recordList, List.cons_append, if_true, Reader.recordItems, htext,
        (hclose hg).1]
  | @items g u g₁ _ _ hg hu htail =>
      cases hu.1
      cases h with
      | @first u a ha =>
          cases htail with
          | blanks hg₁ =>
              have htext : g ++ (u ++ (g₁ ++ [closeList])) ++ r =
                  g ++ (u ++ (g₁ ++ closeList :: r)) := by
                simp
              simp only [Reader.recordList, List.cons_append, if_true, Reader.recordItems, htext,
                hp.expect_closing ha hg (.inl rfl), hp.run_skipBlank ha hg (hclose hg₁).2,
                (hclose hg₁).1]
      | @both u v a b ha hb =>
          cases htail with
          | @comma g₁ g₂ _ g₃ _ _ hg₁ hg₂ hv htail =>
              cases hv.1
              cases htail with
              | blanks hg₃ =>
                  have htext : g ++ (u ++ (g₁ ++ comma :: (g₂ ++ (v ++ g₃)) ++ [closeList])) ++ r =
                      g ++ (u ++ (g₁ ++ comma :: (g₂ ++ (v ++ (g₃ ++ closeList :: r))))) := by
                    simp
                  have hnext := hcomma hg₁ (g₂ ++ (v ++ (g₃ ++ closeList :: r)))
                  simp only [Reader.recordList, List.cons_append, if_true, Reader.recordItems,
                    htext, hp.expect_closing ha hg (.inl rfl),
                    hp.run_skipBlank ha hg hnext.2.2, hnext.1, hnext.2.1,
                    hq.run_skipBlank hb hg₂ (hclose hg₃).2, (hclose hg₃).1]

theorem recordList_decides {p : Reader α} {q : Reader β} (hp : p.Decides P) (hq : q.Decides Q)
    (hP : ∀ {w a}, P w a → IsValue w) (hQ : ∀ {w b}, Q w b → IsValue w) :
    (Reader.recordList p q).Decides fun w x => ∃ ws, IsList w ws ∧ FieldsOf P Q ws x where
  starts := fun ⟨_, hws, _⟩ => hws.isValue.starts
  sound {s x r} _ hrun := by
    cases s with
    | nil => cases hrun
    | cons b t =>
        simp only [Reader.recordList] at hrun
        split at hrun
        · rename_i hb
          rw [hb]
          obtain ⟨w, ws, hs, hws, hx⟩ := recordItems_sound hp hq hP hQ hrun
          exact ⟨w, hs, ws, hws, hx⟩
        · cases hrun
  complete := fun ⟨_, hws, hx⟩ _ => recordList_complete hp hq hws hx _

/-! ## Records -/

/-- A record is an object with at most one member of each name, or a list of the values from the
first one on. -/
theorem record_decides {p : Reader α} {q : Reader β} (hp : p.Decides P) (hq : q.Decides Q)
    (hP : ∀ {w a}, P w a → IsValue w) (hQ : ∀ {w b}, Q w b → IsValue w) (hne : second ≠ first) :
    (Reader.record first second p q).Decides fun w x =>
      (∃ ms, IsObject w ms ∧ AtMostOne first ms P x.1 ∧ AtMostOne second ms Q x.2) ∨
        ∃ ws, IsList w ws ∧ FieldsOf P Q ws x := by
  -- An object and a list differ in their first byte.
  refine (recordObject_decides hp hq hP hQ hne).orElse (recordList_decides hp hq hP hQ) ?_
  rintro _ _ ⟨ws, hws, -⟩ r
  cases hws <;> rfl

/-- The members that the text of a record is taken to have: those of an object, or the values of a
list of at most two under the names of the fields. -/
inductive StandsFor (first second : String) : Bytes → List (String × Bytes) → Prop where
  | object {w : Bytes} {ms : List (String × Bytes)} (h : IsObject w ms) :
      StandsFor first second w ms
  | list {w : Bytes} {ws : List Bytes} (h : IsList w ws) (hlength : ws.length ≤ 2) :
      StandsFor first second w ([first, second].zip ws)

/-- The values of a list are fields in the way in which members with their names are. -/
theorem fieldsOf_iff (hne : second ≠ first) {ws : List Bytes} {x : Option α × Option β} :
    FieldsOf P Q ws x ↔ ws.length ≤ 2 ∧ AtMostOne first ([first, second].zip ws) P x.1 ∧
      AtMostOne second ([first, second].zip ws) Q x.2 := by
  obtain ⟨a, b⟩ := x
  simp only [atMostOne_iff_forall₂]
  constructor
  · rintro (_ | ha | ⟨ha, hb⟩)
    · simp
    · simp [Ne.symm hne, ha]
    · simp [hne, Ne.symm hne, ha, hb]
  · rintro ⟨hlength, ha, hb⟩
    match ws, hlength with
    | [], _ =>
        cases a <;> cases b <;> simp at ha hb
        exact .none
    | [u], _ =>
        cases a <;> cases b <;> simp [Ne.symm hne] at ha hb
        exact .first ha
    | [u, v], _ =>
        cases a <;> cases b <;> simp [hne, Ne.symm hne] at ha hb
        exact .both ha hb

/-- A record is read from the members that its text stands for. -/
theorem record_decides_members {p : Reader α} {q : Reader β} (hp : p.Decides P) (hq : q.Decides Q)
    (hP : ∀ {w a}, P w a → IsValue w) (hQ : ∀ {w b}, Q w b → IsValue w) (hne : second ≠ first) :
    (Reader.record first second p q).Decides fun w x =>
      ∃ ms, StandsFor first second w ms ∧ AtMostOne first ms P x.1 ∧ AtMostOne second ms Q x.2 := by
  refine (record_decides hp hq hP hQ hne).congr fun w x => ?_
  simp only [fieldsOf_iff hne]
  constructor
  · rintro (⟨ms, hms, hfields⟩ | ⟨ws, hws, hlength, hfields⟩)
    · exact ⟨ms, .object hms, hfields⟩
    · exact ⟨_, .list hws hlength, hfields⟩
  · rintro ⟨_, ⟨hms⟩ | ⟨hws, hlength⟩, hfields⟩
    · exact .inl ⟨_, hms, hfields⟩
    · exact .inr ⟨_, hws, hlength, hfields⟩

/-- A record that needs both of its fields is an object with one member of each name, or a list of
the two values. -/
theorem fullRecord_decides {p : Reader α} {q : Reader β} (hp : p.Decides P) (hq : q.Decides Q)
    (hP : ∀ {w a}, P w a → IsValue w) (hQ : ∀ {w b}, Q w b → IsValue w) (hne : second ≠ first) :
    (Reader.fullRecord first second p q).Decides fun w x =>
      (∃ ms, IsObject w ms ∧ Sole first ms (P · x.1) ∧ Sole second ms (Q · x.2)) ∨
        ∃ u v, IsList w [u, v] ∧ P u x.1 ∧ Q v x.2 := by
  refine ((record_decides hp hq hP hQ hne).filterMap _).congr fun w x => ?_
  constructor
  · rintro ⟨y, hy, hx⟩
    split at hx
    · cases hx
      refine hy.imp id fun ⟨ws, hws, hfields⟩ => ?_
      cases hfields with
      | both ha hb => exact ⟨_, _, hws, ha, hb⟩
    · cases hx
  · rintro (h | ⟨u, v, hws, ha, hb⟩)
    · exact ⟨(some x.1, some x.2), .inl h, rfl⟩
    · exact ⟨(some x.1, some x.2), .inr ⟨_, hws, .both ha hb⟩, rfl⟩

end Fields

end EgressAuth.Json
