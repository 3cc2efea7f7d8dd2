/-
  EgressAuth.Proofs.Json.Values

  What a text stands for, if it is read as a value (`Denotes`), and that the
  reader of values finds just this (`value_decides`).

  Not every text of the right form stands for a value: a number may be out of
  range, a string may not be a text, and containers may stand too deep inside
  one another.
-/
import EgressAuth.Proofs.Json.Records

namespace EgressAuth.Json

/-! ## Scalars -/

/-- `w` is the scalar `j`. -/
inductive DenotesScalar : Bytes → Json → Prop where
  | word {w : Bytes} {j : Json} (h : IsWord w j) : DenotesScalar w j
  | number {w : Bytes} {n : Numeral} {x : Number} (h : IsNumeral w n) (hx : n.value? = some x) :
      DenotesScalar w (.number x)
  | string {w : Bytes} {s : String} (h : Spells w s) : DenotesScalar w (.string s)

theorem DenotesScalar.isValue {w : Bytes} {j : Json} (h : DenotesScalar w j) : IsValue w := by
  cases h with
  | word h => exact .scalar (.word h)
  | number h _ => exact .scalar (.number h)
  | string h => exact h.isValue

theorem scalar_decides : Reader.scalar.Decides DenotesScalar := by
  have hnumber := (numeral_decides.filterMap Numeral.value?).map Json.number
  have hstring := text_decides.map Json.string
  -- Numbers and strings are told from what comes before them by their first byte.
  have hrest := hnumber.orElse hstring (by rintro _ _ ⟨s, ⟨ps, ⟨-⟩, -⟩, -⟩ r; rfl)
  refine (word_decides.orElse hrest ?_).congr ?_
  · rintro _ _ (⟨x, ⟨n, hn, -⟩, -⟩ | ⟨s, ⟨ps, ⟨-⟩, -⟩, -⟩) r
    · obtain ⟨b, t, rfl, hb⟩ := hn.starts
      exact word_run_of_number hb (t ++ r)
    · rfl
  · intro w j
    constructor
    · rintro (h | ⟨x, ⟨n, hn, hx⟩, rfl⟩ | ⟨s, hs, rfl⟩)
      · exact .word h
      · exact .number hn hx
      · exact .string hs
    · rintro (h | ⟨hn, hx⟩ | hs)
      · exact .inl h
      · exact .inr (.inl ⟨_, ⟨_, hn, hx⟩, rfl⟩)
      · exact .inr (.inr ⟨_, hs, rfl⟩)

/-! ## Values -/

/-- `w` is the value `j`, in which at most `depth` containers stand inside one another. -/
def Denotes : Nat → Bytes → Json → Prop
  | 0, w, j => DenotesScalar w j
  | depth + 1, w, j =>
    DenotesScalar w j ∨
      (∃ js, Enclosed openList closeList (Denotes depth) w js ∧ .list js = j) ∨
        ∃ ms, Enclosed openObject closeObject
          (Member fun name w m => ∃ v, Denotes depth w v ∧ (name, v) = m) w ms ∧ .object ms = j

theorem Denotes.isValue {depth : Nat} {w : Bytes} {j : Json} (h : Denotes depth w j) :
    IsValue w := by
  induction depth generalizing w j with
  | zero => exact DenotesScalar.isValue h
  | succ depth ih =>
      rcases h with h | ⟨js, h, -⟩ | ⟨ms, h, -⟩
      · exact h.isValue
      · exact IsValue.of_list (fun w v hw => ih hw) h
      · exact IsValue.of_object (fun name w m ⟨v, hw, _⟩ => ih hw) h

/-- The reader of values finds what a text stands for. -/
theorem value_decides (depth : Nat) : (Reader.value depth).Decides (Denotes depth) := by
  -- The reader for containers inside calls the one for a smaller depth, so the induction is on it.
  induction depth with
  | zero => exact scalar_decides
  | succ depth ih =>
      have hlist := (ih.container (o := openList) (by decide) (.inl rfl)).map Json.list
      have hobject := ((keyed_decides fun name => ih.map fun v => (name, v)).container
        (o := openObject) (by decide) (.inr rfl)).map Json.object
      -- The three kinds of values differ in their first byte.
      refine scalar_decides.orElse (hlist.orElse hobject ?_) ?_
      · rintro _ _ ⟨ms, h, -⟩ r
        cases h <;> rfl
      · rintro _ _ (⟨js, h, -⟩ | ⟨ms, h, -⟩) r <;> cases h <;> rfl

/-! ## Look-ups -/

/-- Of the members with that name the last one counts. -/
theorem lookup?_eq_getLast? (name : String) (ms : List (String × Json)) :
    lookup? name ms = (ms.filter fun m => m.1 == name).getLast?.map Prod.snd := by
  unfold lookup?
  rw [← List.head?_filter, List.filter_reverse, List.head?_reverse]

/-- A look-up by a name sees the members of that name only. -/
theorem lookup?_congr {name : String} {ms ns : List (String × Json)} {p : String → Bool}
    (hname : p name = true) (h : ms.filter (fun m => p m.1) = ns.filter fun m => p m.1) :
    lookup? name ms = lookup? name ns := by
  have hfilter (l : List (String × Json)) :
      l.filter (fun m => m.1 == name) = (l.filter fun m => p m.1).filter fun m => m.1 == name := by
    rw [List.filter_filter]
    refine List.filter_congr fun m _ => ?_
    cases hm : m.1 == name with
    | false => rfl
    | true => rw [beq_iff_eq.1 hm, hname, Bool.and_self]
  rw [lookup?_eq_getLast?, lookup?_eq_getLast?, hfilter ms, hfilter ns, h]

/-! ## Objects -/

/-- An object that is read has its members one by one in its text. -/
theorem Denotes.exists_members {depth : Nat} {w : Bytes} {js : List (String × Json)}
    (h : Denotes (depth + 1) w (.object js)) :
    ∃ ms, IsObject w ms ∧
      List.Forall₂ (fun j m => j.1 = m.1 ∧ Denotes depth m.2 j.2) js ms := by
  rcases h with hscalar | ⟨items, -, hitems⟩ | ⟨members, hmembers, hjs⟩
  · cases hscalar with
    | word hword => cases hword
  · cases hitems
  · cases hjs
    refine hmembers.exists_forall₂ (S := IsMember) ?_
    rintro _ m - ⟨hname, hg, hg', v, hv, rfl⟩
    exact ⟨(_, _), .named hname hg hg' ⟨rfl, hv.isValue⟩, rfl, hv⟩

/-- Where no name is repeated, a look-up finds the value of the one member of a name. -/
theorem atMostOne_lookup? {T : Bytes → Json → Prop} {js : List (String × Json)}
    {ms : List (String × Bytes)} (h : List.Forall₂ (fun j m => j.1 = m.1 ∧ T m.2 j.2) js ms)
    {name : String} (hcount : (js.map Prod.fst).count name ≤ 1) :
    AtMostOne name ms T (lookup? name js) := by
  have hnamed : List.Forall₂ (fun j m => j.1 = m.1 ∧ T m.2 j.2)
      (js.filter fun j => j.1 == name) (ms.filter fun m => m.1 == name) :=
    List.rel_filter (fun j m hjm => by simp [hjm.1]) h
  have hlength : (js.filter fun j => j.1 == name).length ≤ 1 := by
    rwa [List.count_eq_countP, List.countP_map, List.countP_eq_length_filter] at hcount
  have hlookup : (lookup? name js).toList = (js.filter fun j => j.1 == name).map Prod.snd := by
    rw [lookup?_eq_getLast?]
    generalize (js.filter fun j => j.1 == name) = named at hlength
    match named, hlength with
    | [], _ | [_], _ => rfl
  rw [atMostOne_iff_forall₂, hlookup, List.forall₂_map_left_iff]
  exact hnamed.imp fun j m hjm => hjm.2

end EgressAuth.Json
