/-
  EgressAuth.Proofs.SortedMap

  The keys of a map, each of them there once (`size_eq_ncard`), so that its
  look-ups tell it from other maps (`ext_get?`), and what a look-up finds in a
  map that is made from a list (`get?_ofList`) or by leaving out some values of
  another map (`get?_filterMapValues`).
-/
import EgressAuth.SortedMap
import Mathlib.Data.Set.Card

namespace EgressAuth.SortedMap

variable {β γ : Type}

/-! ## Keys -/

/-- The keys of a map, no key twice. -/
theorem nodup_keys (m : SortedMap β) : (m.entries.map Prod.fst).Nodup := by
  rw [List.Nodup, List.pairwise_map]
  refine m.sorted.imp fun hlt => ?_
  rintro heq
  exact String.lt_irrefl _ (heq ▸ hlt)

theorem mem_keys_iff {m : SortedMap β} {k : String} :
    k ∈ m.entries.map Prod.fst ↔ (m.get? k).isSome := by
  simp only [List.mem_map, Option.isSome_iff_exists, ← mem_entries_iff]
  constructor
  · rintro ⟨⟨k, v⟩, he, rfl⟩
    exact ⟨v, he⟩
  · rintro ⟨v, he⟩
    exact ⟨(k, v), he, rfl⟩

/-- A map has as many entries as there are keys that have a value. -/
theorem size_eq_ncard (m : SortedMap β) : m.size = Set.ncard {k | (m.get? k).isSome} := by
  have hkeys : {k | (m.get? k).isSome} = ((m.entries.map Prod.fst).toFinset : Set String) := by
    ext k
    rw [Finset.mem_coe, List.mem_toFinset, mem_keys_iff]
    rfl
  rw [hkeys, Set.ncard_coe_finset, List.toFinset_card_of_nodup m.nodup_keys, List.length_map]
  rfl

/-- A map is known by what its look-ups find. -/
theorem ext_get? {m n : SortedMap β} (h : ∀ k, m.get? k = n.get? k) : m = n := by
  have hmem : ∀ e, e ∈ m.entries ↔ e ∈ n.entries := by
    rintro ⟨k, v⟩
    rw [mem_entries_iff, mem_entries_iff, h]
  have hentries : m.entries = n.entries := by
    refine List.Perm.eq_of_pairwise ?_ m.sorted n.sorted ?_
    · intro a b _ _ hlt hgt
      exact absurd hgt (String.lt_asymm hlt)
    · exact (List.perm_ext_iff_of_nodup m.nodup_keys.of_map n.nodup_keys.of_map).2 hmem
  cases m
  cases n
  cases hentries
  rfl

/-! ## Maps from lists and from other maps -/

/-- Of the entries with one key the last one counts. -/
theorem get?_ofList (es : List (String × β)) (k : String) :
    (ofList es).get? k = (es.reverse.find? fun e => e.1 == k).map Prod.snd := by
  unfold ofList
  rw [← List.foldr_reverse]
  -- Read backwards, the entry that is met first is the one put in last.
  induction es.reverse with
  | nil => rfl
  | cons e es ih =>
      rw [List.foldr_cons, get?_insert, List.find?_cons, ih]
      by_cases h : k = e.1
      · subst h
        simp
      · have hne : (e.1 == k) = false := by simpa using Ne.symm h
        rw [if_neg h, hne]

/-- The map of the values that `f` accepts, as `f` transforms them. -/
def filterMapValues (f : β → Option γ) (m : SortedMap β) : SortedMap γ where
  entries := m.entries.filterMap fun e => (f e.2).map fun v => (e.1, v)
  sorted := by
    refine m.sorted.filterMap _ fun a b hlt c hc d hd => ?_
    obtain ⟨v, -, rfl⟩ := Option.map_eq_some_iff.1 hc
    obtain ⟨w, -, rfl⟩ := Option.map_eq_some_iff.1 hd
    exact hlt

theorem get?_filterMapValues (f : β → Option γ) (m : SortedMap β) (k : String) :
    (m.filterMapValues f).get? k = (m.get? k).bind f := by
  apply Option.ext
  intro v
  rw [← mem_entries_iff, Option.bind_eq_some_iff]
  show (k, v) ∈ m.entries.filterMap _ ↔ _
  rw [List.mem_filterMap]
  constructor
  · rintro ⟨⟨l, w⟩, he, hv⟩
    obtain ⟨v, hv, heq⟩ := Option.map_eq_some_iff.1 hv
    cases heq
    exact ⟨w, mem_entries_iff.1 he, hv⟩
  · rintro ⟨w, hw, hv⟩
    exact ⟨(k, w), mem_entries_iff.2 hw, Option.map_eq_some_iff.2 ⟨v, hv, rfl⟩⟩

/-- Going over the values that `f` accepts is going over all, and over nothing where `f` refuses. -/
theorem flatMap_filterMapValues {δ : Type} (f : β → Option γ) (m : SortedMap β)
    (g : String × γ → List δ) :
    (m.filterMapValues f).entries.flatMap g =
      m.entries.flatMap fun e => (f e.2).toList.flatMap fun v => g (e.1, v) := by
  show (m.entries.filterMap _).flatMap g = _
  rw [List.filterMap_eq_flatMap_toList, List.flatMap_assoc]
  refine congrArg (List.flatMap · m.entries) (funext fun e => ?_)
  cases f e.2 <;> rfl

end EgressAuth.SortedMap
