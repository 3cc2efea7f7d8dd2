/-
  EgressAuth.SortedMap

  Finite maps from texts, kept in the order of their keys. An insertion
  replaces the value that the key had. Main statements: `get?_insert` and
  `mem_entries_iff`.
-/

namespace EgressAuth

namespace SortedMap

variable {β : Type}

/-- Puts a value under its key into entries that are in order. -/
def put (k : String) (v : β) : List (String × β) → List (String × β)
  | [] => [(k, v)]
  | e :: es =>
    if k < e.1 then (k, v) :: e :: es
    else if k = e.1 then (k, v) :: es
    else e :: put k v es

theorem mem_put {k : String} {v : β} {e : String × β} {es : List (String × β)}
    (h : e ∈ put k v es) : e = (k, v) ∨ e ∈ es := by
  induction es with
  | nil => exact Or.inl (by simpa [put] using h)
  | cons d es ih =>
    unfold put at h
    split at h
    · rcases List.mem_cons.1 h with h | h
      · exact Or.inl h
      · exact Or.inr h
    · split at h
      · rcases List.mem_cons.1 h with h | h
        · exact Or.inl h
        · exact Or.inr (List.mem_cons_of_mem _ h)
      · rcases List.mem_cons.1 h with h | h
        · exact Or.inr (h ▸ List.mem_cons_self)
        · exact (ih h).imp_right (List.mem_cons_of_mem _)

theorem pairwise_put {k : String} {v : β} {es : List (String × β)}
    (h : es.Pairwise fun a b => a.1 < b.1) : (put k v es).Pairwise fun a b => a.1 < b.1 := by
  induction es with
  | nil => simp [put]
  | cons d es ih =>
    obtain ⟨hd, hes⟩ := List.pairwise_cons.1 h
    unfold put
    split
    · rename_i hk
      refine List.pairwise_cons.2 ⟨?_, h⟩
      intro e he
      rcases List.mem_cons.1 he with rfl | he
      · exact hk
      · exact String.lt_trans hk (hd e he)
    · split
      · rename_i hk
        refine List.pairwise_cons.2 ⟨?_, hes⟩
        intro e he
        exact hk ▸ hd e he
      · rename_i h₁ h₂
        refine List.pairwise_cons.2 ⟨?_, ih hes⟩
        intro e he
        rcases mem_put he with rfl | he
        · have hle : d.1 ≤ k := String.not_lt.1 h₁
          apply Classical.byContradiction
          intro hlt
          exact h₂ (String.le_antisymm (String.not_lt.1 hlt) hle)
        · exact hd e he

end SortedMap

/-- Entries with distinct keys in increasing order. -/
structure SortedMap (β : Type) where
  entries : List (String × β)
  sorted : entries.Pairwise fun a b => a.1 < b.1

namespace SortedMap

variable {β : Type}

def empty : SortedMap β := ⟨[], List.Pairwise.nil⟩

instance : Inhabited (SortedMap β) := ⟨empty⟩

/-- The map with `v` under the key `k`. -/
def insert (m : SortedMap β) (k : String) (v : β) : SortedMap β :=
  ⟨put k v m.entries, pairwise_put m.sorted⟩

/-- The value under a key. -/
def get? (m : SortedMap β) (k : String) : Option β :=
  (m.entries.find? fun e => e.1 == k).map Prod.snd

def size (m : SortedMap β) : Nat := m.entries.length

/-- The map of the listed entries; of entries with one key the last one counts. -/
def ofList (es : List (String × β)) : SortedMap β :=
  es.foldl (fun m e => m.insert e.1 e.2) empty

@[simp] theorem get?_empty (k : String) : (empty : SortedMap β).get? k = none := rfl

private theorem find?_put (k l : String) (v : β) (es : List (String × β)) :
    ((put k v es).find? fun e => e.1 == l).map Prod.snd =
      if l = k then some v
      else (es.find? fun e => e.1 == l).map Prod.snd := by
  induction es with
  | nil =>
    by_cases h : l = k
    · simp [put, h]
    · have : (k == l) = false := by simpa using fun e : k = l => h e.symm
      simp [put, h, this]
  | cons d es ih =>
    unfold put
    split
    · by_cases h : l = k
      · simp [h]
      · have : (k == l) = false := by simpa using fun e : k = l => h e.symm
        simp [h, List.find?_cons, this]
    · split
      · rename_i hk
        by_cases h : l = k
        · simp [h]
        · have : (k == l) = false := by simpa using fun e : k = l => h e.symm
          have hd : (d.1 == l) = false := by simpa [← hk] using fun e : k = l => h e.symm
          simp [h, this, hd]
      · rename_i hk
        rw [List.find?_cons, List.find?_cons]
        by_cases hd : d.1 = l
        · have h : l ≠ k := fun e => hk (by rw [hd, e])
          simp [hd, h]
        · have hd' : (d.1 == l) = false := by simpa using hd
          simp only [hd']
          exact ih

/-- An insertion changes the value under its key and no other. -/
theorem get?_insert (m : SortedMap β) (k l : String) (v : β) :
    (m.insert k v).get? l = if l = k then some v else m.get? l :=
  find?_put k l v m.entries

/-- Each key has one value: what stands among the entries is what the look-up finds. -/
theorem mem_entries_iff {m : SortedMap β} {k : String} {v : β} :
    (k, v) ∈ m.entries ↔ m.get? k = some v := by
  obtain ⟨es, hsorted⟩ := m
  show (k, v) ∈ es ↔ (es.find? fun e => e.1 == k).map Prod.snd = some v
  induction es with
  | nil => simp
  | cons d es ih =>
    obtain ⟨hd, hes⟩ := List.pairwise_cons.1 hsorted
    rw [List.mem_cons, List.find?_cons]
    by_cases hk : d.1 = k
    · have hrest : (k, v) ∉ es := by
        intro hmem
        exact absurd (hd _ hmem) (by rw [hk]; exact String.lt_irrefl k)
      obtain ⟨dk, dv⟩ := d
      cases hk
      simp [hrest, eq_comm]
    · have hne : (k, v) ≠ d := by
        rintro rfl
        exact hk rfl
      have hb : (d.1 == k) = false := by simpa using hk
      simp only [hne, false_or, hb]
      exact ih hes

end SortedMap
end EgressAuth
