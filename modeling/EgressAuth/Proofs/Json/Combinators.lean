/-
  EgressAuth.Proofs.Json.Combinators

  What the combined readers read, each from what its parts read. Later proofs
  go by these statements and open no reader that is made of others.
-/
import EgressAuth.Json.Value
import Mathlib.Data.List.DropRight

namespace EgressAuth.Json

theorem skipBlank_skipBlank (s : Bytes) : skipBlank (skipBlank s) = skipBlank s :=
  List.dropWhile_idempotent _ _

namespace Reader

variable {α β : Type} {s r : Bytes}

theorem map_run_eq_some_iff {p : Reader α} {f : α → β} {x : β} :
    (p.map f).run s = some (x, r) ↔ ∃ a, p.run s = some (a, r) ∧ f a = x := by
  simp [Reader.map, Option.map_eq_some_iff]

theorem filterMap_run_eq_some_iff {p : Reader α} {f : α → Option β} {x : β} :
    (p.filterMap f).run s = some (x, r) ↔ ∃ a, p.run s = some (a, r) ∧ f a = some x := by
  simp [Reader.filterMap, Option.bind_eq_some_iff]

theorem orElse_run_eq_some_iff {p q : Reader α} {x : α × Bytes} :
    (p.orElse q).run s = some x ↔ p.run s = some x ∨ p.run s = none ∧ q.run s = some x := by
  simp [Reader.orElse, Option.or_eq_some_iff]

theorem literal_run_eq_some_iff {word : Bytes} {a x : α} {hw : word ≠ []} :
    (literal word a hw).run s = some (x, r) ↔ word <+: s ∧ a = x ∧ s.drop word.length = r := by
  simp [Reader.literal]

theorem keyed_run_eq_some_iff {f : String → Reader α} {x : α} :
    (keyed f).run s = some (x, r) ↔ ∃ name t u, text.run s = some (name, t) ∧
      expect colon t = some u ∧ (f name).run (skipBlank u) = some (x, r) := by
  simp only [keyed]
  constructor
  · intro h
    split at h
    · cases h
    · rename_i name t hname
      split at h
      · cases h
      · rename_i u hcolon
        exact ⟨name, t, u, hname, hcolon, h⟩
  · rintro ⟨name, t, u, hname, hcolon, hvalue⟩
    simp only [hname, hcolon, hvalue]

/-- The item at the head of an open container is taken off; the byte behind it decides. -/
theorem items_of_run {p : Reader α} {a : α} {b c : UInt8} {t : Bytes}
    (hitem : p.run (skipBlank s) = some (a, r)) (hnext : skipBlank r = b :: t) (acc : List α) :
    p.items c s acc =
      if b = comma then p.items c t (a :: acc)
      else if b = c then some ((a :: acc).reverse, t)
      else none := by
  -- The definition matches under equations that its termination needs, hence the splits.
  rw [items]
  split
  · rename_i hnone
    rw [hitem] at hnone
    cases hnone
  · rename_i a' r' hsome
    rw [hitem] at hsome
    obtain ⟨rfl, rfl⟩ := Prod.mk.inj (Option.some.inj hsome)
    split
    · rename_i hnil
      rw [hnext] at hnil
      cases hnil
    · rename_i b' t' hcons
      rw [hnext] at hcons
      obtain ⟨rfl, rfl⟩ := List.cons.inj hcons
      rfl

theorem container_run_eq_some_iff {p : Reader α} {opening closing : UInt8} {as : List α} :
    (p.container opening closing).run s = some (as, r) ↔ ∃ t, s = opening :: t ∧
      (expect closing t = some r ∧ as = [] ∨
        expect closing t = none ∧ p.items closing t [] = some (as, r)) := by
  simp only [container]
  constructor
  · intro h
    split at h
    · rename_i b t
      split at h
      · rename_i hb
        subst b
        refine ⟨t, rfl, ?_⟩
        split at h
        · rename_i u hclose
          cases h
          exact Or.inl ⟨hclose, rfl⟩
        · rename_i hopen
          exact Or.inr ⟨hopen, h⟩
      · cases h
    · cases h
  · rintro ⟨t, rfl, ⟨hclose, rfl⟩ | ⟨hopen, hitems⟩⟩
    · simp only [if_true, hclose]
    · simp only [if_true, hopen, hitems]

theorem readAll_eq_some_iff {p : Reader α} {a : α} :
    p.readAll s = some a ↔ ∃ r, p.run (skipBlank s) = some (a, r) ∧ skipBlank r = [] := by
  unfold readAll
  constructor
  · intro h
    split at h
    · rename_i a' r hrun
      split at h
      · rename_i hrest
        cases h
        exact ⟨r, hrun, List.isEmpty_iff.1 hrest⟩
      · cases h
    · cases h
  · rintro ⟨r, hrun, hrest⟩
    simp [hrun, hrest]

end Reader
end EgressAuth.Json
