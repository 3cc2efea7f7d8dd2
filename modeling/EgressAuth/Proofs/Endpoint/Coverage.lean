/-
  EgressAuth.Proofs.Endpoint.Coverage

  Which request paths a configured path covers: itself, and everything below
  it; if it ends in a slash, everything that starts with it. For paths without
  a star this is what its patterns match (`covers_iff_accepts`), as a pattern
  without a star matches nothing but its own text and a star at the end matches
  every rest of a path that has no line break.
-/
import EgressAuth.Endpoint.Routes
import Mathlib.Data.List.Basic

namespace EgressAuth.Endpoint

/-! ## Patterns with at most one star -/

namespace Glob

/-- A pattern without a star matches nothing but itself. -/
theorem matchesBy_iff_eq {p s : List Char} (hp : star ∉ p) : matchesBy p s = true ↔ s = p := by
  induction p generalizing s with
  | nil => simp [matchesBy]
  | cons c p ih =>
      rw [List.mem_cons, not_or] at hp
      obtain ⟨hc, hp⟩ := hp
      cases s with
      | nil => simp [matchesBy, Ne.symm hc]
      | cons d s =>
          rw [matchesBy, if_neg (Ne.symm hc), Bool.and_eq_true, ih hp, beq_iff_eq, List.cons_eq_cons]
          rw [eq_comm (a := c)]

/-- A star alone matches everything that has no line break. -/
theorem tryAll_nil {s : List Char} (hs : ∀ c ∈ s, isBreak c = false) :
    matchesBy.tryAll [] s = true := by
  induction s with
  | nil => simp [matchesBy.tryAll, matchesBy]
  | cons d s ih =>
      rw [matchesBy.tryAll, hs d List.mem_cons_self,
        ih fun c hc => hs c (List.mem_cons_of_mem d hc)]
      simp

/-- A star at the end matches every rest. -/
theorem matchesBy_star_iff_prefix {p s : List Char} (hp : star ∉ p)
    (hs : ∀ c ∈ s, isBreak c = false) : matchesBy (p ++ [star]) s = true ↔ p <+: s := by
  -- Up to the star the pattern is compared character by character.
  induction p generalizing s with
  | nil =>
      rw [List.nil_append, matchesBy_star, tryAll_nil hs]
      simp
  | cons c p ih =>
      rw [List.mem_cons, not_or] at hp
      obtain ⟨hc, hp⟩ := hp
      cases s with
      | nil => simp [matchesBy, Ne.symm hc]
      | cons d s =>
          have hrest : ∀ c ∈ s, isBreak c = false := by
            intro c hcs
            exact hs c (List.mem_cons_of_mem d hcs)
          rw [List.cons_append, matchesBy, if_neg (Ne.symm hc), Bool.and_eq_true, ih hp hrest,
            beq_iff_eq, List.cons_prefix_cons]

end Glob

/-! ## Configured paths -/

/-- Whether a path ends in a slash. -/
def EndsInSlash (path : String) : Prop := path.toList.getLast? = some '/'

instance (path : String) : Decidable (EndsInSlash path) :=
  inferInstanceAs (Decidable (path.toList.getLast? = some '/'))

/-- A path that ends in a slash covers what starts with it; any other path covers itself and what
starts with it and a slash. -/
def Covers (path q : String) : Prop :=
  if EndsInSlash path then ∃ rest, q = path ++ rest
  else q = path ∨ ∃ rest, q = path ++ "/" ++ rest

/-- The length of a path in bytes, without a slash at its end. -/
def bareLength (path : String) : Nat :=
  if EndsInSlash path then path.utf8ByteSize - 1 else path.utf8ByteSize

/-- What everything below a path starts with. -/
def folder (path : String) : String := if EndsInSlash path then path else path ++ "/"

theorem endsInSlash_append_slash (path : String) : EndsInSlash (path ++ "/") := by
  simp [EndsInSlash]

theorem endsInSlash_append_singleton_iff {path : String} {c : Char} :
    EndsInSlash (path ++ String.singleton c) ↔ c = '/' := by
  simp [EndsInSlash]

theorem endsInSlash_folder (path : String) : EndsInSlash (folder path) := by
  unfold folder
  split
  · assumption
  · exact endsInSlash_append_slash path

theorem utf8ByteSize_pos_of_endsInSlash {path : String} (h : EndsInSlash path) :
    0 < path.utf8ByteSize := by
  apply Nat.pos_of_ne_zero
  rw [Ne, String.utf8ByteSize_eq_zero_iff]
  rintro rfl
  cases h

theorem utf8ByteSize_folder (path : String) : (folder path).utf8ByteSize = bareLength path + 1 := by
  unfold folder bareLength
  split
  · rename_i h
    have := utf8ByteSize_pos_of_endsInSlash h
    omega
  · rw [String.utf8ByteSize_append]
    rfl

theorem utf8ByteSize_folder_append {path q rest : String} (h : q = folder path ++ rest) :
    q.utf8ByteSize = bareLength path + 1 + rest.utf8ByteSize := by
  rw [h, String.utf8ByteSize_append, utf8ByteSize_folder]

/-- A path that does not end in a slash goes on behind every folder that it lies in. -/
theorem utf8ByteSize_rest_pos {path q rest : String} (h : q = folder path ++ rest)
    (hslash : ¬EndsInSlash q) : 0 < rest.utf8ByteSize := by
  apply Nat.pos_of_ne_zero
  rw [Ne, String.utf8ByteSize_eq_zero_iff]
  rintro rfl
  apply hslash
  rw [h, String.append_empty]
  exact endsInSlash_folder path

/-- A path covers what lies below it, and itself unless it ends in a slash. -/
theorem covers_iff {path q : String} :
    Covers path q ↔ ¬EndsInSlash path ∧ q = path ∨ ∃ rest, q = folder path ++ rest := by
  unfold Covers folder
  split
  · rename_i h
    simp [h]
  · rename_i h
    simp [h]

theorem mem_patternTexts {path text : String} :
    text ∈ Registration.patternTexts path ↔
      ¬EndsInSlash path ∧ text = path ∨ text = folder path ++ "*" := by
  unfold Registration.patternTexts folder
  by_cases h : EndsInSlash path
  · have hlast : path.toList.getLast? = some '/' := h
    rw [if_pos hlast, if_pos h, List.mem_singleton]
    simp [h]
  · have hlast : ¬path.toList.getLast? = some '/' := h
    have hslash : path ++ "/" ++ "*" = path ++ "/*" := by
      rw [String.append_assoc]
      rfl
    rw [if_neg hlast, if_neg h, hslash]
    simp [h]

theorem star_notMem_folder {path : String} (h : Glob.star ∉ path.toList) :
    Glob.star ∉ (folder path).toList := by
  unfold folder
  split
  · exact h
  · rw [String.toList_append, List.mem_append, not_or]
    exact ⟨h, by decide⟩

/-- A text that starts another one is its prefix. -/
theorem prefix_iff_exists_append {p q : String} :
    p.toList <+: q.toList ↔ ∃ rest, q = p ++ rest := by
  constructor
  · rintro ⟨rest, h⟩
    refine ⟨String.ofList rest, String.toList_injective ?_⟩
    rw [String.toList_append, String.toList_ofList, h]
  · rintro ⟨rest, rfl⟩
    exact ⟨rest.toList, String.toList_append.symm⟩

/-- The pattern for everything below a path matches just that. -/
theorem accepts_folder_iff {path q : String} (hstar : Glob.star ∉ path.toList)
    (hq : '\n' ∉ q.toList) :
    Glob.accepts (folder path ++ "*").toList q.toList = true ↔ ∃ rest, q = folder path ++ rest := by
  have hbreak : ∀ c ∈ q.toList, Glob.isBreak c = false := by
    intro c hc
    rw [Glob.isBreak, beq_eq_false_iff_ne]
    rintro rfl
    exact hq hc
  -- The matcher itself works on all suffixes at once, so the obvious recursion is used instead.
  rw [Glob.accepts_eq_matchesBy, String.toList_append, ← prefix_iff_exists_append]
  exact Glob.matchesBy_star_iff_prefix (star_notMem_folder hstar) hbreak

/-- The pattern that is a path matches just the path. -/
theorem accepts_path_iff {path q : String} (hstar : Glob.star ∉ path.toList) :
    Glob.accepts path.toList q.toList = true ↔ q = path := by
  rw [Glob.accepts_eq_matchesBy, Glob.matchesBy_iff_eq hstar, String.toList_inj]

/-- A path covers what any of its patterns matches. -/
theorem covers_iff_accepts {path q : String} (hstar : Glob.star ∉ path.toList)
    (hq : '\n' ∉ q.toList) :
    Covers path q ↔
      ∃ text ∈ Registration.patternTexts path, Glob.accepts text.toList q.toList = true := by
  simp only [covers_iff, mem_patternTexts]
  constructor
  · rintro (⟨hslash, hpath⟩ | hbelow)
    · exact ⟨path, Or.inl ⟨hslash, rfl⟩, (accepts_path_iff hstar).2 hpath⟩
    · exact ⟨folder path ++ "*", Or.inr rfl, (accepts_folder_iff hstar hq).2 hbelow⟩
  · rintro ⟨text, ⟨hslash, rfl⟩ | rfl, haccepts⟩
    · exact Or.inl ⟨hslash, (accepts_path_iff hstar).1 haccepts⟩
    · exact Or.inr ((accepts_folder_iff hstar hq).1 haccepts)

end EgressAuth.Endpoint
