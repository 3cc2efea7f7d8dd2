/-
  EgressAuth.Proofs.Http.PathAndQuery

  The texts that read as a path and query: characters of a path, a question
  mark and characters of a query, if there is one, and anything behind a number
  sign (`PathAndQuery.read_eq_ok_iff`). So what was read can be written behind
  another path and reads there as it did before (`PathAndQuery.read_below`).
-/
import EgressAuth.Proofs.Http.Uri

namespace EgressAuth.Http

namespace PathAndQuery

/-- A path and query of the characters that these are made of. -/
structure WellFormed (t : PathAndQuery) : Prop where
  path : ∀ c ∈ t.path, isPathChar c = true
  query : ∀ q, t.query = some q → ∀ c ∈ q, isQueryChar c = true

/-- Nothing, or a fragment with its number sign. -/
def IsFragment (cs : List Char) : Prop := cs = [] ∨ ∃ tail, cs = '#' :: tail

theorem inPath_of_isPathChar {c : Char} (h : isPathChar c = true) : inPath c = true := by
  have hquestion : c ≠ '?' := by
    rintro rfl
    exact absurd h (by decide)
  have hnumber : c ≠ '#' := by
    rintro rfl
    exact absurd h (by decide)
  simp [inPath, hquestion, hnumber]

theorem ne_number_of_isQueryChar {c : Char} (h : isQueryChar c = true) : (c != '#') = true := by
  have hnumber : c ≠ '#' := by
    rintro rfl
    exact absurd h (by decide)
  simp [hnumber]

/-- Where a query ends, there is nothing or a fragment. -/
theorem isFragment_dropWhile (cs : List Char) : IsFragment (cs.dropWhile (· != '#')) := by
  cases hrest : cs.dropWhile (· != '#') with
  | nil => exact Or.inl rfl
  | cons c tail =>
      have hc : c = '#' := by simpa using not_taken_of_dropWhile hrest
      exact Or.inr ⟨tail, by rw [hc]⟩

/-- Where a path ends, there is a query or what ends a query. -/
theorem dropWhile_inPath_cases (cs : List Char) :
    (∃ tail, cs.dropWhile inPath = '?' :: tail) ∨ IsFragment (cs.dropWhile inPath) := by
  cases hrest : cs.dropWhile inPath with
  | nil => exact Or.inr (Or.inl rfl)
  | cons c tail =>
      have hc : c = '?' ∨ c = '#' := by
        simpa [inPath, ← Classical.or_iff_not_imp_left] using not_taken_of_dropWhile hrest
      rcases hc with rfl | rfl
      · exact Or.inl ⟨tail, rfl⟩
      · exact Or.inr (Or.inr ⟨tail, rfl⟩)

theorem readQuery_eq_ok_iff {cs q : List Char} :
    readQuery cs = .ok q ↔
      (∀ c ∈ q, isQueryChar c = true) ∧ ∃ rest, IsFragment rest ∧ cs = q ++ rest := by
  rw [readQuery_eq]
  constructor
  · intro h
    split at h
    · rename_i hall
      cases h
      exact ⟨List.all_eq_true.1 hall, _, isFragment_dropWhile cs,
        List.takeWhile_append_dropWhile.symm⟩
    · cases h
  · rintro ⟨hq, rest, hrest, rfl⟩
    have htake : (q ++ rest).takeWhile (· != '#') = q := by
      rw [List.takeWhile_append_of_pos fun c hc => ne_number_of_isQueryChar (hq c hc)]
      rcases hrest with rfl | ⟨tail, rfl⟩
      · simp
      · simp
    rw [htake, if_pos (List.all_eq_true.2 hq)]

/-- Behind a path and a question mark a query is read. -/
theorem read_query {path rest : List Char} (hpath : ∀ c ∈ path, isPathChar c = true) :
    read (path ++ '?' :: rest) = (readQuery rest).map fun q => ⟨path, some q⟩ := by
  have hin : ∀ c ∈ path, inPath c = true := fun c hc => inPath_of_isPathChar (hpath c hc)
  have htake : List.takeWhile inPath ('?' :: rest) = [] := by simp [inPath]
  have hdrop : List.dropWhile inPath ('?' :: rest) = '?' :: rest := by simp [inPath]
  rw [read_eq, List.takeWhile_append_of_pos hin, List.dropWhile_append_of_pos hin, htake, hdrop,
    List.append_nil, if_pos (List.all_eq_true.2 hpath)]
  rfl

/-- A path that no query follows is read alone. -/
theorem read_path {path rest : List Char} (hpath : ∀ c ∈ path, isPathChar c = true)
    (hrest : IsFragment rest) : read (path ++ rest) = .ok ⟨path, none⟩ := by
  have hin : ∀ c ∈ path, inPath c = true := fun c hc => inPath_of_isPathChar (hpath c hc)
  rw [read_eq, List.takeWhile_append_of_pos hin, List.dropWhile_append_of_pos hin]
  rcases hrest with rfl | ⟨tail, rfl⟩
  · simpa using hpath
  · simpa [inPath] using hpath

/-- A text that can be read is a path with a query or the end of one behind it. -/
theorem exists_path_of_read {cs : List Char} {t : PathAndQuery} (h : read cs = .ok t) :
    ∃ path rest, cs = path ++ rest ∧ (∀ c ∈ path, isPathChar c = true) ∧
      ((∃ tail, rest = '?' :: tail) ∨ IsFragment rest) := by
  refine ⟨cs.takeWhile inPath, cs.dropWhile inPath, List.takeWhile_append_dropWhile.symm, ?_,
    dropWhile_inPath_cases cs⟩
  rw [read_eq] at h
  split at h
  · rename_i hall
    exact List.all_eq_true.1 hall
  · cases h

/-- The texts that read as a path and query. -/
theorem read_eq_ok_iff {cs : List Char} {t : PathAndQuery} :
    read cs = .ok t ↔
      t.WellFormed ∧ ∃ rest, IsFragment rest ∧ cs = t.path ++ t.queryText ++ rest := by
  constructor
  · intro h
    obtain ⟨path, rest, rfl, hpath, ⟨tail, rfl⟩ | hrest⟩ := exists_path_of_read h
    · rw [read_query hpath] at h
      cases hq : readQuery tail with
      | error e =>
          rw [hq] at h
          cases h
      | ok q =>
          rw [hq] at h
          cases h
          obtain ⟨hquery, fragment, hfragment, rfl⟩ := readQuery_eq_ok_iff.1 hq
          refine ⟨⟨hpath, ?_⟩, fragment, hfragment, by simp [queryText]⟩
          rintro _ ⟨⟩
          exact hquery
    · rw [read_path hpath hrest] at h
      cases h
      refine ⟨⟨hpath, ?_⟩, rest, hrest, by simp [queryText]⟩
      rintro _ ⟨⟩
  · rintro ⟨⟨hpath, hquery⟩, rest, hrest, rfl⟩
    obtain ⟨path, query⟩ := t
    cases query with
    | none =>
        rw [queryText, List.append_nil]
        exact read_path hpath hrest
    | some q =>
        have hread : readQuery (q ++ rest) = .ok q :=
          readQuery_eq_ok_iff.2 ⟨hquery q rfl, rest, hrest, rfl⟩
        rw [queryText, List.append_assoc, List.cons_append, read_query hpath, hread]
        rfl

/-- A path without query and fragment is read whole. -/
theorem eq_path_of_read {cs : List Char} {t : PathAndQuery} (h : read cs = .ok t)
    (hquery : '?' ∉ cs) (hfragment : '#' ∉ cs) : cs = t.path := by
  obtain ⟨-, rest, hrest, rfl⟩ := read_eq_ok_iff.1 h
  have hnone : t.queryText = [] := by
    cases hq : t.query with
    | none => simp [queryText, hq]
    | some q => simp [queryText, hq] at hquery
  have hnil : rest = [] := by
    rcases hrest with rfl | ⟨tail, rfl⟩
    · rfl
    · simp at hfragment
  rw [hnone, hnil, List.append_nil, List.append_nil]

/-- A path and query can be written behind another path. -/
theorem read_below {base : List Char} {t : PathAndQuery}
    (hbase : ∀ c ∈ base, isPathChar c = true) (ht : t.WellFormed) :
    read (base ++ (t.path ++ t.queryText)) = .ok ⟨base ++ t.path, t.query⟩ := by
  refine read_eq_ok_iff.2 ⟨⟨?_, ht.query⟩, [], Or.inl rfl, ?_⟩
  · intro c hc
    rcases List.mem_append.1 hc with hc | hc
    · exact hbase c hc
    · exact ht.path c hc
  · simp [queryText]

end PathAndQuery

/-! ## Targets -/

namespace Uri

/-- The path and query of a target, if it has one, was read from some text. -/
def Accepted : Uri → Prop
  | origin t => ∃ cs, PathAndQuery.read cs = .ok t
  | absolute _ _ t => ∃ cs, PathAndQuery.read cs = .ok t
  | authority _ => True

/-- A target that was read has a path and query that was. -/
theorem accepted_of_read {s : String} {u : Uri} (h : read s = .ok u) : u.Accepted := by
  obtain ⟨-, ⟨-, rfl⟩ | ⟨-, ⟨cs, t, -, ht, rfl⟩ | h⟩⟩ := read_cases h
  · exact ⟨['*'], by decide⟩
  · exact ⟨_, ht⟩
  · rcases readFull_cases h with rfl | ⟨scheme, rest, t, ht, rfl⟩
    · trivial
    · exact ⟨_, ht⟩

/-- What a target asks for is the text of a path and query of the right characters. -/
theorem exists_wellFormed_of_accepted {u : Uri} (h : u.Accepted) :
    ∃ t : PathAndQuery, t.WellFormed ∧
      (u.pathAndQuery?.getD "/").toList = t.path ++ t.queryText := by
  -- An empty path and query stands for the path `/`.
  have hroot : PathAndQuery.WellFormed ⟨['/'], none⟩ :=
    (PathAndQuery.read_eq_ok_iff.1 (show PathAndQuery.read ['/'] = .ok ⟨['/'], none⟩ by decide)).1
  have htext : ∀ {cs : List Char} {t : PathAndQuery}, PathAndQuery.read cs = .ok t →
      ∃ t' : PathAndQuery, t'.WellFormed ∧ t.text = t'.path ++ t'.queryText := by
    intro cs t ht
    by_cases hempty : t.path ++ t.queryText = []
    · refine ⟨_, hroot, ?_⟩
      rw [PathAndQuery.text, hempty]
      rfl
    · refine ⟨t, (PathAndQuery.read_eq_ok_iff.1 ht).1, ?_⟩
      simp [PathAndQuery.text, hempty]
  cases u with
  | origin t =>
      obtain ⟨cs, ht⟩ := h
      simpa [pathAndQuery?] using htext ht
  | absolute scheme name t =>
      obtain ⟨cs, ht⟩ := h
      simpa [pathAndQuery?] using htext ht
  | authority name => exact ⟨_, hroot, by simp [pathAndQuery?, PathAndQuery.queryText]⟩

end Uri
end EgressAuth.Http
