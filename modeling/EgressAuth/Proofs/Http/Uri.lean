/-
  EgressAuth.Proofs.Http.Uri

  What reading a request target comes to. A text that starts with a web scheme
  is read as authority, path and query (`Uri.read_web_iff`); the authority
  reaches as far as the first character that ends it, so text that is put
  behind it does not change it if it starts with such a character
  (`Authority.split_append`). The path and query of a target that was read
  start with a slash or a question mark, but for the target `*`
  (`Uri.pathAndQuery_of_read`).
-/
import EgressAuth.Http.Uri
import Mathlib.Data.List.TakeWhile

namespace EgressAuth.Http

/-! ## Scanning -/

/-- What is taken from the head of a text is taken from it when it goes on, too. -/
theorem mem_takeWhile_append {p : Char → Bool} {cs more : List Char} {c : Char}
    (h : c ∈ cs.takeWhile p) : c ∈ (cs ++ more).takeWhile p := by
  rw [List.takeWhile_append]
  split
  · exact List.mem_append_left _ ((List.takeWhile_prefix p).subset h)
  · exact h

/-- A scan stops at a character that it does not take. -/
theorem not_taken_of_dropWhile {p : Char → Bool} {cs rest : List Char} {c : Char}
    (h : cs.dropWhile p = c :: rest) : p c = false := by
  have hhead := List.head?_dropWhile_not p cs
  rw [h] at hhead
  simpa using hhead

/-! ## Authorities -/

namespace Authority

/-- What ends an authority may be followed by anything. -/
theorem split_append {cs more : List Char} (hcs : (split cs).2 ≠ []) :
    split (cs ++ more) = ((split cs).1, (split cs).2 ++ more) := by
  unfold split at hcs ⊢
  have hlength : (cs.takeWhile fun c => !endsAuthority c).length ≠ cs.length := by
    intro h
    have hall := List.takeWhile_eq_self_iff.1 ((List.takeWhile_prefix _).eq_of_length h)
    exact hcs (List.dropWhile_eq_nil_iff.2 hall)
  rw [List.takeWhile_append, if_neg hlength, List.dropWhile_append, if_neg (by simpa using hcs)]

/-- An authority that reaches to the end of the text goes on as far as the text behind it does. -/
theorem split_append_of_open {cs more : List Char} (hcs : (split cs).2 = []) :
    split (cs ++ more) = (cs ++ (split more).1, (split more).2) := by
  have hall : ∀ c ∈ cs, (!endsAuthority c) = true := List.dropWhile_eq_nil_iff.1 hcs
  unfold split
  rw [List.takeWhile_append_of_pos hall, List.dropWhile_append_of_pos hall]

theorem split_of_open {cs : List Char} (hcs : (split cs).2 = []) : (split cs).1 = cs :=
  List.takeWhile_eq_self_iff.2 (List.dropWhile_eq_nil_iff.1 hcs)

/-- An authority is the same whatever is put behind the text, if that starts with a character that
ends authorities. -/
theorem split_append_of_ends {cs more : List Char} {c : Char} (hc : endsAuthority c = true) :
    split (cs ++ c :: more) = ((split cs).1, (split cs).2 ++ c :: more) := by
  by_cases hcs : (split cs).2 = []
  · have hmore : split (c :: more) = ([], c :: more) := by
      simp [split, hc]
    rw [split_append_of_open hcs, hmore, split_of_open hcs, hcs, List.append_nil, List.nil_append]
  · exact split_append hcs

/-- The rest behind an authority starts with a character that ends it. -/
theorem endsAuthority_of_split {cs rest : List Char} {c : Char} (h : (split cs).2 = c :: rest) :
    endsAuthority c = true := by
  have hdrop : (cs.dropWhile fun c => !endsAuthority c) = c :: rest := h
  simpa using not_taken_of_dropWhile hdrop

end Authority

/-! ## Path and query -/

namespace PathAndQuery

/-- Whether a character belongs to the path, as long as no query and no fragment has begun. -/
def inPath (c : Char) : Bool := c != '?' && c != '#'

theorem readQuery_eq (cs : List Char) :
    readQuery cs =
      if (cs.takeWhile (· != '#')).all isQueryChar then .ok (cs.takeWhile (· != '#'))
      else .error .invalidCharacter := rfl

theorem read_eq (cs : List Char) :
    read cs =
      if (cs.takeWhile inPath).all isPathChar then
        match cs.dropWhile inPath with
        | '?' :: rest => (readQuery rest).map fun q => ⟨cs.takeWhile inPath, some q⟩
        | _ => .ok ⟨cs.takeWhile inPath, none⟩
      else .error .invalidCharacter := rfl

theorem readQuery_of_append {cs more q : List Char} (h : readQuery (cs ++ more) = .ok q) :
    ∃ q', readQuery cs = .ok q' := by
  rw [readQuery_eq] at h ⊢
  split at h
  · rename_i hall
    rw [if_pos (List.all_eq_true.2 fun c hc => List.all_eq_true.1 hall c (mem_takeWhile_append hc))]
    exact ⟨_, rfl⟩
  · cases h

/-- A text that reads as path and query still does when its end is cut off. -/
theorem read_of_append {cs more : List Char} {t : PathAndQuery} (h : read (cs ++ more) = .ok t) :
    ∃ t', read cs = .ok t' := by
  rw [read_eq] at h ⊢
  split at h
  · rename_i hall
    rw [if_pos (List.all_eq_true.2 fun c hc => List.all_eq_true.1 hall c (mem_takeWhile_append hc))]
    -- A query that has begun goes on in what is cut off; otherwise there is none to read.
    split
    · rename_i rest hrest
      have hmore : (cs ++ more).dropWhile inPath = '?' :: (rest ++ more) := by
        rw [List.dropWhile_append, hrest]
        rfl
      rw [hmore] at h
      cases hq : readQuery (rest ++ more) with
      | error e =>
          simp only [hq] at h
          cases h
      | ok q =>
          obtain ⟨q', hq'⟩ := readQuery_of_append hq
          rw [hq']
          exact ⟨_, rfl⟩
    · exact ⟨_, rfl⟩
  · cases h

theorem path_of_read {cs : List Char} {t : PathAndQuery} (h : read cs = .ok t) :
    t.path = cs.takeWhile inPath := by
  rw [read_eq] at h
  split at h
  · split at h
    · rename_i rest _
      cases hq : readQuery rest with
      | error e =>
          rw [hq] at h
          cases h
      | ok q =>
          rw [hq] at h
          cases h
          rfl
    · cases h
      rfl
  · cases h

/-- What is read from a text that begins like a path, a query or a fragment, or is empty, begins
like a path or a query. -/
theorem startsPath_of_read {cs : List Char} {t : PathAndQuery} (h : read cs = .ok t)
    (hcs : ∀ c rest, cs = c :: rest → Authority.endsAuthority c = true) :
    ∃ c rest, t.text = c :: rest ∧ (c = '/' ∨ c = '?') := by
  cases cs with
  | nil =>
      cases h
      exact ⟨'/', [], rfl, Or.inl rfl⟩
  | cons c cs =>
      have hc : c = '/' ∨ c = '?' ∨ c = '#' := by
        simpa [Authority.endsAuthority, or_assoc] using hcs c cs rfl
      rcases hc with rfl | rfl | rfl
      · refine ⟨'/', cs.takeWhile inPath ++ t.queryText, ?_, Or.inl rfl⟩
        have hpath : t.path = '/' :: cs.takeWhile inPath := path_of_read h
        rw [text, hpath]
        rfl
      · have hread : read ('?' :: cs) = (readQuery cs).map fun q => ⟨[], some q⟩ := rfl
        rw [hread] at h
        cases hq : readQuery cs with
        | error e =>
            rw [hq] at h
            cases h
        | ok q =>
            rw [hq] at h
            cases h
            exact ⟨'?', q, rfl, Or.inr rfl⟩
      · cases h
        exact ⟨'/', [], rfl, Or.inl rfl⟩

end PathAndQuery

/-! ## Targets -/

/-- The schemes of web services. -/
def IsWeb (scheme : List Char) : Prop := scheme = "http".toList ∨ scheme = "https".toList

theorem splitScheme_web {scheme : List Char} (h : IsWeb scheme) (rest : List Char) :
    splitScheme (scheme ++ ':' :: '/' :: '/' :: rest) = .ok (some scheme, rest) := by
  rcases h with rfl | rfl
  · rfl
  · rfl

/-- Where there is no scheme, nothing is taken off the text. -/
theorem splitScheme_none {cs rest : List Char} (h : splitScheme cs = .ok (none, rest)) :
    rest = cs := by
  simp only [splitScheme] at h
  split at h
  · split at h
    · cases h
    · split at h
      · cases h
        rfl
      · split at h
        · cases h
        · cases h
  · cases h
    rfl

namespace Uri

/-- Behind a scheme come an authority, which is not empty, and a path and query. -/
theorem readFull_of_scheme {cs scheme rest : List Char}
    (hs : splitScheme cs = .ok (some scheme, rest)) :
    readFull cs =
      if rest.isEmpty then .error .empty
      else match Authority.check (Authority.split rest).1 with
        | .error e => .error e
        | .ok _ =>
          if (Authority.split rest).1.isEmpty then .error .invalidFormat
          else (PathAndQuery.read (Authority.split rest).2).map
            (.absolute scheme (Authority.split rest).1) := by
  unfold readFull
  rw [hs]
  simp only [bind, Except.bind]
  split
  · rfl
  · cases Authority.check (Authority.split rest).1 with
    | error e => rfl
    | ok u =>
        simp only
        split
        · rfl
        · cases PathAndQuery.read (Authority.split rest).2 <;> rfl

/-- Without a scheme the whole text is an authority. -/
theorem readFull_of_no_scheme {cs : List Char} (hs : splitScheme cs = .ok (none, cs)) :
    readFull cs =
      if cs.isEmpty then .error .empty
      else match Authority.check (Authority.split cs).1 with
        | .error e => .error e
        | .ok _ =>
          if (Authority.split cs).2.isEmpty then .ok (.authority (Authority.split cs).1)
          else .error .invalidFormat := by
  unfold readFull
  rw [hs]
  simp only [bind, Except.bind]
  split
  · rfl
  · cases Authority.check (Authority.split cs).1 with
    | error e => rfl
    | ok u =>
        simp only
        split
        · rfl
        · rfl

/-- What a text with a scheme is read as. -/
theorem readFull_eq_ok_iff {cs scheme rest : List Char} {u : Uri}
    (hs : splitScheme cs = .ok (some scheme, rest)) :
    readFull cs = .ok u ↔
      Authority.check (Authority.split rest).1 = .ok () ∧ (Authority.split rest).1 ≠ [] ∧
        ∃ t, PathAndQuery.read (Authority.split rest).2 = .ok t ∧
          u = .absolute scheme (Authority.split rest).1 t := by
  rw [readFull_of_scheme hs]
  cases rest with
  | nil => simp [Authority.split]
  | cons c rest =>
      rw [if_neg (by simp)]
      cases Authority.check (Authority.split (c :: rest)).1 with
      | error e => simp
      | ok check =>
          by_cases hname : (Authority.split (c :: rest)).1 = []
          · simp [hname]
          · simp only [List.isEmpty_iff, if_neg hname]
            cases PathAndQuery.read (Authority.split (c :: rest)).2 with
            | error e => simp [Except.map]
            | ok t => simp [Except.map, hname, eq_comm]

/-- An authority alone is read from a text that is nothing else. -/
theorem eq_authority_of_readFull {cs : List Char} {u : Uri} (hs : splitScheme cs = .ok (none, cs))
    (h : readFull cs = .ok u) : u = .authority cs := by
  rw [readFull_of_no_scheme hs] at h
  split at h
  · cases h
  · split at h
    · cases h
    · split at h
      · rename_i hrest
        cases h
        rw [Authority.split_of_open (List.isEmpty_iff.1 hrest)]
      · cases h

/-- A text that is no bare path is read as an authority alone, or as a scheme and an authority with
a path and query behind them. -/
theorem readFull_cases {cs : List Char} {u : Uri} (h : readFull cs = .ok u) :
    u = .authority cs ∨
    ∃ scheme rest t, PathAndQuery.read (Authority.split rest).2 = .ok t ∧
      u = .absolute scheme (Authority.split rest).1 t := by
  cases hscheme : splitScheme cs with
  | error e =>
      rw [readFull, hscheme] at h
      cases h
  | ok p =>
      obtain ⟨scheme, rest⟩ := p
      cases scheme with
      | none =>
          have hrest := splitScheme_none hscheme
          subst hrest
          exact Or.inl (eq_authority_of_readFull hscheme h)
      | some scheme =>
          obtain ⟨-, -, t, ht, hu⟩ := (readFull_eq_ok_iff hscheme).1 h
          exact Or.inr ⟨scheme, rest, t, ht, hu⟩

/-- The ways in which a text is read as a target. -/
theorem read_cases {s : String} {u : Uri} (h : read s = .ok u) :
    s.utf8ByteSize ≤ maxLength ∧
    (s = "*" ∧ u = .origin ⟨['*'], none⟩ ∨
      s ≠ "*" ∧
        ((∃ cs t, s.toList = '/' :: cs ∧ PathAndQuery.read ('/' :: cs) = .ok t ∧ u = .origin t) ∨
          readFull s.toList = .ok u)) := by
  unfold read at h
  split at h
  · cases h
  · rename_i hsize
    refine ⟨Nat.le_of_not_lt hsize, ?_⟩
    have hne : ∀ {cs : List Char}, s.toList = cs → cs ≠ ['*'] → s ≠ "*" := by
      rintro cs hcs hstar rfl
      exact hstar hcs.symm
    split at h
    · cases h
    · rename_i hstar
      cases h
      exact Or.inl ⟨String.toList_injective hstar, rfl⟩
    · rename_i cs hcs
      refine Or.inr ⟨hne hcs (by simp), Or.inl ?_⟩
      cases ht : PathAndQuery.read ('/' :: cs) with
      | error e =>
          rw [ht] at h
          cases h
      | ok t =>
          rw [ht] at h
          cases h
          exact ⟨cs, t, hcs, ht, rfl⟩
    · rename_i c hstar _ hcs
      split at h
      · cases h
      · rw [hcs]
        exact Or.inr ⟨hne hcs fun hc => hstar (List.cons.inj hc).1, Or.inr h⟩
    · rename_i hstar _ _
      exact Or.inr ⟨hne rfl hstar, Or.inr h⟩

/-- A text that begins like one with a web scheme is no bare path. -/
theorem read_of_web {s : String} {scheme rest : List Char} (hweb : IsWeb scheme)
    (hs : s.toList = scheme ++ ':' :: rest) :
    read s =
      if maxLength < s.utf8ByteSize then .error .tooLong else readFull s.toList := by
  unfold read
  split
  · rfl
  · rw [hs]
    rcases hweb with rfl | rfl
    · rfl
    · rfl

/-- What a text with a web scheme is read as. -/
theorem read_web_iff {s : String} {scheme rest : List Char} (hweb : IsWeb scheme)
    (hs : s.toList = scheme ++ ':' :: '/' :: '/' :: rest) {u : Uri} :
    read s = .ok u ↔
      s.utf8ByteSize ≤ maxLength ∧
        Authority.check (Authority.split rest).1 = .ok () ∧ (Authority.split rest).1 ≠ [] ∧
        ∃ t, PathAndQuery.read (Authority.split rest).2 = .ok t ∧
          u = .absolute scheme (Authority.split rest).1 t := by
  have hscheme : splitScheme s.toList = .ok (some scheme, rest) := by
    rw [hs]
    exact splitScheme_web hweb rest
  rw [read_of_web hweb hs, ← readFull_eq_ok_iff hscheme]
  split
  · simp only [reduceCtorEq, false_iff, not_and]
    intro hsize
    omega
  · rename_i hsize
    exact ⟨fun h => ⟨Nat.le_of_not_lt hsize, h⟩, fun h => h.2⟩

/-- A target that is an authority alone is just its text. -/
theorem toList_of_read_authority {s : String} {name : List Char}
    (h : read s = .ok (.authority name)) : s.toList = name := by
  obtain ⟨-, ⟨-, h⟩ | ⟨-, ⟨cs, t, -, -, h⟩ | h⟩⟩ := read_cases h
  · cases h
  · cases h
  · rcases readFull_cases h with h | ⟨scheme, rest, t, -, h⟩
    · exact (Uri.authority.inj h).symm
    · cases h

/-- The path and query that a target asks for, `/` if it has none, begin like a path or a query;
only `*` is neither. -/
theorem pathAndQuery_of_read {s : String} {u : Uri} (h : read s = .ok u) :
    s = "*" ∧ u.pathAndQuery?.getD "/" = "*" ∨
    s ≠ "*" ∧ ∃ c rest, (u.pathAndQuery?.getD "/").toList = c :: rest ∧ (c = '/' ∨ c = '?') := by
  obtain ⟨-, ⟨hs, rfl⟩ | ⟨hs, ⟨cs, t, -, ht, rfl⟩ | h⟩⟩ := read_cases h
  · exact Or.inl ⟨hs, rfl⟩
  · refine Or.inr ⟨hs, ?_⟩
    have hstart := PathAndQuery.startsPath_of_read ht
      (by rintro c rest hc; cases hc; rfl)
    simpa [pathAndQuery?] using hstart
  · refine Or.inr ⟨hs, ?_⟩
    rcases readFull_cases h with rfl | ⟨scheme, rest, t, ht, rfl⟩
    · exact ⟨'/', [], by simp [pathAndQuery?], Or.inl rfl⟩
    · have hstart := PathAndQuery.startsPath_of_read ht
        fun c tail hc => Authority.endsAuthority_of_split hc
      simpa [pathAndQuery?] using hstart

end Uri
end EgressAuth.Http
