/-
  EgressAuth.Proofs.Http.Authority

  What a number behind it and the case of its letters are to an authority. If
  the colons of a text stand between brackets, a number behind it changes
  neither whether it is an authority (`isAuthority_append_number`) nor its host
  (`host_append_number`). Capitals and small letters are treated alike
  (`isAuthority_toLower`, `host_toLower`).
-/
import EgressAuth.Http.Authority
import EgressAuth.Proofs.Text.LetterCase
import EgressAuth.Proofs.Text.Pieces

namespace EgressAuth.Http.Authority

open Text

variable {s t : Scan} {c : Char} {cs ds : List Char}

/-! ## The scan -/

/-- What is remembered of one more character, the percent sign aside. -/
theorem Scan.of_step (h : s.step c = .ok t) :
    t.colons = (if c = ':' then s.colons + 1 else if c = ']' ∨ c = '@' then 0 else s.colons) ∧
    t.opened = (s.opened || c == '[') ∧ t.closed = (s.closed || c == ']') ∧
    t.endsInAt = (c == '@') := by
  unfold step at h
  split_ifs at h <;> cases h <;> simp [*]

/-- What one character of a text keeps, the whole text keeps. -/
theorem Scan.of_steps {P : Scan → Prop}
    (hstep : ∀ s t c, c ∈ cs → s.step c = .ok t → P s → P t) (h : s.steps cs = .ok t)
    (hs : P s) : P t := by
  induction cs generalizing s with
  | nil =>
      cases h
      exact hs
  | cons c cs ih =>
      rw [steps] at h
      cases hc : s.step c with
      | error e =>
          rw [hc] at h
          cases h
      | ok s' =>
          rw [hc] at h
          exact ih (fun s t d hd => hstep s t d (List.mem_cons_of_mem _ hd)) h
            (hstep s s' c List.mem_cons_self hc hs)

theorem Scan.steps_append (s : Scan) (cs ds : List Char) :
    s.steps (cs ++ ds) = (s.steps cs).bind fun t => t.steps ds := by
  induction cs generalizing s with
  | nil => rfl
  | cons c cs ih =>
      rw [List.cons_append, steps, steps]
      cases s.step c with
      | error e => rfl
      | ok t => exact ih t

theorem isAuthority_iff :
    isAuthority cs = true ↔ cs ≠ [] ∧ (∀ c ∈ cs, endsAuthority c = false) ∧
      ∃ t, Scan.steps {} cs = .ok t ∧ t.complete = true := by
  have hends : (split cs).2 = [] ↔ ∀ c ∈ cs, endsAuthority c = false := by
    simp [split, List.dropWhile_eq_nil_iff]
  unfold isAuthority check
  rw [Bool.and_eq_true, Bool.and_eq_true, List.isEmpty_iff, hends, Bool.not_eq_true',
    List.isEmpty_eq_false_iff, and_assoc]
  refine and_congr_right fun _ => and_congr_right fun _ => ?_
  cases Scan.steps {} cs with
  | error e => simp
  | ok t => cases ht : t.complete <;> simp [ht]

/-! ## Numbers -/

/-- All colons of a text stand between brackets at its head. -/
def ColonsBracketed (cs : List Char) : Prop :=
  ':' ∉ cs ∨ ∃ address rest, cs = '[' :: address ++ ']' :: rest ∧ ':' ∉ rest

/-- A bracketed address that is read to its end has been closed. -/
theorem mem_close_of_complete (h : Scan.steps {} ('[' :: cs) = .ok t) (ht : t.complete = true) :
    ']' ∈ cs := by
  by_contra hopen
  have hopened : t.opened = true := by
    rw [Scan.steps] at h
    refine Scan.of_steps (P := fun s => s.opened = true) (fun s t c _ hc hs => ?_) h rfl
    rw [(Scan.of_step hc).2.1, hs, Bool.true_or]
  have hclosed : t.closed = false := by
    refine Scan.of_steps (P := fun s => s.closed = false) (fun s t c hmem hc hs => ?_) h rfl
    have hne : c ≠ ']' := by
      rintro rfl
      rcases List.mem_cons.1 hmem with hbad | hmem
      · exact absurd hbad (by decide)
      · exact hopen hmem
    rw [(Scan.of_step hc).2.2.1, hs, beq_eq_false_iff_ne.2 hne, Bool.or_false]
  simp [Scan.complete, hopened, hclosed] at ht

/-- Colons that stand between brackets are forgotten at the end. -/
theorem colons_of_steps (hcolons : ColonsBracketed cs) (h : Scan.steps {} cs = .ok t) :
    t.colons = 0 := by
  have hkeeps {s t : Scan} {cs : List Char} (hcs : ':' ∉ cs) (h : s.steps cs = .ok t)
      (hs : s.colons = 0) : t.colons = 0 := by
    refine Scan.of_steps (P := fun s => s.colons = 0) (fun s t c hmem hc hs => ?_) h hs
    have hne : c ≠ ':' := by
      rintro rfl
      exact hcs hmem
    rw [(Scan.of_step hc).1, if_neg hne, hs, ite_self]
  rcases hcolons with hnone | ⟨address, rest, rfl, hrest⟩
  · exact hkeeps hnone h rfl
  · -- The count starts anew at the closing bracket.
    rw [Scan.steps_append] at h
    cases haddress : Scan.steps {} ('[' :: address) with
    | error e =>
        rw [haddress] at h
        cases h
    | ok s =>
        rw [haddress] at h
        simp only [Except.bind, Scan.steps] at h
        cases hclose : s.step ']' with
        | error e =>
            rw [hclose] at h
            cases h
        | ok s' =>
            rw [hclose] at h
            exact hkeeps hrest h (Scan.of_step hclose).1

/-- A colon and a number behind a text without a counted colon are taken. -/
theorem Scan.steps_number (hs : s.colons = 0) (hds : ∀ d ∈ ds, d.isDigit = true) :
    s.steps (':' :: ds) = .ok { s with colons := 1, endsInAt := false } := by
  have hdigits (s : Scan) (hs : s.endsInAt = false) : s.steps ds = .ok s := by
    induction ds with
    | nil => rfl
    | cons d ds ih =>
        have hd : d.isDigit = true := hds d List.mem_cons_self
        have hne {x : Char} (hx : x.isDigit = false) : d ≠ x := by
          rintro rfl
          rw [hd] at hx
          cases hx
        have hstep : s.step d = .ok s := by
          have hplain : isPlain d = true := by
            simp [isPlain, Char.isAlphanum, hd]
          rw [step, if_neg (hne rfl), if_neg (hne rfl), if_neg (hne rfl), if_neg (hne rfl),
            if_neg (hne rfl), if_pos hplain, ← hs]
        rw [steps, hstep]
        exact ih fun d hd => hds d (List.mem_cons_of_mem _ hd)
  have hcolon : s.step ':' = .ok { s with colons := 1, endsInAt := false } := by
    simp [step, hs, maxColons]
  rw [steps, hcolon]
  exact hdigits _ rfl

/-- A number behind a host is no more and no less an authority than the host. -/
theorem isAuthority_append_number (hne : cs ≠ []) (huser : '@' ∉ cs)
    (hcolons : ColonsBracketed cs) (hds : ∀ d ∈ ds, d.isDigit = true) :
    isAuthority (cs ++ ':' :: ds) = isAuthority cs := by
  have hends : (∀ c ∈ cs ++ ':' :: ds, endsAuthority c = false) ↔
      ∀ c ∈ cs, endsAuthority c = false := by
    refine ⟨fun h c hc => h c (List.mem_append_left _ hc), fun h c hc => ?_⟩
    rcases List.mem_append.1 hc with hc | hc
    · exact h c hc
    rcases List.mem_cons.1 hc with rfl | hc
    · decide
    · have hd := hds c hc
      simp only [endsAuthority, Bool.or_eq_false_iff, beq_eq_false_iff_ne]
      refine ⟨⟨?_, ?_⟩, ?_⟩ <;> rintro rfl <;> exact absurd hd (by decide)
  rw [Bool.eq_iff_iff, isAuthority_iff, isAuthority_iff, hends, Scan.steps_append]
  simp only [ne_eq, List.append_eq_nil_iff, hne, false_and, not_false_eq_true, true_and]
  refine and_congr_right fun _ => ?_
  cases hscan : Scan.steps {} cs with
  | error e => simp [Except.bind]
  | ok s =>
      -- One colon is counted at the end, which an authority may have.
      have hcount := colons_of_steps hcolons hscan
      have hat : s.endsInAt = false := by
        refine Scan.of_steps (P := fun s => s.endsInAt = false) (fun s t c hmem hc _ => ?_)
          hscan rfl
        rw [(Scan.of_step hc).2.2.2, beq_eq_false_iff_ne]
        rintro rfl
        exact huser hmem
      simp [Except.bind, Scan.steps_number hcount hds, Scan.complete, hcount, hat]

theorem afterUser_of_notMem (huser : '@' ∉ cs) : afterUser cs = cs := by
  rw [afterUser, pieces_of_notMem huser]
  rfl

theorem host_of_bracket {cs ds : List Char} (h : afterUser cs = '[' :: ds) :
    host cs = '[' :: (ds.takeWhile (· != ']') ++ [']']) := by
  unfold host
  rw [h]
  rfl

theorem host_of_plain (h : (afterUser cs).head? ≠ some '[') :
    host cs = (cut ':' (afterUser cs)).1 := by
  unfold host
  split
  · rename_i r hr
    rw [hr] at h
    exact absurd rfl h
  · rfl

/-- The host of an authority is the same with and without a number. -/
theorem host_append_number (hauthority : isAuthority cs = true) (huser : '@' ∉ cs)
    (hds : ∀ d ∈ ds, d.isDigit = true) : host (cs ++ ':' :: ds) = host cs := by
  have huser' : '@' ∉ cs ++ ':' :: ds := by
    simp only [List.mem_append, List.mem_cons, not_or]
    refine ⟨huser, by decide, fun h => absurd (hds _ h) (by decide)⟩
  obtain ⟨hne, -, t, hscan, ht⟩ := isAuthority_iff.1 hauthority
  have hafter := afterUser_of_notMem huser
  have hafter' := afterUser_of_notMem huser'
  obtain ⟨c, r, rfl⟩ := List.exists_cons_of_ne_nil hne
  by_cases hc : c = '['
  · -- The address ends at a bracket, before the number begins.
    subst hc
    have hclose : (r.takeWhile (· != ']')).length ≠ r.length := by
      intro hlength
      have hall := (List.takeWhile_prefix (· != ']')).eq_of_length hlength
      have hmem := mem_close_of_complete hscan ht
      rw [← hall] at hmem
      simpa using List.mem_takeWhile_imp hmem
    have hbefore : (r ++ ':' :: ds).takeWhile (· != ']') = r.takeWhile (· != ']') := by
      rw [List.takeWhile_append, if_neg hclose]
    rw [List.cons_append] at hafter' ⊢
    rw [host_of_bracket hafter, host_of_bracket hafter', hbefore]
  · have hplain : (afterUser (c :: r)).head? ≠ some '[' := by
      rw [hafter]
      simpa using hc
    have hplain' : (afterUser (c :: r ++ ':' :: ds)).head? ≠ some '[' := by
      rw [hafter']
      simpa using hc
    rw [host_of_plain hplain, host_of_plain hplain', hafter, hafter', cut_append_fst]

/-! ## Letter case -/

theorem isPlain_toLower (c : Char) : isPlain c.toLower = isPlain c := by
  refine class_toLower (fun d hd => ?_) c
  simp [isPlain, Char.isAlphanum, hd]

theorem Scan.step_toLower (s : Scan) (c : Char) : s.step c.toLower = s.step c := by
  simp only [step, isPlain_toLower, toLower_eq_iff (show ':'.isAlpha = false from rfl),
    toLower_eq_iff (show '['.isAlpha = false from rfl),
    toLower_eq_iff (show ']'.isAlpha = false from rfl),
    toLower_eq_iff (show '@'.isAlpha = false from rfl),
    toLower_eq_iff (show '%'.isAlpha = false from rfl)]

theorem Scan.steps_toLower (s : Scan) (cs : List Char) :
    s.steps (cs.map Char.toLower) = s.steps cs := by
  induction cs generalizing s with
  | nil => rfl
  | cons c cs ih =>
      rw [List.map_cons, steps, steps, step_toLower]
      cases s.step c with
      | error e => rfl
      | ok t => exact ih t

theorem endsAuthority_toLower (c : Char) : endsAuthority c.toLower = endsAuthority c := by
  rw [Bool.eq_iff_iff]
  simp [endsAuthority, toLower_eq_iff (show '/'.isAlpha = false from rfl),
    toLower_eq_iff (show '?'.isAlpha = false from rfl),
    toLower_eq_iff (show '#'.isAlpha = false from rfl)]

theorem isAuthority_toLower (cs : List Char) :
    isAuthority (cs.map Char.toLower) = isAuthority cs := by
  rw [Bool.eq_iff_iff, isAuthority_iff, isAuthority_iff, Scan.steps_toLower]
  simp [endsAuthority_toLower]

theorem host_toLower (cs : List Char) :
    host (cs.map Char.toLower) = (host cs).map Char.toLower := by
  have huser : afterUser (cs.map Char.toLower) = (afterUser cs).map Char.toLower := by
    rw [afterUser, pieces_map fun c => toLower_eq_iff rfl, List.getLast?_map, afterUser]
    cases (pieces '@' cs).getLast? <;> rfl
  by_cases hhead : (afterUser cs).head? = some '['
  · obtain ⟨r, hr⟩ := List.head?_eq_some_iff.1 hhead
    have hclose : ((· != ']') ∘ Char.toLower : Char → Bool) = (· != ']') := by
      funext c
      rw [Function.comp_apply, Bool.eq_iff_iff]
      simp [toLower_eq_iff (show ']'.isAlpha = false from rfl)]
    have hr' : afterUser (cs.map Char.toLower) = '[' :: r.map Char.toLower := by
      rw [huser, hr]
      rfl
    rw [host_of_bracket hr, host_of_bracket hr', List.takeWhile_map, hclose]
    simp
  · have hhead' : (afterUser (cs.map Char.toLower)).head? ≠ some '[' := by
      rw [huser, List.head?_map]
      intro h
      obtain ⟨c, hc, hlower⟩ := Option.map_eq_some_iff.1 h
      rw [toLower_eq_iff rfl] at hlower
      exact hhead (hlower ▸ hc)
    rw [host_of_plain hhead, host_of_plain hhead', huser, cut_map_fst fun c => toLower_eq_iff rfl]

end EgressAuth.Http.Authority
