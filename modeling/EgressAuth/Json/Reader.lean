/-
  EgressAuth.Json.Reader

  Readers of JSON text. A reader takes one item off the head of a text and
  leaves a strictly shorter rest; that promise (`Reader.run_lt`) is what lets
  the repetition inside brackets end.

  Lists and objects are read by one function, `Reader.container`, that differs
  only in its brackets and in the reader of its items.
-/
import EgressAuth.Text.Bytes

namespace EgressAuth.Json

/-- Takes one item off the head of a text and leaves a shorter rest. -/
structure Reader (α : Type) where
  run : Bytes → Option (α × Bytes)
  run_lt : ∀ {s : Bytes} {a : α} {r : Bytes}, run s = some (a, r) → r.length < s.length

/-! ## Blanks -/

/-- Space, tab, line feed and carriage return. -/
def isBlank (b : UInt8) : Bool := b == 0x20 || b == 0x09 || b == 0x0A || b == 0x0D

def skipBlank (s : Bytes) : Bytes := s.dropWhile isBlank

theorem length_skipBlank_le (s : Bytes) : (skipBlank s).length ≤ s.length :=
  (List.dropWhile_sublist _).length_le

@[simp] theorem skipBlank_nil : skipBlank [] = [] := rfl

theorem skipBlank_cons_of_not_blank {b : UInt8} {s : Bytes} (h : isBlank b = false) :
    skipBlank (b :: s) = b :: s := by
  simp [skipBlank, h]

/-! ## Punctuation -/

def quote : UInt8 := 0x22

def backslash : UInt8 := 0x5C

def comma : UInt8 := 0x2C

def colon : UInt8 := 0x3A

def openList : UInt8 := 0x5B

def closeList : UInt8 := 0x5D

def openObject : UInt8 := 0x7B

def closeObject : UInt8 := 0x7D

/-- The rest of the text after the byte `b`, blanks before it skipped. -/
def expect (b : UInt8) (s : Bytes) : Option Bytes :=
  match skipBlank s with
  | c :: t => if c = b then some t else none
  | [] => none

theorem length_lt_of_expect {b : UInt8} {s t : Bytes} (h : expect b s = some t) :
    t.length < s.length := by
  have hs := length_skipBlank_le s
  unfold expect at h
  split at h
  · rename_i c t' e
    split at h
    · cases h
      rw [e] at hs
      simp at hs
      omega
    · cases h
  · cases h

/-! ## Combining readers -/

namespace Reader

variable {α β : Type}

/-- The reader with its item transformed. -/
def map (f : α → β) (p : Reader α) : Reader β where
  run s := (p.run s).map fun (a, r) => (f a, r)
  run_lt h := by
    obtain ⟨⟨a, r⟩, h, e⟩ := Option.map_eq_some_iff.1 h
    cases e
    exact p.run_lt h

/-- The reader that refuses items which `f` does not accept. -/
def filterMap (f : α → Option β) (p : Reader α) : Reader β where
  run s := (p.run s).bind fun (a, r) => (f a).map fun b => (b, r)
  run_lt h := by
    obtain ⟨⟨a, r⟩, h, e⟩ := Option.bind_eq_some_iff.1 h
    obtain ⟨b, -, e⟩ := Option.map_eq_some_iff.1 e
    cases e
    exact p.run_lt h

/-- The first reader, or the second where the first one fails. -/
def orElse (p q : Reader α) : Reader α where
  run s := (p.run s).or (q.run s)
  run_lt {s a r} h := by
    cases hp : p.run s with
    | none => rw [hp] at h; exact q.run_lt h
    | some x => rw [hp] at h; cases h; exact p.run_lt hp

/-- A fixed text that stands for `a`. -/
def literal (word : Bytes) (a : α) (hw : word ≠ []) : Reader α where
  run s := if word <+: s then some (a, s.drop word.length) else none
  run_lt {s a' r} h := by
    split at h
    · rename_i hp
      cases h
      have := hp.length_le
      have : 0 < word.length := List.length_pos_iff.2 hw
      simp
      omega
    · cases h

/-- The items of an open container, separated by commas, up to its closing byte. -/
def items (p : Reader α) (close : UInt8) (s : Bytes) (acc : List α) : Option (List α × Bytes) :=
  match h : p.run (skipBlank s) with
  | none => none
  | some (a, r) =>
    match h' : skipBlank r with
    | [] => none
    | c :: t =>
      have : t.length < s.length := by
        have h₁ := p.run_lt h
        have h₂ := length_skipBlank_le s
        have h₃ := length_skipBlank_le r
        rw [h'] at h₃
        simp at h₃
        omega
      if c = comma then items p close t (a :: acc)
      else if c = close then some ((a :: acc).reverse, t)
      else none
  termination_by s.length

theorem length_lt_of_items {p : Reader α} {close : UInt8} {s : Bytes} {acc as : List α} {r : Bytes}
    (h : p.items close s acc = some (as, r)) : r.length < s.length := by
  fun_induction items p close s acc with
  | case1 => cases h
  | case2 => cases h
  | case3 s acc a r' h₁ t h₂ hlt ih =>
    have := ih h
    omega
  | case4 s acc a r' h₁ t h₂ hlt =>
    cases h
    exact hlt
  | case5 => cases h

/-- Items between brackets, separated by commas. -/
def container (opening closing : UInt8) (p : Reader α) : Reader (List α) where
  run s := match s with
    | b :: t =>
      if b = opening then
        match expect closing t with
        | some r => some ([], r)
        | none => p.items closing t []
      else none
    | [] => none
  run_lt {s as r} h := by
    split at h
    · split at h
      · split at h
        · cases h
          rename_i h'
          have := length_lt_of_expect h'
          simp; omega
        · have := length_lt_of_items h
          simp; omega
      · cases h
    · cases h

end Reader

/-- The item that a text consists of, blanks around it aside. -/
def Reader.readAll {α : Type} (p : Reader α) (s : Bytes) : Option α :=
  match p.run (skipBlank s) with
  | some (a, r) => if (skipBlank r).isEmpty then some a else none
  | none => none

end EgressAuth.Json
