/-
  EgressAuth.Json.Skip

  Passing over a value that nobody wants. Only its form is checked: strings
  need not be UTF-8 nor their units paired, numbers may be of any size, and
  containers may stand inside one another to any depth. The open containers
  are kept on a stack, so depth costs no more than length.
-/
import EgressAuth.Json.Value

namespace EgressAuth.Json

/-- A container that is open around the place reached. -/
inductive Enclosing where
  | list
  | object
  deriving DecidableEq, Repr

/-- The byte that closes a container. -/
def Enclosing.closing : Enclosing → UInt8
  | list => closeList
  | object => closeObject

/-- What has to come next: a value, or what may follow one. -/
inductive Awaiting where
  | value
  | sequel
  deriving DecidableEq, Repr

/-- Scalars, their values ignored. -/
def Reader.scalarForm : Reader Unit :=
  (Reader.word.map fun _ => ()).orElse <|
    (Reader.numeral.map fun _ => ()).orElse (Reader.pieces.map fun _ => ())

/-- The text after a member's name and colon. -/
def skipName (s : Bytes) : Option Bytes :=
  match Reader.pieces.run (skipBlank s) with
  | some (_, r) => expect colon r
  | none => none

theorem length_lt_of_skipName {s t : Bytes} (h : skipName s = some t) : t.length < s.length := by
  unfold skipName at h
  split at h
  · rename_i h₁
    have := Reader.pieces.run_lt h₁
    have := length_skipBlank_le s
    have := length_lt_of_expect h
    omega
  · cases h

/-- The text after a comma, up to the value of the next item of container `c`. -/
def skipToValue (c : Enclosing) (s : Bytes) : Option Bytes :=
  match c with
  | .list => some s
  | .object => skipName s

theorem length_le_of_skipToValue {c : Enclosing} {s t : Bytes} (h : skipToValue c s = some t) :
    t.length ≤ s.length := by
  cases c with
  | list => cases h; exact Nat.le_refl _
  | object => exact Nat.le_of_lt (length_lt_of_skipName h)

/-- The container that a byte opens. -/
def opened? (b : UInt8) : Option Enclosing :=
  if b = openList then some .list else if b = openObject then some .object else none

/-- The text after the value at its head and after all open containers are closed. -/
def skipThrough (awaiting : Awaiting) (stack : List Enclosing) (s : Bytes) : Option Bytes :=
  match awaiting, stack with
  | .sequel, [] => some s
  | .sequel, c :: outer =>
    match h : skipBlank s with
    | [] => none
    | b :: t =>
      have hb : t.length < s.length := by
        have := length_skipBlank_le s
        rw [h] at this
        exact this
      -- The innermost container goes on after a comma, and ends with its own closing byte.
      if b = comma then
        match h' : skipToValue c t with
        | some r =>
          have := length_le_of_skipToValue h'
          skipThrough .value (c :: outer) r
        | none => none
      else if b = c.closing then skipThrough .sequel outer t
      else none
  | .value, stack =>
    match h : skipBlank s with
    | [] => none
    | b :: t =>
      have hb : t.length < s.length := by
        have := length_skipBlank_le s
        rw [h] at this
        exact this
      match opened? b with
      | some c =>
        -- A container that closes at once has no first item to wait for.
        match h' : expect c.closing t with
        | some r =>
          have := length_lt_of_expect h'
          skipThrough .sequel stack r
        | none =>
          match h' : skipToValue c t with
          | some r =>
            have := length_le_of_skipToValue h'
            skipThrough .value (c :: stack) r
          | none => none
      | none =>
        match h' : Reader.scalarForm.run (b :: t) with
        | some (_, r) =>
          have : r.length ≤ t.length := Nat.le_of_lt_succ (Reader.scalarForm.run_lt h')
          skipThrough .sequel stack r
        | none => none
  termination_by s.length

theorem length_of_skipThrough {awaiting : Awaiting} {stack : List Enclosing} {s r : Bytes}
    (h : skipThrough awaiting stack s = some r) :
    r.length ≤ s.length ∧ (awaiting = .value → r.length < s.length) := by
  fun_induction skipThrough awaiting stack s <;> simp_all <;> omega

/-- Passes over one value. -/
def Reader.skip : Reader Unit where
  run s := (skipThrough .value [] s).map fun r => ((), r)
  run_lt h := by
    obtain ⟨r, h, e⟩ := Option.map_eq_some_iff.1 h
    cases e
    exact (length_of_skipThrough h).2 rfl

end EgressAuth.Json
