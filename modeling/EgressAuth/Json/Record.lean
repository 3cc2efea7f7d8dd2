/-
  EgressAuth.Json.Record

  Records of two named fields. A record is written as an object, where unknown
  members are passed over and a known one may stand only once, or as the list
  of its fields in order, where fields may be missing at the end.
-/
import EgressAuth.Json.Skip

namespace EgressAuth.Json

/-- A member of a record's object. -/
inductive Field (α β : Type) where
  | first (a : α)
  | second (b : β)
  | unknown

namespace Field

variable {α β : Type}

/-- The value of the first field. -/
def first? : Field α β → Option α
  | first a => some a
  | _ => none

/-- The value of the second field. -/
def second? : Field α β → Option β
  | second b => some b
  | _ => none

/-- The two fields, each given at most once. -/
def gather? (fs : List (Field α β)) : Option (Option α × Option β) :=
  let firsts := fs.filterMap first?
  let seconds := fs.filterMap second?
  if firsts.length ≤ 1 ∧ seconds.length ≤ 1 then some (firsts.head?, seconds.head?) else none

end Field

namespace Reader

variable {α β : Type}

/-- A record written as an object. -/
def recordObject (first second : String) (p : Reader α) (q : Reader β) :
    Reader (Option α × Option β) :=
  ((keyed fun name =>
      if name = first then p.map Field.first
      else if name = second then q.map Field.second
      else skip.map fun _ => Field.unknown).container openObject closeObject).filterMap
    Field.gather?

/-- The fields of a record's list, after its opening bracket. -/
def recordItems (p : Reader α) (q : Reader β) (s : Bytes) :
    Option ((Option α × Option β) × Bytes) :=
  match expect closeList s with
  | some r => some ((none, none), r)
  | none => match p.run (skipBlank s) with
    | none => none
    | some (a, r) => match expect closeList r with
      | some r => some ((some a, none), r)
      | none => match expect comma r with
        | none => none
        | some r => match q.run (skipBlank r) with
          | none => none
          | some (b, r) => match expect closeList r with
            | some r => some ((some a, some b), r)
            | none => none

theorem length_lt_of_recordItems {p : Reader α} {q : Reader β} {s r : Bytes}
    {x : Option α × Option β} (h : recordItems p q s = some (x, r)) : r.length < s.length := by
  unfold recordItems at h
  split at h
  · cases h
    exact length_lt_of_expect ‹_›
  · split at h
    · cases h
    · rename_i a r₁ h₁
      have := p.run_lt h₁
      have := length_skipBlank_le s
      split at h
      · cases h
        have := length_lt_of_expect ‹_›
        omega
      · split at h
        · cases h
        · rename_i r₂ h₂
          have := length_lt_of_expect h₂
          have := length_skipBlank_le r₂
          split at h
          · cases h
          · rename_i b r₃ h₃
            have := q.run_lt h₃
            split at h
            · cases h
              have := length_lt_of_expect ‹_›
              omega
            · cases h

/-- A record written as a list. -/
def recordList (p : Reader α) (q : Reader β) : Reader (Option α × Option β) where
  run s := match s with
    | b :: t => if b = openList then recordItems p q t else none
    | [] => none
  run_lt h := by
    split at h
    · split at h
      · have := length_lt_of_recordItems h
        simp; omega
      · cases h
    · cases h

/-- A record of two fields in either form. -/
def record (first second : String) (p : Reader α) (q : Reader β) : Reader (Option α × Option β) :=
  (recordObject first second p q).orElse (recordList p q)

/-- A record that needs both of its fields. -/
def fullRecord (first second : String) (p : Reader α) (q : Reader β) : Reader (α × β) :=
  (record first second p q).filterMap fun
    | (some a, some b) => some (a, b)
    | _ => none

end Reader
end EgressAuth.Json
