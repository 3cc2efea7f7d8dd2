/-
  EgressAuth.Cache.SharedStore

  A key-value store with a version for each key. A write may be tied to the
  version seen before and then fails if the key was written in between; a
  write of a key that is not there succeeds with any version or none. The
  first write of a key has version 1, and versions wrap after 2^32 writes.

  Main statements: `slot?_write_of_ok` and `write_eq_error_iff`.
-/
import EgressAuth.Cache.Id
import EgressAuth.Interception.HostError
import EgressAuth.SortedMap

namespace EgressAuth.Cache

/-- What is stored under a key. -/
structure Slot where
  data : Bytes
  version : UInt32
  deriving DecidableEq, Repr

/-- All slots by key. -/
structure SharedStore where
  slots : SortedMap Slot

namespace SharedStore

def empty : SharedStore := ⟨SortedMap.empty⟩

def slot? (s : SharedStore) (key : String) : Option Slot := s.slots.get? key

def size (s : SharedStore) : Nat := s.slots.size

/-- Writes a key if its version is still `cas`; without `cas`, or without a slot, in any case. -/
def write (s : SharedStore) (key : String) (data : Bytes) (cas : Option UInt32) :
    Except HostError SharedStore :=
  match s.slot? key with
  | none => .ok ⟨s.slots.insert key ⟨data, 1⟩⟩
  | some old =>
    if cas.any (· != old.version) then .error (.casMismatch key)
    else .ok ⟨s.slots.insert key ⟨data, old.version + 1⟩⟩

/-- The version that the next write of a key gives. -/
def nextVersion (s : SharedStore) (key : String) : UInt32 :=
  match s.slot? key with
  | none => 1
  | some old => old.version + 1

@[simp] theorem slot?_empty (key : String) : empty.slot? key = none := rfl

/-- A write that succeeds changes its own slot and no other. -/
theorem slot?_write_of_ok {s t : SharedStore} {key : String} {data : Bytes} {cas : Option UInt32}
    (h : s.write key data cas = .ok t) (k : String) :
    t.slot? k = if k = key then some ⟨data, s.nextVersion key⟩ else s.slot? k := by
  unfold write at h
  unfold nextVersion
  split at h
  · cases h
    simp [slot?, SortedMap.get?_insert]
  · split at h
    · cases h
    · cases h
      simp [slot?, SortedMap.get?_insert]

/-- A write fails exactly when it is tied to another version than the slot has. -/
theorem write_eq_error_iff {s : SharedStore} {key : String} {data : Bytes} {cas : Option UInt32}
    {e : HostError} :
    s.write key data cas = .error e ↔
      e = .casMismatch key ∧ ∃ old c, s.slot? key = some old ∧ cas = some c ∧ c ≠ old.version := by
  unfold write
  cases hs : s.slot? key with
  | none => simp
  | some old =>
    cases cas with
    | none => simp
    | some c =>
      by_cases hc : c = old.version
      · simp [hc]
      · have hne : (c != old.version) = true := by simpa using hc
        simp only [Option.any_some, hne, if_true]
        constructor
        · rintro ⟨⟩
          exact ⟨rfl, old, c, rfl, rfl, hc⟩
        · rintro ⟨rfl, -⟩
          rfl

end SharedStore

/-! ## Cache access -/

/-- Why a cache write fails. -/
inductive WriteError where
  | staleVersion (key : String)
  | store (cause : HostError)
  deriving DecidableEq, Repr

/-- The wording of a cache write error. -/
def WriteError.message : WriteError → String
  | staleVersion key => "Cache entry for " ++ key ++ " changed since it was read"
  | store cause => "Shared store error: " ++ cause.message

/-- The write error that a host error amounts to for a key. -/
def WriteError.ofHostError (key : String) : HostError → WriteError
  | .casMismatch _ => staleVersion key
  | cause => store cause

def SharedStore.readCache (s : SharedStore) (id : Id) : Option Slot := s.slot? id.key

/-- Writes a slot of the cache, tied to the version that was read. -/
def SharedStore.writeCache (s : SharedStore) (id : Id) (data : Bytes) (version : Option UInt32) :
    Except WriteError SharedStore :=
  (s.write id.key data version).mapError (WriteError.ofHostError id.key)

end EgressAuth.Cache
