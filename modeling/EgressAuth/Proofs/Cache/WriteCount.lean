/-
  EgressAuth.Proofs.Cache.WriteCount

  A store as a record of its writes. The history of a key (`history`) is the
  list of the values that were written to it with success, and it determines
  what the store answers: the slot of a key holds the last value of its
  history, and its version is the length of the history, counted in 32 bits
  (`slot?_afterCalls`). So a write is refused exactly if it is tied to another
  number than that (`refines_history`).
-/
import EgressAuth.Cache.SharedStore
import EgressAuth.Proofs.Cache.Entry
import EgressAuth.Proofs.SortedMap

namespace EgressAuth.Cache

/-! ## Calls -/

/-- A call to a store. -/
inductive StoreCall where
  | get (key : String)
  | set (key : String) (data : Bytes) (cas : Option UInt32)

/-- What a store replies to a call. -/
inductive StoreReply where
  | found (slot : Option Slot)
  | stored
  | refused (cause : HostError)

namespace SharedStore

/-- Makes a call: the store after it, and the reply. -/
def call (s : SharedStore) : StoreCall → SharedStore × StoreReply
  | .get key => (s, .found (s.slot? key))
  | .set key data cas => match s.write key data cas with
    | .ok t => (t, .stored)
    | .error e => (s, .refused e)

theorem call_set_of_ok {s t : SharedStore} {key : String} {data : Bytes} {cas : Option UInt32}
    (h : s.write key data cas = .ok t) : s.call (.set key data cas) = (t, .stored) := by
  simp only [call, h]

/-- A write that is refused leaves the store as it is. -/
theorem call_set_of_error {s : SharedStore} {key : String} {data : Bytes} {cas : Option UInt32}
    {e : HostError} (h : s.write key data cas = .error e) :
    s.call (.set key data cas) = (s, .refused e) := by
  simp only [call, h]

/-- The store after some calls. -/
def afterCalls (s : SharedStore) (calls : List StoreCall) : SharedStore :=
  calls.foldl (fun s c => (s.call c).1) s

/-- The value that a call puts under a key: none if it is no write of the key, or is refused. -/
def landed? (s : SharedStore) (key : String) (c : StoreCall) : Option Bytes :=
  match c, (s.call c).2 with
  | .set k data _, .stored => if k = key then some data else none
  | _, _ => none

/-- The values that calls put under a key, in order. -/
def history (s : SharedStore) (key : String) : List StoreCall → List Bytes
  | [] => []
  | c :: calls => (s.landed? key c).toList ++ (s.call c).1.history key calls

variable {s t : SharedStore} {key : String} {data : Bytes} {cas : Option UInt32}

theorem afterCalls_cons (s : SharedStore) (c : StoreCall) (calls : List StoreCall) :
    s.afterCalls (c :: calls) = (s.call c).1.afterCalls calls := rfl

theorem afterCalls_append (s : SharedStore) (first second : List StoreCall) :
    s.afterCalls (first ++ second) = (s.afterCalls first).afterCalls second :=
  List.foldl_append

/-! ## Slots and histories -/

/-- The version of a key, zero if the key is not there. -/
def version (s : SharedStore) (key : String) : UInt32 :=
  ((s.slot? key).map Slot.version).getD 0

theorem version_of_slot? {slot : Slot} (h : s.slot? key = some slot) :
    s.version key = slot.version := by
  rw [version, h]
  rfl

/-- Every write of a key adds one to its version, the first one included. -/
theorem nextVersion_eq (s : SharedStore) (key : String) :
    s.nextVersion key = s.version key + 1 := by
  unfold nextVersion version
  cases s.slot? key with
  | none => rfl
  | some slot => rfl

/-- A call changes the slot of a key only where it puts a value there. -/
theorem slot?_call (s : SharedStore) (key : String) (c : StoreCall) :
    (s.call c).1.slot? key = match s.landed? key c with
      | none => s.slot? key
      | some data => some ⟨data, s.version key + 1⟩ := by
  cases c with
  | get k => rfl
  | set k data cas =>
      unfold landed?
      cases hw : s.write k data cas with
      | error e => rw [call_set_of_error hw]
      | ok t =>
          rw [call_set_of_ok hw]
          show t.slot? key = match if k = key then some data else none with
            | none => s.slot? key
            | some data => some ⟨data, s.version key + 1⟩
          rw [slot?_write_of_ok hw]
          by_cases hk : k = key
          · rw [if_pos hk.symm, if_pos hk, nextVersion_eq, hk]
          · rw [if_neg (Ne.symm hk), if_neg hk]

/-- The slot of a key after some calls: what it was if nothing was put there, and otherwise the
last value, with as many versions more as there were values. -/
theorem slot?_afterCalls (s : SharedStore) (key : String) (calls : List StoreCall) :
    (s.afterCalls calls).slot? key = match (s.history key calls).getLast? with
      | none => s.slot? key
      | some data =>
        some ⟨data, s.version key + UInt32.ofNat (s.history key calls).length⟩ := by
  induction calls generalizing s with
  | nil => rfl
  | cons c calls ih =>
      rw [afterCalls_cons, ih, history]
      have hslot := slot?_call s key c
      cases hc : s.landed? key c with
      | none =>
          rw [hc] at hslot
          have hversion : (s.call c).1.version key = s.version key := by
            rw [version, hslot]
            rfl
          rw [Option.toList_none, List.nil_append, hslot, hversion]
      | some data =>
          -- One more value, one more version; it is the last value if no other follows.
          rw [hc] at hslot
          rw [version_of_slot? hslot, hslot, Option.toList_some, List.singleton_append,
            List.getLast?_cons, List.length_cons, Nat.add_comm _ 1, UInt32.ofNat_add,
            ← UInt32.add_assoc]
          cases hrest : ((s.call c).1.history key calls).getLast? with
          | some last => rfl
          | none =>
              rw [List.getLast?_eq_none_iff.1 hrest]
              simp

/-- Versions count the values that were put under a key. -/
theorem version_afterCalls (s : SharedStore) (key : String) (calls : List StoreCall) :
    (s.afterCalls calls).version key =
      s.version key + UInt32.ofNat (s.history key calls).length := by
  have hslot := slot?_afterCalls s key calls
  cases hlast : (s.history key calls).getLast? with
  | none =>
      rw [hlast] at hslot
      rw [List.getLast?_eq_none_iff.1 hlast, version, hslot]
      simp [version]
  | some data =>
      rw [hlast] at hslot
      exact version_of_slot? hslot

/-- Ahead by so many versions a version is the same again exactly after full rounds. -/
theorem version_add_eq_iff_dvd {v : UInt32} {n : Nat} :
    v = v + UInt32.ofNat n ↔ 2 ^ 32 ∣ n := by
  rw [← UInt32.toNat_inj, UInt32.toNat_add, UInt32.toNat_ofNat']
  have hv := v.toNat_lt
  omega

/-- A write succeeds exactly if it is tied to no other version than its slot has. -/
theorem exists_write_iff :
    (∃ t, s.write key data cas = .ok t) ↔
      ∀ old c, s.slot? key = some old → cas = some c → c = old.version := by
  constructor
  · rintro ⟨t, ht⟩ old c hold hcas
    by_contra hne
    have herror : s.write key data cas = .error (.casMismatch key) :=
      write_eq_error_iff.2 ⟨rfl, old, c, hold, hcas, hne⟩
    rw [herror] at ht
    cases ht
  · intro h
    cases hw : s.write key data cas with
    | ok t => exact ⟨t, rfl⟩
    | error e =>
        obtain ⟨-, old, c, hold, hcas, hne⟩ := write_eq_error_iff.1 hw
        exact absurd (h old c hold hcas) hne

/-- A write that is tied to the version which a key had succeeds later exactly if the versions
have come around since. -/
theorem write_of_seen_iff {slot : Slot} (hslot : s.slot? key = some slot) (data : Bytes)
    (calls : List StoreCall) :
    (∃ t, (s.afterCalls calls).write key data (some slot.version) = .ok t) ↔
      2 ^ 32 ∣ (s.history key calls).length := by
  -- The key is there for good, so it has a slot to compare with.
  obtain ⟨later, hlater⟩ : ∃ later, (s.afterCalls calls).slot? key = some later := by
    rw [slot?_afterCalls]
    cases (s.history key calls).getLast? with
    | none => exact ⟨slot, hslot⟩
    | some data => exact ⟨_, rfl⟩
  have hversion := version_afterCalls s key calls
  rw [version_of_slot? hslot, version_of_slot? hlater] at hversion
  rw [← version_add_eq_iff_dvd (v := slot.version), ← hversion, exists_write_iff]
  constructor
  · intro h
    exact h later slot.version hlater rfl
  · intro heq old c hold hc
    rw [hlater] at hold
    cases hold
    cases hc
    exact heq

/-! ## A fresh store -/

theorem version_empty (key : String) : empty.version key = 0 := rfl

/-- In a fresh store the version of a key is the number of values put there, in 32 bits. -/
theorem toNat_version_of_empty (key : String) (calls : List StoreCall) :
    ((empty.afterCalls calls).version key).toNat = (empty.history key calls).length % 2 ^ 32 := by
  rw [version_afterCalls, version_empty, UInt32.zero_add, UInt32.toNat_ofNat']

theorem slot?_eq_none_iff_history (key : String) (calls : List StoreCall) :
    (empty.afterCalls calls).slot? key = none ↔ (empty.history key calls).length = 0 := by
  rw [slot?_afterCalls, List.length_eq_zero_iff, ← List.getLast?_eq_none_iff]
  cases (empty.history key calls).getLast? with
  | none => simp
  | some data => simp

/-- A write that is tied to `cas` comes too late after `n` writes of its key: the key is there, and
`cas` is not what counting the writes in 32 bits gives. -/
def Outdated (n : Nat) (cas : Option UInt32) : Prop :=
  0 < n ∧ ∃ c, cas = some c ∧ c.toNat ≠ n % 2 ^ 32

theorem write_error_iff_outdated (calls : List StoreCall) (key : String) (data : Bytes)
    (cas : Option UInt32) (e : HostError) :
    (empty.afterCalls calls).write key data cas = .error e ↔
      e = .casMismatch key ∧ Outdated (empty.history key calls).length cas := by
  rw [write_eq_error_iff, Outdated, ← toNat_version_of_empty, Nat.pos_iff_ne_zero, Ne,
    ← slot?_eq_none_iff_history]
  refine and_congr_right fun _ => ?_
  constructor
  · rintro ⟨old, c, hold, hcas, hne⟩
    refine ⟨by simp [hold], c, hcas, ?_⟩
    rw [version_of_slot? hold]
    exact fun heq => hne (UInt32.toNat_inj.1 heq)
  · rintro ⟨hthere, c, hcas, hne⟩
    obtain ⟨old, hold⟩ := Option.ne_none_iff_exists'.1 hthere
    rw [version_of_slot? hold] at hne
    exact ⟨old, c, hold, hcas, fun heq => hne (congrArg UInt32.toNat heq)⟩

/-- As many keys are there as have a history. -/
theorem size_afterCalls (calls : List StoreCall) :
    (empty.afterCalls calls).size =
      Set.ncard {key | 0 < (empty.history key calls).length} := by
  show (empty.afterCalls calls).slots.size = _
  rw [SortedMap.size_eq_ncard]
  congr 1
  ext key
  show ((empty.afterCalls calls).slot? key).isSome = true ↔ 0 < (empty.history key calls).length
  rw [Nat.pos_iff_ne_zero, Ne, ← slot?_eq_none_iff_history, Option.isSome_iff_ne_none]

/-! ## Access by slot numbers -/

/-- A write of the cache reports a version that does not fit, and nothing else, as stale. -/
theorem ofHostError_eq_staleVersion_iff {key k : String} {cause : HostError} :
    WriteError.ofHostError key cause = .staleVersion k ↔
      k = key ∧ ∃ other, cause = .casMismatch other := by
  cases cause with
  | casMismatch other => simp [WriteError.ofHostError, eq_comm]
  | _ => simp [WriteError.ofHostError]

theorem writeCache_eq_error_iff {id : Id} {e : WriteError} :
    s.writeCache id data cas = .error e ↔
      ∃ cause, s.write id.key data cas = .error cause ∧
        e = WriteError.ofHostError id.key cause := by
  unfold writeCache
  cases s.write id.key data cas with
  | ok t => simp [Except.mapError]
  | error cause => simp [Except.mapError, eq_comm]

theorem writeCache_eq_ok_iff {id : Id} :
    s.writeCache id data cas = .ok t ↔ s.write id.key data cas = .ok t := by
  unfold writeCache
  cases s.write id.key data cas with
  | ok t => simp [Except.mapError]
  | error cause => simp [Except.mapError]

/-! ## Main statement -/

/-- A store that answers as the histories of its keys determine. -/
structure Follows (s : SharedStore) (history : String → List Bytes) : Prop where
  /-- A key is absent exactly if it was never written. -/
  absent : ∀ key, s.slot? key = none ↔ (history key).length = 0
  /-- A key that was written holds the last value, and its version is the number of writes in 32
  bits. -/
  present : ∀ key, (history key).length ≠ 0 → ∃ data version,
    (history key).getLast? = some data ∧ s.slot? key = some ⟨data, version⟩ ∧
      version.toNat = (history key).length % 2 ^ 32
  /-- A write is refused exactly if it is outdated. -/
  refuses : ∀ key data cas e, s.write key data cas = .error e ↔
    e = .casMismatch key ∧ Outdated (history key).length cas
  /-- A write that is refused changes nothing. -/
  keeps : ∀ key data cas, Outdated (history key).length cas →
    s.call (.set key data cas) = (s, .refused (.casMismatch key))
  /-- A write that succeeds changes no other key. -/
  others : ∀ key data cas t, s.write key data cas = .ok t →
    ∀ other, other ≠ key → t.slot? other = s.slot? other
  /-- The keys that are there are those that were written. -/
  counts : s.size = Set.ncard {key | 0 < (history key).length}

theorem follows_history (calls : List StoreCall) :
    (empty.afterCalls calls).Follows fun key => empty.history key calls where
  absent key := slot?_eq_none_iff_history key calls
  present key hn := by
    obtain ⟨data, hdata⟩ : ∃ data, (empty.history key calls).getLast? = some data := by
      rw [← Option.ne_none_iff_exists', Ne, List.getLast?_eq_none_iff,
        ← List.length_eq_zero_iff]
      exact hn
    refine ⟨data, (empty.afterCalls calls).version key, hdata, ?_,
      toNat_version_of_empty key calls⟩
    have hslot := slot?_afterCalls empty key calls
    rw [hdata] at hslot
    rw [hslot, version_of_slot? hslot]
  refuses := write_error_iff_outdated calls
  keeps key data cas houtdated :=
    call_set_of_error ((write_error_iff_outdated calls key data cas _).2 ⟨rfl, houtdated⟩)
  others key data cas t ht other hne := by
    rw [slot?_write_of_ok ht, if_neg hne]
  counts := size_afterCalls calls

/-- After any calls a store that was fresh answers as its histories determine. So a write that is
tied to a version seen before succeeds exactly if the writes of its key since then fill whole
rounds of 2^32. In the cache, slots with different numbers have different keys and are written
apart, and a write reports a stale version exactly where the store refuses it as outdated. -/
theorem refines_history (calls : List StoreCall) :
    let s := empty.afterCalls calls
    (s.Follows fun key => empty.history key calls) ∧
    (∀ before key slot between data, calls = before ++ .get key :: between →
      ((empty.afterCalls before).call (.get key)).2 = .found (some slot) →
      ((∃ t, s.write key data (some slot.version) = .ok t) ↔
        2 ^ 32 ∣ ((empty.afterCalls before).history key between).length)) ∧
    (∀ i j : Id, i ≠ j → i.key ≠ j.key ∧
      ∀ data version t, s.writeCache i data version = .ok t → t.readCache j = s.readCache j) ∧
    (∀ (i : Id) data version e, s.writeCache i data version = .error e ↔
      e = .staleVersion i.key ∧ Outdated (empty.history i.key calls).length version) ∧
    (∀ key cause, WriteError.ofHostError key cause = .staleVersion key ↔
      ∃ other, cause = .casMismatch other) := by
  intro s
  have hfollows := follows_history calls
  refine ⟨hfollows, ?seen, ?apart, ?stale, ?reported⟩
  case seen =>
    intro before key slot between data hcalls hget
    have hslot : (empty.afterCalls before).slot? key = some slot := by
      injection hget
    have hs : s = (empty.afterCalls before).afterCalls between := by
      show empty.afterCalls calls = _
      rw [hcalls, afterCalls_append]
      rfl
    rw [hs]
    exact write_of_seen_iff hslot data between
  case apart =>
    intro i j hne
    have hkeys : i.key ≠ j.key := fun hkey => hne (Id.key_injective hkey)
    refine ⟨hkeys, fun data version t ht => ?_⟩
    exact hfollows.others i.key data version t (writeCache_eq_ok_iff.1 ht) j.key hkeys.symm
  case stale =>
    intro i data version e
    rw [writeCache_eq_error_iff]
    constructor
    · rintro ⟨cause, hcause, rfl⟩
      obtain ⟨rfl, houtdated⟩ := (hfollows.refuses i.key data version cause).1 hcause
      exact ⟨rfl, houtdated⟩
    · rintro ⟨rfl, houtdated⟩
      exact ⟨.casMismatch i.key, (hfollows.refuses i.key data version _).2 ⟨rfl, houtdated⟩, rfl⟩
  case reported =>
    intro key cause
    rw [ofHostError_eq_staleVersion_iff]
    exact and_iff_right rfl

/-- Two keys and five calls: a write that is tied to a version seen two calls ago is refused once
the key has been written again. -/
theorem refines_history_of_two_keys :
    let before : List StoreCall := [.set "1" [1] (some 42), .set "2" [2] none]
    let between : List StoreCall := [.set "1" [3] (some 1), .set "1" [4] (some 1)]
    let calls := before ++ .get "1" :: between
    let s := empty.afterCalls calls
    ((empty.afterCalls before).call (.get "1")).2 = .found (some ⟨[1], 1⟩) ∧
      s.slot? "1" = some ⟨[3], 2⟩ ∧ ¬∃ t, s.write "1" [5] (some 1) = .ok t := by
  intro before between calls s
  have hfound : ((empty.afterCalls before).call (.get "1")).2 = .found (some ⟨[1], 1⟩) := rfl
  have hslot : s.slot? "1" = some ⟨[3], 2⟩ := rfl
  refine ⟨hfound, hslot, ?_⟩
  obtain ⟨-, hseen, -⟩ := refines_history calls
  rw [hseen before "1" ⟨[1], 1⟩ between [5] rfl hfound]
  have hone : ((empty.afterCalls before).history "1" between).length = 1 := rfl
  rw [hone]
  decide

end SharedStore
end EgressAuth.Cache
