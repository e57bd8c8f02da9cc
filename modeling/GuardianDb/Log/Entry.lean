/-
Entries of the operation log and the functions that order them
(`log/entry.rs`, `log/lamport_clock.rs`, `stores/base_store/mod.rs`).

A hash is the 32 bytes of a BLAKE3 digest, read as one big-endian number, so
that the byte-wise comparison of the source is the order of the numbers. The
payload is kept, the schema version and the stored identity are not: no
function of the log reads them.

  * `defaultSortFn_eq` — the store's comparator orders by (time, clock id, hash).
  * `noZeroes_entryKey` — the log's tie-break adds nothing to it.
  * `lastWriteWins_eq` — the log's own comparator orders by clock and answers
    `Less`, in both directions, for two entries with one clock.
-/
import Mathlib.Data.List.Basic
import Mathlib.Order.Basic
import GuardianDb.Lib.OrderedMap
import Std.Data.ExtTreeSet

namespace GuardianDb

open Std

/-- `iroh_blobs::Hash`, its 32 bytes read big-endian. -/
abbrev Hash := BitVec 256

/-- `LamportClock`. The time is a `u64` that the log only compares and bumps. -/
structure LamportClock where
  id : String
  time : Nat
  deriving DecidableEq, Repr

/-- `LamportClock::cmp`: by time, then by id. -/
def LamportClock.cmp (a b : LamportClock) : Ordering :=
  (compare a.time b.time).then (compare a.id b.id)

/-- `Entry`: payload, links to parents, and the clock it was written at. -/
structure Entry where
  hash : Hash
  id : String
  payload : List UInt8
  next : List Hash
  clock : LamportClock
  deriving DecidableEq, Repr

/-- A comparator of entries. -/
abbrev SortFn := Entry → Entry → Ordering

/-! ### The sorting functions of the source -/

def sortByClockIds (resolve : SortFn) : SortFn := fun a b =>
  let diff := compare a.clock.id b.clock.id
  if diff = .eq then resolve a b else diff

def sortByClocks (resolve : SortFn) : SortFn := fun a b =>
  let diff := a.clock.cmp b.clock
  if diff = .eq then resolve a b else diff

def sortStepByStep (resolve : SortFn) : SortFn :=
  sortByClocks (sortByClockIds resolve)

/-- `Entry::last_write_wins`: an unresolved pair is `Less`. -/
def lastWriteWins : SortFn :=
  sortStepByStep fun _ _ => .lt

def sortByEntryHash : SortFn :=
  sortStepByStep fun a b => compare a.hash b.hash

/-- `default_sort_fn` of the base store: time, clock id, hash. -/
def defaultSortFn : SortFn := fun a b =>
  let timeCmp := compare a.clock.time b.clock.time
  if timeCmp ≠ .eq then timeCmp
  else
    let idCmp := compare a.clock.id b.clock.id
    if idCmp ≠ .eq then idCmp
    else compare a.hash b.hash

/-- `Entry::no_zeroes`: the wrapper every log puts around its comparator. -/
def noZeroes (sortFn : SortFn) : SortFn := fun a b =>
  if a.hash = b.hash then .eq
  else
    let diff := sortFn a b
    if diff = .eq then compare a.hash b.hash else diff

/-! ### Keys: the lawful part of each comparator -/

/-- Entries compared by clock alone. -/
def clockKey : SortFn := fun a b => a.clock.cmp b.clock

/-- Entries compared by clock, then by hash: (time, clock id, hash). -/
def entryKey : SortFn := fun a b => (clockKey a b).then (compare a.hash b.hash)

theorem clockKey_eq_compareLex :
    clockKey = compareLex (compareOn fun e : Entry => e.clock.time)
      (compareOn fun e : Entry => e.clock.id) := rfl

instance clockKey_transCmp : TransCmp clockKey := by
  rw [clockKey_eq_compareLex]
  infer_instance

theorem entryKey_eq_compareLex :
    entryKey = compareLex clockKey (compareOn fun e : Entry => e.hash) := rfl

instance entryKey_transCmp : TransCmp entryKey := by
  rw [entryKey_eq_compareLex]
  infer_instance

theorem clockKey_eq_iff {a b : Entry} : clockKey a b = .eq ↔ a.clock = b.clock := by
  obtain ⟨_, _, _, _, ca⟩ := a
  obtain ⟨_, _, _, _, cb⟩ := b
  cases ca; cases cb
  simp [clockKey, LamportClock.cmp, Ordering.then_eq_eq, and_comm]

theorem entryKey_eq_iff {a b : Entry} :
    entryKey a b = .eq ↔ a.clock = b.clock ∧ a.hash = b.hash := by
  simp [entryKey, Ordering.then_eq_eq, clockKey_eq_iff]

/-- A parent, written at an earlier time, is below its child. -/
theorem entryKey_lt_of_time_lt {a b : Entry} (h : a.clock.time < b.clock.time) :
    entryKey a b = .lt := by
  have ht : compare a.clock.time b.clock.time = .lt := Nat.compare_eq_lt.mpr h
  simp [entryKey, clockKey, LamportClock.cmp, ht]

theorem defaultSortFn_eq : defaultSortFn = entryKey := by
  funext a b
  simp only [defaultSortFn, entryKey, clockKey, LamportClock.cmp]
  cases compare a.clock.time b.clock.time <;> cases compare a.clock.id b.clock.id <;> rfl

theorem sortByEntryHash_eq : sortByEntryHash = entryKey := by
  funext a b
  simp only [sortByEntryHash, sortStepByStep, sortByClocks, sortByClockIds, entryKey]
  by_cases h : a.clock.cmp b.clock = .eq
  · simp_all [LamportClock.cmp, clockKey]
  · simp only [clockKey, h, if_false]
    cases hc : a.clock.cmp b.clock <;> simp_all

/-- **The log's own comparator.** It orders by clock, and for two entries with
one clock it answers `Less` whichever comes first. -/
theorem lastWriteWins_eq (a b : Entry) :
    lastWriteWins a b = if a.clock = b.clock then .lt else clockKey a b := by
  simp only [lastWriteWins, sortStepByStep, sortByClocks, sortByClockIds]
  by_cases h : a.clock = b.clock
  · have hc := clockKey_eq_iff.mpr h
    have hid : compare a.clock.id b.clock.id = .eq := by simp [h]
    simp only [clockKey] at hc
    rw [if_pos hc, if_pos hid, if_pos h]
  · grind [clockKey_eq_iff, clockKey]

/-- The wrapper adds nothing to a comparator that ends in the hash. -/
theorem noZeroes_entryKey : noZeroes entryKey = fun a b =>
    if a.hash = b.hash then .eq else entryKey a b := by
  funext a b
  simp only [noZeroes]
  by_cases h : a.hash = b.hash
  · simp [h]
  · grind [entryKey_eq_iff]

end GuardianDb
