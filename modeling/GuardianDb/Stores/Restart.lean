/-
Persisting a store's log and loading it again (`stores/base_store/mod.rs`).

`add_operation` caches the heads and all values of the log after each append; `load` reads
them back, hands the entries to `add_entry` one by one and takes the clock from the heads.
The serialization of lists of entries is a parameter that reads what it writes. Events,
progress reports and the index are left out.

  * `load_persist` — what `load` makes of the cache of a log.
  * `sortsAfter_iff` — when the next entry comes after everything in a log.
  * `restart_recovers` — the log is restored, and the next entry comes after everything
    exactly if no clock is at the end of its range.
-/
import GuardianDb.Log.Growth

namespace GuardianDb.Stores

open Std

/-- `serializer` on lists of entries; what was serialized can be read. -/
structure EntryCodec where
  Bytes : Type
  serialize : List Entry → Bytes
  deserialize : Bytes → Except String (List Entry)
  deserialize_serialize : ∀ es, deserialize (serialize es) = .ok es

variable (codec : EntryCodec)

/-- The part of `add_operation` that writes the cache, after the append. -/
def persist (log : Log) (cache : ExtTreeMap String codec.Bytes) :
    ExtTreeMap String codec.Bytes :=
  (cache.insert "_localHeads" (codec.serialize log.heads)).insert "_allEntries"
    (codec.serialize log.values)

def loadHeadsFromCacheKey (cache : ExtTreeMap String codec.Bytes) (key : String)
    (heads : List Entry) : Except String (List Entry) :=
  match cache[key]? with
  | none => .ok heads
  | some bytes =>
      match codec.deserialize bytes with
      | .ok cachedHeads => .ok (heads ++ cachedHeads)
      | .error e =>
          .error ("Failed to deserialize heads from cache key '" ++ key ++ "': " ++ e)

/-- All entries of the cache; those that cannot be read are as good as none. -/
def loadAllEntries (cache : ExtTreeMap String codec.Bytes) : List Entry :=
  match cache["_allEntries"]? with
  | none => []
  | some bytes =>
      match codec.deserialize bytes with
      | .ok entries => entries
      | .error _ => []

def load (cache : ExtTreeMap String codec.Bytes) (log : Log) : Except String Log := do
  let heads ← loadHeadsFromCacheKey codec cache "_localHeads" []
  let heads ← loadHeadsFromCacheKey codec cache "_remoteHeads" heads
  let allEntries := loadAllEntries codec cache
  if heads.isEmpty && allEntries.isEmpty then return log
  let entriesToLoad := if !allEntries.isEmpty then allEntries else heads
  return (entriesToLoad.foldl Log.addEntry log).syncClockFromHeads

/-- What `load` makes of the cache of a log: all its values are added again. -/
theorem load_persist (log fresh : Log) (hvalues : log.values = [] → log.heads = []) :
    load codec (persist codec log ∅) fresh = .ok
      (if log.values.isEmpty then fresh
        else (log.values.foldl Log.addEntry fresh).syncClockFromHeads) := by
  have hlocal : (persist codec log ∅)["_localHeads"]? = some (codec.serialize log.heads) := by
    rw [persist, ExtTreeMap.getElem?_insert, if_neg (by decide), ExtTreeMap.getElem?_insert_self]
  have hremote : (persist codec log ∅)["_remoteHeads"]? = none := by
    simp [persist]
  have hall : (persist codec log ∅)["_allEntries"]? = some (codec.serialize log.values) := by
    simp [persist]
  simp only [load, loadHeadsFromCacheKey, loadAllEntries, hlocal, hremote, hall,
    codec.deserialize_serialize, List.nil_append, bind, Except.bind, pure, Except.pure]
  cases hempty : log.values.isEmpty with
  | true | false => simp_all

/-! ### The next entry -/

section
variable {hashEntry : Entry → Hash} {log : Log} {S : Finset Entry} {data : List UInt8}
  {nPtr : Option Nat}

/-- The clock of a log is the time of its latest entry, or 0 if there is none. -/
structure ClockLatest (log : Log) (S : Finset Entry) : Prop where
  le : ∀ e ∈ S, e.clock.time ≤ log.clock.time
  attained : S.Nonempty → ∃ e ∈ S, e.clock.time = log.clock.time

theorem clockLatest_syncClockFromHeads (hr : log.Represents S) (hmono : Monotone S)
    (hzero : log.clock.time = 0) : ClockLatest log.syncClockFromHeads S where
  le e he := hr.le_maxTime_headEntries hmono log.clock.time he
  attained hS := by
    obtain ⟨m, hm, hmax⟩ := hr.exists_latest_head hmono hS
    refine ⟨m, ((hr.heads m).mp hm).1, Nat.le_antisymm ((Log.le_maxTime _ _).2 m hm) ?_⟩
    refine Log.maxTime_le (fun e he => hmax e ((hr.heads e).mp he).1) ?_
    exact hzero ▸ Nat.zero_le _

theorem nextClock_time (hr : log.Represents S) (hclock : ClockLatest log S) :
    log.nextClock.time = (log.clock.time + 1) % 2 ^ 64 := by
  have hmax : Log.maxTime log.clock.time log.headEntries = log.clock.time :=
    Nat.le_antisymm (Log.maxTime_le (fun e he => hclock.le e ((hr.heads e).mp he).1) le_rfl)
      (Log.le_maxTime _ _).1
  rw [Log.nextClock, hmax]

/-- **The next entry comes after everything in the log exactly if no entry has the last time
of a `u64`.** Past that time the clock wraps to 0. -/
theorem sortsAfter_iff (hr : log.Represents S) (hs : log.sortFn = noZeroes defaultSortFn)
    (hclock : ClockLatest log S) (htimes : ∀ e ∈ S, e.clock.time < 2 ^ 64)
    (hfresh : (log.appended hashEntry data nPtr).hash ∉ log.entries) :
    (∀ e ∈ S, log.sortFn e (log.appended hashEntry data nPtr) = .lt) ↔
      ∀ e ∈ S, e.clock.time ≠ 2 ^ 64 - 1 := by
  have hcmp : ∀ e ∈ S, log.sortFn e (log.appended hashEntry data nPtr) =
      entryKey e (log.appended hashEntry data nPtr) := by
    intro e he
    rw [hs, defaultSortFn_eq, noZeroes_entryKey]
    exact if_neg fun heq => hfresh (hr.mem_entries.mpr ⟨e, he, heq⟩)
  have hnext : (log.appended hashEntry data nPtr).clock.time = (log.clock.time + 1) % 2 ^ 64 :=
    nextClock_time hr hclock
  constructor
  · intro hafter e he hlast
    obtain ⟨m, hm, hmtime⟩ := hclock.attained ⟨e, he⟩
    have hwrapped : (log.appended hashEntry data nPtr).clock.time < e.clock.time := by
      have hle := hclock.le e he
      have hlt := htimes m hm
      omega
    have hlt := hafter e he
    rw [hcmp e he, OrientedCmp.gt_of_lt (entryKey_lt_of_time_lt hwrapped)] at hlt
    cases hlt
  · intro hnone e he
    rw [hcmp e he]
    refine entryKey_lt_of_time_lt ?_
    obtain ⟨m, hm, hmtime⟩ := hclock.attained ⟨e, he⟩
    have hle := hclock.le e he
    have hlt := htimes m hm
    have hne := hnone m hm
    omega

/-! ### Restart -/

theorem foldl_addEntry_clock : ∀ (ds : List Entry) (log : Log),
    (ds.foldl Log.addEntry log).clock = log.clock := by
  refine Loop.foldl_frame Log.clock fun log e => ?_
  rw [Log.addEntry]
  split <;> rfl

theorem represents_syncClockFromHeads (hr : log.Represents S) :
    log.syncClockFromHeads.Represents S :=
  ⟨hr.entries, hr.length, hr.nexts, hr.heads, hr.nodup⟩

end

/-- The log that `load` leaves in an empty store stands for what was persisted, and its clock
is that of the latest entry. -/
theorem load_persist_represents {log : Log} (h : Recorded log) (hmono : Monotone log.entrySet)
    (pubKey id : String) : ∃ restored,
      load codec (persist codec log ∅) (storeLog pubKey id) = .ok restored ∧
      restored.Represents log.entrySet ∧ restored.sortFn = noZeroes defaultSortFn ∧
      ClockLatest restored log.entrySet := by
  have hmem : ∀ e, e ∈ log.values ↔ e ∈ log.entrySet := fun e =>
    Log.mem_values h.represents hmono.acyclic
  have hempty : log.values = [] → log.entrySet = ∅ := by grind
  have hheads : log.values = [] → log.heads = [] := by
    intro hnil
    refine List.eq_nil_iff_forall_not_mem.mpr fun e he => ?_
    have hin := ((Log.mem_heads h.represents).mp he).1
    rw [hempty hnil] at hin
    exact absurd hin (Finset.notMem_empty e)
  refine ⟨_, load_persist codec log (storeLog pubKey id) hheads, ?_⟩
  cases hvalues : log.values.isEmpty with
  | true =>
    rw [if_pos rfl, hempty (List.isEmpty_iff.mp hvalues)]
    refine ⟨Log.Represents.new_empty pubKey id (some defaultSortFn), rfl, ?_⟩
    exact ⟨fun e he => absurd he (Finset.notMem_empty e), fun hS => (by simp at hS)⟩
  | false =>
    have hr := deliver_represents pubKey id h.represents.hashInjective hmem
    refine ⟨represents_syncClockFromHeads hr, deliver_sortFn pubKey id log.values, ?_⟩
    refine clockLatest_syncClockFromHeads hr hmono ?_
    rw [foldl_addEntry_clock]
    rfl

/-- **Restart recovery.** For every log that was grown by appends and deliveries and in which
every entry is later than those it links to: loading what was persisted into an empty store
restores the entries, the heads and the values, and a clock that is not behind any entry; and
the next append comes after everything loaded if and only if no entry has the last time that
a clock can have. -/
theorem restart_recovers {hashEntry : Entry → Hash} {log : Log} (h : Reachable hashEntry log)
    (hmono : Monotone log.entrySet) (pubKey id : String) : ∃ restored,
      load codec (persist codec log ∅) (storeLog pubKey id) = .ok restored ∧
      restored.entries = log.entries ∧ restored.heads = log.heads ∧
      restored.values = log.values ∧
      (∀ e ∈ restored.values, e.clock.time ≤ restored.clock.time) ∧
      ∀ data nPtr, (restored.appended hashEntry data nPtr).hash ∉ restored.entries →
        ((∀ e ∈ restored.values,
          restored.sortFn e (restored.appended hashEntry data nPtr) = .lt) ↔
        ∀ e ∈ log.values, e.clock.time ≠ 2 ^ 64 - 1) := by
  have hrec := h.recorded hmono
  obtain ⟨restored, hload, hr, hs, hclock⟩ :=
    load_persist_represents codec hrec hmono pubKey id
  have hmem : ∀ e, e ∈ restored.values ↔ e ∈ log.entrySet := fun e =>
    Log.mem_values hr hmono.acyclic
  have hvalues := Log.values_eq_of_represents hrec.represents hr hmono hrec.sortFn hs
  refine ⟨restored, hload, Log.entries_eq_of_represents hrec.represents hr,
    Log.heads_eq_of_represents hrec.represents hr hrec.sortFn hs, hvalues,
    fun e he => hclock.le e ((hmem e).mp he), fun data nPtr hfresh => ?_⟩
  rw [← hvalues]
  simp only [hmem]
  exact sortsAfter_iff hr hs hclock hrec.times hfresh

/-- Lists of entries stand for themselves. -/
def plainCodec : EntryCodec := ⟨List Entry, id, .ok, fun _ => rfl⟩

/-- Entries are told apart by their clocks. -/
def clockHash (e : Entry) : Hash := BitVec.ofNat 256 (e.clock.time + 1)

/-- One append, a restart, and the entry that would be appended next. -/
theorem restart_recovers_one_append : ∃ restored,
    load plainCodec (persist plainCodec ((storeLog "a" "log").append clockHash [7] none) ∅)
      (storeLog "b" "log") = .ok restored ∧
    restored.values = ((storeLog "a" "log").append clockHash [7] none).values ∧
    ∀ e ∈ restored.values, restored.sortFn e (restored.appended clockHash [8] none) = .lt := by
  have hreach : Reachable clockHash ((storeLog "a" "log").append clockHash [7] none) :=
    .append [7] none (.opened "a" "log") (by decide +kernel)
  obtain ⟨restored, hload, hentries, -, hvalues, -, hnext⟩ :=
    restart_recovers plainCodec hreach (by decide +kernel) "b" "log"
  refine ⟨restored, hload, hvalues, (hnext [8] none ?_).mpr (by decide +kernel)⟩
  have hrestored : load plainCodec
      (persist plainCodec ((storeLog "a" "log").append clockHash [7] none) ∅)
      (storeLog "b" "log") = .ok _ := rfl
  cases hload.symm.trans hrestored
  decide +kernel

/-- An entry of a peer with the last time of a `u64`. -/
def lastEntry : Entry := ⟨9, "log", [7], [], ⟨"peer", 2 ^ 64 - 1⟩⟩

/-- After it was delivered, a restart restores the log, and the next entry sorts before it. -/
theorem append_after_restart_sorts_first :
    Reachable clockHash ((storeLog "a" "log").addEntry lastEntry) ∧
    Monotone ((storeLog "a" "log").addEntry lastEntry).entrySet ∧
    ∃ restored, load plainCodec (persist plainCodec ((storeLog "a" "log").addEntry lastEntry) ∅)
        (storeLog "a" "log") = .ok restored ∧
      restored.values = [lastEntry] ∧
      (restored.appended clockHash [8] none).clock.time = 0 ∧
      restored.sortFn lastEntry (restored.appended clockHash [8] none) = .gt := by
  refine ⟨.addEntry lastEntry (.opened "a" "log") (by decide), by decide +kernel, _, rfl, ?_⟩
  decide +kernel

end GuardianDb.Stores
