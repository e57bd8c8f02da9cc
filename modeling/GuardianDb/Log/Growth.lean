/-
Logs grown by local appends and delivered entries (`log/mod.rs`).

An append links to all heads and becomes the only head; its clock is a `u64` one past the
clocks of the heads. As long as every entry is later than those it links to, the heads are
at least as late as everything else, and the clock never wrapped.

  * `Represents.le_maxTime_headEntries` — no entry is later than all heads.
  * `Represents.append` — an append inserts its entry.
  * `Reachable.recorded` — what a grown log stands for.
-/
import Mathlib.Data.Finset.Max
import GuardianDb.Log.Join

namespace GuardianDb

open Std SortBy ExtTreeMap List

theorem Monotone.mono {S T : Finset Entry} (h : Monotone T) (hsub : S ⊆ T) : Monotone S :=
  fun e he f hf => h e (hsub he) f (hsub hf)

variable {e : Entry}

namespace Log

/-! ### The latest head -/

theorem le_maxTime (es : List Entry) : ∀ t : Nat,
    t ≤ maxTime t es ∧ ∀ e ∈ es, e.clock.time ≤ maxTime t es := by
  induction es with
  | nil => exact fun t => ⟨le_rfl, nofun⟩
  | cons f es ih =>
    intro t
    obtain ⟨hle, hall⟩ := ih (max t f.clock.time)
    refine ⟨(le_max_left _ _).trans hle, fun e he => ?_⟩
    rcases mem_cons.mp he with rfl | he
    · exact (le_max_right _ _).trans hle
    · exact hall e he

theorem maxTime_le {es : List Entry} {b : Nat} (hes : ∀ e ∈ es, e.clock.time ≤ b) :
    ∀ {t : Nat}, t ≤ b → maxTime t es ≤ b := by
  induction es with
  | nil => exact fun ht => ht
  | cons f es ih =>
    intro t ht
    exact ih (fun e he => hes e (mem_cons_of_mem f he))
      (max_le ht (hes f mem_cons_self))

section
variable {log : Log} {S : Finset Entry}

/-- A latest entry is a head: whatever links to it would be later. -/
theorem Represents.exists_latest_head (hr : log.Represents S) (hmono : Monotone S)
    (hS : S.Nonempty) : ∃ m ∈ log.headEntries, ∀ e ∈ S, e.clock.time ≤ m.clock.time := by
  obtain ⟨m, hm, hmax⟩ := S.exists_max_image (fun e => e.clock.time) hS
  refine ⟨m, (hr.heads m).mpr ⟨hm, ?_⟩, hmax⟩
  rintro ⟨f, hf, hlink⟩
  exact absurd (hmono f hf m hm hlink) (Nat.not_lt.mpr (hmax f hf))

theorem Represents.le_maxTime_headEntries (hr : log.Represents S) (hmono : Monotone S) (t : Nat)
    (he : e ∈ S) : e.clock.time ≤ maxTime t log.headEntries := by
  obtain ⟨m, hm, hmax⟩ := hr.exists_latest_head hmono ⟨e, he⟩
  exact (hmax e he).trans ((le_maxTime log.headEntries t).2 m hm)

/-! ### Appends -/

variable {hashEntry : Entry → Hash} {data : List UInt8} {nPtr : Option Nat}

@[simp] theorem appended_next :
    (log.appended hashEntry data nPtr).next = log.appendLinks nPtr := rfl

theorem Represents.head_mem_appendLinks (hr : log.Represents S)
    (he : e ∈ log.headEntries) (nPtr : Option Nat) : e.hash ∈ log.appendLinks nPtr := by
  refine mem_map.mpr ⟨e, mem_append_left _ ?_, rfl⟩
  rw [mem_dedup]
  · exact mem_reverse.mpr he
  · intro a ha b hb
    exact hr.hashInjective a ((hr.heads a).mp (mem_reverse.mp ha)).1 b
      ((hr.heads b).mp (mem_reverse.mp hb)).1

/-- **An append inserts its entry**, as the only head, if the entries stay later than what
they link to: then no earlier entry has linked to the new one. -/
theorem Represents.append (hr : log.Represents S)
    (hfresh : (log.appended hashEntry data nPtr).hash ∉ log.entries)
    (hmono : Monotone (insert (log.appended hashEntry data nPtr) S)) :
    (log.append hashEntry data nPtr).Represents (insert (log.appended hashEntry data nPtr) S) := by
  generalize hnew : log.appended hashEntry data nPtr = new at hfresh hmono ⊢
  have hnext : new.next = log.appendLinks nPtr := by rw [← hnew, appended_next]
  have hnotMem : new ∉ S := fun hmem => hfresh (hr.mem_entries.mpr ⟨new, hmem, rfl⟩)
  have hunlinked : ¬ Linked (insert new S) new.hash := by
    rintro ⟨f, hf, hlink⟩
    have hlater := hmono f hf new (Finset.mem_insert_self new S) hlink
    rcases Finset.mem_insert.mp hf with rfl | hfS
    · exact lt_irrefl _ hlater
    · -- an old linker is not later than the latest head, which the new entry links to
      have hmonoS := hmono.mono (Finset.subset_insert new S)
      obtain ⟨m, hm, hmax⟩ := hr.exists_latest_head hmonoS ⟨f, hfS⟩
      have hhead := hmono new (Finset.mem_insert_self new S) m
        (Finset.mem_insert_of_mem ((hr.heads m).mp hm).1)
        (hnext ▸ hr.head_mem_appendLinks hm nPtr)
      exact absurd (hlater.trans_le (hmax f hfS)) (Nat.not_lt.mpr hhead.le)
  refine ⟨?_, ?_, ?_, ?_, ?_⟩
  · simp only [Log.append, hnew]
    exact hr.entries_insert hfresh
  · simp only [Log.append, hr.length, Finset.card_insert_of_notMem hnotMem]
  · intro h
    simp only [Log.append, ExtTreeSet.mem_insertMany_list, hr.nexts, linked_insert, hnext,
      List.contains_iff_mem]
    exact or_comm
  · intro e
    simp only [Log.append, hnew, mem_singleton]
    constructor
    · simp_all
    · rintro ⟨he, hlink⟩
      rcases Finset.mem_insert.mp he with rfl | heS
      · rfl
      · rw [linked_insert, not_or, hnext] at hlink
        have hhead := (hr.heads e).mpr ⟨heS, hlink.2⟩
        exact absurd (hr.head_mem_appendLinks hhead nPtr) hlink.1
  · simp only [Log.append]
    exact nodup_singleton _

end

/-! ### Grown logs -/

def entrySet (log : Log) : Finset Entry := (log.entries.toList.map (·.2)).toFinset

theorem mem_entrySet {log : Log} :
    e ∈ log.entrySet ↔ ∃ h : Hash, log.entries[h]? = some e := by
  simp [entrySet]

theorem Represents.entrySet_eq {log : Log} {S : Finset Entry} (hr : log.Represents S) :
    log.entrySet = S := by
  ext e
  simp only [mem_entrySet, hr.entries, exists_and_left, exists_eq', and_true]

/-- Storing an entry under a new hash. -/
theorem entrySet_insert {log log' : Log} (hnew : e.hash ∉ log.entries)
    (hentries : log'.entries = log.entries.insert e.hash e) :
    log'.entrySet = insert e log.entrySet := by
  ext f
  rw [Finset.mem_insert, mem_entrySet, mem_entrySet, hentries]
  constructor
  · grind
  · rintro (rfl | ⟨h, hget⟩)
    · exact ⟨f.hash, getElem?_insert_self⟩
    · refine ⟨h, ?_⟩
      rw [OrderedMap.get_insert, if_neg, hget]
      rintro rfl
      rw [← isSome_getElem?_iff_mem, hget] at hnew
      exact hnew rfl

end Log

/-- The logs of a store under `default_sort_fn`: from an empty one by appends, whose content
hash is new to the log, and by deliveries of entries with `u64` clocks. -/
inductive Reachable (hashEntry : Entry → Hash) : Log → Prop where
  | opened (pubKey id : String) : Reachable hashEntry (storeLog pubKey id)
  | append {log : Log} (data : List UInt8) (nPtr : Option Nat) (h : Reachable hashEntry log)
      (hfresh : (log.appended hashEntry data nPtr).hash ∉ log.entries) :
      Reachable hashEntry (log.append hashEntry data nPtr)
  | addEntry {log : Log} (e : Entry) (h : Reachable hashEntry log)
      (htime : e.clock.time < 2 ^ 64) : Reachable hashEntry (log.addEntry e)

/-- The log stands for its entries, compares like a store, and has `u64` clocks, its own not
later than all entries. -/
structure Recorded (log : Log) : Prop where
  represents : log.Represents log.entrySet
  sortFn : log.sortFn = noZeroes defaultSortFn
  clock : log.clock.time = 0 ∨ ∃ e ∈ log.entrySet, log.clock.time ≤ e.clock.time
  times : ∀ e ∈ log.entrySet, e.clock.time < 2 ^ 64

namespace Reachable

variable {hashEntry : Entry → Hash} {log : Log}

theorem recorded_opened (pubKey id : String) : Recorded (storeLog pubKey id) := by
  have hr := Log.Represents.new_empty pubKey id (some defaultSortFn)
  have hset : (storeLog pubKey id).entrySet = ∅ := hr.entrySet_eq
  refine ⟨?_, rfl, .inl rfl, ?_⟩
  · rw [hset]
    exact hr
  · simp_all

theorem recorded_append {data : List UInt8} {nPtr : Option Nat} (h : Recorded log)
    (hfresh : (log.appended hashEntry data nPtr).hash ∉ log.entries)
    (hmono : Monotone (insert (log.appended hashEntry data nPtr) log.entrySet)) :
    Recorded (log.append hashEntry data nPtr) := by
  have hset : (log.append hashEntry data nPtr).entrySet =
      insert (log.appended hashEntry data nPtr) log.entrySet := Log.entrySet_insert hfresh rfl
  refine ⟨?_, h.sortFn, .inr ⟨log.appended hashEntry data nPtr, ?_, le_rfl⟩, ?_⟩
  · rw [hset]
    exact h.represents.append hfresh hmono
  · simp_all
  · rw [hset]
    intro e he
    rcases Finset.mem_insert.mp he with rfl | hold
    · exact Nat.mod_lt _ (by decide)
    · exact h.times e hold

theorem recorded_addEntry (h : Recorded log) (htime : e.clock.time < 2 ^ 64)
    (hnew : e.hash ∉ log.entries) : Recorded (log.addEntry e) := by
  have hinj : ∀ f ∈ log.entrySet, f.hash = e.hash → f = e := fun f hf heq =>
    absurd (h.represents.mem_entries.mpr ⟨f, hf, heq⟩) hnew
  have hr := h.represents.addEntry hinj
  have hset : (log.addEntry e).entrySet = insert e log.entrySet := hr.entrySet_eq
  have hclock : (log.addEntry e).clock = log.clock := by
    rw [Log.addEntry]
    split <;> rfl
  refine ⟨?_, ?_, ?_, ?_⟩
  · rw [hset]
    exact hr
  · rw [Log.addEntry_sortFn, h.sortFn]
  · rw [hset, hclock]
    refine h.clock.imp_right ?_
    rintro ⟨f, hf, hle⟩
    exact ⟨f, Finset.mem_insert_of_mem hf, hle⟩
  · rw [hset]
    intro f hf
    rcases Finset.mem_insert.mp hf with rfl | hold
    · exact htime
    · exact h.times f hold

/-- **What a grown log stands for**, by induction on the calls. The condition on the clocks
of the final log covers the logs before it, which have fewer entries. -/
theorem recorded (h : Reachable hashEntry log) (hmono : Monotone log.entrySet) : Recorded log := by
  induction h with
  | opened pubKey id => exact recorded_opened pubKey id
  | append data nPtr h hfresh ih =>
    rw [Log.entrySet_insert hfresh rfl] at hmono
    exact recorded_append (ih (hmono.mono (Finset.subset_insert _ _))) hfresh hmono
  | @addEntry log e h htime ih =>
    by_cases hnew : e.hash ∈ log.entries
    · rw [Log.addEntry, if_pos hnew] at hmono ⊢
      exact ih hmono
    · have hentries : (log.addEntry e).entries = log.entries.insert e.hash e := by
        rw [Log.addEntry, if_neg hnew]
      rw [Log.entrySet_insert hnew hentries] at hmono
      exact recorded_addEntry (ih (hmono.mono (Finset.subset_insert _ _))) htime hnew

end Reachable

end GuardianDb
