/-
Convergence of replicas under the store's comparator.

A store hands entries to `add_entry` as they arrive: repeated, with gaps,
children before parents. With `default_sort_fn` the comparator is the total
order (time, clock id, hash), so heads and values are functions of the set of
entries received.

  * `heads_eq_of_represents`, `values_eq_of_represents` — two logs of one set agree.
  * `addEntry_converges` — what a sequence of deliveries leaves behind.
-/
import GuardianDb.Log.Traversal

namespace GuardianDb

open Std SortBy

/-- The empty log a base store opens: `default_sort_fn` and nothing else. -/
def storeLog (pubKey id : String) : Log :=
  Log.new pubKey { id := id, sortFn := some defaultSortFn }

/-- The log of a store after the deliveries `ds`. -/
def deliver (pubKey id : String) (ds : List Entry) : Log :=
  ds.foldl Log.addEntry (storeLog pubKey id)

namespace Log

theorem addEntry_sortFn (log : Log) (e : Entry) : (log.addEntry e).sortFn = log.sortFn := by
  rw [addEntry]
  split <;> rfl

theorem addEntry_id (log : Log) (e : Entry) : (log.addEntry e).id = log.id := by
  rw [addEntry]
  split <;> rfl

theorem foldl_addEntry_id : ∀ (ds : List Entry) (log : Log),
    (ds.foldl addEntry log).id = log.id :=
  Loop.foldl_frame Log.id addEntry_id

theorem foldl_addEntry_sortFn : ∀ (ds : List Entry) (log : Log),
    (ds.foldl addEntry log).sortFn = log.sortFn :=
  Loop.foldl_frame Log.sortFn addEntry_sortFn

section
variable {log log' : Log} {S : Finset Entry}

/-- On entries told apart by their hashes, the wrapped store comparator is the
order (time, clock id, hash). -/
theorem followsOn_entryKey (hinj : HashInjective S)
    (hs : log.sortFn = noZeroes defaultSortFn) : log.FollowsOn entryKey S := by
  intro a b ha hb hne
  rw [hs, defaultSortFn_eq, noZeroes_entryKey]
  by_cases hab : a.hash = b.hash
  · exact absurd (hinj a ha b hb hab ▸ ReflCmp.compare_self) hne
  · exact if_neg hab

theorem entryKey_injOn (hinj : HashInjective S) {a b : Entry} (ha : a ∈ S) (hb : b ∈ S)
    (h : entryKey a b = .eq) : a = b :=
  hinj a ha b hb (entryKey_eq_iff.mp h).2

section
variable (hr : log.Represents S)
include hr

theorem mem_heads {e : Entry} :
    e ∈ log.heads ↔ e ∈ S ∧ ¬ Linked S e.hash := by
  rw [heads, mem_resort, hr.dedup_headEntries, hr.heads]

theorem heads_nodup : log.heads.Nodup := by
  rw [heads, hr.dedup_headEntries, (log.resort_perm _).nodup_iff]
  exact hr.nodup

/-- **Heads converge.** Two logs of one set list their heads alike. -/
theorem heads_eq_of_represents (hr' : log'.Represents S)
    (hs : log.sortFn = noZeroes defaultSortFn) (hs' : log'.sortFn = noZeroes defaultSortFn) :
    log'.heads = log.heads := by
  have hinj := hr.hashInjective
  have hperm : log'.heads.Perm log.heads :=
    (List.perm_ext_iff_of_nodup (heads_nodup hr') (heads_nodup hr)).mpr fun e => by
      rw [mem_heads hr', mem_heads hr]
  have hdesc : ∀ {l : Log}, l.Represents S → l.sortFn = noZeroes defaultSortFn →
      l.heads.Pairwise (fun a b => (entryKey a b).isGE) := by
    intro l hl hls
    refine resort_pairwise (followsOn_entryKey hinj hls) fun e he => ?_
    rw [hl.dedup_headEntries] at he
    exact ((hl.heads e).mp he).1
  refine eq_of_pairwise_isGE hperm ?_ (hdesc hr' hs') (hdesc hr hs)
  intro a ha b hb hab
  exact entryKey_injOn hinj ((mem_heads hr').mp ha).1 ((mem_heads hr').mp hb).1 hab

/-- Under the store's comparator, `values` ascends strictly. -/
theorem values_strictly_ascend (hmono : Monotone S) (hs : log.sortFn = noZeroes defaultSortFn) :
    log.values.Pairwise (fun a b => entryKey a b = .lt) := by
  have hinj := hr.hashInjective
  have hle : log.values.Pairwise (fun a b => (entryKey a b).isLE) := by
    refine values_pairwise hr (followsOn_entryKey hinj hs) fun e he x hx hlink => ?_
    rw [OrientedCmp.isGE_iff_isLE, entryKey_lt_of_time_lt (hmono e he x hx hlink)]
    rfl
  refine (hle.and (values_nodup hr)).imp_of_mem ?_
  rintro a b ha hb ⟨hab, hne⟩
  cases h : entryKey a b with
  | lt => rfl
  | gt => simp [h] at hab
  | eq =>
    have ha' := (mem_values hr hmono.acyclic).mp ha
    have hb' := (mem_values hr hmono.acyclic).mp hb
    exact absurd (entryKey_injOn hinj ha' hb' h) hne

/-- **Values converge.** Two logs of one set list the same values. -/
theorem values_eq_of_represents (hr' : log'.Represents S)
    (hmono : Monotone S) (hs : log.sortFn = noZeroes defaultSortFn)
    (hs' : log'.sortFn = noZeroes defaultSortFn) : log'.values = log.values := by
  have hperm : log'.values.Perm log.values :=
    (List.perm_ext_iff_of_nodup (values_nodup hr') (values_nodup hr)).mpr fun e => by
      rw [mem_values hr' hmono.acyclic, mem_values hr hmono.acyclic]
  refine hperm.eq_of_pairwise (fun a b _ _ hab hba => ?_)
    (values_strictly_ascend hr' hmono hs') (values_strictly_ascend hr hmono hs)
  rw [OrientedCmp.gt_of_lt hab] at hba
  exact absurd hba (by simp)

end

end

end Log

/-- In a strictly ascending list a smaller member stands before a greater one. -/
theorem pair_sublist_of_lt {key : SortFn} [TransCmp key] {l : List Entry} {a b : Entry}
    (hl : l.Pairwise (fun a b => key a b = .lt)) (ha : a ∈ l) (hb : b ∈ l)
    (hab : key a b = .lt) : [a, b].Sublist l := by
  induction l with
  | nil => simp at ha
  | cons c l ih =>
    obtain ⟨hhd, htl⟩ := List.pairwise_cons.mp hl
    rcases List.mem_cons.mp ha with rfl | hal
    · grind
    · rcases List.mem_cons.mp hb with rfl | hbl
      · simp_all [OrientedCmp.gt_of_lt]
      · exact (ih htl hal hbl).cons c

theorem deliver_represents (pubKey id : String) {S : Finset Entry} (hinj : HashInjective S)
    {ds : List Entry} (hds : ∀ e, e ∈ ds ↔ e ∈ S) : (deliver pubKey id ds).Represents S := by
  have hS : ∅ ∪ ds.toFinset = S := by
    ext e
    simp [hds]
  have hr := foldl_addEntry_represents ds (Log.Represents.new_empty pubKey id (some defaultSortFn))
    (by rwa [hS])
  rwa [hS] at hr

theorem deliver_sortFn (pubKey id : String) (ds : List Entry) :
    (deliver pubKey id ds).sortFn = noZeroes defaultSortFn :=
  Log.foldl_addEntry_sortFn ds (storeLog pubKey id)

/-- **Convergence of the operation log.** Let `S` be a finite set of entries,
told apart by their hashes, in which every entry is later than the entries it
links to. In whatever order, and however often, the members of `S` are delivered
to an empty store, the log ends with `|S|` entries; its heads are the members no
member links to; `values` lists every member once, ascending in (time, clock id,
hash), parents before children; and any two such replicas agree. -/
theorem addEntry_converges (S : Finset Entry) (hinj : HashInjective S) (hmono : Monotone S)
    (pubKey id : String) (ds : List Entry) (hds : ∀ e, e ∈ ds ↔ e ∈ S) :
    (deliver pubKey id ds).length = S.card ∧
    (∀ e, e ∈ (deliver pubKey id ds).heads ↔ e ∈ S ∧ ¬ Linked S e.hash) ∧
    (deliver pubKey id ds).heads.Nodup ∧
    (∀ e, e ∈ (deliver pubKey id ds).values ↔ e ∈ S) ∧
    (deliver pubKey id ds).values.Pairwise (fun a b => entryKey a b = .lt) ∧
    (∀ p ∈ S, ∀ e ∈ S, p.hash ∈ e.next → [p, e].Sublist (deliver pubKey id ds).values) ∧
    (∀ (pubKey' id' : String) (ds' : List Entry), (∀ e, e ∈ ds' ↔ e ∈ S) →
      (deliver pubKey' id' ds').heads = (deliver pubKey id ds).heads ∧
      (deliver pubKey' id' ds').values = (deliver pubKey id ds).values) := by
  have hr := deliver_represents pubKey id hinj hds
  have hs := deliver_sortFn pubKey id ds
  have hasc := Log.values_strictly_ascend hr hmono hs
  refine ⟨hr.length, fun e => Log.mem_heads hr, Log.heads_nodup hr,
    fun e => Log.mem_values hr hmono.acyclic, hasc, ?_, ?_⟩
  · intro p hp e he hlink
    exact pair_sublist_of_lt hasc ((Log.mem_values hr hmono.acyclic).mpr hp)
      ((Log.mem_values hr hmono.acyclic).mpr he)
      (entryKey_lt_of_time_lt (hmono e he p hp hlink))
  · intro pubKey' id' ds' hds'
    have hr' := deliver_represents pubKey' id' hinj hds'
    have hs' := deliver_sortFn pubKey' id' ds'
    exact ⟨Log.heads_eq_of_represents hr hr' hs hs',
      Log.values_eq_of_represents hr hr' hmono hs hs'⟩

/-- A root, and a child of it that also links to an entry that never arrives. -/
def sampleRoot : Entry := ⟨1, "log", [7], [], ⟨"alice", 1⟩⟩

@[inherit_doc sampleRoot]
def sampleChild : Entry := ⟨2, "log", [8], [1, 9], ⟨"bob", 2⟩⟩

/-- Child first, with a repetition and a gap. -/
theorem addEntry_converges_sample :
    (deliver "alice" "log" [sampleChild, sampleRoot, sampleChild]).length = 2 ∧
    (deliver "alice" "log" [sampleChild, sampleRoot, sampleChild]).values =
      (deliver "bob" "log" [sampleRoot, sampleChild]).values := by
  have h := addEntry_converges {sampleRoot, sampleChild} (by decide) (by decide) "alice" "log"
    [sampleChild, sampleRoot, sampleChild] (by simp [or_comm])
  exact ⟨h.1, (h.2.2.2.2.2.2 "bob" "log" [sampleRoot, sampleChild] (by simp)).2.symm⟩

end GuardianDb
