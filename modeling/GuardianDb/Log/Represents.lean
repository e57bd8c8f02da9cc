/-
What a log stands for: a finite set of entries, no two with one hash.

`Log.Represents log S` ties every field of the implementation to `S`: the map
holds exactly `S` under its hashes, the reverse index is the set of linked
hashes, and the head list enumerates the entries no member links to. The
writing operations are proved to act on `S` alone; everything later about
heads, values and joins is read off this relation.

  * `Represents.addEntry` — one delivered entry inserts itself.
  * `foldl_addEntry_represents` — any sequence of deliveries represents the set
    of delivered entries.
-/
import Mathlib.Data.Finset.Card
import GuardianDb.Log.Basic

namespace GuardianDb

open Std Loop SortBy List

/-! ### Sets of entries -/

/-- Some entry of `S` links to `h`. -/
def Linked (S : Finset Entry) (h : Hash) : Prop := ∃ f ∈ S, h ∈ f.next

instance (S : Finset Entry) (h : Hash) : Decidable (Linked S h) :=
  inferInstanceAs (Decidable (∃ f ∈ S, h ∈ f.next))

/-- No two entries of `S` share a hash: the content address identifies them. -/
def HashInjective (S : Finset Entry) : Prop :=
  ∀ e ∈ S, ∀ f ∈ S, e.hash = f.hash → e = f

/-- Every link of a member is the hash of a member. -/
def CausallyClosed (S : Finset Entry) : Prop :=
  ∀ e ∈ S, ∀ n ∈ e.next, ∃ f ∈ S, f.hash = n

/-- Every entry is later than each entry of `S` that it links to. -/
def Monotone (S : Finset Entry) : Prop :=
  ∀ e ∈ S, ∀ f ∈ S, f.hash ∈ e.next → f.clock.time < e.clock.time

instance : DecidablePred HashInjective := fun S =>
  inferInstanceAs (Decidable (∀ e ∈ S, ∀ f ∈ S, e.hash = f.hash → e = f))

instance : DecidablePred CausallyClosed := fun S =>
  -- over the links of an entry: instance search would enumerate all hashes
  decidable_of_iff (∀ e ∈ S, e.next.all (fun n => decide (∃ f ∈ S, f.hash = n)) = true)
    (by simp [CausallyClosed])

instance : DecidablePred Monotone := fun S =>
  inferInstanceAs (Decidable (∀ e ∈ S, ∀ f ∈ S, f.hash ∈ e.next → f.clock.time < e.clock.time))

/-- `e` is the entry of `S` that `f` links to. -/
def IsParent (S : Finset Entry) (e f : Entry) : Prop := e ∈ S ∧ f ∈ S ∧ e.hash ∈ f.next

/-- The links between the entries of `S` form no cycle. -/
def Acyclic (S : Finset Entry) : Prop := ∀ e, ¬ Relation.TransGen (IsParent S) e e

variable {S : Finset Entry} {T : Finset Entry}

theorem HashInjective.mono (h : HashInjective T) (hsub : S ⊆ T) : HashInjective S :=
  fun e he f hf => h e (hsub he) f (hsub hf)

variable {e : Entry} {h : Hash}

@[simp] theorem linked_insert : Linked (insert e S) h ↔ h ∈ e.next ∨ Linked S h := by
  simp [Linked]

@[simp] theorem linked_union : Linked (S ∪ T) h ↔ Linked S h ∨ Linked T h := by
  simp [Linked, or_and_right, exists_or]

/-! ### Heads and duplicates -/

variable {es : List Entry}

theorem mem_parents : h ∈ Log.parents es ↔ ∃ e ∈ es, h ∈ e.next := by
  have hstep : ∀ (m : ExtTreeMap Hash Hash) (e : Entry),
      h ∈ e.next.foldl (fun m n => m.insert n e.hash) m ↔ h ∈ m ∨ h ∈ e.next := by
    intro m e
    rw [Loop.foldl_adds (M := (h ∈ ·)) (P := (· = h)) (by simp [or_comm])]
    simp
  rw [Log.parents, Loop.foldl_adds (M := (h ∈ ·)) hstep]
  simp

/-- The heads of a list are its entries that nothing in the list links to. -/
theorem mem_findHeads : e ∈ Log.findHeads es ↔ e ∈ es ∧ ∀ f ∈ es, e.hash ∉ f.next := by
  simp [Log.findHeads, mem_parents]

theorem mem_linkSet {s : ExtTreeSet Hash} :
    h ∈ Log.linkSet s es ↔ h ∈ s ∨ ∃ e ∈ es, h ∈ e.next :=
  Loop.foldl_adds (M := (h ∈ ·)) (fun s e => by simp [ExtTreeSet.mem_insertMany_list]) es s

theorem mem_dedupFrom :
    ∀ {seen : ExtTreeSet Hash}, e ∈ Log.dedupFrom seen es → e ∈ es ∧ e.hash ∉ seen := by
  induction es with
  | nil => simp [Log.dedupFrom]
  | cons f es ih => grind [Log.dedupFrom]

/-- Deduplication leaves every hash in place. -/
theorem exists_mem_dedupFrom (he : e ∈ es) :
    ∀ seen : ExtTreeSet Hash, e.hash ∉ seen →
      ∃ f ∈ Log.dedupFrom seen es, f.hash = e.hash := by
  induction es with
  | nil => simp at he
  | cons f es ih =>
    intro seen hseen
    rw [Log.dedupFrom]
    by_cases hfe : f.hash = e.hash
    · simp_all
    · have he' : e ∈ es := by grind
      split
      · exact ih he' seen hseen
      · simp_all

theorem dedupFrom_pairwise :
    ∀ (es : List Entry) (seen : ExtTreeSet Hash),
      (Log.dedupFrom seen es).Pairwise (fun a b => a.hash ≠ b.hash)
  | [], _ => List.Pairwise.nil
  | e :: es, seen => by
      rw [Log.dedupFrom]
      split
      · exact dedupFrom_pairwise es seen
      · refine pairwise_cons.mpr ⟨fun f hf => ?_, dedupFrom_pairwise es _⟩
        have hseen := (mem_dedupFrom hf).2
        simp only [ExtTreeSet.mem_insert, not_or] at hseen
        exact fun h => hseen.1 (by simp [h])

theorem nodup_dedup (es : List Entry) : (Log.dedup es).Nodup :=
  (dedupFrom_pairwise es ∅).imp fun hne heq => hne (congrArg Entry.hash heq)

/-- Among entries told apart by their hashes, deduplication keeps all members. -/
theorem mem_dedup (hinj : ∀ a ∈ es, ∀ b ∈ es, a.hash = b.hash → a = b) :
    e ∈ Log.dedup es ↔ e ∈ es := by
  constructor
  · intro h
    exact (mem_dedupFrom h).1
  · intro h
    obtain ⟨f, hf, hfe⟩ := exists_mem_dedupFrom h ∅ (by simp)
    exact hinj f (mem_dedupFrom hf).1 e h hfe ▸ hf

/-- A list whose hashes differ is left as it is. -/
theorem dedupFrom_eq_self :
    ∀ {seen : ExtTreeSet Hash}, es.Pairwise (fun a b => a.hash ≠ b.hash) →
      (∀ e ∈ es, e.hash ∉ seen) → Log.dedupFrom seen es = es := by
  induction es with
  | nil => intros; rfl
  | cons e es ih =>
    intro seen hp hseen
    obtain ⟨hhd, htl⟩ := pairwise_cons.mp hp
    rw [Log.dedupFrom, if_neg (hseen e mem_cons_self), ih htl]
    intro f hf
    have hne := hhd f hf
    have hfs := hseen f (mem_cons_of_mem e hf)
    simp [ExtTreeSet.mem_insert, hne, hfs]

/-! ### The representation relation -/

/-- `log` stands for the set of entries `S`. -/
structure Log.Represents (log : Log) (S : Finset Entry) : Prop where
  entries : ∀ h e, log.entries[h]? = some e ↔ e ∈ S ∧ e.hash = h
  length : log.length = S.card
  nexts : ∀ h, h ∈ log.nexts ↔ Linked S h
  heads : ∀ e, e ∈ log.headEntries ↔ e ∈ S ∧ ¬ Linked S e.hash
  nodup : log.headEntries.Nodup

namespace Log.Represents

variable {log : Log} {S : Finset Entry}

variable {e : Entry}

section
variable (hr : log.Represents S)
include hr

theorem get (he : e ∈ S) : log.entries[e.hash]? = some e :=
  (hr.entries e.hash e).mpr ⟨he, rfl⟩

/-- A log never represents two entries of one hash. -/
theorem hashInjective : HashInjective S := by
  intro e he f hf hef
  have hget := hr.get he
  rw [hef, hr.get hf] at hget
  exact (Option.some.inj hget).symm

theorem mem_entries {h : Hash} :
    h ∈ log.entries ↔ ∃ e ∈ S, e.hash = h := by
  rw [← ExtTreeMap.isSome_getElem?_iff_mem, Option.isSome_iff_exists]
  simp [hr.entries]

theorem headEntries_pairwise :
    log.headEntries.Pairwise (fun a b => a.hash ≠ b.hash) := by
  refine hr.nodup.pairwise_of_forall_ne fun a ha b hb hab hhash => hab ?_
  exact hr.hashInjective a ((hr.heads a).mp ha).1 b ((hr.heads b).mp hb).1 hhash

theorem dedup_headEntries :
    Log.dedup log.headEntries = log.headEntries :=
  dedupFrom_eq_self hr.headEntries_pairwise (by simp)

end

/-! ### Writing operations -/

/-- A log without entries represents the empty set. -/
theorem new_empty (pubKey id : String) (sortFn : Option SortFn) :
    (Log.new pubKey { id := id, sortFn := sortFn }).Represents ∅ where
  entries := by simp [Log.new]
  length := rfl
  nexts := by simp [Log.new, mem_linkSet, Linked]
  heads := by simp [Log.new, Log.findHeads, Log.dedup, Log.dedupFrom, sortBy, insertAll]
  nodup := by simp [Log.new, Log.findHeads, Log.dedup, Log.dedupFrom, sortBy, insertAll]

theorem entries_insert (hr : log.Represents S) (hnew : e.hash ∉ log.entries) (h : Hash) (f : Entry)
    : (log.entries.insert e.hash e)[h]? = some f ↔ f ∈ insert e S ∧ f.hash = h := by
  rw [ExtTreeMap.getElem?_insert, Finset.mem_insert]
  by_cases hh : e.hash = h
  · subst hh
    have hS : ∀ f ∈ S, f.hash ≠ e.hash := fun f hf hfe =>
      hnew (hr.mem_entries.mpr ⟨f, hf, hfe⟩)
    simp only [ReflCmp.compare_self, if_true, Option.some.injEq]
    constructor
    · rintro rfl
      exact ⟨.inl rfl, rfl⟩
    · grind
  · rw [if_neg (by simpa using hh), hr.entries]
    constructor
    · simp_all
    · grind

/-- **A delivered entry inserts itself**, whatever is missing around it. Parents
and children may be absent: the reverse index remembers links ahead of time. -/
theorem addEntry (hr : log.Represents S) (hinj : ∀ f ∈ S, f.hash = e.hash → f = e) :
    (log.addEntry e).Represents (insert e S) := by
  rw [Log.addEntry]
  by_cases hold : e.hash ∈ log.entries
  · obtain ⟨f, hf, hfe⟩ := hr.mem_entries.mp hold
    rw [if_pos hold, Finset.insert_eq_of_mem (hinj f hf hfe ▸ hf)]
    exact hr
  · have heS : e ∉ S := fun he => hold (hr.mem_entries.mpr ⟨e, he, rfl⟩)
    rw [if_neg hold]
    have hnexts : ∀ h, h ∈ log.nexts.insertMany e.next ↔ Linked (insert e S) h := by
      simp [ExtTreeSet.mem_insertMany_list, hr.nexts, or_comm]
    refine ⟨hr.entries_insert hold, ?_, hnexts, ?_, ?_⟩
    · simp only [hr.length, Finset.card_insert_of_notMem heS]
    · intro f
      have hkept : f ∈ log.headEntries.filter (fun h => h.hash ∉ e.next) ↔
          f ∈ S ∧ ¬ Linked (insert e S) f.hash := by
        simp only [mem_filter, hr.heads, linked_insert, decide_eq_true_eq]
        tauto
      have hlast : (if e.hash ∈ log.nexts.insertMany e.next
            then log.headEntries.filter (fun h => h.hash ∉ e.next)
            else log.headEntries.filter (fun h => h.hash ∉ e.next) ++ [e]) =
          log.headEntries.filter (fun h => h.hash ∉ e.next) ++
            (if Linked (insert e S) e.hash then [] else [e]) := by grind
      show f ∈ ite _ _ _ ↔ _
      rw [hlast, mem_append, hkept, Finset.mem_insert]
      constructor
      · grind
      · grind
    · have hkept := hr.nodup.filter (fun h => h.hash ∉ e.next)
      show (ite _ _ _ : List Entry).Nodup
      split
      · exact hkept
      · refine nodup_append.mpr ⟨hkept, nodup_singleton e, ?_⟩
        rintro a ha b hb rfl
        obtain rfl := mem_singleton.mp hb
        exact heS ((hr.heads a).mp (mem_of_mem_filter ha)).1

end Log.Represents

/-- **Any delivery order.** Handing the entries of a list to `addEntry` one by
one leaves a log that stands for the set of its members. -/
theorem foldl_addEntry_represents :
    ∀ (ds : List Entry) {log : Log} {S : Finset Entry}, log.Represents S →
      HashInjective (S ∪ ds.toFinset) →
      (ds.foldl Log.addEntry log).Represents (S ∪ ds.toFinset)
  | [], _, _, hr, _ => by simpa using hr
  | e :: ds, log, S, hr, hinj => by
      have hset : S ∪ (e :: ds).toFinset = insert e S ∪ ds.toFinset := by
        ext f; simp
      rw [hset] at hinj ⊢
      refine foldl_addEntry_represents ds (hr.addEntry ?_) hinj
      intro f hf hfe
      exact hinj f (by simp [hf]) e (by simp) hfe

end GuardianDb
