/-
`diff` and the merge of `join`: the union of two causally closed logs.

`diff` walks from the heads of one log and stops at entries the other holds. In
a closed log an entry that is missing has only missing descendants, so the walk
reaches every missing entry; that is an induction from the heads down.

  * `diff_getElem?` — `diff` is set difference.
  * `merge_represents` — the merged log stands for the union.
-/
import GuardianDb.Lib.OrderedMap
import GuardianDb.Log.Traversal

namespace GuardianDb

open List hiding getElem?_insert
open Std Loop SortBy ExtTreeMap

namespace Log

/-! ### The walk of `diff` -/

/-- Links not traversed yet, with repetitions. -/
def untraversed (links : List Hash) (traversed : ExtTreeSet Hash) : Nat :=
  (links.filter fun n => n ∉ traversed).length

theorem untraversed_insert_le (links : List Hash) (t : ExtTreeSet Hash) (n : Hash) :
    untraversed links (t.insert n) ≤ untraversed links t := by
  refine (monotone_filter_right links fun k hk => ?_).length_le
  simp only [ExtTreeSet.mem_insert, not_or, decide_eq_true_eq] at hk ⊢
  exact hk.2

theorem untraversed_insert_lt {links : List Hash} {t : ExtTreeSet Hash} {n : Hash}
    (hn : n ∈ links) (hnew : n ∉ t) :
    untraversed links (t.insert n) < untraversed links t := by
  have heq : links.filter (fun k => k ∉ t.insert n) =
      (links.filter fun k => k ∉ t).filter fun k => k ∉ t.insert n := by simp_all
  rw [untraversed, untraversed, heq, length_filter_lt_length_iff_exists]
  exact ⟨n, by simp [hn, hnew], by simp⟩

/-- What following the links `ns` does to the queue and the traversed set. -/
structure Queued (other : Log) (links ns : List Hash)
    (acc acc' : List Hash × ExtTreeSet Hash) : Prop where
  stack : ∀ h ∈ acc.1, h ∈ acc'.1
  traversed : ∀ h ∈ acc.2, h ∈ acc'.2
  followed : ∀ n ∈ ns, n ∉ other.entries → n ∈ acc'.2
  fresh : ∀ h ∈ acc'.2, h ∈ acc.2 ∨ h ∈ acc'.1
  measure : acc'.1.length + untraversed links acc'.2 ≤ acc.1.length + untraversed links acc.2

theorem foldl_diffVisit (other : Log) {links : List Hash} :
    ∀ (ns : List Hash) (acc : List Hash × ExtTreeSet Hash), (∀ n ∈ ns, n ∈ links) →
      Queued other links ns acc (ns.foldl (diffVisit other) acc)
  | [], acc, _ =>
    ⟨fun _ h => h, fun _ h => h, by simp, fun _ h => Or.inl h, Nat.le_refl _⟩
  | n :: ns, acc, hlinks => by
      have ih := foldl_diffVisit other ns (diffVisit other acc n)
        (fun k hk => hlinks k (mem_cons_of_mem n hk))
      rw [foldl_cons]
      by_cases hq : n ∉ acc.2 ∧ n ∉ other.entries
      · have hv : diffVisit other acc n = (acc.1 ++ [n], acc.2.insert n) := if_pos hq
        rw [hv] at ih ⊢
        refine ⟨fun h hh => ih.stack h (by simp [hh]),
          fun h hh => ih.traversed h (ExtTreeSet.mem_insert.mpr (Or.inr hh)), ?_, ?_, ?_⟩
        · intro k hk hout
          rcases mem_cons.mp hk with rfl | hk
          · exact ih.traversed k ExtTreeSet.mem_insert_self
          · exact ih.followed k hk hout
        · intro h hh
          rcases ih.fresh h hh with hh | hh
          · rcases ExtTreeSet.mem_insert.mp hh with hn | hh
            · exact Or.inr (ih.stack h (by simp [LawfulEqCmp.eq_of_compare hn]))
            · exact Or.inl hh
          · exact Or.inr hh
        · have hlt := untraversed_insert_lt (hlinks n mem_cons_self) hq.1
          have hle := ih.measure
          simp only [length_append, length_singleton] at hle
          omega
      · have hv : diffVisit other acc n = acc := if_neg hq
        rw [hv] at ih ⊢
        refine ⟨ih.stack, ih.traversed, ?_, ih.fresh, ih.measure⟩
        intro k hk hout
        rcases mem_cons.mp hk with rfl | hk
        · exact ih.traversed k (by simpa [hout] using hq)
        · exact ih.followed k hk hout

/-- Loop invariant of `diff` for a log of `T`. -/
structure Walked (T : Finset Entry) (other : Log) (s : DiffState) : Prop where
  sound : ∀ h e, s.diff[h]? = some e → e ∈ T ∧ e.hash = h ∧ h ∉ other.entries
  heads : ∀ e ∈ T, ¬ Linked T e.hash → e.hash ∉ other.entries →
    e.hash ∈ s.stack ∨ s.diff[e.hash]? = some e
  queued : ∀ e ∈ T, e.hash ∈ s.traversed → e.hash ∉ other.entries →
    e.hash ∈ s.stack ∨ s.diff[e.hash]? = some e
  links : ∀ e ∈ T, s.diff[e.hash]? = some e → ∀ n ∈ e.next, n ∉ other.entries → n ∈ s.traversed

section
variable {log other : Log} {T : Finset Entry} {s : DiffState}

section
variable (hr : log.Represents T)
include hr

theorem mem_allLinks {e : Entry} (he : e ∈ T) {n : Hash} (hn : n ∈ e.next) : n ∈ log.allLinks := by
  refine mem_flatMap.mpr ⟨(e.hash, e), ?_, hn⟩
  exact mem_toList_iff_getElem?_eq_some.mpr (hr.get he)

/-- One round either skips a hash or takes over one missing entry. -/
theorem diffStep_cases (hids : ∀ e ∈ T, e.id = other.id)
    {hash : Hash} {rest : List Hash} (hstack : s.stack = hash :: rest) :
    (log.diffStep other s = { s with stack := rest } ∧
      ∀ e ∈ T, e.hash = hash → hash ∈ other.entries) ∨
    ∃ e ∈ T, e.hash = hash ∧ hash ∉ other.entries ∧
      log.diffStep other s =
        { stack := (e.next.foldl (diffVisit other) (rest, s.traversed)).1
          traversed := (e.next.foldl (diffVisit other) (rest, s.traversed)).2.insert e.hash
          diff := s.diff.insert e.hash e } := by
  rw [diffStep, hstack]
  cases hget : log.entries[hash]? with
  | none =>
    refine .inl ⟨by simp only [hget], fun e he heh => ?_⟩
    have hsome := hr.get he
    rw [heh, hget] at hsome
    exact absurd hsome (by simp)
  | some e =>
    obtain ⟨he, heh⟩ := (hr.entries hash e).mp hget
    by_cases hin : hash ∈ other.entries
    · exact .inl ⟨by simp [hget, hin], fun _ _ _ => hin⟩
    · exact .inr ⟨e, he, heh, hin, by simp [hget, hin, hids e he]⟩

theorem diffStep_walked (hids : ∀ e ∈ T, e.id = other.id)
    {hash : Hash} {rest : List Hash} (hstack : s.stack = hash :: rest)
    (hW : Walked T other s) :
    Walked T other (log.diffStep other s) ∧
      (log.diffStep other s).stack.length +
          untraversed log.allLinks (log.diffStep other s).traversed <
        s.stack.length + untraversed log.allLinks s.traversed := by
  have hpop : ∀ h, h ∈ s.stack → h = hash ∨ h ∈ rest := by simp [hstack]
  rcases diffStep_cases hr hids hstack with ⟨heq, hskip⟩ | ⟨e, he, heh, hout, heq⟩
  · rw [heq]
    refine ⟨⟨hW.sound, ?_, ?_, hW.links⟩, ?_⟩
    · intro f hf hl hfo
      rcases hW.heads f hf hl hfo with h | h
      · grind
      · exact .inr h
    · intro f hf ht hfo
      rcases hW.queued f hf ht hfo with h | h
      · grind
      · exact .inr h
    · simp [hstack]
  · have hQ := foldl_diffVisit other e.next (rest, s.traversed)
      (fun n hn => mem_allLinks hr he hn)
    -- an entry is taken over by this round, or what was known of it still holds
    have hget : ∀ f ∈ T, (s.diff.insert e.hash e)[f.hash]? = some f ↔
        f = e ∨ s.diff[f.hash]? = some f := by
      intro f hf
      rw [getElem?_insert]
      by_cases hfe : e.hash = f.hash
      · have := hr.hashInjective e he f hf hfe
        subst this
        simp
      · grind
    have hcover : ∀ f ∈ T, (f.hash ∈ s.stack ∨ s.diff[f.hash]? = some f) →
        f.hash ∈ (e.next.foldl (diffVisit other) (rest, s.traversed)).1 ∨
          (s.diff.insert e.hash e)[f.hash]? = some f := by
      intro f hf h
      rw [hget f hf]
      rcases h with h | h
      · rcases hpop _ h with h | h
        · exact .inr (.inl (hr.hashInjective f hf e he (h.trans heh.symm)))
        · exact .inl (hQ.stack _ h)
      · exact .inr (.inr h)
    rw [heq]
    refine ⟨⟨?_, ?_, ?_, ?_⟩, ?_⟩
    · intro h f hf
      rw [getElem?_insert] at hf
      split at hf
      · simp_all
      · exact hW.sound h f hf
    · exact fun f hf hl hfo => hcover f hf (hW.heads f hf hl hfo)
    · intro f hf ht hfo
      rcases ExtTreeSet.mem_insert.mp ht with hc | ht
      · grind
      · rcases hQ.fresh _ ht with ht | ht
        · exact hcover f hf (hW.queued f hf ht hfo)
        · exact .inl ht
    · intro f hf hd n hn hno
      refine ExtTreeSet.mem_insert.mpr (.inr ?_)
      rcases (hget f hf).mp hd with rfl | hd
      · exact hQ.followed n hn hno
      · exact hQ.traversed n (hW.links f hf hd n hn hno)
    · have hle := hQ.measure
      have hins := untraversed_insert_le log.allLinks
        (e.next.foldl (diffVisit other) (rest, s.traversed)).2 e.hash
      simp only [hstack, length_cons] at hle ⊢
      omega

theorem diffRun_init :
    Walked T other ⟨log.headEntries.map (·.hash), ∅, ∅⟩ := by
  refine ⟨by simp, ?_, by simp, by simp⟩
  intro e he hl _
  exact .inl (mem_map.mpr ⟨e, (hr.heads e).mpr ⟨he, hl⟩, rfl⟩)

end

theorem exists_head_of_nonempty (h : (!s.stack.isEmpty) = true) :
    ∃ hash rest, s.stack = hash :: rest := by
  cases hs : s.stack with
  | nil => simp [hs] at h
  | cons hash rest => exact ⟨hash, rest, rfl⟩

theorem diffRun_walked (hr : log.Represents T) (hids : ∀ e ∈ T, e.id = other.id) :
    Walked T other (log.diffRun other) ∧ (log.diffRun other).stack = [] := by
  have hrun := whileLoop_done (I := Walked T other)
    (fun s : DiffState => s.stack.length + untraversed log.allLinks s.traversed)
    (fun s hc hW => by
      obtain ⟨hash, rest, hstack⟩ := exists_head_of_nonempty hc
      exact diffStep_walked hr hids hstack hW)
    (log.headEntries.length + log.allLinks.length) (diffRun_init hr)
    (by simp [untraversed])
  simpa [diffRun] using hrun

/-- **`diff` is set difference**, between causally closed logs. -/
theorem diff_getElem? {S : Finset Entry} (hr : log.Represents T) (hr' : other.Represents S)
    (hids : ∀ e ∈ T, e.id = other.id) (hclosed : CausallyClosed S) (hacyclic : Acyclic T)
    (hinj : HashInjective (S ∪ T)) (h : Hash) (e : Entry) :
    (log.diff other)[h]? = some e ↔ e ∈ T \ S ∧ e.hash = h := by
  obtain ⟨hW, hstack⟩ := diffRun_walked hr hids
  have hout : ∀ f ∈ T, f.hash ∉ other.entries ↔ f ∉ S := by
    intro f hf
    rw [hr'.mem_entries, not_iff_not]
    constructor
    · rintro ⟨g, hg, hgf⟩
      exact hinj g (Finset.mem_union_left T hg) f (Finset.mem_union_right S hf) hgf ▸ hg
    · exact fun hfS => ⟨f, hfS, rfl⟩
  have hall : ∀ f ∈ T, f ∉ S → (log.diffRun other).diff[f.hash]? = some f := by
    refine hacyclic.induction_down fun f hf ih hfS => ?_
    have hfo := (hout f hf).mpr hfS
    by_cases hl : Linked T f.hash
    · obtain ⟨g, hg, hfg⟩ := hl
      -- a held child would, by closure, have its parent held as well
      have hgS : g ∉ S := by
        intro hgS
        obtain ⟨p, hp, hpf⟩ := hclosed g hgS _ hfg
        exact hfo (hr'.mem_entries.mpr ⟨p, hp, hpf⟩)
      have ht := hW.links g hg (ih g hg hfg hgS) _ hfg hfo
      simpa [hstack] using hW.queued f hf ht hfo
    · simpa [hstack] using hW.heads f hf hl hfo
  constructor
  · intro hd
    obtain ⟨heT, heh, heo⟩ := hW.sound h e hd
    exact ⟨Finset.mem_sdiff.mpr ⟨heT, (hout e heT).mp (heh ▸ heo)⟩, heh⟩
  · rintro ⟨hmem, rfl⟩
    obtain ⟨heT, heS⟩ := Finset.mem_sdiff.mp hmem
    exact hall e heT heS

end

/-! ### The merge -/

section
variable {A B : Log} {S T : Finset Entry}

section
variable (hdiff : ∀ h e, (B.diff A)[h]? = some e ↔ e ∈ T \ S ∧ e.hash = h)
include hdiff

/-- An entry taken over was not held before. -/
theorem notMem_entries_of_mem_diff
    (hr : A.Represents S) (hinj : HashInjective (S ∪ T)) {p : Hash × Entry}
    (hp : p ∈ (B.diff A).toList) : p.1 ∉ A.entries := by
  intro hmem
  obtain ⟨hpT, hph⟩ := (hdiff p.1 p.2).mp (mem_toList_iff_getElem?_eq_some.mp hp)
  obtain ⟨hT, hS⟩ := Finset.mem_sdiff.mp hpT
  obtain ⟨f, hf, hfp⟩ := hr.mem_entries.mp hmem
  exact hS (hinj f (Finset.mem_union_left T hf) p.2 (Finset.mem_union_right S hT)
    (hfp.trans hph.symm) ▸ hf)

theorem merge_entries (hr : A.Represents S) (hinj : HashInjective (S ∪ T)) (h : Hash) (e : Entry) :
    (A.merge B).entries[h]? = some e ↔ e ∈ S ∪ T ∧ e.hash = h := by
  have hkeys : ((B.diff A).toList.map (·.1)).Nodup := by
    rw [map_fst_toList_eq_keys]
    exact nodup_keys
  have hnew : ∀ p ∈ (B.diff A).toList, p.1 ∉ A.entries :=
    fun p hp => notMem_entries_of_mem_diff hdiff hr hinj hp
  rw [merge, OrderedMap.getElem?_foldl_insert hkeys hnew, mem_toList_iff_getElem?_eq_some,
    hdiff, hr.entries]
  simp only [Finset.mem_sdiff, Finset.mem_union]
  tauto

/-- The entries taken over, as a list without repetitions. -/
theorem mem_newItems {e : Entry} : e ∈ (B.diff A).toList.map (·.2) ↔ e ∈ T \ S := by
  constructor
  · simp_all
  · simp_all

theorem length_newItems :
    (B.diff A).toList.length = (T \ S).card := by
  have hnd : ((B.diff A).toList.map (·.2)).Nodup := by
    refine pairwise_map.mpr
      ((distinct_keys_toList (t := B.diff A)).imp_of_mem ?_)
    intro p q hp hq hne heq
    have hp' := ((hdiff p.1 p.2).mp (mem_toList_iff_getElem?_eq_some.mp hp)).2
    have hq' := ((hdiff q.1 q.2).mp (mem_toList_iff_getElem?_eq_some.mp hq)).2
    exact hne (by simp [← hp', ← hq', heq])
  have hset : ((B.diff A).toList.map (·.2)).toFinset = T \ S := by
    ext e
    rw [mem_toFinset, mem_newItems hdiff]
  rw [← hset, toFinset_card_of_nodup hnd, length_map]

theorem linked_merge (hr : A.Represents S) (h : Hash) :
    h ∈ linkSet A.nexts ((B.diff A).toList.map (·.2)) ↔ Linked (S ∪ T) h := by
  rw [mem_linkSet, hr.nexts, linked_union]
  simp only [mem_newItems hdiff, Finset.mem_sdiff]
  constructor
  · rintro (hS | ⟨e, ⟨heT, -⟩, he⟩)
    · exact .inl hS
    · exact .inr ⟨e, heT, he⟩
  · rintro (hS | ⟨e, heT, he⟩)
    · exact .inl hS
    · by_cases heS : e ∈ S
      · exact .inl ⟨e, heS, he⟩
      · exact .inr ⟨e, ⟨heT, heS⟩, he⟩

end

/-- The heads of a join, in the list order the source leaves them in. -/
theorem mergedHeads_eq (hr : A.Represents S)
    (hdiff : ∀ h e, (B.diff A)[h]? = some e ↔ e ∈ T \ S ∧ e.hash = h) :
    (A.merge B).headEntries =
      dedup ((findHeads (A.headEntries ++ B.headEntries)).filter
        fun e => ¬ Linked (S ∪ T) e.hash) := by
  simp only [merge, mergedHeads, filter_filter]
  congr 1
  refine filter_congr fun e _ => ?_
  have hnew : e.hash ∈ linkSet ∅ ((B.diff A).toList.map (·.2)) → Linked (S ∪ T) e.hash := by
    intro hmem
    refine (linked_merge hdiff hr e.hash).mp (mem_linkSet.mpr (.inr ?_))
    simpa using mem_linkSet.mp hmem
  rw [← Bool.decide_and, decide_eq_decide]
  constructor
  · exact fun h => fun hl => h.1 ((linked_merge hdiff hr e.hash).mpr hl)
  · exact fun h => ⟨fun hl => h ((linked_merge hdiff hr e.hash).mp hl), fun hl => h (hnew hl)⟩

theorem mem_mergedHeads (hr : A.Represents S) (hr' : B.Represents T)
    (hinj : HashInjective (S ∪ T)) {e : Entry} :
    e ∈ dedup ((findHeads (A.headEntries ++ B.headEntries)).filter
        fun e => ¬ Linked (S ∪ T) e.hash) ↔
      e ∈ S ∪ T ∧ ¬ Linked (S ∪ T) e.hash := by
  have hsub : ∀ f ∈ A.headEntries ++ B.headEntries, f ∈ S ∪ T := by
    intro f hf
    rcases mem_append.mp hf with hf | hf
    · exact Finset.mem_union_left T ((hr.heads f).mp hf).1
    · exact Finset.mem_union_right S ((hr'.heads f).mp hf).1
  have hmem : ∀ f, f ∈ (findHeads (A.headEntries ++ B.headEntries)).filter
      (fun e => ¬ Linked (S ∪ T) e.hash) ↔
      f ∈ A.headEntries ++ B.headEntries ∧ ¬ Linked (S ∪ T) f.hash := by
    intro f
    simp only [mem_filter, mem_findHeads, decide_eq_true_eq]
    constructor
    · exact fun h => ⟨h.1.1, h.2⟩
    · exact fun h => ⟨⟨h.1, fun g hg hfg => h.2 ⟨g, hsub g hg, hfg⟩⟩, h.2⟩
  rw [mem_dedup fun a ha b hb hab =>
    hinj a (hsub a ((hmem a).mp ha).1) b (hsub b ((hmem b).mp hb).1) hab, hmem]
  constructor
  · exact fun h => ⟨hsub e h.1, h.2⟩
  · rintro ⟨hmemU, hl⟩
    refine ⟨mem_append.mpr ?_, hl⟩
    simp only [linked_union, not_or] at hl
    rcases Finset.mem_union.mp hmemU with he | he
    · exact .inl ((hr.heads e).mpr ⟨he, hl.1⟩)
    · exact .inr ((hr'.heads e).mpr ⟨he, hl.2⟩)

/-- **A merge stands for the union.** -/
theorem merge_represents (hr : A.Represents S) (hr' : B.Represents T)
    (hids : ∀ e ∈ T, e.id = A.id) (hclosed : CausallyClosed S) (hacyclic : Acyclic T)
    (hinj : HashInjective (S ∪ T)) : (A.merge B).Represents (S ∪ T) := by
  have hdiff := diff_getElem? hr' hr hids hclosed hacyclic hinj
  refine ⟨merge_entries hdiff hr hinj, ?_, linked_merge hdiff hr, ?_, ?_⟩
  · have hall : (B.diff A).toList.filter (fun p => p.1 ∉ A.entries) = (B.diff A).toList := by
      refine filter_eq_self.mpr fun p hp => decide_eq_true ?_
      exact notMem_entries_of_mem_diff hdiff hr hinj hp
    have hcard : (S ∪ T).card = S.card + (T \ S).card := by grind
    simp only [merge, hall, length_newItems hdiff, hr.length, hcard]
  · intro e
    rw [mergedHeads_eq hr hdiff]
    exact mem_mergedHeads hr hr' hinj
  · rw [mergedHeads_eq hr hdiff]
    exact nodup_dedup _

end

end Log

end GuardianDb
