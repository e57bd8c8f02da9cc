/-
`join` as a union of logs, and the one thing it does not determine.

Entries and heads of a join are those of the union. Its values are a function of
the union exactly as long as no two heads tie, that is, as long as the log's
comparator does not answer `Less` for two heads both ways. `find_heads` turns
the order of tied heads around, the traversal keeps it, so a log with tied heads
already changes its values when it is joined with itself.

  * `joinLog_represents` — entries and heads of a join.
  * `values_eq_of_heads_eq` — values are a function of the entries and the
    sorted heads.
  * `unionOnly_iff_tieFree`, `join_laws_iff` — when values depend on the union
    only, and when `join` is commutative, associative and idempotent.
-/
import GuardianDb.Log.Convergence
import GuardianDb.Log.Diff

namespace GuardianDb

open Std Loop SortBy List

/-! ### Comparators with ties -/

/-- Two entries the comparator puts before each other. -/
def Tied (cmp : SortFn) (a b : Entry) : Prop := cmp a b = .lt ∧ cmp b a = .lt

instance (cmp : SortFn) : DecidableRel (Tied cmp) := fun a b =>
  inferInstanceAs (Decidable (cmp a b = .lt ∧ cmp b a = .lt))

/-- The sorting functions the repository gives to a log. -/
def IsSortFn (f : SortFn) : Prop :=
  f = lastWriteWins ∨ f = sortByEntryHash ∨ f = defaultSortFn

/-- On the entries of `S` the comparator is a lawful key that answers `Less` for
entries the key does not tell apart; those have one clock. -/
structure Resolves (cmp key : SortFn) (S : Finset Entry) : Prop where
  follows : Follows cmp key (· ∈ S)
  ties : ∀ a ∈ S, ∀ b ∈ S, a ≠ b → key a b = .eq → cmp a b = .lt
  clock : ∀ a b, key a b = .eq → a.clock = b.clock

variable {S : Finset Entry}

theorem resolves_lastWriteWins (hinj : HashInjective S) :
    Resolves (noZeroes lastWriteWins) clockKey S := by
  have hcmp : ∀ a ∈ S, ∀ b ∈ S, a ≠ b → noZeroes lastWriteWins a b = lastWriteWins a b := by
    intro a ha b hb hab
    have hh : a.hash ≠ b.hash := fun h => hab (hinj a ha b hb h)
    have hne : lastWriteWins a b ≠ .eq := by grind [lastWriteWins_eq, clockKey_eq_iff]
    simp [noZeroes, hh, hne]
  refine ⟨fun a b ha hb hne => ?_, fun a ha b hb hab he => ?_, fun a b => clockKey_eq_iff.mp⟩
  · have hab : a ≠ b := fun h => hne (h ▸ ReflCmp.compare_self)
    rw [hcmp a ha b hb hab, lastWriteWins_eq, if_neg (mt clockKey_eq_iff.mpr hne)]
  · rw [hcmp a ha b hb hab, lastWriteWins_eq, if_pos (clockKey_eq_iff.mp he)]

theorem resolves_entryKey (hinj : HashInjective S) : Resolves (noZeroes entryKey) entryKey S := by
  refine ⟨fun a b ha hb hne => ?_, fun a ha b hb hab he => ?_,
    fun a b he => (entryKey_eq_iff.mp he).1⟩
  · have hh : a.hash ≠ b.hash := fun h => hne (hinj a ha b hb h ▸ ReflCmp.compare_self)
    simp [noZeroes_entryKey, hh]
  · exact absurd (hinj a ha b hb (entryKey_eq_iff.mp he).2) hab

/-- Every sorting function of the repository is of this shape. -/
theorem IsSortFn.resolves {f : SortFn} (hf : IsSortFn f) (hinj : HashInjective S) :
    ∃ key : SortFn, TransCmp key ∧ Resolves (noZeroes f) key S := by
  rcases hf with rfl | rfl | rfl
  · exact ⟨clockKey, inferInstance, resolves_lastWriteWins hinj⟩
  · exact ⟨entryKey, inferInstance, sortByEntryHash_eq ▸ resolves_entryKey hinj⟩
  · exact ⟨entryKey, inferInstance, defaultSortFn_eq ▸ resolves_entryKey hinj⟩

theorem Resolves.tied_iff {cmp key : SortFn} [TransCmp key] (hres : Resolves cmp key S)
    {a b : Entry} (ha : a ∈ S) (hb : b ∈ S) (hab : a ≠ b) : Tied cmp a b ↔ key a b = .eq := by
  constructor
  · rintro ⟨hlt, hgt⟩
    by_contra hne
    have hne' : key b a ≠ .eq := fun h => hne (OrientedCmp.eq_comm.mp h)
    rw [hres.follows a b ha hb hne] at hlt
    rw [hres.follows b a hb ha hne', OrientedCmp.gt_of_lt hlt] at hgt
    exact absurd hgt (by decide)
  · intro he
    exact ⟨hres.ties a ha b hb hab he,
      hres.ties b hb a ha (Ne.symm hab) (OrientedCmp.eq_comm.mp he)⟩

/-- No two heads of `S` tie. -/
def TieFree (cmp : SortFn) (S : Finset Entry) : Prop :=
  ∀ a ∈ S, ∀ b ∈ S, ¬ Linked S a.hash → ¬ Linked S b.hash → a ≠ b → ¬ Tied cmp a b

instance (cmp : SortFn) : DecidablePred (TieFree cmp) := fun S =>
  inferInstanceAs (Decidable
    (∀ a ∈ S, ∀ b ∈ S, ¬ Linked S a.hash → ¬ Linked S b.hash → a ≠ b → ¬ Tied cmp a b))

namespace Log

/-! ### Values from entries and sorted heads -/

section
variable {log log' : Log} {S : Finset Entry}

theorem entries_eq_of_represents (hr : log.Represents S) (hr' : log'.Represents S) :
    log'.entries = log.entries := by
  refine ExtTreeMap.ext_getElem? fun h => Option.ext fun e => ?_
  rw [hr'.entries, hr.entries]

/-- **Values are a function of the entries and the sorted heads.** -/
theorem values_eq_of_heads_eq (hentries : log'.entries = log.entries)
    (hsort : log'.sortFn = log.sortFn) (hheads : log'.heads = log.heads) :
    log'.values = log.values := by
  have hvisit : log'.visit = log.visit := by
    funext acc h
    simp only [visit, resort, hentries, hsort]
  have hstep : log'.traverseStep none = log.traverseStep none := by
    funext s
    simp only [traverseStep, hvisit]
  have hlen : (dedup log'.headEntries).length = (dedup log.headEntries).length :=
    (log'.resort_perm _).length_eq.symm.trans
      ((congrArg List.length hheads).trans (log.resort_perm _).length_eq)
  have hinit : log'.traverseInit log'.headEntries = log.traverseInit log.headEntries := by
    simp only [traverseInit]
    rw [show log'.resort (dedup log'.headEntries) = log.resort (dedup log.headEntries) from hheads]
  simp only [values, traverse, traverseRun, hstep, hlen, hinit, hentries]

/-- Without ties among the heads, their sorted list is a function of the set. -/
theorem heads_eq_of_tieFree {key : SortFn} [TransCmp key] (hr : log.Represents S)
    (hr' : log'.Represents S) (hres : Resolves log.sortFn key S)
    (hsort : log'.sortFn = log.sortFn) (htie : TieFree log.sortFn S) :
    log'.heads = log.heads := by
  have hhead : ∀ {l : Log}, l.Represents S → ∀ e ∈ dedup l.headEntries,
      e ∈ S ∧ ¬ Linked S e.hash := by
    intro l hl e he
    rw [hl.dedup_headEntries] at he
    exact (hl.heads e).mp he
  have hdesc : ∀ {l : Log}, l.Represents S → l.sortFn = log.sortFn →
      l.heads.Pairwise (fun a b => (key a b).isGE) := by
    intro l hl hls
    have hf : l.FollowsOn key S := by
      rw [FollowsOn, hls]
      exact hres.follows
    exact resort_pairwise hf fun e he => (hhead hl e he).1
  have hperm : log'.heads.Perm log.heads := by
    refine ((log'.resort_perm _).trans ?_).trans (log.resort_perm _).symm
    rw [hr'.dedup_headEntries, hr.dedup_headEntries]
    refine (perm_ext_iff_of_nodup hr'.nodup hr.nodup).mpr fun e => ?_
    rw [hr'.heads, hr.heads]
  refine eq_of_pairwise_isGE hperm ?_ (hdesc hr' hsort) (hdesc hr rfl)
  intro a ha b hb he
  obtain ⟨haS, hal⟩ := hhead hr' a (mem_resort.mp ha)
  obtain ⟨hbS, hbl⟩ := hhead hr' b (mem_resort.mp hb)
  by_contra hab
  exact htie a haS b hbS hal hbl hab ((hres.tied_iff haS hbS hab).mpr he)

end

/-! ### Tied heads keep their order through a traversal -/

section
variable {log : Log} {S : Finset Entry} {key : SortFn}

/-- `p` selects heads of `S` that tie with each other. -/
structure TiedHeads (key : SortFn) (S : Finset Entry) (p : Entry → Bool) : Prop where
  head : ∀ e ∈ S, p e = true → ¬ Linked S e.hash
  tied : ∀ a ∈ S, p a = true → ∀ b ∈ S, p b = true → key a b = .eq

variable {p : Entry → Bool}

theorem filter_resort [TransCmp key] (hres : Resolves log.sortFn key S) (hp : TiedHeads key S p)
    {stack : List Entry} (hsub : ∀ e ∈ stack, e ∈ S) (hnd : stack.Nodup) :
    (log.resort stack).filter p = stack.filter p := by
  refine filter_sortBy_reverse (fun a b ha hb => hres.follows a b (hsub a ha) (hsub b hb)) ?_ ?_
  · exact fun a ha hpa b hb hpb => hp.tied a (hsub a ha) hpa b (hsub b hb) hpb
  · refine hnd.imp_of_mem fun {a b} ha hb hab he => ?_
    exact hres.ties b (hsub b hb) a (hsub a ha) (Ne.symm hab) he

/-- Following links never moves, adds or removes a tied head. -/
theorem filter_foldl_visit [TransCmp key] (hr : log.Represents S) (hres : Resolves log.sortFn key S)
    (hp : TiedHeads key S p) {done : List Entry} :
    ∀ (ns : List Hash) {acc : List Entry × ExtTreeSet Hash},
      (∀ n ∈ ns, Linked S n) → Frontier S done acc →
      (ns.foldl log.visit acc).1.filter p = acc.1.filter p
  | [], _, _, _ => rfl
  | n :: ns, acc, hl, hF => by
      have hlink := hl n (.head _)
      have hF' := visit_frontier hr hlink hF
      rw [foldl_cons, filter_foldl_visit hr hres hp ns
        (fun k hk => hl k (.tail n hk)) hF']
      rcases visit_cases hr acc n with ⟨heq, -⟩ | ⟨x, hx, hxn, -, heq⟩
      · rw [heq]
      · rw [heq] at hF' ⊢
        have hnd : (x :: acc.1).Nodup :=
          (log.resort_perm _).nodup_iff.mp (nodup_append.mp hF'.nodup).2.1
        have hsub : ∀ e ∈ x :: acc.1, e ∈ S := fun e he =>
          hF'.mem e (mem_append_right _ (mem_resort.mpr he))
        have hpx : p x = false := by
          by_contra hpx
          exact hp.head x hx (by simpa using hpx) (hxn ▸ hlink)
        rw [filter_resort hres hp hsub hnd, filter_cons, hpx]
        rfl

/-- **Tied heads are listed in the order of the sorted heads.** -/
theorem filter_values [TransCmp key] (hr : log.Represents S) (hres : Resolves log.sortFn key S)
    (hp : TiedHeads key S p) : log.values.filter p = (log.heads.filter p).reverse := by
  obtain ⟨-, hkept, hstack⟩ := traverseRun_done hr
    (P := fun s => (s.result ++ s.stack).filter p = log.heads.filter p)
    (by simp [traverseInit, heads]) fun s e rest hstack hE hs => by
      have hF := popped_frontier hstack hE.frontier
      have heS : e ∈ S := hF.mem e (by simp)
      have hfold := filter_foldl_visit hr hres hp e.next (fun n hn => ⟨e, heS, hn⟩) hF
      rw [← hs, hstack]
      simp only [traverseStep, hstack, filter_append, hfold]
      rw [append_assoc, ← filter_append, singleton_append]
  rw [hstack, append_nil] at hkept
  rw [values, traverse, filter_reverse, hkept]

end

/-! ### Joining a log with itself turns tied heads around -/

section
variable {p : Entry → Bool}

theorem dedupFrom_congr : ∀ {es : List Entry} {seen seen' : ExtTreeSet Hash},
    (∀ e ∈ es, e.hash ∈ seen ↔ e.hash ∈ seen') → dedupFrom seen es = dedupFrom seen' es
  | [], _, _, _ => rfl
  | e :: es, seen, seen', h => by
      have hins : ∀ f ∈ es, f.hash ∈ seen.insert e.hash ↔ f.hash ∈ seen'.insert e.hash := by
        simp_all
      rw [dedupFrom, dedupFrom, dedupFrom_congr fun f hf => h f (mem_cons_of_mem e hf),
        dedupFrom_congr hins]
      exact if_congr (h e mem_cons_self) rfl rfl

theorem filter_dedupFrom : ∀ (es : List Entry) (seen : ExtTreeSet Hash),
    (∀ a ∈ es, ∀ b ∈ es, a.hash = b.hash → a = b) →
    (dedupFrom seen es).filter p = dedupFrom seen (es.filter p)
  | [], _, _ => rfl
  | e :: es, seen, hinj => by
      have ih := fun t => filter_dedupFrom es t
        fun a ha b hb => hinj a (.tail e ha) b (.tail e hb)
      rw [dedupFrom]
      cases hpe : p e with
      | true => grind [dedupFrom]
      | false =>
        rw [filter_cons_of_neg (by simp [hpe])]
        split
        · exact ih seen
        · rw [filter_cons_of_neg (by simp [hpe]), ih]
          -- the hash just seen belongs to no selected entry
          refine dedupFrom_congr fun f hf => ?_
          have hfm := mem_filter.mp hf
          have hne : e.hash ≠ f.hash := fun h => by
            have := hinj e (.head _) f (.tail e hfm.1) h
            subst this
            simp [hpe] at hfm
          simp [ExtTreeSet.mem_insert, hne]

theorem dedupFrom_append_self : ∀ (es fs : List Entry) (seen : ExtTreeSet Hash),
    es.Pairwise (fun a b => a.hash ≠ b.hash) → (∀ e ∈ es, e.hash ∉ seen) →
    (∀ f ∈ fs, f.hash ∈ seen ∨ f ∈ es) → dedupFrom seen (es ++ fs) = es
  | [], [], _, _, _, _ => rfl
  | [], f :: fs, seen, _, _, hfs => by
      have hf : f.hash ∈ seen := by simpa using hfs f mem_cons_self
      have ih := dedupFrom_append_self [] fs seen List.Pairwise.nil (by simp)
        fun g hg => hfs g (mem_cons_of_mem f hg)
      rw [nil_append, dedupFrom, if_pos hf]
      exact ih
  | e :: es, fs, seen, hp, hseen, hfs => by
      obtain ⟨hhd, htl⟩ := pairwise_cons.mp hp
      rw [cons_append, dedupFrom, if_neg (hseen e mem_cons_self),
        dedupFrom_append_self es fs _ htl]
      · simp_all
      · grind

end

section
variable {log : Log} {S : Finset Entry} {key : SortFn}

/-- Clock ids as a lawful key of `find_heads`' comparator. -/
def idKey : SortFn := compareOn fun e => e.clock.id

instance : TransCmp idKey := inferInstanceAs (TransCmp (compareOn fun e : Entry => e.clock.id))

/-- `find_heads` reverses the order of entries with one clock id. -/
theorem filter_findHeads {es : List Entry} {p : Entry → Bool}
    (hunlinked : ∀ e ∈ es, ∀ f ∈ es, e.hash ∉ f.next)
    (hclass : ∀ a ∈ es, p a = true → ∀ b ∈ es, p b = true → a.clock = b.clock) :
    (findHeads es).filter p = (es.filter p).reverse := by
  have hall : es.filter (fun e => e.hash ∉ parents es) = es := by
    grind [filter_eq_self, mem_parents]
  have hfollows : Follows headOrder idKey (· ∈ es) := fun a b _ _ hne => if_neg hne
  have hsort := filter_sortBy_reverse (p := p) hfollows
    (fun a ha hpa b hb hpb => by simp [idKey, compareOn, hclass a ha hpa b hb hpb])
    (pairwise_of_forall fun a b he => if_pos he)
  rw [findHeads, hall, ← hsort, filter_reverse, reverse_reverse]

/-- **Self-join.** Merging a log with itself reverses its tied heads. -/
theorem filter_headEntries_merge_self [TransCmp key] (hr : log.Represents S)
    (hres : Resolves log.sortFn key S) (hids : ∀ e ∈ S, e.id = log.id)
    (hclosed : CausallyClosed S) (hacyclic : Acyclic S) {p : Entry → Bool}
    (hp : TiedHeads key S p) :
    (log.merge log).headEntries.filter p = (log.headEntries.filter p).reverse := by
  have hinj := hr.hashInjective
  have hinj' : HashInjective (S ∪ S) := by rwa [Finset.union_self]
  have hdiff := diff_getElem? hr hr hids hclosed hacyclic hinj'
  have hH : ∀ e ∈ log.headEntries ++ log.headEntries, e ∈ S ∧ ¬ Linked S e.hash := by
    intro e he
    exact (hr.heads e).mp (by simpa using he)
  have hfind : (findHeads (log.headEntries ++ log.headEntries)).filter
      (fun e => ¬ Linked (S ∪ S) e.hash) = findHeads (log.headEntries ++ log.headEntries) := by
    grind [filter_eq_self, mem_findHeads]
  have hflt : (findHeads (log.headEntries ++ log.headEntries)).filter p =
      (log.headEntries.filter p).reverse ++ (log.headEntries.filter p).reverse := by
    rw [filter_findHeads, filter_append, reverse_append]
    · exact fun e he f hf hef => (hH e he).2 ⟨f, (hH f hf).1, hef⟩
    · exact fun a ha hpa b hb hpb =>
        hres.clock a b (hp.tied a (hH a ha).1 hpa b (hH b hb).1 hpb)
  rw [mergedHeads_eq hr hdiff, hfind, dedup, filter_dedupFrom, hflt]
  · refine dedupFrom_append_self _ _ ∅ ?_ (by simp) fun f hf => .inr hf
    rw [pairwise_reverse]
    exact (hr.headEntries_pairwise.filter p).imp Ne.symm
  · intro a ha b hb hab
    exact hinj a (hH a (mem_findHeads.mp ha).1).1 b (hH b (mem_findHeads.mp hb).1).1 hab

end

end Log

/-! ### Replicas -/

/-- The entries ever written: addressed by content, and linked without cycles. -/
structure Content where
  entries : Finset Entry
  injective : HashInjective entries
  acyclic : Acyclic entries

/-- A causally closed log with id `id` that sorts by `f`, over written entries. -/
structure Replica (U : Content) (f : SortFn) (id : String) where
  log : Log
  held : Finset Entry
  represents : log.Represents held
  sub : held ⊆ U.entries
  closed : CausallyClosed held
  ids : ∀ e ∈ held, e.id = id
  logId : log.id = id
  sortFn : log.sortFn = noZeroes f

/-- What a log shows: its entries, its heads and its values. -/
def Log.view (log : Log) : ExtTreeMap Hash Entry × List Entry × List Entry :=
  (log.entries, log.heads, log.values)

theorem Log.heads_eq_of_view_eq {log log' : Log} (h : log'.view = log.view) :
    log'.heads = log.heads :=
  congrArg (fun v => v.2.1) h

variable {T : Finset Entry}

theorem Acyclic.mono (ha : Acyclic T) (hsub : S ⊆ T) : Acyclic S := by
  have hle : IsParent S ≤ IsParent T :=
    fun _ _ hab => ⟨hsub hab.1, hsub hab.2.1, hab.2.2⟩
  exact fun e he => ha e (Relation.TransGen.mono hle e e he)

theorem CausallyClosed.union (hS : CausallyClosed S) (hT : CausallyClosed T) :
    CausallyClosed (S ∪ T) := by
  intro e he n hn
  rcases Finset.mem_union.mp he with he | he
  · obtain ⟨f, hf, hfn⟩ := hS e he n hn
    exact ⟨f, Finset.mem_union_left T hf, hfn⟩
  · obtain ⟨f, hf, hfn⟩ := hT e he n hn
    exact ⟨f, Finset.mem_union_right S hf, hfn⟩

namespace Replica

variable {U : Content} {f : SortFn} {id : String}

theorem union_injective (A B : Replica U f id) : HashInjective (A.held ∪ B.held) :=
  U.injective.mono (Finset.union_subset A.sub B.sub)

theorem acyclic (A : Replica U f id) : Acyclic A.held := U.acyclic.mono A.sub

/-- The log `join` leaves in place of `A`. -/
def joinLog (A B : Replica U f id) : Log :=
  { A.log.merge B.log with
    clock := ⟨A.log.clock.id, Log.maxTime 0 (A.log.merge B.log).headEntries⟩ }

theorem join_eq_some (A B : Replica U f id) :
    A.log.join B.log none = some (A.joinLog B) := by
  rw [Log.join, if_neg (by rw [A.logId, B.logId]; simp)]
  rfl

/-- **Entries and heads of a join** are those of the union. -/
theorem joinLog_represents (A B : Replica U f id) :
    (A.joinLog B).Represents (A.held ∪ B.held) := by
  obtain ⟨h₁, h₂, h₃, h₄, h₅⟩ := Log.merge_represents A.represents B.represents
    (fun e he => (B.ids e he).trans A.logId.symm) A.closed B.acyclic (A.union_injective B)
  exact ⟨h₁, h₂, h₃, h₄, h₅⟩

/-- `join` without a size limit, from replica to replica. -/
def join (A B : Replica U f id) : Replica U f id where
  log := A.joinLog B
  held := A.held ∪ B.held
  represents := A.joinLog_represents B
  sub := Finset.union_subset A.sub B.sub
  closed := A.closed.union B.closed
  ids := by
    intro e he
    rcases Finset.mem_union.mp he with he | he
    · exact A.ids e he
    · exact B.ids e he
  logId := A.logId
  sortFn := A.sortFn

/-- The replica that received the entries `ds`. -/
def ofDeliveries (pubKey : String) (ds : List Entry) (hsub : ds.toFinset ⊆ U.entries)
    (hclosed : CausallyClosed ds.toFinset) (hids : ∀ e ∈ ds.toFinset, e.id = id) :
    Replica U f id where
  log := ds.foldl Log.addEntry (Log.new pubKey { id := id, sortFn := some f })
  held := ds.toFinset
  represents := by
    have hr := foldl_addEntry_represents ds (Log.Represents.new_empty pubKey id (some f))
      (by simpa using U.injective.mono hsub)
    simpa using hr
  sub := hsub
  closed := hclosed
  ids := hids
  logId := Log.foldl_addEntry_id ds _
  sortFn := Log.foldl_addEntry_sortFn ds _

/-! ### When values depend on the union only -/

/-- Replicas of one tie-free set show the same. -/
theorem view_eq_of_tieFree (hf : IsSortFn f) {A B : Replica U f id} (hheld : B.held = A.held)
    (htie : TieFree (noZeroes f) A.held) : B.log.view = A.log.view := by
  obtain ⟨key, hkey, hres⟩ := hf.resolves A.represents.hashInjective
  have hrB : B.log.Represents A.held := hheld ▸ B.represents
  have hsort : B.log.sortFn = A.log.sortFn := B.sortFn.trans A.sortFn.symm
  rw [← A.sortFn] at hres htie
  have hentries := Log.entries_eq_of_represents A.represents hrB
  have hheads := Log.heads_eq_of_tieFree A.represents hrB hres hsort htie
  rw [Log.view, Log.view, hentries, hheads, Log.values_eq_of_heads_eq hentries hsort hheads]

theorem eq_of_reverse_eq {l : List Entry} (hnd : l.Nodup) (hrev : l.reverse = l) {a b : Entry}
    (ha : a ∈ l) (hb : b ∈ l) : a = b := by
  cases l with
  | nil => simp at ha
  | cons x l =>
    cases l with
    | nil => simp_all
    | cons y l =>
      have hlast : (x :: y :: l).getLast? = some x := by grind
      have hmem : x ∈ y :: l := by grind
      exact absurd hmem (nodup_cons.mp hnd).1

/-- A replica with two tied heads shows something else after a join with itself. -/
theorem not_tied_of_idempotent (hf : IsSortFn f) {A : Replica U f id}
    (hidem : (A.join A).log.heads = A.log.heads ∨ (A.join A).log.values = A.log.values) :
    TieFree (noZeroes f) A.held := by
  intro a ha b hb hal hbl hab htied
  obtain ⟨key, hkey, hres⟩ := hf.resolves A.represents.hashInjective
  rw [← A.sortFn] at hres htied
  have hkab : key a b = .eq := (hres.tied_iff ha hb hab).mp htied
  let p : Entry → Bool := fun e => e = a ∨ e = b
  have hp : Log.TiedHeads key A.held p := by
    refine ⟨fun e _ hpe => ?_, fun x _ hpx y _ hpy => ?_⟩
    · grind
    · rcases of_decide_eq_true hpx with rfl | rfl <;>
        rcases of_decide_eq_true hpy with rfl | rfl
      · exact ReflCmp.compare_self
      · exact hkab
      · exact OrientedCmp.eq_comm.mp hkab
      · exact ReflCmp.compare_self
  -- both logs represent the same set, so both keep the order of their head list
  have hself : A.held ∪ A.held = A.held := Finset.union_self A.held
  have hr' : (A.join A).log.Represents A.held := by
    have h := (A.join A).represents
    rwa [show (A.join A).held = A.held from hself] at h
  have hres' : Resolves (A.join A).log.sortFn key A.held := hres
  have hheads : ∀ {l : Log}, l.Represents A.held → Resolves l.sortFn key A.held →
      l.heads.filter p = l.headEntries.filter p := by
    intro l hl hlres
    rw [Log.heads, hl.dedup_headEntries]
    exact Log.filter_resort hlres hp (fun e he => ((hl.heads e).mp he).1) hl.nodup
  have hturn : (A.join A).log.headEntries.filter p = (A.log.headEntries.filter p).reverse :=
    Log.filter_headEntries_merge_self A.represents hres
      (fun e he => (A.ids e he).trans A.logId.symm) A.closed A.acyclic hp
  have hpal : (A.log.headEntries.filter p).reverse = A.log.headEntries.filter p := by
    rcases hidem with h | h
    · rw [← hturn, ← hheads hr' hres', h, hheads A.represents hres]
    · have hv := Log.filter_values hr' hres' hp
      rw [h, Log.filter_values A.represents hres hp, reverse_inj, hheads A.represents hres,
        hheads hr' hres', hturn] at hv
      exact hv.symm
  have hmem : ∀ e, (e = a ∨ e = b) → e ∈ A.log.headEntries.filter p := by
    grind [A.represents.heads]
  exact hab (eq_of_reverse_eq (A.represents.nodup.filter p) hpal (hmem a (.inl rfl))
    (hmem b (.inr rfl)))

/-! ### The laws -/

/-- `J` holds exactly what `A` and `B` hold, and its heads are the held entries
that no held entry links to. -/
structure IsUnion (A B J : Log) : Prop where
  entries : ∀ (h : Hash) (e : Entry), J.entries[h]? = some e ↔ A.entries[h]? = some e ∨ B.entries[h]? = some e
  heads : ∀ e, e ∈ J.heads ↔
    J.entries[e.hash]? = some e ∧
      ∀ (h : Hash) (g : Entry), J.entries[h]? = some g → e.hash ∉ g.next
  nodup : J.heads.Nodup

theorem joinLog_isUnion (A B : Replica U f id) : IsUnion A.log B.log (A.joinLog B) := by
  have hr := A.joinLog_represents B
  refine ⟨fun h e => ?_, fun e => ?_, ?_⟩
  · rw [hr.entries, A.represents.entries, B.represents.entries, Finset.mem_union, or_and_right]
  · rw [Log.heads, Log.mem_resort, hr.dedup_headEntries, hr.heads]
    constructor
    · rintro ⟨he, hl⟩
      refine ⟨hr.get he, fun h g hg hlink => hl ⟨g, ((hr.entries h g).mp hg).1, hlink⟩⟩
    · rintro ⟨he, hl⟩
      refine ⟨((hr.entries _ e).mp he).1, ?_⟩
      rintro ⟨g, hg, hlink⟩
      exact hl g.hash g (hr.get hg) hlink
  · rw [Log.heads, hr.dedup_headEntries, ((A.joinLog B).resort_perm _).nodup_iff]
    exact hr.nodup

/-- Every join with the union of `A` and `B` shows what the join of `A` and `B` shows. -/
def UnionOnly (A B : Replica U f id) : Prop :=
  ∀ D E : Replica U f id, D.held ∪ E.held = A.held ∪ B.held →
    (D.join E).log.view = (A.join B).log.view

/-- **Values depend on the union only exactly without ties among its heads.** -/
theorem unionOnly_iff_tieFree (hf : IsSortFn f) (A B : Replica U f id) :
    UnionOnly A B ↔ TieFree (noZeroes f) (A.held ∪ B.held) := by
  constructor
  · intro h
    have hself := h (A.join B) (A.join B) (Finset.union_self _)
    exact not_tied_of_idempotent hf (A := A.join B) (.inl (Log.heads_eq_of_view_eq hself))
  · intro htie D E hheld
    exact view_eq_of_tieFree hf (A := A.join B) (B := D.join E) hheld htie

/-- What the join of `A`, `B` and `C` is expected to satisfy beyond entries and
heads: it shows the union only, and is commutative, associative and idempotent. -/
structure JoinLaws (A B C : Replica U f id) : Prop where
  unionOnly : UnionOnly A B
  unionOnly₃ : UnionOnly (A.join B) C
  comm : (A.join B).log.view = (B.join A).log.view
  assoc : ((A.join B).join C).log.view = (A.join (B.join C)).log.view
  idem : (A.join A).log.view = A.log.view

/-- **`join` is the union of logs, up to tied heads.** For replicas of one log id
under a sorting function of the repository, `join` without a size limit succeeds
and yields the union, with the heads of the union; and the laws of a union hold
on entries, heads and values exactly when no two heads of `A`, of `A ∪ B` or of
`A ∪ B ∪ C` tie under the log's comparator. -/
theorem join_laws_iff (hf : IsSortFn f) (A B C : Replica U f id) :
    (∃ J, A.log.join B.log none = some J ∧ IsUnion A.log B.log J) ∧
    (JoinLaws A B C ↔
      TieFree (noZeroes f) A.held ∧ TieFree (noZeroes f) (A.held ∪ B.held) ∧
        TieFree (noZeroes f) (A.held ∪ B.held ∪ C.held)) := by
  refine ⟨⟨_, A.join_eq_some B, A.joinLog_isUnion B⟩, ?_, ?_⟩
  · intro h
    refine ⟨?_, (unionOnly_iff_tieFree hf A B).mp h.unionOnly,
      (unionOnly_iff_tieFree hf (A.join B) C).mp h.unionOnly₃⟩
    exact not_tied_of_idempotent hf (A := A) (.inl (Log.heads_eq_of_view_eq h.idem))
  · rintro ⟨hA, hAB, hABC⟩
    refine ⟨(unionOnly_iff_tieFree hf A B).mpr hAB,
      (unionOnly_iff_tieFree hf (A.join B) C).mpr hABC, ?_, ?_, ?_⟩
    · exact (view_eq_of_tieFree hf (A := A.join B) (B := B.join A)
        (Finset.union_comm B.held A.held) hAB).symm
    · exact (view_eq_of_tieFree hf (A := (A.join B).join C) (B := A.join (B.join C))
        (Finset.union_assoc A.held B.held C.held).symm hABC).symm
    · exact view_eq_of_tieFree hf (A := A) (B := A.join A) (Finset.union_self A.held) hA

/-- Two entries one identity wrote concurrently: same clock, different content. -/
def twinA : Entry := ⟨1, "log", [97], [], ⟨"alice", 1⟩⟩

@[inherit_doc twinA]
def twinB : Entry := ⟨2, "log", [98], [], ⟨"alice", 1⟩⟩

/-- A later entry on top of both. -/
def twinTop : Entry := ⟨3, "log", [99], [1, 2], ⟨"bob", 2⟩⟩

def twins : Content where
  entries := {twinA, twinB, twinTop}
  injective := by decide
  acyclic := Monotone.acyclic (by decide)

/-- The replicas that received `ds` of the example. -/
def twinReplica (ds : List Entry) (hsub : ds.toFinset ⊆ twins.entries)
    (hclosed : CausallyClosed ds.toFinset) (hids : ∀ e ∈ ds.toFinset, e.id = "log") :
    Replica twins lastWriteWins "log" :=
  ofDeliveries "alice" ds hsub hclosed hids

/-- **The default comparator lets `join` depend on its direction.** Two closed
logs hold one entry each; the joins hold both, and list them in opposite orders. -/
theorem join_values_not_comm :
    ∃ A B : Replica twins lastWriteWins "log",
      (A.join B).held = (B.join A).held ∧
      (A.join B).log.values = [twinA, twinB] ∧ (B.join A).log.values = [twinB, twinA] :=
  ⟨twinReplica [twinA] (by decide) (by decide) (by decide),
    twinReplica [twinB] (by decide) (by decide) (by decide), by decide, by decide, by decide⟩

/-- Once a common descendant covers the tied entries, the laws hold. -/
theorem join_laws_covered_twins :
    JoinLaws (twinReplica [twinA] (by decide) (by decide) (by decide))
      (twinReplica [twinA, twinB, twinTop] (by decide) (by decide) (by decide))
      (twinReplica [twinB] (by decide) (by decide) (by decide)) :=
  (join_laws_iff (.inl rfl) _ _ _).2.mpr ⟨by decide, by decide, by decide⟩

end Replica

end GuardianDb
