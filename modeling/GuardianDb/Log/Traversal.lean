/-
The traversal behind `values`: from the heads down, latest entry first.

The loop keeps a stack that is re-sorted at every push. Which entries it emits
does not depend on the comparator: `Frontier` is the invariant of the explored
part, and from it the traversal lists every entry of an acyclic set exactly
once. With a comparator that follows a lawful key, the emitted list also
descends in that key, as long as parents lie below their children.

  * `values_nodup`, `mem_values` — each entry once.
  * `values_pairwise` — ascending in the key.
-/
import Mathlib.Data.Finset.Card
import Mathlib.Data.Fintype.Card
import Mathlib.Data.Set.Finite.Basic
import GuardianDb.Log.Represents

namespace GuardianDb

open Std Loop SortBy List

variable {e : Entry}

namespace Log

/-! ### The explored part -/

/-- Invariant of the traversal over `S`: `done` has been emitted, `acc` is the
stack with the set of hashes pushed so far. -/
structure Frontier (S : Finset Entry) (done : List Entry)
    (acc : List Entry × ExtTreeSet Hash) : Prop where
  nodup : (done ++ acc.1).Nodup
  mem : ∀ e ∈ done ++ acc.1, e ∈ S
  origin : ∀ e ∈ done ++ acc.1, Linked S e.hash → e.hash ∈ acc.2
  marked : ∀ e ∈ S, e.hash ∈ acc.2 → e ∈ done ++ acc.1
  roots : ∀ e ∈ S, ¬ Linked S e.hash → e ∈ done ++ acc.1

/-- The entries of `S` not pushed yet. -/
def remaining (S : Finset Entry) (traversed : ExtTreeSet Hash) : Finset Entry :=
  S.filter fun e => e.hash ∉ traversed

section
variable {log : Log} {S : Finset Entry} {done : List Entry}
  {acc : List Entry × ExtTreeSet Hash} {h : Hash}

theorem mem_resort {stack : List Entry} : e ∈ log.resort stack ↔ e ∈ stack := by
  simp [resort]

theorem resort_perm (log : Log) (stack : List Entry) : (log.resort stack).Perm stack :=
  (reverse_perm _).trans (sortBy_perm _ _)

section
variable (hr : log.Represents S)
include hr

/-- Following one link does one of two things. -/
theorem visit_cases (acc : List Entry × ExtTreeSet Hash) (h : Hash) :
    (log.visit acc h = acc ∧ ∀ f ∈ S, f.hash = h → h ∈ acc.2) ∨
    ∃ x ∈ S, x.hash = h ∧ x.hash ∉ acc.2 ∧
      log.visit acc h = (log.resort (x :: acc.1), acc.2.insert x.hash) := by
  rw [visit]
  cases hget : log.entries[h]? with
  | none =>
    refine .inl ⟨rfl, fun f hf hfh => ?_⟩
    have hsome := hr.get hf
    rw [hfh, hget] at hsome
    exact absurd hsome (by simp)
  | some x =>
    obtain ⟨hx, hxh⟩ := (hr.entries h x).mp hget
    by_cases hmem : x.hash ∈ acc.2
    · exact .inl ⟨if_pos hmem, fun f hf hfh => hxh ▸ hmem⟩
    · exact .inr ⟨x, hx, hxh, hmem, if_neg hmem⟩

theorem visit_frontier (hlink : Linked S h)
    (hF : Frontier S done acc) : Frontier S done (log.visit acc h) := by
  rcases visit_cases hr acc h with ⟨heq, -⟩ | ⟨x, hx, hxh, hnew, heq⟩
  · rw [heq]
    exact hF
  · have hfresh : x ∉ done ++ acc.1 := fun hm => hnew (hF.origin x hm (hxh ▸ hlink))
    have hperm : (done ++ log.resort (x :: acc.1)).Perm (x :: (done ++ acc.1)) :=
      ((log.resort_perm (x :: acc.1)).append_left done).trans perm_middle
    rw [heq]
    refine ⟨hperm.nodup_iff.mpr (nodup_cons.mpr ⟨hfresh, hF.nodup⟩), ?_, ?_, ?_, ?_⟩
    · intro e he
      rcases mem_cons.mp (hperm.mem_iff.mp he) with rfl | he
      · exact hx
      · exact hF.mem e he
    · intro e he hl
      rcases mem_cons.mp (hperm.mem_iff.mp he) with rfl | he
      · exact ExtTreeSet.mem_insert_self
      · exact ExtTreeSet.mem_insert.mpr (Or.inr (hF.origin e he hl))
    · intro e he hm
      rcases ExtTreeSet.mem_insert.mp hm with hxe | hm
      · have hex : e = x := hr.hashInjective e he x hx (LawfulEqCmp.eq_of_compare hxe).symm
        exact hperm.mem_iff.mpr (hex ▸ mem_cons_self)
      · exact hperm.mem_iff.mpr (mem_cons_of_mem x (hF.marked e he hm))
    · intro e he hl
      exact hperm.mem_iff.mpr (mem_cons_of_mem x (hF.roots e he hl))

theorem visit_mono {k : Hash} (hk : k ∈ acc.2) :
    k ∈ (log.visit acc h).2 := by
  rcases visit_cases hr acc h with ⟨heq, -⟩ | ⟨x, -, -, -, heq⟩
  · rw [heq]
    exact hk
  · simp_all

theorem visit_marks {f : Entry} (hf : f ∈ S) (hfh : f.hash = h) :
    f.hash ∈ (log.visit acc h).2 := by
  rcases visit_cases hr acc h with ⟨heq, hall⟩ | ⟨x, -, hxh, -, heq⟩
  · rw [heq, hfh]
    exact hall f hf hfh
  · simp_all

/-- A push moves one entry from the remaining ones to the stack. -/
theorem visit_measure :
    (log.visit acc h).1.length + (remaining S (log.visit acc h).2).card ≤
      acc.1.length + (remaining S acc.2).card := by
  rcases visit_cases hr acc h with ⟨heq, -⟩ | ⟨x, hx, -, hnew, heq⟩
  · rw [heq]
  · have hlt : (remaining S (acc.2.insert x.hash)).card < (remaining S acc.2).card := by
      refine Finset.card_lt_card (Finset.ssubset_iff_of_subset ?_ |>.mpr ⟨x, ?_, ?_⟩)
      · intro e he
        simp only [remaining, Finset.mem_filter, ExtTreeSet.mem_insert, not_or] at he ⊢
        exact ⟨he.1, he.2.2⟩
      · simp [remaining, hx, hnew]
      · simp [remaining]
    rw [heq]
    simp only [(log.resort_perm (x :: acc.1)).length_eq, length_cons]
    omega

end

/-- The links of a popped entry, all followed in turn. -/
theorem foldl_visit (hr : log.Represents S) :
    ∀ (ns : List Hash) {acc : List Entry × ExtTreeSet Hash},
      (∀ n ∈ ns, Linked S n) → Frontier S done acc →
      Frontier S done (ns.foldl log.visit acc) ∧
        (∀ k ∈ acc.2, k ∈ (ns.foldl log.visit acc).2) ∧
        (∀ f ∈ S, f.hash ∈ ns → f.hash ∈ (ns.foldl log.visit acc).2) ∧
        (ns.foldl log.visit acc).1.length + (remaining S (ns.foldl log.visit acc).2).card ≤
          acc.1.length + (remaining S acc.2).card
  | [], acc, _, hF => ⟨hF, fun _ hk => hk, by simp, Nat.le_refl _⟩
  | n :: ns, acc, hl, hF => by
      obtain ⟨hF', hmono, hmark, hle⟩ :=
        foldl_visit hr ns (fun k hk => hl k (mem_cons_of_mem n hk))
          (visit_frontier hr (hl n mem_cons_self) hF)
      refine ⟨hF', fun k hk => hmono k (visit_mono hr hk), ?_, hle.trans (visit_measure hr)⟩
      intro f hf hmem
      rcases mem_cons.mp hmem with hfn | hmem
      · exact hmono _ (visit_marks hr hf hfn)
      · exact hmark f hf hmem

end

/-! ### The loop -/

/-- Loop invariant of an unbounded traversal from the heads. -/
structure Explored (S : Finset Entry) (s : TraverseState) : Prop where
  frontier : Frontier S s.result (s.stack, s.traversed)
  closed : ∀ e ∈ s.result, ∀ f ∈ S, f.hash ∈ e.next → f.hash ∈ s.traversed
  running : s.halted = false

section
variable {log : Log} {S : Finset Entry} {s : TraverseState}

theorem traverseCond_none : traverseCond none s = (!s.stack.isEmpty && !s.halted) := by
  simp [traverseCond]

theorem traverseInit_explored (hr : log.Represents S) :
    Explored S (log.traverseInit log.headEntries) := by
  have hstack : ∀ e, e ∈ log.resort (dedup log.headEntries) ↔ e ∈ S ∧ ¬ Linked S e.hash := by
    intro e
    rw [mem_resort, hr.dedup_headEntries, hr.heads]
  refine ⟨⟨?_, ?_, ?_, ?_, ?_⟩, by simp [traverseInit], rfl⟩
  · simpa [traverseInit, resort, nodup_sortBy] using nodup_dedup log.headEntries
  · simp_all [traverseInit]
  · simp_all [traverseInit]
  · intro e _ hm
    simp [traverseInit] at hm
  · simp_all [traverseInit]

/-- Popping the top of the stack moves it to the emitted part. -/
theorem popped_frontier {rest : List Entry} (hstack : s.stack = e :: rest)
    (hF : Frontier S s.result (s.stack, s.traversed)) :
    Frontier S (s.result ++ [e]) (rest, s.traversed) := by
  have hsplit : (s.result ++ [e]) ++ rest = s.result ++ s.stack := by simp [hstack]
  obtain ⟨hnd, hmem, horig, hmark, hroots⟩ := hF
  exact ⟨by simpa [hsplit] using hnd, by simpa [hsplit] using hmem,
    by simpa [hsplit] using horig, by simpa [hsplit] using hmark,
    by simpa [hsplit] using hroots⟩

/-- One round: the popped entry is emitted and its links are followed. -/
theorem traverseStep_explored (hr : log.Represents S) {rest : List Entry}
    (hstack : s.stack = e :: rest) (hE : Explored S s) :
    Explored S (log.traverseStep none s) ∧
      (log.traverseStep none s).stack.length +
          (remaining S (log.traverseStep none s).traversed).card <
        s.stack.length + (remaining S s.traversed).card := by
  have hF := popped_frontier hstack hE.frontier
  have heS : e ∈ S := hF.mem e (by simp)
  obtain ⟨hF', hmono, hmarks, hle⟩ :=
    foldl_visit hr e.next (fun n hn => ⟨e, heS, hn⟩) hF
  have hstep : log.traverseStep none s =
      { stack := (e.next.foldl log.visit (rest, s.traversed)).1
        traversed := (e.next.foldl log.visit (rest, s.traversed)).2
        result := s.result ++ [e]
        count := s.count + 1
        halted := false } := by
    simp [traverseStep, hstack]
  rw [hstep]
  refine ⟨⟨hF', ?_, rfl⟩, ?_⟩
  · intro d hd f hf hlink
    rcases mem_append.mp hd with hd | hd
    · exact hmono _ (hE.closed d hd f hf hlink)
    · simp_all
  · grind

theorem card_le_size (hr : log.Represents S) : S.card ≤ log.entries.size := by
  rw [← ExtTreeMap.length_keys, ← Finset.card_image_of_injOn (f := Entry.hash)
    (fun e he f hf h => hr.hashInjective e he f hf h)]
  refine Nat.le_trans (Finset.card_le_card ?_) (toFinset_card_le log.entries.keys)
  intro h hh
  obtain ⟨e, he, rfl⟩ := Finset.mem_image.mp hh
  rw [mem_toFinset, ExtTreeMap.mem_keys]
  exact hr.mem_entries.mpr ⟨e, he, rfl⟩

theorem exists_stack_of_cond (h : traverseCond none s = true) :
    ∃ e rest, s.stack = e :: rest := by
  cases hs : s.stack with
  | nil => simp [traverseCond, hs] at h
  | cons e rest => exact ⟨e, rest, rfl⟩

/-- **The traversal ends by itself**, with nothing left on the stack; what every round
preserves holds then. -/
theorem traverseRun_done (hr : log.Represents S) {P : TraverseState → Prop}
    (hinit : P (log.traverseInit log.headEntries))
    (hstep : ∀ s e rest, s.stack = e :: rest → Explored S s → P s → P (log.traverseStep none s)) :
    Explored S (log.traverseRun log.headEntries none none) ∧
      P (log.traverseRun log.headEntries none none) ∧
      (log.traverseRun log.headEntries none none).stack = [] := by
  have hrem : (remaining S (log.traverseInit log.headEntries).traversed).card ≤ S.card :=
    Finset.card_filter_le _ _
  have hlen : (log.traverseInit log.headEntries).stack.length =
      (dedup log.headEntries).length := (log.resort_perm _).length_eq
  have hsize := card_le_size hr
  obtain ⟨⟨hE, hP⟩, hdone⟩ := whileLoop_done (I := fun s => Explored S s ∧ P s)
    (c := traverseCond none) (b := log.traverseStep none)
    (fun s => s.stack.length + (remaining S s.traversed).card)
    (fun s hc hs => by
      obtain ⟨e, rest, hstack⟩ := exists_stack_of_cond hc
      obtain ⟨hE, hlt⟩ := traverseStep_explored hr hstack hs.1
      exact ⟨⟨hE, hstep s e rest hstack hs.1 hs.2⟩, hlt⟩)
    ((dedup log.headEntries).length + log.entries.size)
    ⟨traverseInit_explored hr, hinit⟩ (by omega)
  rw [traverseRun]
  exact ⟨hE, hP, by simpa [traverseCond_none, hE.running] using hdone⟩

end

end Log

/-! ### Every entry once -/

/-- Times that grow along the links rule out cycles. -/
theorem Monotone.acyclic {S : Finset Entry} (hm : Monotone S) : Acyclic S := by
  have hlt : ∀ e f, Relation.TransGen (IsParent S) e f → e.clock.time < f.clock.time := by
    intro e f h
    induction h with
    | single h => exact hm _ h.2.1 _ h.1 h.2.2
    | tail _ h ih => exact ih.trans (hm _ h.2.1 _ h.1 h.2.2)
  exact fun e h => Nat.lt_irrefl _ (hlt e e h)

/-- In an acyclic finite set, what holds of every entry whose children all
satisfy it holds of all entries. -/
theorem Acyclic.induction_down {S : Finset Entry} (ha : Acyclic S) {P : Entry → Prop}
    (step : ∀ e ∈ S, (∀ f ∈ S, e.hash ∈ f.next → P f) → P e) : ∀ e ∈ S, P e := by
  let R : S → S → Prop := fun f e => Relation.TransGen (IsParent S) e.1 f.1
  have : Std.Irrefl R := ⟨fun e h => ha e.1 h⟩
  have hwf : WellFounded R := Finite.wellFounded_of_trans_of_irrefl R
  intro e he
  refine hwf.induction (C := fun e : S => P e.1) ⟨e, he⟩ fun e ih => ?_
  exact step e.1 e.2 fun f hf hlink => ih ⟨f, hf⟩ (.single ⟨e.2, hf, hlink⟩)

namespace Log

section
variable {log : Log} {S : Finset Entry}

theorem values_nodup (hr : log.Represents S) : log.values.Nodup := by
  obtain ⟨hE, -⟩ := traverseRun_done hr (P := fun _ => True) trivial fun _ _ _ _ _ _ => trivial
  have hnd := hE.frontier.nodup
  rw [nodup_append] at hnd
  exact nodup_reverse.mpr hnd.1

/-- **The traversal is complete**: `values` lists the entries of `S`. -/
theorem mem_values (hr : log.Represents S) (ha : Acyclic S) :
    e ∈ log.values ↔ e ∈ S := by
  obtain ⟨hE, -, hstack⟩ :=
    traverseRun_done hr (P := fun _ => True) trivial fun _ _ _ _ _ _ => trivial
  have hF := hE.frontier
  rw [hstack] at hF
  have hmem : ∀ f, f ∈ (log.traverseRun log.headEntries none none).result ++ [] ↔
      f ∈ log.values := by
    simp [values, traverse]
  constructor
  · intro he
    exact hF.mem e ((hmem e).mpr he)
  · intro he
    -- an entry is emitted because it is a head, or because a child of it is
    refine ha.induction_down (P := (· ∈ log.values)) (fun e he ih => ?_) e he
    by_cases hl : Linked S e.hash
    · obtain ⟨f, hf, hef⟩ := hl
      have hfres := (hmem f).mpr (ih f hf hef)
      rw [append_nil] at hfres
      exact (hmem e).mp (hF.marked e he (hE.closed f hfres e he hef))
    · exact (hmem e).mp (hF.roots e he hl)

end

/-! ### Order -/

/-- The log's comparator follows `key` on the entries of `S`. -/
def FollowsOn (log : Log) (key : SortFn) (S : Finset Entry) : Prop :=
  Follows log.sortFn key (· ∈ S)

section
variable {log : Log} {S : Finset Entry} {key : SortFn}

theorem resort_pairwise [TransCmp key] (hf : log.FollowsOn key S) {stack : List Entry}
    (hsub : ∀ e ∈ stack, e ∈ S) :
    (log.resort stack).Pairwise (fun a b => (key a b).isGE) :=
  sortBy_reverse_pairwise fun a b ha hb => hf a b (hsub a ha) (hsub b hb)

/-- The loop emits in descending order: nothing on the stack, and nothing that
can still be pushed, lies above what has been emitted. -/
def Descending (key : SortFn) (done stack : List Entry) : Prop :=
  (done ++ stack).Pairwise fun a b => (key a b).isGE

theorem visit_descending [TransCmp key] (hr : log.Represents S) (hf : log.FollowsOn key S)
    {done : List Entry} {acc : List Entry × ExtTreeSet Hash} {h : Hash}
    (hF : Frontier S (done ++ [e]) acc)
    (hdesc : Descending key (done ++ [e]) acc.1)
    (hbelow : ∀ x ∈ S, x.hash = h → (key e x).isGE) :
    Descending key (done ++ [e]) (log.visit acc h).1 := by
  rcases visit_cases hr acc h with ⟨heq, -⟩ | ⟨x, hx, hxh, -, heq⟩
  · rw [heq]
    exact hdesc
  · rw [heq]
    obtain ⟨hdone, hstack, hcross⟩ := pairwise_append.mp hdesc
    have hsub : ∀ y ∈ x :: acc.1, y ∈ S := by
      intro y hy
      rcases mem_cons.mp hy with rfl | hy
      · exact hx
      · exact hF.mem y (mem_append_right _ hy)
    refine pairwise_append.mpr ⟨hdone, resort_pairwise hf hsub, ?_⟩
    intro d hd y hy
    rcases mem_cons.mp (mem_resort.mp hy) with rfl | hy
    · have hex := hbelow y hx hxh
      rcases mem_append.mp hd with hd | hd
      · have hde : (key d e).isGE :=
          (pairwise_append.mp hdone).2.2 d hd e (mem_singleton.mpr rfl)
        exact TransCmp.isGE_trans hde hex
      · simp_all
    · exact hcross d hd y hy

theorem foldl_visit_descending [TransCmp key] (hr : log.Represents S)
    (hf : log.FollowsOn key S) {done : List Entry} :
    ∀ (ns : List Hash) {acc : List Entry × ExtTreeSet Hash},
      (∀ n ∈ ns, Linked S n) → (∀ n ∈ ns, ∀ x ∈ S, x.hash = n → (key e x).isGE) →
      Frontier S (done ++ [e]) acc → Descending key (done ++ [e]) acc.1 →
      Descending key (done ++ [e]) (ns.foldl log.visit acc).1
  | [], _, _, _, _, hdesc => hdesc
  | n :: ns, acc, hl, hbelow, hF, hdesc => by
      rw [foldl_cons]
      exact foldl_visit_descending hr hf ns (fun k hk => hl k (mem_cons_of_mem n hk))
        (fun k hk => hbelow k (mem_cons_of_mem n hk))
        (visit_frontier hr (hl n mem_cons_self) hF)
        (visit_descending hr hf hF hdesc (hbelow n mem_cons_self))

/-- **Ascending values.** With a comparator that follows a lawful key, and every
parent below its children in the key, `values` ascends in the key. -/
theorem values_pairwise [TransCmp key] (hr : log.Represents S) (hf : log.FollowsOn key S)
    (hbelow : ∀ e ∈ S, ∀ x ∈ S, x.hash ∈ e.next → (key e x).isGE) :
    log.values.Pairwise (fun a b => (key a b).isLE) := by
  have hsub : ∀ e ∈ dedup log.headEntries, e ∈ S := by
    intro e he
    rw [hr.dedup_headEntries] at he
    exact ((hr.heads e).mp he).1
  obtain ⟨-, hdesc, hstack⟩ := traverseRun_done hr (P := fun s => Descending key s.result s.stack)
    (by simpa [Descending, traverseInit] using resort_pairwise hf hsub)
    fun s e rest hstack hE hdesc => by
      have hF : Frontier S (s.result ++ [e]) (rest, s.traversed) :=
        popped_frontier hstack hE.frontier
      have hdesc : Descending key (s.result ++ [e]) rest := by simp_all [Descending]
      have heS : e ∈ S := hF.mem e (by simp)
      have hfold := foldl_visit_descending hr hf e.next (fun n hn => ⟨e, heS, hn⟩)
        (fun n hn x hx hxn => hbelow e heS x hx (hxn ▸ hn)) hF hdesc
      simpa [traverseStep, hstack] using hfold
  rw [Descending, hstack, append_nil] at hdesc
  rw [values, traverse, pairwise_reverse]
  exact hdesc.imp fun h => by rwa [← OrientedCmp.isGE_iff_isLE]

end

end Log

end GuardianDb
