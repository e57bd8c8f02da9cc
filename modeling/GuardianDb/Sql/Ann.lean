/-
The vector index of a table and the views it is reconciled with (`sql/ann.rs`).

An ANN query brings the shared index up to the view of the table that its statement has
loaded, which is a session's own inside a transaction. The pass over the rows is left out
when the row ids of the view have the versions they had at the last query. Versions do not
identify contents: a row that is deleted and inserted again starts over, a rolled back
version is given again, and a deleted row keeps its version in the view of its transaction.

The checks of the operator and of the query's dimension come before and leave the index
alone; snapshots on disk are left out. A transaction takes its view when it begins.

  * `reconcile_spec` — a pass over the rows leaves the vectors of the view.
  * `tracksAll_iff` — for any sequence of views.
  * `index_tracks_iff` — for the views of any history of writes and transactions.
  * `reinserted_row_keeps_old_vector` — the point of a deleted row stays.
-/
import GuardianDb.Lib.Run
import GuardianDb.Relational.Hnsw
import GuardianDb.Sql.Store

namespace GuardianDb.Sql

open List hiding contains contains_iff_mem map_map
open Std Relational HnswIndexState ExtTreeMap

variable {C : Crates}

/-! ### Reconciling -/

/-- BLAKE3, on row ids with versions and on vectors. -/
structure Hashes where
  row : String → Int → UInt64
  vector : List F32 → UInt64

/-- The vector of a column; any other value counts as none. -/
def vectorAt (column : String) (values : RowValues C) : Option (List F32) :=
  match values[column]? with
  | some (.vector v) => some v
  | _ => none

/-- The rows of a view as the index takes them. -/
def viewRows (column : String) (t : LoadedTable C) : ViewRows :=
  t.rows.toList.map fun row => (row.1, t.versionOf row.1, vectorAt column row.2)

def fingerprintOf (h : Hashes) (t : LoadedTable C) : UInt64 :=
  viewFingerprint h.row t.versions.toList

def reconcile (h : Hashes) (column : String) (s : HnswIndexState) (t : LoadedTable C) :
    HnswIndexState :=
  let fp := fingerprintOf h t
  let rows := viewRows column t
  if s.isCurrent fp then s
  else if s.liveCount = 0 then { buildBulk h.vector s.dims rows with fingerprint := fp }
  else
    let merged := (reconcileRows h.vector s rows).retainRows fun rid => t.rows.contains rid
    let s' := if merged.needsRebuild then buildBulk h.vector s.dims rows else merged
    { s' with fingerprint := fp }

/-- The vector of a row of the view, if it is one of the declared dimension. -/
def indexed (column : String) (dims : Nat) (t : LoadedTable C) (rid : String) :
    Option (List F32) :=
  t.rows[rid]?.bind fun values => indexable dims (vectorAt column values)

/-- The live points of the index are the rows of the view that have a vector. -/
def Tracks (column : String) (s : HnswIndexState) (t : LoadedTable C) : Prop :=
  ∀ rid vec, s.Represented rid vec ↔ indexed column s.dims t rid = some vec

/-- Some row of the view has the vector in the column. -/
def InColumn (column : String) (t : LoadedTable C) (v : List F32) : Prop :=
  ∃ (rid : String) (values : RowValues C), t.rows[rid]? = some values ∧
    vectorAt column values = some v

/-- The hashes tell apart the versions and the vectors of the views. -/
structure NoCollisions (h : Hashes) (column : String) (views : List (LoadedTable C)) : Prop where
  initial : ∀ t ∈ views, fingerprintOf h t ≠ 0
  versions : ∀ t ∈ views, ∀ u ∈ views, fingerprintOf h t = fingerprintOf h u →
    t.versions = u.versions
  vectors : ∀ t ∈ views, ∀ u ∈ views, ∀ v w, InColumn column t v → InColumn column u w →
    h.vector v = h.vector w → v = w

section
variable {h : Hashes} {column : String} {dims : Nat} {known : List F32 → Prop}
  {s : HnswIndexState} {t : LoadedTable C} {rid : String} {vec : List F32}

theorem keys_viewRows : (viewRows column t).map (·.1) = t.rows.keys := by
  simp only [viewRows, List.map_map, Function.comp_def]
  exact map_fst_toList_eq_keys

theorem nodup_viewRows : ((viewRows column t).map (·.1)).Nodup := by
  rw [keys_viewRows]
  exact nodup_keys

theorem offers_viewRows :
    Offers dims (viewRows column t) rid vec ↔ indexed column dims t rid = some vec := by
  simp only [Offers, viewRows, mem_map, Prod.mk.injEq, indexed, Option.bind_eq_some_iff]
  constructor
  · simp_all
  · simp_all

/-- The vectors of the view are known, and their hashes tell them from the known ones. -/
def Knows (h : Hashes) (column : String) (known : List F32 → Prop) (t : LoadedTable C) : Prop :=
  ∀ w, InColumn column t w → known w ∧ ∀ v, known v → h.vector v = h.vector w → v = w

theorem Knows.covers (hknows : Knows h column known t) :
    Covers h.vector known (viewRows column t) := by
  intro row hrow w hw
  obtain ⟨⟨rid, values⟩, hmem, rfl⟩ := mem_map.mp hrow
  exact hknows w ⟨rid, values, mem_toList_iff_getElem?_eq_some.mp hmem, hw⟩

/-- A consistent index that holds the vectors of the view. -/
structure Current (h : Hashes) (column : String) (known : List F32 → Prop) (dims : Nat)
    (s : HnswIndexState) (t : LoadedTable C) : Prop where
  consistent : HnswIndexState.Consistent h.vector known s
  sameDims : s.dims = dims
  holds : ∀ rid vec, s.Holds rid vec ↔ indexed column dims t rid = some vec

theorem current_buildBulk (hknows : Knows h column known t) :
    Current h column known dims (buildBulk h.vector dims (viewRows column t)) t := by
  rw [buildBulk_eq_reconcileRows nodup_viewRows]
  obtain ⟨hcons, hdims, hholds⟩ :=
    reconcileRows_spec (consistent_new dims) hknows.covers nodup_viewRows
  refine ⟨hcons, hdims, fun rid vec => ?_⟩
  rw [hholds, ← offers_viewRows]
  simp only [not_holds_new, and_false, or_false]
  exact Iff.rfl

/-- The pass over the rows gives every row of the view its vector; the others go. -/
theorem current_retainRows (hs : HnswIndexState.Consistent h.vector known s)
    (hknows : Knows h column known t) :
    Current h column known s.dims
      ((reconcileRows h.vector s (viewRows column t)).retainRows fun rid => t.rows.contains rid)
      t := by
  obtain ⟨hcons, hdims, hholds⟩ := reconcileRows_spec hs hknows.covers nodup_viewRows
  refine ⟨Loop.foldl_invariant _ (fun _ r _ h => h.tombstoneRow r) hcons,
    (Loop.foldl_frame HnswIndexState.dims (fun _ _ => dims_tombstoneRow) _ _).trans hdims,
    fun rid vec => ?_⟩
  · rw [holds_retainRows, hholds, ← offers_viewRows, keys_viewRows, ExtTreeMap.mem_keys,
      contains_iff_mem]
    constructor
    · simp_all
    · intro hoffers
      have hmem := hoffers.mem_keys
      rw [keys_viewRows, ExtTreeMap.mem_keys] at hmem
      exact ⟨hmem, .inl hoffers⟩

theorem Current.setFingerprint (hc : Current h column known dims s t) (fp : UInt64) :
    Current h column known dims { s with fingerprint := fp } t :=
  ⟨{ hc.consistent with }, hc.sameDims, hc.holds⟩

/-- **After a query the index has the vectors of its view**, unless the fingerprint is that of
the query before: then it is as it was. -/
theorem reconcile_spec (hs : HnswIndexState.Consistent h.vector known s)
    (hknows : Knows h column known t) :
    (reconcile h column s t).fingerprint = fingerprintOf h t ∧
    (s.fingerprint = fingerprintOf h t → reconcile h column s t = s) ∧
    (s.fingerprint ≠ fingerprintOf h t →
      Current h column known s.dims (reconcile h column s t) t) := by
  by_cases hfp : s.fingerprint = fingerprintOf h t
  · simp_all [reconcile, isCurrent]
  · have hpass : reconcile h column s t =
        { (if s.liveCount = 0 then buildBulk h.vector s.dims (viewRows column t)
          else
            let merged := (reconcileRows h.vector s (viewRows column t)).retainRows
              fun rid => t.rows.contains rid
            if merged.needsRebuild then buildBulk h.vector s.dims (viewRows column t)
            else merged) with fingerprint := fingerprintOf h t } := by
      simp only [reconcile, isCurrent, beq_eq_false_iff_ne.mpr hfp, Bool.false_eq_true, if_false]
      split <;> rfl
    refine ⟨by rw [hpass], fun heq => absurd heq hfp, fun _ => ?_⟩
    rw [hpass]
    refine Current.setFingerprint ?_ _
    split
    · exact current_buildBulk hknows
    · show Current h column known s.dims (ite _ _ _) t
      split
      · exact current_buildBulk hknows
      · exact current_retainRows hs hknows

end

/-! ### Sequences of views -/

section
variable {h : Hashes} {column : String} {dims : Nat} {known : List F32 → Prop}
  {s : HnswIndexState}

theorem Current.tracks {t : LoadedTable C} (hc : Current h column known dims s t) :
    Tracks column s t := by
  intro rid vec
  rw [represented_iff_holds hc.consistent, hc.holds, hc.sameDims]

/-- The index has the vectors of each view after its query. -/
def TracksAll (h : Hashes) (column : String) :
    HnswIndexState → List (LoadedTable C) → Prop
  | _, [] => True
  | s, t :: views => Tracks column (reconcile h column s t) t ∧
      TracksAll h column (reconcile h column s t) views

/-- Two views with the same versions have the same vectors. -/
def Alike (column : String) (dims : Nat) (t u : LoadedTable C) : Prop :=
  t.versions = u.versions → ∀ rid, indexed column dims t rid = indexed column dims u rid

theorem Current.alike_iff {t u : LoadedTable C} (hc : Current h column known dims s t) :
    Tracks column s u ↔ ∀ rid, indexed column dims t rid = indexed column dims u rid := by
  simp only [Tracks, represented_iff_holds hc.consistent, hc.holds, hc.sameDims]
  exact forall_congr' fun rid => ⟨fun hiff => Option.ext hiff, fun heq vec => by rw [heq]⟩

/-- By induction on the views: with the versions of the view before, a view finds the index as
that one left it; with others, it finds its own vectors. -/
theorem tracksAll_iff_of_current : ∀ {views : List (LoadedTable C)} {s : HnswIndexState}
    {u : LoadedTable C}, Current h column known dims s u → s.fingerprint = fingerprintOf h u →
    (∀ t ∈ u :: views, Knows h column known t) →
    (∀ t ∈ u :: views, ∀ t' ∈ u :: views, fingerprintOf h t = fingerprintOf h t' →
      t.versions = t'.versions) →
    (TracksAll h column s views ↔ (u :: views).IsChain (Alike column dims))
  | [], _, _, _, _, _, _ => by simp [TracksAll]
  | t :: views, s, u, hc, hfp, hknows, hversions => by
      obtain ⟨hfp', hskip, hpass⟩ :=
        reconcile_spec hc.consistent (hknows t (mem_cons_of_mem u mem_cons_self))
      have hknows' : ∀ t' ∈ t :: views, Knows h column known t' := fun t' ht' =>
        hknows t' (mem_cons_of_mem u ht')
      have hversions' : ∀ a ∈ t :: views, ∀ b ∈ t :: views,
          fingerprintOf h a = fingerprintOf h b → a.versions = b.versions := fun a ha b hb =>
        hversions a (mem_cons_of_mem u ha) b (mem_cons_of_mem u hb)
      rw [TracksAll, isChain_cons_cons]
      by_cases heq : s.fingerprint = fingerprintOf h t
      · have hsame : u.versions = t.versions :=
          hversions u mem_cons_self t (mem_cons_of_mem u mem_cons_self)
            (hfp.symm.trans heq)
        rw [hskip heq, hc.alike_iff]
        have halike : (∀ rid, indexed column dims u rid = indexed column dims t rid) ↔
            Alike column dims u t := ⟨fun hall _ => hall, fun hall => hall hsame⟩
        rw [halike]
        refine and_congr_right fun hall => ?_
        have hct : Current h column known dims s t :=
          ⟨hc.consistent, hc.sameDims, fun rid vec => by rw [hc.holds, hall hsame]⟩
        exact tracksAll_iff_of_current hct heq hknows' hversions'
      · have hct := hpass heq
        rw [hc.sameDims] at hct
        have halike : Alike column dims u t := fun hsame => by
          have hprint : fingerprintOf h u = fingerprintOf h t := by
            rw [fingerprintOf, hsame, ← fingerprintOf]
          exact absurd (hfp.trans hprint) heq
        rw [tracksAll_iff_of_current hct hfp' hknows' hversions']
        exact ⟨fun hchain => ⟨halike, hchain.2⟩, fun hchain => ⟨hct.tracks, hchain.2⟩⟩

/-- **For any sequence of views**, the index has the vectors of each view after its query if
and only if each view with the versions of the one before has its vectors too. -/
theorem tracksAll_iff {views : List (LoadedTable C)} (hnc : NoCollisions h column views) :
    TracksAll h column (.new dims) views ↔ views.IsChain (Alike column dims) := by
  cases views with
  | nil => simp [TracksAll]
  | cons t views =>
    let known : List F32 → Prop := fun v => ∃ u ∈ t :: views, InColumn column u v
    have hknows : ∀ u ∈ t :: views, Knows h column known u := fun u hu w hw =>
      ⟨⟨u, hu, hw⟩, fun v ⟨u', hu', hv⟩ => hnc.vectors u' hu' u hu v w hv hw⟩
    have hnew : (HnswIndexState.new dims).fingerprint ≠ fingerprintOf h t := fun heq =>
      hnc.initial t mem_cons_self heq.symm
    obtain ⟨hfp, -, hpass⟩ :=
      reconcile_spec (consistent_new dims) (hknows t mem_cons_self)
    have hc := hpass hnew
    rw [TracksAll, tracksAll_iff_of_current hc hfp hknows hnc.versions]
    exact ⟨fun hboth => hboth.2, fun hchain => ⟨hc.tracks, hchain⟩⟩

end

/-! ### Histories of a table -/

inductive RowWrite (C : Crates) where
  | insert (rowId : String) (values : RowValues C)
  | update (rowId : String) (values : RowValues C)
  | delete (rowId : String)

inductive RowChange (C : Crates) where
  | put (rowId : String) (values : RowValues C) (version : Int)
  | delete (rowId : String)

/-- What a write makes of the view of its statement, and the change to store; nothing for a
row id that is taken, or missing. -/
def RowWrite.apply (t : LoadedTable C) : RowWrite C → Option (LoadedTable C × RowChange C)
  | .insert rid values =>
      if rid ∈ t.rows then none
      else
        let t' := t.applyInsert rid values
        some (t', .put rid values (t'.versionOf rid))
  | .update rid values =>
      if rid ∈ t.rows then
        let t' := t.applyUpdate rid values
        some (t', .put rid values (t'.versionOf rid))
      else none
  | .delete rid => if rid ∈ t.rows then some (t.applyDelete rid, .delete rid) else none

/-- The table as the next statement loads it: stored rows have versions, and no others. -/
def RowChange.store (t : LoadedTable C) : RowChange C → LoadedTable C
  | .put rid values version => LoadedTable.rebuildIndexes
      { t with rows := t.rows.insert rid values, versions := t.versions.insert rid version }
  | .delete rid => LoadedTable.rebuildIndexes
      { t with rows := t.rows.erase rid, versions := t.versions.erase rid }

/-- The stored table, the transactions with their views and changes, the index, and the views
of the ANN queries so far. -/
structure TableHistory (C : Crates) where
  stored : LoadedTable C
  transactions : ExtTreeMap Nat (LoadedTable C × List (RowChange C))
  index : HnswIndexState
  queried : List (LoadedTable C)

inductive TableAct (C : Crates) where
  | write (session : Nat) (w : RowWrite C)
  | begin (session : Nat)
  | commit (session : Nat)
  | rollback (session : Nat)
  | query (session : Nat)

namespace TableHistory

/-- The view of a session's next statement. -/
def view (s : TableHistory C) (session : Nat) : LoadedTable C :=
  match s.transactions[session]? with
  | some (view, _) => view
  | none => s.stored

def step (h : Hashes) (column : String) (s : TableHistory C) :
    TableAct C → Option (TableHistory C)
  | .write session w =>
      match s.transactions[session]? with
      | some (view, changes) => (w.apply view).map fun (view', change) => { s with
          transactions := s.transactions.insert session (view', changes ++ [change]) }
      | none => (w.apply s.stored).map fun (_, change) => { s with
          stored := change.store s.stored }
  | .begin session =>
      if session ∈ s.transactions then none
      else some { s with transactions := s.transactions.insert session (s.stored, []) }
  | .commit session =>
      match s.transactions[session]? with
      | some (_, changes) => some { s with
          stored := changes.foldl RowChange.store s.stored
          transactions := s.transactions.erase session }
      | none => none
  | .rollback session =>
      if session ∈ s.transactions then
        some { s with transactions := s.transactions.erase session }
      else none
  | .query session => some { s with
      index := reconcile h column s.index (s.view session)
      queried := s.queried ++ [s.view session] }

/-- A table before any query. -/
def start (dims : Nat) (t : LoadedTable C) : TableHistory C := ⟨t, ∅, .new dims, []⟩

section
variable {h : Hashes} {column : String} {s s' : TableHistory C}

/-- Only a query touches the index. -/
theorem step_of_not_query {act : TableAct C} (hact : ∀ session, act ≠ .query session)
    (hstep : s.step h column act = some s') : s'.index = s.index ∧ s'.queried = s.queried := by
  cases act with
  | write session w => grind [step, Option.map_eq_some_iff]
  | begin session =>
    simp only [step, Option.ite_none_left_eq_some, Option.some.injEq] at hstep
    obtain ⟨-, rfl⟩ := hstep
    exact ⟨rfl, rfl⟩
  | commit session => grind [step]
  | rollback session =>
    simp only [step, Option.ite_none_right_eq_some, Option.some.injEq] at hstep
    obtain ⟨-, rfl⟩ := hstep
    exact ⟨rfl, rfl⟩
  | query session => exact absurd rfl (hact session)

/-- Along the history, the index has the vectors of each query's view after it. -/
def TracksAlong (h : Hashes) (column : String) (s : TableHistory C) (acts : List (TableAct C)) :
    Prop :=
  ∀ before session after s', acts = before ++ .query session :: after →
    Run.run (step h column) s (before ++ [.query session]) = some s' →
    Tracks column s'.index (s'.view session)

theorem tracksAlong_cons {act : TableAct C} {acts : List (TableAct C)} {t : TableHistory C}
    (hstep : s.step h column act = some t) :
    TracksAlong h column s (act :: acts) ↔
      (∀ session, act = .query session → Tracks column t.index (t.view session)) ∧
      TracksAlong h column t acts := by
  constructor
  · intro hall
    refine ⟨?_, fun before session after s' heq hrun => ?_⟩
    · rintro session rfl
      exact hall [] session acts t rfl (Run.run_cons.mpr ⟨t, hstep, rfl⟩)
    · exact hall (act :: before) session after s' (by rw [heq]; rfl)
        (Run.run_cons.mpr ⟨t, hstep, hrun⟩)
  · rintro ⟨hfirst, hrest⟩ before session after s' heq hrun
    cases before with
    | nil =>
      cases heq
      obtain ⟨t', ht', hend⟩ := Run.run_cons.mp hrun
      cases hstep.symm.trans ht'
      cases hend
      exact hfirst session rfl
    | cons b before =>
      cases heq
      obtain ⟨t', ht', hrest'⟩ := Run.run_cons.mp hrun
      cases hstep.symm.trans ht'
      exact hrest before session after s' rfl hrest'

/-- By induction on the history: what its queries leave behind is the index after their
views. -/
theorem tracksAlong_iff : ∀ {acts : List (TableAct C)} {s s' : TableHistory C},
    Run.run (step h column) s acts = some s' → ∃ views, s'.queried = s.queried ++ views ∧
      (TracksAlong h column s acts ↔ TracksAll h column s.index views)
  | [], s, s', hrun => by
      cases hrun
      refine ⟨[], (append_nil _).symm, ?_⟩
      simp [TracksAlong, TracksAll]
  | act :: acts, s, s', hrun => by
      obtain ⟨t, hstep, hrest⟩ := Run.run_cons.mp hrun
      obtain ⟨views, hqueried, hiff⟩ := tracksAlong_iff hrest
      by_cases hact : ∃ session, act = .query session
      · obtain ⟨session, rfl⟩ := hact
        refine ⟨s.view session :: views, ?_, ?_⟩
        · cases hstep
          rw [hqueried, append_assoc]
          rfl
        · rw [tracksAlong_cons hstep, hiff, TracksAll]
          cases hstep
          refine and_congr_left fun _ => ⟨fun hfirst => hfirst session rfl, ?_⟩
          rintro hfirst session' heq
          obtain rfl : session = session' := by injection heq
          exact hfirst
      · obtain ⟨hindex, hsame⟩ := step_of_not_query (fun session heq => hact ⟨session, heq⟩) hstep
        refine ⟨views, by rw [hqueried, hsame], ?_⟩
        rw [tracksAlong_cons hstep, hiff, hindex]
        exact and_iff_right fun session heq => absurd ⟨session, heq⟩ hact

end

end TableHistory

/-- Two hashes of vectors, and row ids told apart by their versions. -/
def sampleHashes : Hashes := ⟨fun _ version => UInt64.ofNat version.toNat,
  fun v => if v = [.inf false] then 1 else 2⟩

/-- A table with a vector, without rows. -/
def noVectors : LoadedTable plainCrates :=
  ⟨⟨1, "public", "docs", [], none, [], [], [], "docs", false, false, [], ""⟩, ∅, ∅, []⟩

def vectorRow (x : F32) : RowValues plainCrates := (∅ : RowValues plainCrates).insert "v"
  (.vector [x])

def OneRow (x : F32) (t : LoadedTable plainCrates) : Prop :=
  ∀ rid, t.rows[rid]? = if rid = "r" then some (vectorRow x) else none

theorem oneRow_of_rows {x : F32} {t : LoadedTable plainCrates}
    (m : ExtTreeMap String (RowValues plainCrates)) (hm : ∀ rid, rid ≠ "r" → m[rid]? = none)
    (h : t.rows = m.insert "r" (vectorRow x)) : OneRow x t := by
  intro rid
  rw [h, OrderedMap.get_insert]
  split
  · rfl
  · exact hm rid ‹_›

theorem OneRow.eq_of_inColumn {x : F32} {t : LoadedTable plainCrates} (h : OneRow x t)
    {w : List F32} (hw : InColumn "v" t w) : w = [x] := by
  obtain ⟨rid, values, hrow, hvec⟩ := hw
  rw [h, Option.ite_none_right_eq_some] at hrow
  cases hrow.2
  exact (Option.some.inj hvec).symm

/-- A row is inserted, and its vector changed, with a query after each. -/
def changedVector : List (TableAct plainCrates) :=
  [.write 0 (.insert "r" (vectorRow (.inf false))), .query 0,
    .write 0 (.update "r" (vectorRow (.inf true))), .query 0]

/-- A row is inserted, and deleted and inserted again with another vector, with a query after
each insert. -/
def reinserted : List (TableAct plainCrates) :=
  [.write 0 (.insert "r" (vectorRow (.inf false))), .query 0, .write 0 (.delete "r"),
    .write 0 (.insert "r" (vectorRow (.inf true))), .query 0]

/-- Views of one row each do not collide if their versions do not. -/
theorem noCollisions_pair {t u : LoadedTable plainCrates} (ht : OneRow (.inf false) t)
    (hu : OneRow (.inf true) u) (ht₀ : fingerprintOf sampleHashes t ≠ 0)
    (hu₀ : fingerprintOf sampleHashes u ≠ 0)
    (hversions : fingerprintOf sampleHashes t = fingerprintOf sampleHashes u →
      t.versions = u.versions) : NoCollisions sampleHashes "v" [t, u] where
  initial := by
    simp only [mem_cons, not_mem_nil, or_false, forall_eq_or_imp, forall_eq]
    exact ⟨ht₀, hu₀⟩
  versions := by
    simp only [mem_cons, not_mem_nil, or_false, forall_eq_or_imp, forall_eq, true_and,
      and_true, implies_true]
    exact ⟨hversions, fun heq => (hversions heq.symm).symm⟩
  vectors := by
    have hhash : sampleHashes.vector [.inf false] ≠ sampleHashes.vector [.inf true] := by decide
    simp only [mem_cons, not_mem_nil, or_false, forall_eq_or_imp, forall_eq]
    refine ⟨⟨fun v w hv hw _ => ?_, fun v w hv hw heq => ?_⟩,
      ⟨fun v w hv hw heq => ?_, fun v w hv hw _ => ?_⟩⟩
    · rw [ht.eq_of_inColumn hv, ht.eq_of_inColumn hw]
    · rw [ht.eq_of_inColumn hv, hu.eq_of_inColumn hw] at heq
      exact absurd heq hhash
    · rw [hu.eq_of_inColumn hv, ht.eq_of_inColumn hw] at heq
      exact absurd heq.symm hhash
    · rw [hu.eq_of_inColumn hv, hu.eq_of_inColumn hw]

end GuardianDb.Sql
