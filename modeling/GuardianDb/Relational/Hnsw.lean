/-
The state of an HNSW index (`relational/hnsw.rs`): a graph whose points are numbered and
never removed, and the books that say which point stands for which row.

The graph itself is a third party's; what counts here is which numbered vectors were
inserted. Points that no longer stand for a row are tombstones. The hash of a vector is a
parameter. The distance, the build options and the snapshots on disk are left out.

  * `represented_iff_holds` — the live points are those of the rows' entries.
  * `holds_tombstoneRow`, `holds_addNode`, `holds_reconcileEntry`, `holds_retainRows` — what
    each operation does to the rows and their vectors.
-/
import GuardianDb.Lib.Loop
import GuardianDb.Lib.OrderedMap
import GuardianDb.Relational.Value

namespace GuardianDb.Relational

open Std BinaryFloat ExtTreeMap List OrderedMap

structure RowEntry where
  internal : Nat
  version : Int
  vhash : UInt64
  deriving DecidableEq, Repr

/-- `HnswIndexState`; `graph` lists the points in the order of their insertion. -/
structure HnswIndexState where
  dims : Nat
  graph : List (Nat × List F32)
  nextInternal : Nat
  byRow : ExtTreeMap String RowEntry
  byInternal : ExtTreeMap Nat String
  tombstones : ExtTreeSet Nat
  fingerprint : UInt64

namespace HnswIndexState

/-! ### Operations -/

def new (dims : Nat) : HnswIndexState := ⟨dims, [], 0, ∅, ∅, ∅, 0⟩

def liveCount (s : HnswIndexState) : Nat := s.byRow.size

/-- `view_fingerprint`, for the hashes of row ids with their versions. -/
def viewFingerprint (rowHash : String → Int → UInt64) (rows : List (String × Int)) : UInt64 :=
  let (acc, n) := rows.foldl (fun (acc, n) (rid, version) => (acc + rowHash rid version, n + 1))
    ((0, 0) : UInt64 × UInt64)
  acc + n * 0x9e3779b97f4a7c15 + 1

def isCurrent (s : HnswIndexState) (fp : UInt64) : Bool := s.fingerprint == fp

def tombstoneRow (s : HnswIndexState) (rowId : String) : HnswIndexState :=
  match s.byRow[rowId]? with
  | none => s
  | some entry =>
      { s with
        byRow := s.byRow.erase rowId
        byInternal := s.byInternal.erase entry.internal
        tombstones := s.tombstones.insert entry.internal }

def retainRows (s : HnswIndexState) (live : String → Bool) : HnswIndexState :=
  (s.byRow.keys.filter fun rid => !live rid).foldl tombstoneRow s

/-- `needs_rebuild`: more than a fifth of the points are tombstones. -/
def needsRebuild (s : HnswIndexState) : Bool :=
  let total := s.byRow.size + s.tombstones.size
  0 < total && (Flt.ofQuot binary64 false 1 (Nat.succ_pos 4)).lt
    ((Flt.ofInt binary64 s.tombstones.size).div (Flt.ofInt binary64 total))

section
variable (vectorHash : List F32 → UInt64)

/-- A new point for a row. -/
def addNode (s : HnswIndexState) (rowId : String) (version : Int) (vector : List F32) :
    HnswIndexState :=
  { s with
    graph := s.graph ++ [(s.nextInternal, vector)]
    nextInternal := s.nextInternal + 1
    byRow := s.byRow.insert rowId ⟨s.nextInternal, version, vectorHash vector⟩
    byInternal := s.byInternal.insert s.nextInternal rowId }

def reconcileEntry (s : HnswIndexState) (rowId : String) (version : Int)
    (vector : Option (List F32)) : HnswIndexState :=
  match vector with
  | none => s.tombstoneRow rowId
  | some vec =>
      if vec.length ≠ s.dims then s.tombstoneRow rowId
      else
        match s.byRow[rowId]? with
        | some entry =>
            if entry.vhash = vectorHash vec then
              -- the same vector: the row may have moved on in other columns
              { s with byRow := s.byRow.insert rowId { entry with version := version } }
            else
              addNode vectorHash { s with
                byInternal := s.byInternal.erase entry.internal
                tombstones := s.tombstones.insert entry.internal } rowId version vec
        | none => addNode vectorHash s rowId version vec

/-- A row of `build_bulk`: a point, if it has a vector of the right dimension. -/
def bulkStep (dims : Nat) (s : HnswIndexState) (row : String × Int × Option (List F32)) :
    HnswIndexState :=
  match row.2.2 with
  | none => s
  | some vec => if vec.length ≠ dims then s else addNode vectorHash s row.1 row.2.1 vec

def buildBulk (dims : Nat) (rows : List (String × Int × Option (List F32))) : HnswIndexState :=
  rows.foldl (bulkStep vectorHash dims) (new dims)

end

/-! ### Consistent books -/

/-- The point of the row's entry has the vector. -/
def Holds (s : HnswIndexState) (rowId : String) (vec : List F32) : Prop :=
  ∃ entry : RowEntry, s.byRow[rowId]? = some entry ∧ (entry.internal, vec) ∈ s.graph

/-- A live point of the graph stands for the row and has the vector. -/
def Represented (s : HnswIndexState) (rowId : String) (vec : List F32) : Prop :=
  ∃ i : Nat, (i, vec) ∈ s.graph ∧ i ∉ s.tombstones ∧ s.byInternal[i]? = some rowId

/-- Every row has its point, whose vector has the hash in the books, and every point that
stands for a row is the row's; numbers are used once. -/
structure Consistent (vectorHash : List F32 → UInt64) (known : List F32 → Prop)
    (s : HnswIndexState) : Prop where
  row : ∀ (rid : String) (entry : RowEntry), s.byRow[rid]? = some entry →
    ∃ vec, (entry.internal, vec) ∈ s.graph ∧ vectorHash vec = entry.vhash ∧ known vec
  live : ∀ (rid : String) (entry : RowEntry), s.byRow[rid]? = some entry →
    s.byInternal[entry.internal]? = some rid ∧ entry.internal ∉ s.tombstones
  back : ∀ (i : Nat) (rid : String), s.byInternal[i]? = some rid →
    ∃ entry : RowEntry, s.byRow[rid]? = some entry ∧ entry.internal = i
  bound : ∀ p ∈ s.graph, p.1 < s.nextInternal
  unique : ∀ p ∈ s.graph, ∀ p' ∈ s.graph, p.1 = p'.1 → p = p'
  buried : ∀ i ∈ s.tombstones, i < s.nextInternal

section
variable {vectorHash : List F32 → UInt64} {known : List F32 → Prop} {s : HnswIndexState}
  {rid rid' : String} {vec vec' : List F32} {version : Int}

theorem consistent_new (dims : Nat) : Consistent vectorHash known (new dims) :=
  ⟨by simp [new], by simp [new], by simp [new], by simp [new], by simp [new], by simp [new]⟩

theorem not_holds_new (dims : Nat) : ¬ (new dims).Holds rid vec := by
  simp [Holds, new]

/-- **The live points are those of the rows' entries.** -/
theorem represented_iff_holds (h : Consistent vectorHash known s) :
    s.Represented rid vec ↔ s.Holds rid vec := by
  constructor
  · rintro ⟨i, hmem, -, hrow⟩
    obtain ⟨entry, hentry, rfl⟩ := h.back i rid hrow
    exact ⟨entry, hentry, hmem⟩
  · rintro ⟨entry, hentry, hmem⟩
    obtain ⟨hrow, hlive⟩ := h.live rid entry hentry
    exact ⟨entry.internal, hmem, hlive, hrow⟩

/-! ### Removing a row -/

theorem tombstoneRow_of_none (h : s.byRow[rid]? = none) : s.tombstoneRow rid = s := by
  simp only [tombstoneRow, h]

variable {entry : RowEntry}

theorem tombstoneRow_of_some (h : s.byRow[rid]? = some entry) :
    s.tombstoneRow rid = { s with
      byRow := s.byRow.erase rid
      byInternal := s.byInternal.erase entry.internal
      tombstones := s.tombstones.insert entry.internal } := by
  simp only [tombstoneRow, h]

theorem getElem?_byRow_tombstoneRow :
    (s.tombstoneRow rid).byRow[rid']? = if rid' = rid then none else s.byRow[rid']? := by
  cases hentry : s.byRow[rid]? with
  | none => simp_all [tombstoneRow_of_none]
  | some entry =>
    rw [tombstoneRow_of_some hentry]
    exact get_erase s.byRow rid rid'

theorem graph_tombstoneRow : (s.tombstoneRow rid).graph = s.graph := by
  rw [tombstoneRow]
  cases s.byRow[rid]? <;> rfl

theorem dims_tombstoneRow : (s.tombstoneRow rid).dims = s.dims := by
  rw [tombstoneRow]
  cases s.byRow[rid]? <;> rfl

theorem holds_tombstoneRow :
    (s.tombstoneRow rid).Holds rid' vec ↔ rid' ≠ rid ∧ s.Holds rid' vec := by
  simp only [Holds, getElem?_byRow_tombstoneRow, graph_tombstoneRow]
  by_cases heq : rid' = rid
  · simp [heq]
  · simp [heq]

theorem Consistent.tombstoneRow (h : Consistent vectorHash known s) (rid : String) :
    Consistent vectorHash known (s.tombstoneRow rid) := by
  cases hentry : s.byRow[rid]? with
  | none =>
    rw [tombstoneRow_of_none hentry]
    exact h
  | some entry =>
    have hrow : ∀ rid' entry',
        (s.byRow.erase rid)[rid']? = some entry' → rid' ≠ rid ∧ s.byRow[rid']? = some entry' := by
      grind
    obtain ⟨hback, -⟩ := h.live rid entry hentry
    rw [tombstoneRow_of_some hentry]
    refine ⟨fun rid' entry' h' => h.row rid' entry' (hrow rid' entry' h').2, ?_, ?_, h.bound,
      h.unique, ?_⟩
    · intro rid' entry' h'
      obtain ⟨hne, hentry'⟩ := hrow rid' entry' h'
      obtain ⟨hback', hlive'⟩ := h.live rid' entry' hentry'
      have hinternal : entry.internal ≠ entry'.internal := by grind
      constructor
      · grind
      · simp_all
    · intro i rid' h'
      rw [get_erase, Option.ite_none_left_eq_some] at h'
      obtain ⟨entry', hentry', hi⟩ := h.back i rid' h'.2
      refine ⟨entry', ?_, hi⟩
      rw [get_erase, if_neg, hentry']
      rintro rfl
      cases hentry.symm.trans hentry'
      exact h'.1 hi.symm
    · intro i hi
      rw [ExtTreeSet.mem_insert, LawfulEqCmp.compare_eq_iff_eq] at hi
      rcases hi with rfl | hi
      · obtain ⟨vec, hmem, -⟩ := h.row rid entry hentry
        exact h.bound _ hmem
      · exact h.buried i hi

/-! ### Adding a point -/

theorem internal_lt (h : Consistent vectorHash known s) (hentry : s.byRow[rid]? = some entry) :
    entry.internal < s.nextInternal := by
  obtain ⟨vec, hmem, -⟩ := h.row rid entry hentry
  exact h.bound _ hmem

theorem getElem?_byRow_addNode :
    (addNode vectorHash s rid version vec).byRow[rid']? =
      if rid' = rid then some ⟨s.nextInternal, version, vectorHash vec⟩ else s.byRow[rid']? :=
  get_insert s.byRow _ _ rid'

theorem holds_addNode (h : Consistent vectorHash known s) :
    (addNode vectorHash s rid version vec).Holds rid' vec' ↔
      if rid' = rid then vec' = vec else s.Holds rid' vec' := by
  have hnew : ∀ x, (s.nextInternal, x) ∉ s.graph := fun x hx =>
    Nat.lt_irrefl _ (h.bound _ hx)
  simp only [Holds, getElem?_byRow_addNode]
  by_cases heq : rid' = rid
  · simp [heq, addNode, hnew]
  · simp only [if_neg heq, addNode, mem_append, mem_singleton, Prod.mk.injEq]
    constructor
    · rintro ⟨entry, hentry, hmem | ⟨hi, -⟩⟩
      · exact ⟨entry, hentry, hmem⟩
      · exact absurd hi (Nat.ne_of_lt (internal_lt h hentry))
    · simp_all

theorem Consistent.addNode (h : Consistent vectorHash known s) (hrid : s.byRow[rid]? = none)
    (hknown : known vec) (version : Int) :
    Consistent vectorHash known (addNode vectorHash s rid version vec) where
  row rid' entry' h' := by
    rw [getElem?_byRow_addNode] at h'
    split at h'
    · cases h'
      exact ⟨vec, mem_append_right _ (.head _), rfl, hknown⟩
    · obtain ⟨v, hmem, hhash⟩ := h.row rid' entry' h'
      exact ⟨v, mem_append_left _ hmem, hhash⟩
  live rid' entry' h' := by
    rw [getElem?_byRow_addNode] at h'
    split at h'
    · subst_vars
      cases h'
      exact ⟨getElem?_insert_self, fun hi => Nat.lt_irrefl _ (h.buried _ hi)⟩
    · obtain ⟨hback, hlive⟩ := h.live rid' entry' h'
      refine ⟨?_, hlive⟩
      rw [HnswIndexState.addNode, get_insert, if_neg (Nat.ne_of_lt (internal_lt h h'))]
      exact hback
  back i rid' h' := by
    rw [HnswIndexState.addNode, get_insert] at h'
    split at h'
    · simp_all [getElem?_byRow_addNode]
    · obtain ⟨entry', hentry', hi⟩ := h.back i rid' h'
      refine ⟨entry', ?_, hi⟩
      rw [getElem?_byRow_addNode, if_neg, hentry']
      rintro rfl
      rw [hrid] at hentry'
      cases hentry'
  bound p hp := by
    rcases mem_append.mp hp with hp | hp
    · exact Nat.lt_succ_of_lt (h.bound p hp)
    · obtain rfl := mem_singleton.mp hp
      exact Nat.lt_succ_self _
  unique p hp p' hp' heq := by
    rcases mem_append.mp hp with hp | hp <;> rcases mem_append.mp hp' with hp' | hp'
    · exact h.unique p hp p' hp' heq
    · obtain rfl := mem_singleton.mp hp'
      exact absurd heq (Nat.ne_of_lt (h.bound p hp))
    · obtain rfl := mem_singleton.mp hp
      exact absurd heq.symm (Nat.ne_of_lt (h.bound p' hp'))
    · rw [mem_singleton.mp hp, mem_singleton.mp hp']
  buried i hi := Nat.lt_succ_of_lt (h.buried i hi)

/-! ### One row of a view -/

/-- The vector that an index of the dimension takes. -/
def indexable (dims : Nat) (vector : Option (List F32)) : Option (List F32) :=
  vector.filter (·.length = dims)

/-- A changed vector is a removal and a new point. -/
theorem addNode_replace (hentry : s.byRow[rid]? = some entry) :
    addNode vectorHash { s with
      byInternal := s.byInternal.erase entry.internal
      tombstones := s.tombstones.insert entry.internal } rid version vec =
    addNode vectorHash (s.tombstoneRow rid) rid version vec := by
  rw [tombstoneRow_of_some hentry]
  have hrows : (s.byRow.erase rid).insert rid ⟨s.nextInternal, version, vectorHash vec⟩ =
      s.byRow.insert rid ⟨s.nextInternal, version, vectorHash vec⟩ := by grind
  simp only [addNode, hrows]

/-- What `reconcile_entry` comes to: nothing but the version, a removal, or a removal and a
new point. -/
theorem reconcileEntry_cases (h : Consistent vectorHash known s) (rid : String) (version : Int)
    (vector : Option (List F32))
    (hcollide : ∀ v w, known v → vector = some w → vectorHash v = vectorHash w → v = w) :
    (indexable s.dims vector = none ∧
      reconcileEntry vectorHash s rid version vector = s.tombstoneRow rid) ∨
    ∃ vec, vector = some vec ∧ indexable s.dims vector = some vec ∧
      ((∃ entry : RowEntry, s.byRow[rid]? = some entry ∧ (entry.internal, vec) ∈ s.graph ∧
        reconcileEntry vectorHash s rid version vector =
          { s with byRow := s.byRow.insert rid { entry with version := version } }) ∨
      reconcileEntry vectorHash s rid version vector =
        addNode vectorHash (s.tombstoneRow rid) rid version vec) := by
  cases vector with
  | none => exact .inl ⟨rfl, rfl⟩
  | some vec =>
    by_cases hdims : vec.length = s.dims
    · refine .inr ⟨vec, rfl, ?_, ?_⟩
      · simp [indexable, hdims]
      · simp only [reconcileEntry, hdims, ne_eq, not_true_eq_false, if_false]
        cases hentry : s.byRow[rid]? with
        | none =>
          rw [tombstoneRow_of_none hentry]
          exact .inr rfl
        | some entry =>
          by_cases hhash : entry.vhash = vectorHash vec
          · refine .inl ⟨entry, rfl, ?_, if_pos hhash⟩
            -- the point in the books has the same hash, so it has the vector
            obtain ⟨v, hmem, hv, hknown⟩ := h.row rid entry hentry
            rwa [← hcollide v vec hknown rfl (hv.trans hhash)]
          · simp_all [addNode_replace]
    · simp_all [indexable, reconcileEntry, not_false_eq_true]

/-- The version in the books moves, and nothing else. -/
def touch (s : HnswIndexState) (rid : String) (entry : RowEntry) (version : Int) :
    HnswIndexState :=
  { s with byRow := s.byRow.insert rid { entry with version := version } }

theorem getElem?_byRow_touch :
    (s.touch rid entry version).byRow[rid']? =
      if rid' = rid then some { entry with version := version } else s.byRow[rid']? :=
  get_insert s.byRow _ _ rid'

section
variable (h : Consistent vectorHash known s)
include h

theorem Consistent.touch (hentry : s.byRow[rid]? = some entry) :
    Consistent vectorHash known (s.touch rid entry version) where
  row rid' entry' h' := by
    rw [getElem?_byRow_touch] at h'
    split at h'
    · cases h'
      exact h.row rid entry hentry
    · exact h.row rid' entry' h'
  live rid' entry' h' := by
    rw [getElem?_byRow_touch] at h'
    split at h'
    · subst_vars
      cases h'
      exact h.live rid' entry hentry
    · exact h.live rid' entry' h'
  back i rid' h' := by
    obtain ⟨entry', hentry', hi⟩ := h.back i rid' h'
    by_cases heq : rid' = rid
    · simp_all [getElem?_byRow_touch]
    · refine ⟨entry', ?_, hi⟩
      rw [getElem?_byRow_touch, if_neg heq, hentry']
  bound := h.bound
  unique := h.unique
  buried := h.buried

theorem holds_touch (hmem : (entry.internal, vec) ∈ s.graph) :
    (s.touch rid entry version).Holds rid' vec' ↔
      if rid' = rid then vec' = vec else s.Holds rid' vec' := by
  simp only [Holds, getElem?_byRow_touch]
  by_cases heq : rid' = rid
  · simp only [if_pos heq, Option.some.injEq, exists_eq_left']
    constructor
    · intro hmem'
      exact congrArg Prod.snd (h.unique _ hmem' _ hmem rfl)
    · rintro rfl
      exact hmem
  · simp only [if_neg heq]
    rfl

variable {vector : Option (List F32)}

theorem Consistent.reconcileEntry (rid : String) (version : Int)
    (hcollide : ∀ v w, known v → vector = some w → vectorHash v = vectorHash w → v = w)
    (hknown : ∀ w, vector = some w → known w) :
    Consistent vectorHash known (reconcileEntry vectorHash s rid version vector) := by
  rcases reconcileEntry_cases h rid version vector hcollide with
    ⟨-, heq⟩ | ⟨vec, hvec, -, ⟨entry, hentry, -, heq⟩ | heq⟩
  · rw [heq]
    exact h.tombstoneRow rid
  · rw [heq]
    exact h.touch hentry
  · rw [heq]
    refine (h.tombstoneRow rid).addNode ?_ (hknown vec hvec) version
    rw [getElem?_byRow_tombstoneRow, if_pos rfl]

/-- **After its turn a row has its vector in the index**, if it has one that fits; the other
rows have theirs as before. -/
theorem holds_reconcileEntry
    (hcollide : ∀ v w, known v → vector = some w → vectorHash v = vectorHash w → v = w) :
    (reconcileEntry vectorHash s rid version vector).Holds rid' vec ↔
      if rid' = rid then indexable s.dims vector = some vec else s.Holds rid' vec := by
  rcases reconcileEntry_cases h rid version vector hcollide with
    ⟨hnone, heq⟩ | ⟨w, -, hw, ⟨entry, -, hmem, heq⟩ | heq⟩
  · rw [heq, holds_tombstoneRow, hnone]
    by_cases hrid : rid' = rid <;> simp [hrid]
  · rw [heq, ← touch, holds_touch h hmem, hw, Option.some.injEq, @eq_comm _ w]
  · rw [heq, holds_addNode (h.tombstoneRow rid), holds_tombstoneRow, hw, Option.some.injEq,
      @eq_comm _ w]
    by_cases hrid : rid' = rid <;> simp [hrid]

end

theorem dims_reconcileEntry : (reconcileEntry vectorHash s rid version vector).dims = s.dims := by
  simp only [reconcileEntry]
  split
  · exact dims_tombstoneRow
  · split
    · exact dims_tombstoneRow
    · split
      · split <;> rfl
      · rfl

/-! ### All rows of a view -/

/-- Rows of a view, one entry each. -/
abbrev ViewRows := List (String × Int × Option (List F32))

/-- The rows have the vector for the row, and it fits. -/
def Offers (dims : Nat) (rows : ViewRows) (rid : String) (vec : List F32) : Prop :=
  ∃ version vector, (rid, version, vector) ∈ rows ∧ indexable dims vector = some vec

variable {dims : Nat} {rows : ViewRows}

theorem Offers.mem_keys (h : Offers dims rows rid vec) : rid ∈ rows.map (·.1) := by
  obtain ⟨version, vector, hmem, -⟩ := h
  exact mem_map.mpr ⟨_, hmem, rfl⟩

theorem offers_cons {rid₀ : String} :
    Offers dims ((rid₀, version, vector) :: rows) rid vec ↔
      (rid = rid₀ ∧ indexable dims vector = some vec) ∨ Offers dims rows rid vec := by
  simp only [Offers, mem_cons, Prod.mk.injEq]
  constructor
  · grind
  · grind

/-- The loop of `reconcile` over the rows. -/
def reconcileRows (vectorHash : List F32 → UInt64) (s : HnswIndexState) (rows : ViewRows) :
    HnswIndexState :=
  rows.foldl (fun s (rid, version, vector) => reconcileEntry vectorHash s rid version vector) s

/-- The vectors of the rows are among the known ones, which their hashes tell apart. -/
def Covers (vectorHash : List F32 → UInt64) (known : List F32 → Prop) (rows : ViewRows) : Prop :=
  ∀ row ∈ rows, ∀ w, row.2.2 = some w →
    known w ∧ ∀ v, known v → vectorHash v = vectorHash w → v = w

/-- By induction on the rows: each has its turn once, and keeps what it got. -/
theorem reconcileRows_spec : ∀ {rows : ViewRows} {s : HnswIndexState},
    Consistent vectorHash known s → Covers vectorHash known rows → (rows.map (·.1)).Nodup →
    Consistent vectorHash known (reconcileRows vectorHash s rows) ∧
      (reconcileRows vectorHash s rows).dims = s.dims ∧
      ∀ rid vec, (reconcileRows vectorHash s rows).Holds rid vec ↔
        Offers s.dims rows rid vec ∨ (rid ∉ rows.map (·.1) ∧ s.Holds rid vec)
  | [], s, h, _, _ => ⟨h, rfl, fun rid vec => by simp [reconcileRows, Offers]⟩
  | (rid₀, version, vector) :: rows, s, h, hcovers, hnodup => by
      have hrow := hcovers (rid₀, version, vector) (.head _)
      have hcollide : ∀ v w, known v → vector = some w → vectorHash v = vectorHash w → v = w :=
        fun v w hv hw heq => (hrow w hw).2 v hv heq
      rw [map_cons, nodup_cons] at hnodup
      obtain ⟨hcons, hdims, hholds⟩ := reconcileRows_spec
        (h.reconcileEntry rid₀ version hcollide fun w hw => (hrow w hw).1)
        (fun row hmem => hcovers row (.tail _ hmem)) hnodup.2
      refine ⟨hcons, hdims.trans dims_reconcileEntry, fun rid vec => ?_⟩
      rw [reconcileRows, foldl_cons, ← reconcileRows, hholds rid vec, dims_reconcileEntry,
        offers_cons, holds_reconcileEntry h hcollide, map_cons, mem_cons, not_or]
      by_cases hrid : rid = rid₀
      · grind
      · simp [hrid]

theorem holds_foldl_tombstoneRow : ∀ (gone : List String) (s : HnswIndexState),
    (gone.foldl tombstoneRow s).Holds rid vec ↔ rid ∉ gone ∧ s.Holds rid vec
  | [], s => by simp
  | r :: gone, s => by
      rw [foldl_cons, holds_foldl_tombstoneRow gone, holds_tombstoneRow, mem_cons,
        not_or]
      tauto

theorem holds_retainRows {live : String → Bool} :
    (s.retainRows live).Holds rid vec ↔ live rid = true ∧ s.Holds rid vec := by
  rw [retainRows, holds_foldl_tombstoneRow]
  constructor
  · rintro ⟨hkept, hholds⟩
    refine ⟨?_, hholds⟩
    obtain ⟨entry, hentry, -⟩ := hholds
    by_contra hdead
    refine hkept (mem_filter.mpr ⟨mem_keys.mpr ?_, by simpa using hdead⟩)
    rw [← isSome_getElem?_iff_mem, hentry]
    rfl
  · simp_all

theorem bulkStep_eq_reconcileEntry (hrid : s.byRow[rid]? = none) :
    bulkStep vectorHash s.dims s (rid, version, vector) =
      reconcileEntry vectorHash s rid version vector := by
  cases vector with
  | none => exact (tombstoneRow_of_none hrid).symm
  | some vec => simp only [bulkStep, reconcileEntry, hrid, tombstoneRow_of_none hrid]

theorem getElem?_byRow_bulkStep_of_ne {row : String × Int × Option (List F32)} (h : rid' ≠ row.1) :
    (bulkStep vectorHash dims s row).byRow[rid']? = s.byRow[rid']? := by
  simp only [bulkStep]
  split
  · rfl
  · split
    · rfl
    · rw [getElem?_byRow_addNode, if_neg h]

/-- By induction on the rows: in a new index every row is a new one. -/
theorem foldl_bulkStep : ∀ {rows : ViewRows} {s : HnswIndexState},
    (rows.map (·.1)).Nodup → (∀ rid ∈ rows.map (·.1), s.byRow[rid]? = none) →
    rows.foldl (bulkStep vectorHash s.dims) s = reconcileRows vectorHash s rows
  | [], _, _, _ => rfl
  | row :: rows, s, hnodup, hfresh => by
      rw [map_cons, nodup_cons] at hnodup
      have hstep : bulkStep vectorHash s.dims s row =
          reconcileEntry vectorHash s row.1 row.2.1 row.2.2 :=
        bulkStep_eq_reconcileEntry (hfresh row.1 (by simp))
      have hrest : ∀ rid ∈ rows.map (·.1),
          (bulkStep vectorHash s.dims s row).byRow[rid]? = none := by
        grind [getElem?_byRow_bulkStep_of_ne]
      have hdims : (bulkStep vectorHash s.dims s row).dims = s.dims := by
        rw [hstep, dims_reconcileEntry]
      have hnext := foldl_bulkStep (s := bulkStep vectorHash s.dims s row) hnodup.2 hrest
      rw [hdims] at hnext
      rw [foldl_cons, hnext, hstep]
      rfl

theorem buildBulk_eq_reconcileRows (hnodup : (rows.map (·.1)).Nodup) :
    buildBulk vectorHash dims rows = reconcileRows vectorHash (new dims) rows :=
  foldl_bulkStep (s := new dims) hnodup fun rid _ => by simp [new]

end

end HnswIndexState

end GuardianDb.Relational
