/-
Materialized table views (`sql/store.rs`): decoded rows with their secondary
indexes, and the index maintenance of a statement.

The indexes of a view are exact as long as they list every row under its current
key (`Indexed`). Building, updating and deleting keep them so; inserting does if
the row id is new, since the old entries of an overwritten row are not removed.

  * `indexed_applyUpdate`, `indexed_applyDelete` — exact indexes.
  * `rebuildIndexes_of_maintained` — rebuilding them changes nothing.
  * `checkUnique_ok_iff` — what the uniqueness check establishes.
-/
import GuardianDb.Relational.Catalog
import GuardianDb.Relational.Index

namespace GuardianDb.Sql

open Std Relational ExtTreeMap List

/-- The errors of the modelled statements. -/
inductive SqlError where
  | uniqueViolation (constraint detail : String)
  | notNullViolation (column table : String)
  | checkViolation (table constraint : String)
  | foreignKeyViolation (table constraint detail : String)
  | foreignKeyViolationReferenced (table constraint referencing detail : String)
  | insufficientPrivilege (message : String)
  | statementTooComplex (message : String)
  | undefinedColumn (name : String)
  | undefinedTable (name : String)
  | undefinedFunction (signature : String)
  | undefinedObject (what : String)
  | wrongObjectType (message : String)
  | inFailedTransaction
  | duplicateIndex (name : String)
  | duplicateTable (name : String)
  | duplicateColumn (column table : String)
  | undefinedSchema (name : String)
  | undefinedIndex (name : String)
  | invalidConstraint (name : String)
  | dependentObjectsStillExist (object detail : String)
  | syntaxError (message : String)
  | lockNotAvailable (what : String)
  | featureNotSupported (what : String)
  | windowingError (message : String)
  | invalidRecursion (message : String)
  | raisedException (message : String)
  | storage (message : String)
  | internal (message : String)
  | relational (e : RelError)
  deriving DecidableEq, Repr

section
variable {C : Crates}

/-- `RowValues`: column name to value. -/
abbrev RowValues (C : Crates) := ExtTreeMap String (SqlValue C)

/-- The value of a column; a missing one is NULL. -/
def valueOf (values : RowValues C) (column : String) : SqlValue C := values[column]?.getD .null

def indexValues (index : Index) (values : RowValues C) : List (SqlValue C) :=
  index.columns.map (valueOf values)

structure LoadedIndex where
  index : Index
  data : SecondaryIndex

def LoadedIndex.keyOf (idx : LoadedIndex) (values : RowValues C) : String :=
  orderedKey (indexValues idx.index values)

structure LoadedTable (C : Crates) where
  table : Table
  rows : ExtTreeMap String (RowValues C)
  versions : ExtTreeMap String Int
  indexes : List LoadedIndex

def describeKey (columns : List String) (values : List (SqlValue C)) : String :=
  let texts := values.map fun v => String.ofList (v.toText.getD "null".toList)
  "Key (" ++ ", ".intercalate columns ++ ")=(" ++ ", ".intercalate texts ++ ") already exists."

variable {key : RowValues C → String}

namespace LoadedTable

def rebuildIndexes (t : LoadedTable C) : LoadedTable C :=
  { t with
    indexes := t.indexes.map fun idx =>
      { idx with
        data := t.rows.toList.foldl (fun data row => data.insert (idx.keyOf row.2) row.1)
          (.new idx.data.unique) } }

/-- The decoding loop of `build`: a later document of one row id wins. -/
def decodeRows {δ : Type} (decode : δ → Except SqlError (Option (String × RowValues C × Int))) :
    List (String × δ) → LoadedTable C → Except SqlError (LoadedTable C)
  | [], t => .ok t
  | doc :: docs, t => do
      match ← decode doc.2 with
      | some (id, values, version) =>
          decodeRows decode docs
            { t with versions := t.versions.insert id version, rows := t.rows.insert id values }
      | none => decodeRows decode docs t

/-- `LoadedTable::build`, with the row decoder of the table. -/
def build {δ : Type} (table : Table)
    (decode : δ → Except SqlError (Option (String × RowValues C × Int)))
    (docs : List (String × δ)) (defs : List Index) : Except SqlError (LoadedTable C) := do
  let t ← decodeRows decode docs ⟨table, ∅, ∅, []⟩
  -- `hnsw` indexes are not ordered indexes
  let loaded := (defs.filter fun i => i.method != "hnsw").map fun i =>
    (⟨i, .new i.unique⟩ : LoadedIndex)
  return rebuildIndexes { t with indexes := loaded }

/-- A unique index that another row occupies under the key of `values`. NULLs are
distinct. -/
def occupied (idx : LoadedIndex) (values : RowValues C) (exclude : Option String) : Bool :=
  idx.index.unique && (compositeKey (indexValues idx.index values)).isSome &&
    (idx.data.get (idx.keyOf values)).toList.any fun rid => some rid != exclude

/-- `check_unique`; `exclude` is the row that is being updated. -/
def checkUnique (t : LoadedTable C) (values : RowValues C) (exclude : Option String) :
    Except SqlError Unit :=
  match t.indexes.find? fun idx => occupied idx values exclude with
  | some idx => .error (.uniqueViolation idx.index.name
      (describeKey idx.index.columns (indexValues idx.index values)))
  | none => .ok ()

/-- The change of every index by a function of it. -/
def mapIndexes (t : LoadedTable C) (f : LoadedIndex → SecondaryIndex) : List LoadedIndex :=
  t.indexes.map fun idx => { idx with data := f idx }

def setRow (t : LoadedTable C) (rowId : String) (values : RowValues C) : LoadedTable C :=
  { t with
    versions := t.versions.insert rowId (t.versions[rowId]?.getD 0 + 1)
    rows := t.rows.insert rowId values }

def applyInsert (t : LoadedTable C) (rowId : String) (values : RowValues C) : LoadedTable C :=
  { t.setRow rowId values with
    indexes := t.mapIndexes fun idx => idx.data.insert (idx.keyOf values) rowId }

/-- An index without the entry of a row. -/
def unlisted (t : LoadedTable C) (rowId : String) (idx : LoadedIndex) : SecondaryIndex :=
  match t.rows[rowId]? with
  | some old => idx.data.remove (idx.keyOf old) rowId
  | none => idx.data

def applyUpdate (t : LoadedTable C) (rowId : String) (values : RowValues C) : LoadedTable C :=
  { t.setRow rowId values with
    indexes := t.mapIndexes fun idx => (t.unlisted rowId idx).insert (idx.keyOf values) rowId }

def applyDelete (t : LoadedTable C) (rowId : String) : LoadedTable C :=
  { t with rows := t.rows.erase rowId, indexes := t.mapIndexes (t.unlisted rowId) }

/-- `index_lookup_eq`: the row ids under a value, by the first index on the column
alone. -/
def indexLookupEq (t : LoadedTable C) (column : String) (value : SqlValue C) :
    Option (List String) :=
  (t.indexes.find? fun idx => idx.index.columns == [column]).map fun idx =>
    if value.isNull then [] else (idx.data.get (orderedKey [value])).toList

def versionOf (t : LoadedTable C) (rowId : String) : Int := t.versions[rowId]?.getD 1

/-! ### Exact indexes -/

/-- Every index lists each row under its current key, and nothing else. -/
def Indexed (t : LoadedTable C) : Prop :=
  ∀ idx ∈ t.indexes, ∀ key rid, rid ∈ idx.data.get key ↔
    ∃ values, t.rows[rid]? = some values ∧ idx.keyOf values = key

theorem mem_get_foldl_insert (rows : List (String × RowValues C))
    (s : SecondaryIndex) (k r : String) :
    r ∈ (rows.foldl (fun data row => data.insert (key row.2) row.1) s).get k ↔
      (∃ values, (r, values) ∈ rows ∧ key values = k) ∨ r ∈ s.get k := by
  induction rows generalizing s with
  | nil => simp
  | cons row rows ih => grind [SecondaryIndex.mem_get_insert]

/-- **Rebuilt indexes are exact.** -/
theorem indexed_rebuildIndexes (t : LoadedTable C) : t.rebuildIndexes.Indexed := by
  intro idx hidx key rid
  obtain ⟨idx₀, -, rfl⟩ := mem_map.mp hidx
  have hkey : ∀ values : RowValues C, LoadedIndex.keyOf { idx₀ with
    data := t.rows.toList.foldl (fun data row => data.insert (idx₀.keyOf row.2) row.1)
      (.new idx₀.data.unique) } values = idx₀.keyOf values := fun _ => rfl
  simp only [hkey]
  rw [mem_get_foldl_insert, or_iff_left SecondaryIndex.mem_get_new]
  simp [rebuildIndexes]

variable {t : LoadedTable C}

theorem getElem?_setRow (t : LoadedTable C) (rowId : String) (values : RowValues C) (rid : String) :
    (t.setRow rowId values).rows[rid]? = if rid = rowId then some values else t.rows[rid]? :=
  OrderedMap.get_insert t.rows rowId values rid

theorem mem_unlisted (h : t.Indexed) {idx : LoadedIndex} (hidx : idx ∈ t.indexes)
    (rowId key rid : String) :
    rid ∈ (t.unlisted rowId idx).get key ↔
      rid ≠ rowId ∧ ∃ values, t.rows[rid]? = some values ∧ idx.keyOf values = key := by
  unfold unlisted
  cases hold : t.rows[rowId]? with
  | none =>
    rw [h idx hidx]
    refine ⟨fun hex => ⟨?_, hex⟩, fun hex => hex.2⟩
    rintro rfl
    obtain ⟨values, hrow, -⟩ := hex
    rw [hold] at hrow
    cases hrow
  | some old =>
    rw [SecondaryIndex.mem_get_remove, h idx hidx]
    constructor
    · grind
    · simp_all

/-- **An update leaves the indexes exact.** -/
theorem indexed_applyUpdate (h : t.Indexed) (rowId : String) (values : RowValues C) :
    (t.applyUpdate rowId values).Indexed := by
  intro idx hidx key rid
  obtain ⟨idx₀, hidx₀, rfl⟩ := mem_map.mp hidx
  have hrows : (t.applyUpdate rowId values).rows = (t.setRow rowId values).rows := rfl
  have hkey : ∀ v : RowValues C, LoadedIndex.keyOf { idx₀ with
    data := (t.unlisted rowId idx₀).insert (idx₀.keyOf values) rowId } v = idx₀.keyOf v :=
    fun _ => rfl
  simp only [hkey]
  rw [SecondaryIndex.mem_get_insert, mem_unlisted h hidx₀, hrows]
  simp only [getElem?_setRow]
  by_cases hr : rid = rowId
  · simp [hr, eq_comm]
  · simp [hr]

/-- With a new row id, inserting is updating: there are no old entries to remove. -/
theorem applyInsert_eq_applyUpdate {rowId : String} (hnew : t.rows[rowId]? = none)
    (values : RowValues C) : t.applyInsert rowId values = t.applyUpdate rowId values := by
  simp only [applyInsert, applyUpdate, unlisted, hnew]

/-- **A deletion leaves the indexes exact.** -/
theorem indexed_applyDelete (h : t.Indexed) (rowId : String) : (t.applyDelete rowId).Indexed := by
  intro idx hidx key rid
  obtain ⟨idx₀, hidx₀, rfl⟩ := mem_map.mp hidx
  have hkey : ∀ v : RowValues C,
      LoadedIndex.keyOf { idx₀ with data := t.unlisted rowId idx₀ } v = idx₀.keyOf v := fun _ => rfl
  simp only [hkey]
  rw [mem_unlisted h hidx₀]
  simp only [applyDelete, OrderedMap.get_erase]
  by_cases hr : rid = rowId <;> simp [hr]

/-! ### Incremental and rebuilt indexes -/

/-- Exact indexes without an empty bucket. -/
def Exact (t : LoadedTable C) : Prop := t.Indexed ∧ ∀ idx ∈ t.indexes, idx.data.Tight

theorem tight_foldl_insert (rows : List (String × RowValues C)) {s : SecondaryIndex} (h : s.Tight) :
    let s' := rows.foldl (fun data row => data.insert (key row.2) row.1) s
    s'.Tight ∧ s'.unique = s.unique := by
  induction rows generalizing s with
  | nil => exact ⟨h, rfl⟩
  | cons row rows ih => exact ih (h.insert (key row.2) row.1)

theorem exact_rebuildIndexes (t : LoadedTable C) : t.rebuildIndexes.Exact := by
  refine ⟨indexed_rebuildIndexes t, fun idx hidx => ?_⟩
  obtain ⟨idx₀, -, rfl⟩ := mem_map.mp hidx
  exact (tight_foldl_insert _ (SecondaryIndex.tight_new _)).1

theorem exact_build {δ : Type} {table : Table}
    {decode : δ → Except SqlError (Option (String × RowValues C × Int))} {docs : List (String × δ)}
    {defs : List Index} (h : build table decode docs defs = .ok t) : t.Exact := by
  unfold build at h
  cases hdec : decodeRows decode docs ⟨table, ∅, ∅, []⟩ with
  | error e =>
    rw [hdec] at h
    cases h
  | ok t₀ =>
    rw [hdec] at h
    cases h
    exact exact_rebuildIndexes _

/-- Rebuilding exact indexes gives them back. -/
theorem Exact.rebuildIndexes_eq (h : t.Exact) : t.rebuildIndexes = t := by
  have hsame : t.rebuildIndexes.indexes = t.indexes := by
    refine (map_congr_left fun idx hidx => ?_).trans (map_id _)
    obtain ⟨hexact, htight⟩ := exact_rebuildIndexes t
    have hmem : _ ∈ t.rebuildIndexes.indexes := mem_map_of_mem hidx
    have hdata := SecondaryIndex.eq_of_tight (htight _ hmem) (h.2 idx hidx)
      (tight_foldl_insert _ (SecondaryIndex.tight_new _)).2
      fun k r => (hexact _ hmem k r).trans (h.1 idx hidx k r).symm
    exact congrArg (LoadedIndex.mk idx.index) hdata
  exact congrArg (fun is => { t with indexes := is }) hsame

theorem tight_unlisted {idx : LoadedIndex} (h : idx.data.Tight) (rowId : String) :
    (t.unlisted rowId idx).Tight := by
  unfold unlisted
  split
  · exact h.remove _ rowId
  · exact h

theorem Exact.applyUpdate (h : t.Exact) (rowId : String) (values : RowValues C) :
    (t.applyUpdate rowId values).Exact := by
  refine ⟨indexed_applyUpdate h.1 rowId values, fun idx hidx => ?_⟩
  obtain ⟨idx₀, hidx₀, rfl⟩ := mem_map.mp hidx
  exact (tight_unlisted (h.2 idx₀ hidx₀) rowId).insert _ rowId

theorem Exact.applyDelete (h : t.Exact) (rowId : String) : (t.applyDelete rowId).Exact := by
  refine ⟨indexed_applyDelete h.1 rowId, fun idx hidx => ?_⟩
  obtain ⟨idx₀, hidx₀, rfl⟩ := mem_map.mp hidx
  exact tight_unlisted (h.2 idx₀ hidx₀) rowId

/-- The views that the changes of statements make of a freshly built one. -/
inductive Maintained {δ : Type}
    (decode : δ → Except SqlError (Option (String × RowValues C × Int))) : LoadedTable C → Prop
  | build {table : Table} {docs : List (String × δ)} {defs : List Index} {t : LoadedTable C}
      (h : build table decode docs defs = .ok t) : Maintained decode t
  | insert {t : LoadedTable C} {rowId : String} (h : Maintained decode t)
      (hnew : t.rows[rowId]? = none) (values : RowValues C) :
      Maintained decode (t.applyInsert rowId values)
  | update {t : LoadedTable C} {rowId : String} (h : Maintained decode t)
      (hold : t.rows[rowId]?.isSome) (values : RowValues C) :
      Maintained decode (t.applyUpdate rowId values)
  | delete {t : LoadedTable C} (h : Maintained decode t) (rowId : String) :
      Maintained decode (t.applyDelete rowId)

/-- **Maintaining the indexes change by change gives what rebuilding them from the
rows does**: rebuilding changes nothing of a maintained view. -/
theorem rebuildIndexes_of_maintained {δ : Type}
    {decode : δ → Except SqlError (Option (String × RowValues C × Int))}
    (h : Maintained decode t) : t.rebuildIndexes = t := by
  suffices hexact : t.Exact from hexact.rebuildIndexes_eq
  induction h with
  | build h => exact exact_build h
  | insert _ hnew values ih =>
    rw [applyInsert_eq_applyUpdate hnew]
    exact ih.applyUpdate _ values
  | update _ _ values ih => exact ih.applyUpdate _ values
  | delete _ rowId ih => exact ih.applyDelete rowId

/-- A view of one index with a row put in, moved to another key and taken out. -/
theorem rebuildIndexes_of_maintained_moved :
    let empty : LoadedTable plainCrates := ⟨⟨0, "public", "t", [], none, [], [], [], "t", false,
      false, [], ""⟩, ∅, ∅, [⟨⟨"i", "public", "t", ["a"], false, "btree"⟩, .new false⟩]⟩
    let values : RowValues plainCrates := .ofList [("a", SqlValue.int8 1)]
    let gone := ((empty.applyInsert "r" ∅).applyUpdate "r" values).applyDelete "r"
    gone.rebuildIndexes = gone := by
  intro empty values gone
  have hbuilt : build empty.table (fun _ : Unit => .ok none) [] (empty.indexes.map (·.index)) =
      .ok empty := rfl
  have hnew : empty.rows["r"]? = none := ExtTreeMap.getElem?_empty
  have hold : (empty.applyInsert "r" ∅).rows["r"]?.isSome := by simp [applyInsert, getElem?_setRow]
  have hmoved := ((Maintained.build hbuilt).insert hnew ∅).update hold values
  exact rebuildIndexes_of_maintained (hmoved.delete "r")

/-! ### The uniqueness check -/

/-- **The check passes exactly when no other row has the same key** in a unique
index, unless the key has a NULL. -/
theorem checkUnique_ok_iff (h : t.Indexed) (values : RowValues C) (exclude : Option String) :
    t.checkUnique values exclude = .ok () ↔
      ∀ idx ∈ t.indexes, idx.index.unique = true →
        (compositeKey (indexValues idx.index values)).isSome →
        ∀ rid vals, t.rows[rid]? = some vals → idx.keyOf vals = idx.keyOf values →
          some rid = exclude := by
  have hfree : t.checkUnique values exclude = .ok () ↔
      ∀ idx ∈ t.indexes, occupied idx values exclude = false := by grind [checkUnique]
  rw [hfree]
  refine forall₂_congr fun idx hidx => ?_
  simp only [occupied, Bool.and_eq_false_imp, Bool.and_eq_true, and_imp, any_eq_false,
    ExtTreeSet.mem_toList, h idx hidx, bne_iff_ne, ne_eq, Decidable.not_not]
  constructor
  · simp_all
  · simp_all

/-- With rows `r` and `s` of the keys 1 and 2, row `r` may keep its key and may not take the
key of the other. -/
theorem checkUnique_ok_iff_own :
    let row (n : Int32) : RowValues plainCrates := .ofList [("k", SqlValue.int4 n)]
    let t : LoadedTable plainCrates := ⟨⟨0, "", "t", [], none, [], [], [], "", false, false, [], ""⟩,
      (ExtTreeMap.insert ∅ "r" (row 1)).insert "s" (row 2), ∅,
      [⟨⟨"i", "", "t", ["k"], true, ""⟩, .new true⟩]⟩
    t.rebuildIndexes.checkUnique (row 1) (some "r") = .ok () ∧
      t.rebuildIndexes.checkUnique (row 2) (some "r") ≠ .ok () := by
  intro row t
  refine ⟨(checkUnique_ok_iff (indexed_rebuildIndexes t) _ _).mpr ?_, fun hok => ?_⟩
  · intro idx hidx _ _ rid vals hrid hkey
    obtain rfl := List.mem_singleton.mp hidx
    change ((ExtTreeMap.insert ∅ "r" (row 1)).insert "s" (row 2))[rid]? = some vals at hrid
    rw [ExtTreeMap.getElem?_insert, ExtTreeMap.getElem?_insert] at hrid
    split at hrid
    · -- the other row has another key
      cases hrid
      exact absurd hkey (by decide +kernel)
    · split at hrid
      · next heq => rw [Std.LawfulEqCmp.eq_of_compare heq]
      · cases hrid
  · have hother := (checkUnique_ok_iff (indexed_rebuildIndexes t) _ _).mp hok _
      (List.mem_singleton.mpr rfl) rfl (by decide +kernel) "s" (row 2) ?_ rfl
    · exact absurd hother (by decide)
    · exact ExtTreeMap.getElem?_insert_self

end LoadedTable

end

end GuardianDb.Sql
