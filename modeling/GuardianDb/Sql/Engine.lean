/-
The catalog document and the table views of the relational engine, as the
sessions of a database use them (`load_table` and `LoadedTable::build`).

A catalog document names every storage collection after the OID of its table, so
no two tables share one. A view is decoded row by row; it has the definition of its
table and the definitions of its ordered indexes. CREATE INDEX adds a definition.

  * `definitions_buildView` — the definitions in a view.
-/
import GuardianDb.Sql.Sessions
import GuardianDb.Sql.Store

namespace GuardianDb.Sql

open Std Relational

/-- A catalog in which no two tables share a collection. -/
structure CatalogDoc extends Catalog where
  collections_distinct : ∀ (q q' : QualifiedName) (t t' : Table), tables[q]? = some t →
    tables[q']? = some t' → t.storageCollection = t'.storageCollection → q = q'

section
variable {C : Crates} {δ : Type}

/-- The definitions of the ordered indexes of a table. -/
def orderedIndexes (k : Catalog) (q : QualifiedName) : List Index :=
  (k.indexesForTable q.schema q.name).filter fun i => i.method != "hnsw"

abbrev RowDecoder (C : Crates) (δ : Type) :=
  Table → δ → Except SqlError (Option (String × RowValues C × Int))

/-- `LoadedTable::build` with the definitions in a catalog. -/
def buildView (decode : RowDecoder C δ) (k : CatalogDoc) (q : QualifiedName)
    (docs : List (String × δ)) : Except SqlError (LoadedTable C) :=
  match k.tables[q]? with
  | some table => LoadedTable.build table (decode table) docs (k.indexesForTable q.schema q.name)
  | none => .error (.undefinedTable q.name)

theorem table_decodeRows {decode : δ → Except SqlError (Option (String × RowValues C × Int))}
    {docs : List (String × δ)} {t t' : LoadedTable C}
    (h : LoadedTable.decodeRows decode docs t = .ok t') : t'.table = t.table := by
  induction docs generalizing t with
  | nil =>
    cases h
    rfl
  | cons doc docs ih =>
    obtain ⟨r, -, h⟩ := Fallible.except_bind_ok.mp h
    cases r with
    | none => exact ih h
    | some row => exact (ih h).trans rfl

/-- **A view has the definitions of its catalog.** -/
theorem definitions_buildView {decode : RowDecoder C δ} {k : CatalogDoc} {q : QualifiedName}
    {docs : List (String × δ)} {t : LoadedTable C} (h : buildView decode k q docs = .ok t) :
    k.tables[q]? = some t.table ∧
      t.indexes.map LoadedIndex.index = orderedIndexes k.toCatalog q := by
  unfold buildView at h
  cases htable : k.tables[q]? with
  | none =>
    rw [htable] at h
    cases h
  | some table =>
    rw [htable] at h
    obtain ⟨t₀, hdec, h⟩ := Fallible.except_bind_ok.mp h
    cases h
    refine ⟨congrArg some (table_decodeRows hdec).symm, ?_⟩
    simp [LoadedTable.rebuildIndexes, orderedIndexes, Function.comp_def]

/-- The relational engine's catalogs and table views. -/
def tableRelations (decode : RowDecoder C δ) :
    Relations δ CatalogDoc (LoadedTable C) SqlError where
  newCatalog := ⟨⟨∅, ∅, ∅, ∅, ["public"]⟩, by simp⟩
  collectionOf k q := (k.tables[q]?).map fun t => t.storageCollection
  build := buildView decode
  tables k := k.tables.keys
  collectionOf_inj := by
    intro k q q' c hq hq'
    obtain ⟨t, ht, rfl⟩ := Option.map_eq_some_iff.mp hq
    obtain ⟨t', ht', heq⟩ := Option.map_eq_some_iff.mp hq'
    exact k.collections_distinct q q' t t' ht ht' heq.symm

/-! ### CREATE INDEX -/

/-- Two rows have the same key in an index, without a NULL. -/
def hasDuplicates (index : Index) : List (RowValues C) → Bool
  | [] => false
  | row :: rows =>
      (compositeKey (indexValues index row)).isSome && (rows.any fun other =>
        compositeKey (indexValues index other) == compositeKey (indexValues index row)) ||
        hasDuplicates index rows

/-- `exec_create_index`, on the loaded table. -/
def createIndex (k : CatalogDoc) (t : LoadedTable C) (index : Index) : Except SqlError CatalogDoc :=
  if k.indexes.contains ⟨index.schema, index.name⟩ then .error (.duplicateIndex index.name)
  else if index.unique && hasDuplicates index t.rows.values then
    .error (.uniqueViolation index.name "could not create unique index")
  else
    .ok ⟨{ k.toCatalog with indexes := k.indexes.insert ⟨index.schema, index.name⟩ index },
      k.collections_distinct⟩

end

end GuardianDb.Sql
