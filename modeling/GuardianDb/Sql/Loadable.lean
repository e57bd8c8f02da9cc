/-
Tables stay loadable while their definitions change.

Stored documents outlive changes of the schema. A document is written by the columns a
table has then and read by the columns it has later, so every later definition has to
understand every document that is still there.

The model is one session over a catalog and the stored documents: CREATE TABLE, the
operations of ALTER TABLE, DROP TABLE, CREATE INDEX, DROP INDEX, TRUNCATE, and the single
writes of INSERT, UPDATE and DELETE. The checks of CREATE INDEX on an index for vectors are
left out.

  * `Intact` — every document can be read by the present columns of its table.
  * `put_sound` — the values that INSERT and UPDATE coerce to the columns can be read back.
  * `intact_step` — kept by every step that is sound.
  * `tables_stay_loadable` — so after every run of sound steps all tables load, and an
    added column is NULL in the rows that are there.
-/
import GuardianDb.Relational.Cast
import GuardianDb.Sql.DdlFrame
import GuardianDb.Sql.Documents

namespace GuardianDb.Sql

open List hiding getElem?_insert
open Std Relational Fallible ExtTreeMap

variable {f : Column → Column} {m : ExtTreeMap QualifiedName Index} {constraint : TableConstraint}

section
variable {C : Crates}

/-! ### The database -/

/-- A catalog, the next object id, and the documents of each collection. -/
structure DocStore where
  catalog : Catalog
  nextOid : Nat
  docs : String → List (String × Json)

/-- No tables yet. -/
def DocStore.empty (searchPath : List String) : DocStore :=
  ⟨⟨∅, ∅, ∅, ∅, searchPath⟩, 0, fun _ => []⟩

/-- Documents with one collection replaced. -/
def withCollection (docs : String → List (String × Json)) (collection : String)
    (ds : List (String × Json)) : String → List (String × Json) :=
  fun c => if c = collection then ds else docs c

/-- A document is stored under its row id. -/
def putDoc (ds : List (String × Json)) (rowId : String) (doc : Json) : List (String × Json) :=
  ds.filter (fun p => p.1 != rowId) ++ [(rowId, doc)]

variable (C) in
/-- A step of a session. `put` and `delete` are the single writes of INSERT, UPDATE and
DELETE. -/
inductive SchemaStep where
  | create (schema name : String) (columns : List ColumnSpec) (constraints : List TableConstraint)
  | alter (table : QualifiedName) (op : AlterOp)
  | dropTable (table : QualifiedName) (cascade : Bool)
  | createIndex (index : Index) (ifNotExists : Bool)
  | dropIndex (name : TableName) (ifExists : Bool)
  | truncate (tables : List QualifiedName)
  | put (table : QualifiedName) (rowId : String) (values : RowValues C) (version : Int)
  | delete (table : QualifiedName) (rowId : String)

/-- `LoadedTable::build`, of a stored table. -/
def loadStored (D : Codec C) (s : DocStore) (q : QualifiedName) (t : Table) :
    Except SqlError (LoadedTable C) :=
  LoadedTable.build t (decodeRow D t) (s.docs t.storageCollection)
    (s.catalog.indexesForTable q.schema q.name)

/-- The values of a row after RENAME COLUMN. -/
def renameValue (old new : String) (values : RowValues C) : RowValues C :=
  match values[old]? with
  | some v => (values.erase old).insert new v
  | none => values

/-- The rows that RENAME COLUMN writes again. -/
def rewriteRows (D : Codec C) (t' : Table) (old new : String) (loaded : LoadedTable C)
    (ds : List (String × Json)) : List (String × Json) :=
  loaded.rows.toList.foldl (fun ds row => putDoc ds row.1
    (encodeRow D t' row.1 (renameValue old new row.2) (loaded.versionOf row.1 + 1))) ds

/-- The documents after an operation of ALTER TABLE; only RENAME COLUMN writes any. -/
def docsAfter (D : Codec C) (s : DocStore) (k' : Catalog) (q : QualifiedName) (t : Table)
    (loaded : LoadedTable C) : AlterOp → String → List (String × Json)
  | .renameColumn old new =>
      match k'.tables[q]? with
      | some t' => withCollection s.docs t.storageCollection
          (rewriteRows D t' old new loaded (s.docs t.storageCollection))
      | none => s.docs
  | _ => s.docs

/-- No two rows have the same key of an index; NULLs are distinct. -/
def keysApart (index : Index) (loaded : LoadedTable C) : Bool :=
  let keys := (loaded.rows.values.map (indexValues index)).filter fun vs => (compositeKey vs).isSome
  (keys.map orderedKey).Nodup

/-- `exec_create_index`, on a table that has been resolved. -/
def execCreateIndex (D : Codec C) (s : DocStore) (index : Index) (ifNotExists : Bool) :
    Except SqlError DocStore :=
  match s.catalog.tables[(⟨index.schema, index.table⟩ : QualifiedName)]? with
  | none => .error (.undefinedTable index.table)
  | some t =>
      if s.catalog.indexes.contains ⟨index.schema, index.name⟩ then
        if ifNotExists then .ok s else .error (.duplicateIndex index.name)
      else do
        let loaded ← loadStored D s ⟨index.schema, index.table⟩ t
        let k ← Catalog.insertIndex s.catalog index
        if index.unique && !keysApart index loaded then
          .error (.uniqueViolation index.name "could not create unique index")
        else .ok ⟨k, s.nextOid + 1, s.docs⟩

/-- A foreign key on one of the tables, of a table that is not among them. -/
def truncateBlocked (k : Catalog) (targets : List QualifiedName) :
    Option (QualifiedName × QualifiedName × ForeignKey) :=
  targets.findSome? fun q =>
    ((k.referencingForeignKeys q).find? fun p => !targets.contains p.1).map fun p => (q, p)

/-- The documents with the collection of a table emptied. -/
def truncateDocs (k : Catalog) (docs : String → List (String × Json)) (q : QualifiedName) :
    String → List (String × Json) :=
  match k.tables[q]? with
  | some t => withCollection docs t.storageCollection []
  | none => docs

/-- `exec_truncate`, on tables that have been resolved. -/
def execTruncate (s : DocStore) (targets : List QualifiedName) : Except SqlError DocStore :=
  match targets.find? fun q => !s.catalog.tables.contains q with
  | some q => .error (.undefinedTable q.name)
  | none =>
      match truncateBlocked s.catalog targets with
      | some (q, child, fk) => .error (.featureNotSupported
          ("cannot truncate a table referenced in a foreign key constraint — table \"" ++
            child.name ++ "\" references \"" ++ q.name ++ "\" (constraint \"" ++ fk.name ++
              "\"); truncate \"" ++ child.name ++ "\" in the same statement"))
      | none => .ok { s with docs := targets.foldl (truncateDocs s.catalog) s.docs }

/-- One step. ALTER TABLE loads its table first. -/
def schemaStep (env : DdlEnv) (D : Codec C) (s : DocStore) : SchemaStep C → Except SqlError DocStore
  | .create schema name columns constraints => do
      let k ← createTable env s.catalog s.nextOid schema name columns constraints
      return ⟨k, s.nextOid + 1, s.docs⟩
  | .alter q op =>
      match s.catalog.tables[q]? with
      | none => .error (.undefinedTable (q.schema ++ "." ++ q.name))
      | some t => do
          let loaded ← loadStored D s q t
          let k ← alterStep env q s.catalog op
          return ⟨k, s.nextOid, docsAfter D s k q t loaded op⟩
  | .dropTable q cascade =>
      match s.catalog.tables[q]? with
      | none => .error (.undefinedTable (q.schema ++ "." ++ q.name))
      | some t => do
          let k ← dropTable [q] cascade s.catalog q
          return ⟨k, s.nextOid, withCollection s.docs t.storageCollection []⟩
  | .createIndex index ifNotExists => execCreateIndex D s index ifNotExists
  | .dropIndex name ifExists => do
      let k ← Catalog.dropIndex s.catalog name.1 name.2 ifExists
      return ⟨k, s.nextOid, s.docs⟩
  | .truncate targets => execTruncate s targets
  | .put q rowId values version =>
      match s.catalog.tables[q]? with
      | none => .error (.undefinedTable (q.schema ++ "." ++ q.name))
      | some t => .ok { s with
          docs := withCollection s.docs t.storageCollection
            (putDoc (s.docs t.storageCollection) rowId (encodeRow D t rowId values version)) }
  | .delete q rowId =>
      match s.catalog.tables[q]? with
      | none => .error (.undefinedTable (q.schema ++ "." ++ q.name))
      | some t => .ok { s with
          docs := withCollection s.docs t.storageCollection
            ((s.docs t.storageCollection).filter fun p => p.1 != rowId) }

/-! ### Sound steps -/

/-- Every document of a table has nothing under a name. -/
def FieldFree (s : DocStore) (t : Table) (name : String) : Prop :=
  ∀ p ∈ s.docs t.storageCollection, ∀ fields, p.2 = .object fields → fieldOf fields name = .null

/-- The steps that leave all documents readable. -/
def SchemaStep.Sound (env : DdlEnv) (D : Codec C) (s : DocStore) : SchemaStep C → Prop
  | .create _ _ columns _ =>
      (columns.map ColumnSpec.name).Nodup ∧ "_id" ∉ columns.map ColumnSpec.name
  | .alter q op =>
      ∀ t, s.catalog.tables[q]? = some t →
        match op with
        | .addColumn spec _ => spec.name ≠ "_id" ∧ ((t.column spec.name).isNone →
            FieldFree s t spec.name)
        | .renameColumn old new => new ≠ "_id" ∧
            (new = old ∨ new ∉ t.columns.map Column.name)
        | .setDataType column dataType => ∀ ty, env.parseType dataType = .ok ty →
            ∀ p ∈ s.docs t.storageCollection, ∀ fields, p.2 = .object fields →
              ∃ v, decodeJson D ty (fieldOf fields column) = .ok v ∧ Storable D ty v
        | _ => True
  | .put q _ values _ => ∀ t, s.catalog.tables[q]? = some t →
      ∀ c ∈ t.columns, Storable D c.ty (valueOf values c.name)
  | _ => True

/-- A value that is coerced to a type can be read back, if this is so for the casts to other
types than the integer ones. -/
theorem storable_coerceTo {D : Codec C}
    {castOther : SqlValue C → SqlType → Except RelError (SqlValue C)}
    (hother : ∀ v ty w, castOther v ty = .ok w → Storable D ty w) {v w : SqlValue C} {ty : SqlType}
    {column : String} (h : coerceTo castOther v ty column = .ok w) : Storable D ty w := by
  unfold coerceTo at h
  split at h
  · cases h
    exact .null ty
  · next hnull =>
    split at h
    · next out hout =>
      cases h
      rw [Relational.cast, if_neg hnull] at hout
      split at hout
      · next hint =>
        unfold castInteger at hout
        split at hout
        · cases ty <;> cases hint <;>
            (obtain ⟨r, -, rfl⟩ := except_map_ok.mp hout
             constructor)
        · cases hout
      · exact hother v ty _ hout
    · cases h

/-- **What INSERT and UPDATE write can be read back.** They coerce every value to the type of
its column; a column that gets none is NULL. -/
theorem put_sound {env : DdlEnv} {D : Codec C} {s : DocStore}
    {castOther : SqlValue C → SqlType → Except RelError (SqlValue C)}
    (hother : ∀ v ty w, castOther v ty = .ok w → Storable D ty w) {q : QualifiedName}
    {values : RowValues C} (hvalues : ∀ t, s.catalog.tables[q]? = some t → ∀ c ∈ t.columns,
      valueOf values c.name = .null ∨
        ∃ v, coerceTo castOther v c.ty c.name = .ok (valueOf values c.name))
    (rowId : String) (version : Int) :
    (SchemaStep.put q rowId values version).Sound env D s := by
  intro t ht c hc
  rcases hvalues t ht c hc with hnull | ⟨v, hv⟩
  · rw [hnull]
    exact .null c.ty
  · exact storable_coerceTo hother hv

/-! ### The invariant -/

/-- Every table can be loaded, and has a collection of its own. -/
structure Intact (D : Codec C) (s : DocStore) : Prop where
  keyed : Keyed s.catalog
  collection : ∀ (q : QualifiedName) (t : Table), s.catalog.tables[q]? = some t →
    ∃ n < s.nextOid, t.storageCollection = "__gdb_sql_rows_" ++ toString n
  distinct : ∀ (q q' : QualifiedName) (t t' : Table), s.catalog.tables[q]? = some t →
    s.catalog.tables[q']? = some t' → t.storageCollection = t'.storageCollection → q = q'
  fresh : ∀ n, s.nextOid ≤ n → s.docs ("__gdb_sql_rows_" ++ toString n) = []
  names : ∀ (q : QualifiedName) (t : Table), s.catalog.tables[q]? = some t →
    (t.columns.map Column.name).Nodup ∧ "_id" ∉ t.columns.map Column.name
  readable : ∀ (q : QualifiedName) (t : Table), s.catalog.tables[q]? = some t →
    ∀ p ∈ s.docs t.storageCollection, Readable D t p.1 p.2

variable {env : DdlEnv} {D : Codec C} {s s' : DocStore}

/-! ### Loading -/

/-- A row as it is read from a document of the table. -/
def RowFrom (D : Codec C) (t : Table) (ds : List (String × Json)) (rowId : String)
    (values : RowValues C) : Prop :=
  ∃ fields, (rowId, .object fields) ∈ ds ∧
    (∀ c ∈ t.columns, decodeJson D c.ty (fieldOf fields c.name) = .ok (valueOf values c.name) ∧
      Storable D c.ty (valueOf values c.name)) ∧
    ∀ key, key ∉ t.columns.map Column.name → valueOf values key = .null

variable {t : Table} {ds : List (String × Json)} {rowId : String} {values : RowValues C}

theorem RowFrom.mono {ds' : List (String × Json)} (h : RowFrom D t ds rowId values)
    (hsub : ∀ p ∈ ds, p ∈ ds') : RowFrom D t ds' rowId values := by
  obtain ⟨fields, hmem, hrest⟩ := h
  exact ⟨fields, hsub _ hmem, hrest⟩

/-- What loading makes of some documents: the rows come from them, and every document
that is not a tombstone has its row. -/
structure Decoded (D : Codec C) (t : Table) (ds : List (String × Json)) (l l' : LoadedTable C) :
    Prop where
  rows : ∀ (rowId : String) (values : RowValues C), l'.rows[rowId]? = some values →
    l.rows[rowId]? = some values ∨ RowFrom D t ds rowId values
  kept : ∀ rowId : String, rowId ∈ l.rows → rowId ∈ l'.rows
  live : ∀ p ∈ ds, (∃ fields, p.2 = .object fields ∧ isDeleted fields = true) ∨ p.1 ∈ l'.rows

/-- **A table whose documents can be read can be loaded.** -/
theorem decodeRows_ok (hnodup : (t.columns.map Column.name).Nodup)
    (h : ∀ p ∈ ds, Readable D t p.1 p.2) (l : LoadedTable C) :
    ∃ l', LoadedTable.decodeRows (decodeRow D t) ds l = .ok l' ∧ Decoded D t ds l l' := by
  induction ds generalizing l with
  | nil => exact ⟨l, rfl, fun _ _ h => .inl h, fun _ h => h, fun p hp => nomatch hp⟩
  | cons p ds ih =>
    have htail := ih fun p' hp' => h p' (mem_cons_of_mem p hp')
    obtain ⟨rowId, doc⟩ := p
    rcases decodeRow_of_readable D hnodup (h _ mem_cons_self) with
      ⟨fields, rfl, hdeleted⟩ | ⟨fields, values, rfl, hsome, hread⟩
    · obtain ⟨l', hl', hdec⟩ := htail l
      refine ⟨l', ?_, fun rid vs hvs => ?_, hdec.kept, fun p hp => ?_⟩
      · rw [LoadedTable.decodeRows, decodeRow_deleted D hdeleted]
        exact hl'
      · exact (hdec.rows rid vs hvs).imp_right fun hr => hr.mono fun p hp =>
          mem_cons_of_mem _ hp
      · rcases mem_cons.mp hp with rfl | hp
        · exact .inl ⟨fields, rfl, hdeleted⟩
        · exact hdec.live p hp
    · obtain ⟨l', hl', hdec⟩ := htail { l with
        versions := l.versions.insert rowId (versionIn fields)
        rows := l.rows.insert rowId values }
      refine ⟨l', ?_, fun rid vs hvs => ?_, fun rid hrid => hdec.kept rid ?_, fun p hp => ?_⟩
      · rw [LoadedTable.decodeRows, hsome]
        exact hl'
      · rcases hdec.rows rid vs hvs with hold | hr
        · rw [getElem?_insert] at hold
          split at hold
          · next heq =>
            rw [← Std.LawfulEqCmp.eq_of_compare heq, ← Option.some.inj hold]
            exact .inr ⟨fields, mem_cons_self, hread⟩
          · exact .inl hold
        · exact .inr (hr.mono fun p hp => mem_cons_of_mem _ hp)
      · exact mem_insert.mpr (.inr hrid)
      · rcases mem_cons.mp hp with rfl | hp
        · exact .inr (hdec.kept rowId mem_insert_self)
        · exact hdec.live p hp

variable {q : QualifiedName}

theorem Intact.loads (h : Intact D s) (ht : s.catalog.tables[q]? = some t) :
    ∃ l, loadStored D s q t = .ok l ∧
      Decoded D t (s.docs t.storageCollection) ⟨t, ∅, ∅, []⟩ l := by
  obtain ⟨l, hl, hdec⟩ := decodeRows_ok (h.names q t ht).1 (h.readable q t ht) ⟨t, ∅, ∅, []⟩
  exact ⟨_, except_bind_ok.mpr ⟨l, hl, rfl⟩, hdec.rows, hdec.kept, hdec.live⟩

/-- The rows of a loaded table come from its documents. -/
theorem Decoded.rowFrom {l : LoadedTable C} (h : Decoded D t ds ⟨t, ∅, ∅, []⟩ l)
    (hrow : l.rows[rowId]? = some values) : RowFrom D t ds rowId values := by
  rcases h.rows rowId values hrow with hempty | hr
  · simp_all
  · exact hr

/-! ### Tables and collections -/

variable {n : Nat}

theorem collection_injective {n' : Nat}
    (h : "__gdb_sql_rows_" ++ toString n = "__gdb_sql_rows_" ++ toString n') : n = n' :=
  Nat.repr_inj.mp ((String.append_right_inj _).mp h)

theorem withCollection_self (docs : String → List (String × Json)) (c : String) :
    withCollection docs c (docs c) = docs := by
  funext c'
  unfold withCollection
  split
  · next h => rw [h]
  · rfl

theorem Intact.fresh_withCollection (h : Intact D s) (ht : s.catalog.tables[q]? = some t)
    (ds : List (String × Json)) (hn : s.nextOid ≤ n) :
    withCollection s.docs t.storageCollection ds ("__gdb_sql_rows_" ++ toString n) = [] := by
  obtain ⟨m, hm, hcoll⟩ := h.collection q t ht
  rw [withCollection, if_neg, h.fresh n hn]
  intro heq
  rw [hcoll] at heq
  have hnm := collection_injective heq
  omega

variable {k' : Catalog}

/-- The columns can be told apart. -/
abbrev Named (columns : List Column) : Prop :=
  (columns.map Column.name).Nodup ∧ "_id" ∉ columns.map Column.name

section
variable (h : Intact D s) {docs' : String → List (String × Json)}
  (back : QualifiedName → QualifiedName) (hkeyed : Keyed k')
  (hfresh : ∀ n, s.nextOid ≤ n → docs' ("__gdb_sql_rows_" ++ toString n) = [])
  (hinj : ∀ (q q' : QualifiedName) (t t' : Table), k'.tables[q]? = some t →
    k'.tables[q']? = some t' → back q = back q' → q = q')

include h hkeyed hfresh hinj

/-- The invariant after a step that makes no new table: each comes from one that was
there, with the collection of that one. -/
theorem Intact.of_back (htable : ∀ (q : QualifiedName) (t' : Table), k'.tables[q]? = some t' →
      ∃ t, s.catalog.tables[back q]? = some t ∧ t'.storageCollection = t.storageCollection ∧
        Named t'.columns ∧ ∀ p ∈ docs' t'.storageCollection, Readable D t' p.1 p.2) :
    Intact D ⟨k', s.nextOid, docs'⟩ where
  keyed := hkeyed
  collection q t' ht' := by
    obtain ⟨t, ht, hcoll, -⟩ := htable q t' ht'
    rw [hcoll]
    exact h.collection (back q) t ht
  distinct q q' t t' ht ht' hsame := by
    obtain ⟨t₁, ht₁, hcoll₁, -⟩ := htable q t ht
    obtain ⟨t₂, ht₂, hcoll₂, -⟩ := htable q' t' ht'
    refine hinj q q' t t' ht ht' (h.distinct _ _ t₁ t₂ ht₁ ht₂ ?_)
    rw [← hcoll₁, ← hcoll₂, hsame]
  fresh := hfresh
  names q t' ht' := by
    obtain ⟨t, -, -, hnames, -⟩ := htable q t' ht'
    exact hnames
  readable q t' ht' := by
    obtain ⟨t, -, -, -, hread⟩ := htable q t' ht'
    exact hread

/-- The invariant after a step that takes tables away or moves them, with columns and
documents as they were. -/
theorem Intact.of_moved (htable : ∀ (q : QualifiedName) (t' : Table), k'.tables[q]? = some t' →
      ∃ t, s.catalog.tables[back q]? = some t ∧ t'.storageCollection = t.storageCollection ∧
        t'.columns = t.columns ∧ docs' t.storageCollection = s.docs t.storageCollection) :
    Intact D ⟨k', s.nextOid, docs'⟩ := by
  refine h.of_back back hkeyed hfresh hinj fun q t' ht' => ?_
  obtain ⟨t, ht, hcoll, hcols, hdocs⟩ := htable q t' ht'
  refine ⟨t, ht, hcoll, ?_, ?_⟩
  · rw [hcols]
    exact h.names _ t ht
  · rw [hcoll, hdocs]
    intro p hp
    obtain ⟨fields, hdoc, hrest⟩ := h.readable _ t ht p hp
    exact ⟨fields, hdoc, by rwa [hcols]⟩

end

variable {a : QualifiedName} {t' : Table}

/-- The invariant after a step that changes one table and its documents. -/
theorem Intact.of_table (h : Intact D s) (ht : s.catalog.tables[a]? = some t) (hkeyed : Keyed k')
    (hothers : ∀ q, q ≠ a → k'.tables[q]? = s.catalog.tables[q]?) (hown : k'.tables[a]? = some t')
    (hcoll : t'.storageCollection = t.storageCollection)
    (hnames : Named t'.columns) (hread : ∀ p ∈ ds, Readable D t' p.1 p.2) :
    Intact D ⟨k', s.nextOid, withCollection s.docs t.storageCollection ds⟩ := by
  refine h.of_back id hkeyed (fun n hn => h.fresh_withCollection ht ds hn)
    (fun q q' _ _ _ _ heq => heq) fun q t₁ ht₁ => ?_
  by_cases hq : q = a
  · simp_all [withCollection, Named]
  · rw [hothers q hq] at ht₁
    refine ⟨t₁, ht₁, rfl, h.names q t₁ ht₁, ?_⟩
    rw [withCollection, if_neg fun heq => hq (h.distinct q a t₁ t ht₁ ht heq)]
    exact h.readable q t₁ ht₁

/-! ### CREATE TABLE -/

variable {k : Catalog} {schema : String} {table : String}

theorem columns_applyTableConstraint {parts parts' : TableParts}
    (h : applyTableConstraint k schema table parts constraint = .ok parts') :
    parts'.columns = parts.columns := by
  cases constraint with
  | references name columns fk =>
    obtain ⟨key, -, h⟩ := except_bind_ok.mp h
    cases h
    rfl
  | _ =>
    cases h
    rfl

variable {constraints : List TableConstraint}

theorem columns_applyTableConstraints {parts parts' : TableParts}
    (h : constraints.foldlM (applyTableConstraint k schema table) parts = .ok parts') :
    parts'.columns = parts.columns := by
  induction constraints generalizing parts with
  | nil =>
    cases h
    rfl
  | cons constraint constraints ih =>
    grind [except_bind_ok, columns_applyTableConstraint]

variable {name : String}

/-- A new table has the columns of its specifications. -/
theorem createTable_names {oid : Nat} {specs : List ColumnSpec}
    (h : createTable env k oid schema name specs constraints = .ok k') :
    ∃ parts, parts.columns.map Column.name = specs.map ColumnSpec.name ∧
      createParts env k oid schema name parts = .ok k' := by
  unfold createTable at h
  split at h
  · cases h
  · obtain ⟨parts₁, hcols, h⟩ := except_bind_ok.mp h
    obtain ⟨parts, hcons, h⟩ := except_bind_ok.mp h
    have hg := buildColumns_ok hcols
    refine ⟨parts, ?_, h⟩
    rw [columns_applyTableConstraints hcons, hg.columns, ← hg.names]
    rfl

theorem indexes_addIndex {i : Index}
    (hm : ∀ (q : QualifiedName) (j : Index), m[q]? = some j → ⟨j.schema, j.name⟩ = q) :
    ∀ (q : QualifiedName) (j : Index), (addIndex m i)[q]? = some j →
      ⟨j.schema, j.name⟩ = q := by
  intro q j hj
  rw [addIndex, getElem?_insert] at hj
  split at hj
  · next heq => simp_all
  · exact hm q j hj

theorem indexes_addIndexes {f : UniqueConstraint → Index} (us : List UniqueConstraint)
    (hm : ∀ (q : QualifiedName) (j : Index), m[q]? = some j → ⟨j.schema, j.name⟩ = q) :
    ∀ (q : QualifiedName) (j : Index), (us.foldl (fun m u => addIndex m (f u)) m)[q]? = some j →
      ⟨j.schema, j.name⟩ = q := by
  induction us generalizing m with
  | nil => exact hm
  | cons u us ih => exact ih (indexes_addIndex hm)

theorem intact_create (h : Intact D s) {specs : List ColumnSpec}
    (hnames : (specs.map ColumnSpec.name).Nodup ∧ "_id" ∉ specs.map ColumnSpec.name)
    (hcreate : createTable env s.catalog s.nextOid schema name specs constraints = .ok k') :
    Intact D ⟨k', s.nextOid + 1, s.docs⟩ := by
  obtain ⟨parts, hcols, hparts⟩ := createTable_names hcreate
  have hk' := createParts_ok hparts
  have htables : ∀ (q : QualifiedName) (t : Table), k'.tables[q]? = some t →
      q = ⟨schema, name⟩ ∧ t = tableOf s.nextOid schema name parts ∨
        q ≠ ⟨schema, name⟩ ∧ s.catalog.tables[q]? = some t := by grind
  -- a table that was there has an older collection
  have hnew : ∀ (q : QualifiedName) (t : Table), s.catalog.tables[q]? = some t →
      t.storageCollection ≠ "__gdb_sql_rows_" ++ toString s.nextOid := by
    intro q t ht heq
    obtain ⟨n, hn, hcoll⟩ := h.collection q t ht
    have hsame := collection_injective (hcoll.symm.trans heq)
    omega
  refine ⟨⟨fun q t ht => ?_, fun q i hi => ?_⟩, fun q t ht => ?_, fun q q' t t' ht ht' hsame => ?_,
    fun n hn => h.fresh n (Nat.le_of_succ_le hn), fun q t ht => ?_, fun q t ht => ?_⟩
  · rcases htables q t ht with ⟨rfl, rfl⟩ | ⟨-, ht⟩
    · rfl
    · exact h.keyed.tables q t ht
  · rw [hk'] at hi
    refine indexes_addIndexes parts.uniques (fun q i hi => ?_) q i hi
    split at hi
    · exact h.keyed.indexes q i hi
    · exact indexes_addIndex h.keyed.indexes q i hi
  · rcases htables q t ht with ⟨-, rfl⟩ | ⟨-, ht⟩
    · exact ⟨s.nextOid, Nat.lt_succ_self _, rfl⟩
    · obtain ⟨n, hn, hcoll⟩ := h.collection q t ht
      exact ⟨n, Nat.lt_succ_of_lt hn, hcoll⟩
  · rcases htables q t ht with ⟨rfl, rfl⟩ | ⟨-, ht⟩ <;>
      rcases htables q' t' ht' with ⟨rfl, rfl⟩ | ⟨-, ht'⟩
    · rfl
    · exact absurd hsame.symm (hnew q' t' ht')
    · exact absurd hsame (hnew q t ht)
    · exact h.distinct q q' t t' ht ht' hsame
  · rcases htables q t ht with ⟨-, rfl⟩ | ⟨-, ht⟩
    · rwa [names_tableOf, hcols]
    · exact h.names q t ht
  · rcases htables q t ht with ⟨-, rfl⟩ | ⟨-, ht⟩
    · intro p hp
      have hempty : s.docs ("__gdb_sql_rows_" ++ toString s.nextOid) = [] :=
        h.fresh s.nextOid (Nat.le_refl _)
      rw [tableOf, hempty] at hp
      cases hp
    · exact h.readable q t ht

/-! ### DROP, CREATE INDEX and TRUNCATE -/

variable {ifExists : Bool}

theorem intact_dropIndex (h : Intact D s) {n : TableName}
    (hdrop : Catalog.dropIndex s.catalog n.1 n.2 ifExists = .ok k') :
    Intact D ⟨k', s.nextOid, s.docs⟩ := by
  rcases dropIndex_ok hdrop with ⟨-, rfl⟩ | ⟨q, -, rfl⟩
  · exact h
  · exact h.of_moved id (keyed_eraseIndex h.keyed _ _) h.fresh (fun q q' _ _ _ _ heq => heq)
      fun q t ht => ⟨t, ht, rfl, rfl, rfl⟩

theorem intact_createIndex (h : Intact D s) {index : Index} {ifNotExists : Bool}
    (hcreate : execCreateIndex D s index ifNotExists = .ok s') : Intact D s' := by
  unfold execCreateIndex at hcreate
  split at hcreate
  · cases hcreate
  · split at hcreate
    · split at hcreate
      · cases hcreate
        exact h
      · cases hcreate
    · obtain ⟨loaded, -, hcreate⟩ := except_bind_ok.mp hcreate
      obtain ⟨k', hk', hcreate⟩ := except_bind_ok.mp hcreate
      split at hcreate
      · cases hcreate
      · cases hcreate
        unfold Catalog.insertIndex at hk'
        split at hk'
        · cases hk'
        · cases hk'
          refine ⟨⟨h.keyed.tables, indexes_addIndex h.keyed.indexes⟩, fun q t ht => ?_,
            h.distinct, fun n hn => h.fresh n (Nat.le_of_succ_le hn), h.names, h.readable⟩
          obtain ⟨n, hn, hcoll⟩ := h.collection q t ht
          exact ⟨n, Nat.lt_succ_of_lt hn, hcoll⟩

theorem intact_truncateDocs (h : Intact D s) (q : QualifiedName) :
    Intact D { s with docs := truncateDocs s.catalog s.docs q } := by
  unfold truncateDocs
  split
  · next t ht =>
    exact h.of_table ht h.keyed (fun _ _ => rfl) ht rfl (h.names q t ht) fun p hp => nomatch hp
  · exact h

theorem intact_truncate (h : Intact D s) {targets : List QualifiedName}
    (htruncate : execTruncate s targets = .ok s') : Intact D s' := by
  unfold execTruncate at htruncate
  split at htruncate
  · cases htruncate
  · split at htruncate
    · cases htruncate
    · cases htruncate
      refine Loop.foldl_invariant (I := fun docs => Intact D { s with docs := docs }) targets
        (fun docs q _ hdocs => intact_truncateDocs hdocs q) ?_
      exact h

/-- The tables that are left without one are as they were, up to foreign keys. -/
theorem of_tables_withoutTable (h : (Catalog.withoutTable k a t).tables[q]? = some t') :
    q ≠ a ∧ ∃ t₀, k.tables[q]? = some t₀ ∧ t' = Catalog.withoutReferences a t₀ := by
  have hq : q ≠ a := by
    rintro rfl
    rw [not_mem_withoutTable] at h
    cases h
  rw [tables_withoutTable k t hq] at h
  obtain ⟨t₀, ht₀, rfl⟩ := Option.map_eq_some_iff.mp h
  exact ⟨hq, t₀, ht₀, rfl⟩

theorem intact_dropTable (h : Intact D s) (ht : s.catalog.tables[a]? = some t) {cascade : Bool}
    (hdrop : dropTable [a] cascade s.catalog a = .ok k') :
    Intact D ⟨k', s.nextOid, withCollection s.docs t.storageCollection []⟩ := by
  have hk' : k' = Catalog.withoutTable s.catalog a t := by
    unfold dropTable at hdrop
    split at hdrop
    · cases hdrop
    · simp only [Catalog.dropTableQualified, ht] at hdrop
      cases hdrop
      rfl
  subst hk'
  refine h.of_moved id (keyed_withoutTable h.keyed t) (fun n hn => h.fresh_withCollection ht [] hn)
    (fun q q' _ _ _ _ heq => heq) fun q t' ht' => ?_
  obtain ⟨hq, t₀, ht₀, rfl⟩ := of_tables_withoutTable ht'
  refine ⟨t₀, ht₀, rfl, rfl, ?_⟩
  rw [withCollection, if_neg fun heq => hq (h.distinct q a t₀ t ht₀ ht heq)]

/-! ### ALTER TABLE -/

variable {new : String}

/-- RENAME TO: the table moves with its documents. -/
theorem intact_renameTable (h : Intact D s) (hstep : alterRenameTable env s.catalog a new = .ok k')
    : Intact D ⟨k', s.nextOid, s.docs⟩ := by
  obtain ⟨t, ht, -, hkeyed, hafter⟩ := alterRenameTable_ok h.keyed hstep
  let b : QualifiedName := ⟨a.schema, new⟩
  have htables : ∀ q t', k'.tables[q]? = some t' → q = b ∧ t' = { t with name := new } ∨
      q ≠ b ∧ q ≠ a ∧ ∃ t₀, s.catalog.tables[q]? = some t₀ ∧
        t' = Catalog.withoutReferences a t₀ := by
    intro q t' ht'
    rw [hafter] at ht'
    split at ht'
    · next hq => exact .inl ⟨hq, (Option.some.inj ht').symm⟩
    · next hne => exact .inr ⟨hne, of_tables_withoutTable ht'⟩
  refine h.of_moved (fun q => if q = b then a else q) hkeyed h.fresh
    (fun q q' t₁ t₂ ht₁ ht₂ heq => ?_) fun q t' ht' => ?_
  · rcases htables q t₁ ht₁ with ⟨hq, -⟩ | ⟨hq, hqa, -⟩ <;>
      rcases htables q' t₂ ht₂ with ⟨hq', -⟩ | ⟨hq', hqa', -⟩
    · rw [hq, hq']
    · simp_all
    · simp_all
    · rwa [if_neg hq, if_neg hq'] at heq
  · rcases htables q t' ht' with ⟨hq, rfl⟩ | ⟨hq, -, t₀, ht₀, rfl⟩
    · exact ⟨t, by rw [if_pos hq, ht], rfl, rfl, rfl⟩
    · exact ⟨t₀, by rw [if_neg hq, ht₀], rfl, rfl, rfl⟩

/-- The columns with one of them changed at most, and not its name or type. -/
def Reshaped (t : Table) (columns : List Column) : Prop :=
  columns = t.columns ∨ ∃ (f : Column → Column) (i : Nat),
    (∀ c, (f c).name = c.name ∧ (f c).ty = c.ty) ∧ columns = t.columns.modify i f

/-- What an operation makes of the columns of its table. -/
def ColumnsAfter (env : DdlEnv) (t : Table) : AlterOp → List Column → Prop
  | .addColumn spec _, columns => columns = t.columns ∨
      (t.column spec.name).isNone ∧ ∃ c : Column, c.name = spec.name ∧ columns = t.columns ++ [c]
  | .dropColumn _ _, columns => columns.Sublist t.columns
  | .renameColumn old new, columns => ∃ i, columnIndex t old = some i ∧
      columns = (renameInTable i old new t).columns
  | .setDataType column dataType, columns => ∃ ty i, env.parseType dataType = .ok ty ∧
      columnIndex t column = some i ∧ columns = t.columns.modify i fun c => { c with ty := ty }
  | _, columns => Reshaped t columns

theorem dropColumns_sublist {names : List String} {columns : List Column}
    (h : dropColumns t names ifExists = .ok columns) : columns.Sublist t.columns := by
  unfold dropColumns at h
  generalize t.columns = start at h ⊢
  induction names generalizing start with
  | nil =>
    cases h
    exact List.Sublist.refl _
  | cons name names ih =>
    rw [foldlM_cons] at h
    obtain ⟨columns₁, hstep, h⟩ := except_bind_ok.mp h
    refine (ih columns₁ h).trans ?_
    split at hstep
    · grind
    · grind [filter_sublist]

theorem tables_insertUniques (f : UniqueConstraint → Index) (us : List UniqueConstraint)
    (k : Catalog) :
    (us.foldl (fun k u => Catalog.tryInsertIndex k (f u)) k).tables = k.tables := by
  have h := tables_insertIndexes (us.map f) k
  rwa [foldl_map] at h

section
variable {a : QualifiedName} {k k' : Catalog} {t : Table}

theorem own_modifyTable (ht : k.tables[a]? = some t) (f : Table → Table) :
    (Catalog.modifyTable k a f).tables[a]? = some (f t) := by
  rw [getElem?_modifyTable, if_pos rfl, ht]
  rfl

theorem own_alterColumn (ht : k.tables[a]? = some t) {column : String}
    (h : alterColumn k a t column f = .ok k') :
    ∃ i, columnIndex t column = some i ∧
      k'.tables[a]? = some { t with columns := t.columns.modify i f } := by
  unfold alterColumn at h
  split at h
  · cases h
  · next i hi =>
    cases h
    exact ⟨i, hi, own_modifyTable ht _⟩

theorem own_alterRenameColumn (ht : k.tables[a]? = some t) {old new : String}
    (h : alterRenameColumn k a t old new = .ok k') :
    ∃ i, columnIndex t old = some i ∧ k'.tables[a]? = some (renameInTable i old new t) := by
  unfold alterRenameColumn at h
  split at h
  · cases h
  · next i hi =>
    cases h
    refine ⟨i, hi, ?_⟩
    rw [← own_modifyTable ht, Loop.foldl_frame Catalog.tables fun k i => ?_]
    exact tables_insertIndexes [_] _

theorem own_alterAddConstraint (ht : k.tables[a]? = some t)
    (h : alterAddConstraint k a constraint = .ok k') :
    ∃ parts, k'.tables[a]? = some (withConstraints parts t) := by
  obtain ⟨parts, -, h⟩ := except_bind_ok.mp h
  cases h
  refine ⟨parts, ?_⟩
  rw [tables_insertUniques, ← own_modifyTable ht]
  split
  · rfl
  · exact congrArg (fun m => m[a]?) (tables_insertIndexes [_] _)

/-- **The table after an operation**, other than RENAME TO. -/
theorem alterStep_own (ht : k.tables[a]? = some t) {op : AlterOp}
    (hop : ∀ new, op ≠ .renameTable new) (h : alterStep env a k op = .ok k') :
    ∃ t', k'.tables[a]? = some t' ∧ t'.storageCollection = t.storageCollection ∧
      ColumnsAfter env t op t'.columns := by
  simp only [alterStep, ht] at h
  have hcolumn : ∀ {column} {f : Column → Column},
      alterColumn k a t column f = .ok k' → (∀ c, (f c).name = c.name ∧ (f c).ty = c.ty) →
        ∃ t', k'.tables[a]? = some t' ∧ t'.storageCollection = t.storageCollection ∧
          Reshaped t t'.columns := by
    intro column f h hf
    obtain ⟨i, -, hown⟩ := own_alterColumn ht h
    exact ⟨_, hown, rfl, .inr ⟨f, i, hf, rfl⟩⟩
  cases op with
  | addColumn spec ifNotExists =>
    obtain ⟨parts, hbuild, h⟩ := except_bind_ok.mp h
    split at h
    · split at h
      · cases h
        exact ⟨t, ht, rfl, .inl rfl⟩
      · cases h
    · next hnew =>
      cases h
      have hg := buildColumn_ok hbuild
      refine ⟨_, own_modifyTable ht _, rfl, .inr ⟨by simpa using hnew, ?_⟩⟩
      have hnames : parts.columns.map Column.name = [spec.name] := by
        rw [hg.columns]
        exact hg.names
      obtain ⟨c, hc⟩ := length_eq_one_iff.mp (by simpa using congrArg List.length hnames)
      rw [hc] at hnames ⊢
      exact ⟨c, by simpa using hnames, rfl⟩
  | dropColumn names ifExists =>
    obtain ⟨columns, hcols, h⟩ := except_bind_ok.mp h
    cases h
    refine ⟨{ t with columns := columns }, ?_, rfl, dropColumns_sublist hcols⟩
    rw [Loop.foldl_frame (f := fun k (i : Index) => Catalog.eraseIndex k a.schema i.name)
      Catalog.tables fun _ _ => rfl]
    exact own_modifyTable ht _
  | renameColumn old new =>
    obtain ⟨i, hi, hown⟩ := own_alterRenameColumn ht h
    exact ⟨_, hown, rfl, i, hi, rfl⟩
  | setNotNull | dropNotNull | setDefault | dropDefault => exact hcolumn h fun c => ⟨rfl, rfl⟩
  | setDataType column dataType =>
    obtain ⟨ty, hty, h⟩ := except_bind_ok.mp h
    obtain ⟨-, -, h⟩ := except_bind_ok.mp h
    obtain ⟨i, hi, hown⟩ := own_alterColumn ht h
    exact ⟨_, hown, rfl, ty, i, hty, hi, rfl⟩
  | renameTable new => exact absurd rfl (hop new)
  | addConstraint constraint =>
    obtain ⟨parts, hown⟩ := own_alterAddConstraint ht h
    exact ⟨_, hown, rfl, .inl rfl⟩
  | dropConstraint name =>
    cases h
    exact ⟨_, own_modifyTable (k := Catalog.eraseIndex k a.schema name) ht _, rfl, .inl rfl⟩
  | rowSecurity enabled forced =>
    cases h
    exact ⟨_, own_modifyTable ht _, rfl, .inl rfl⟩

/-- The other tables after an operation, other than RENAME TO. -/
theorem alterStep_others (hk : Keyed k) {op : AlterOp} (hop : ∀ new, op ≠ .renameTable new)
    (h : alterStep env a k op = .ok k') {q : QualifiedName} (hq : q ≠ a) :
    k'.tables[q]? = k.tables[q]? := by
  rcases alterStep_cases hk h with ⟨-, hlocal⟩ | ⟨new, rfl, -⟩ | ⟨name, -, rfl⟩
  · exact hlocal.tables q hq
  · exact absurd rfl (hop new)
  · exact tables_dropConstraint k name hq

end

/-! #### Columns -/

variable {i : Nat}

theorem mem_modify {l : List Column} {c' : Column} (h : c' ∈ l.modify i f) :
    c' ∈ l ∨ ∃ c, l[i]? = some c ∧ c' = f c := by
  obtain ⟨j, hj⟩ := mem_iff_getElem?.mp h
  rw [List.getElem?_modify] at hj
  obtain ⟨c, hc, rfl⟩ := Option.map_eq_some_iff.mp hj
  by_cases hij : i = j
  · simp_all
  · grind

theorem names_modify (l : List Column) (i : Nat)
    (hf : ∀ c, (f c).name = c.name) : (l.modify i f).map Column.name = l.map Column.name := by
  refine ext_getElem? fun j => ?_
  rw [List.getElem?_map, List.getElem?_modify, List.getElem?_map]
  cases l[j]? with
  | none => rfl
  | some c => grind

/-- Columns whose names and types were there before can be read as before. -/
theorem readable_of_columns {doc : Json}
    (hcols : ∀ c' ∈ t'.columns, ∃ c ∈ t.columns, c'.name = c.name ∧ c'.ty = c.ty)
    (h : Readable D t rowId doc) : Readable D t' rowId doc := by
  obtain ⟨fields, rfl, hdeleted | ⟨hid, hread⟩⟩ := h
  · exact ⟨fields, rfl, .inl hdeleted⟩
  · refine ⟨fields, rfl, .inr ⟨hid, fun c' hc' => ?_⟩⟩
    obtain ⟨c, hc, hname, hty⟩ := hcols c' hc'
    rw [hname, hty]
    exact hread c hc

/-- The position of a column is one of its name. -/
theorem columnIndex_spec (h : columnIndex t name = some i) :
    (t.columns.map Column.name)[i]? = some name := by
  obtain ⟨j, hj, rfl⟩ := Option.map_eq_some_iff.mp h
  rw [List.findIdx?_eq_some_iff_getElem] at hj
  obtain ⟨hlt, hname, -⟩ := hj
  rw [length_reverse] at hlt
  have hi : t.columns.length - 1 - j < t.columns.length := by omega
  rw [List.getElem?_map, List.getElem?_eq_getElem hi]
  simpa using hname

theorem columnIndex_name {c : Column} (h : columnIndex t name = some i)
    (hc : t.columns[i]? = some c) : c.name = name := by
  have hspec := columnIndex_spec h
  rw [List.getElem?_map, hc] at hspec
  exact Option.some.inj hspec

/-- The names of the columns after RENAME COLUMN. -/
theorem names_renameInTable (i : Nat) (t : Table) (old new : String) :
    (renameInTable i old new t).columns.map Column.name =
      (t.columns.map Column.name).set i new := by
  refine ext_getElem? fun j => ?_
  simp only [renameInTable, List.getElem?_map, List.getElem?_modify, List.getElem?_set,
    length_map]
  by_cases hij : i = j
  · grind
  · simp [hij]

/-- The condition on an operation of ALTER TABLE. -/
abbrev AlterSound (env : DdlEnv) (D : Codec C) (s : DocStore) (a : QualifiedName)
    (op : AlterOp) : Prop := (SchemaStep.alter (C := C) a op).Sound env D s

section
variable {a : QualifiedName} {t t' : Table} {op : AlterOp}

theorem names_after (ht : s.catalog.tables[a]? = some t) (hnames : Named t.columns)
    (hsound : AlterSound env D s a op) (hcols : ColumnsAfter env t op t'.columns) :
    Named t'.columns := by
  have hsame : Reshaped t t'.columns → Named t'.columns := by
    rintro (h | ⟨f, i, hf, h⟩)
    · rwa [h]
    · rwa [h, Named, names_modify _ _ fun c => (hf c).1]
  have hcond := hsound t ht
  cases op with
  | addColumn spec ifNotExists =>
    rcases hcols with h | ⟨hnew, c, hc, h⟩
    · rwa [h]
    · have hfree : spec.name ∉ t.columns.map Column.name := by
        simp_all [Table.column, List.find?_eq_none]
      rw [h, Named, map_append, map_singleton, hc]
      refine ⟨?_, ?_⟩
      · grind
      · grind
  | dropColumn names ifExists =>
    have hsub := List.Sublist.map Column.name hcols
    exact ⟨hnames.1.sublist hsub, fun hmem => hnames.2 (hsub.subset hmem)⟩
  | renameColumn old new =>
    obtain ⟨i, hi, h⟩ := hcols
    rw [h, Named, names_renameInTable]
    have hold := columnIndex_spec hi
    refine ⟨by grind, fun hmem => ?_⟩
    rcases mem_or_eq_of_mem_set hmem with hmem | heq
    · exact hnames.2 hmem
    · exact hcond.1 heq.symm
  | setDataType column dataType =>
    obtain ⟨ty, i, -, -, h⟩ := hcols
    rw [h, Named, names_modify]
    · exact hnames
    · exact fun c => rfl
  | _ => exact hsame hcols

/-- The documents can be read by the columns after an operation that writes none. -/
theorem readable_after (ht : s.catalog.tables[a]? = some t)
    (hop : ∀ old new, op ≠ .renameColumn old new) (hsound : AlterSound env D s a op)
    (hcols : ColumnsAfter env t op t'.columns)
    (hread : ∀ p ∈ s.docs t.storageCollection, Readable D t p.1 p.2) :
    ∀ p ∈ s.docs t.storageCollection, Readable D t' p.1 p.2 := by
  intro p hp
  have hsame : Reshaped t t'.columns → Readable D t' p.1 p.2 := by
    intro h
    refine readable_of_columns (fun c' hc' => ?_) (hread p hp)
    rcases h with h | ⟨f, i, hf, h⟩
    · exact ⟨c', h ▸ hc', rfl, rfl⟩
    · grind [mem_modify]
  have hcond := hsound t ht
  cases op with
  | addColumn spec ifNotExists =>
    rcases hcols with h | ⟨hnew, c, hc, h⟩
    · exact hsame (.inl h)
    · obtain ⟨fields, hdoc, hdeleted | ⟨hid, hfields⟩⟩ := hread p hp
      · exact ⟨fields, hdoc, .inl hdeleted⟩
      · refine ⟨fields, hdoc, .inr ⟨hid, fun c' hc' => ?_⟩⟩
        rw [h] at hc'
        rcases mem_append.mp hc' with hc' | hc'
        · exact hfields c' hc'
        · -- nothing is stored under the new name
          rw [mem_singleton.mp hc', hc, hcond.2 hnew p hp fields hdoc]
          exact ⟨.null, by rw [decodeJson.eq_def], .null _⟩
  | dropColumn names ifExists =>
    exact readable_of_columns (fun c' hc' => ⟨c', hcols.subset hc', rfl, rfl⟩) (hread p hp)
  | renameColumn old new => exact absurd rfl (hop old new)
  | setDataType column dataType =>
    obtain ⟨ty, i, hty, hi, h⟩ := hcols
    obtain ⟨fields, hdoc, hdeleted | ⟨hid, hfields⟩⟩ := hread p hp
    · exact ⟨fields, hdoc, .inl hdeleted⟩
    · refine ⟨fields, hdoc, .inr ⟨hid, fun c' hc' => ?_⟩⟩
      rw [h] at hc'
      rcases mem_modify hc' with hc' | ⟨c, hc, rfl⟩
      · exact hfields c' hc'
      · rw [columnIndex_name hi hc]
        exact hcond ty hty p hp fields hdoc
  | _ => exact hsame hcols

end

/-! #### RENAME COLUMN -/

variable {old : String}

theorem valueOf_renameValue_of_ne (values : RowValues C) {key : String} (hold : key ≠ old)
    (hnew : key ≠ new) : valueOf (renameValue old new values) key = valueOf values key := by
  unfold renameValue
  split
  · rw [valueOf, OrderedMap.get_insert, if_neg hnew, OrderedMap.get_erase, if_neg hold]
    rfl
  · rfl

theorem valueOf_renameValue_new (h : new = old ∨ valueOf values new = .null) :
    valueOf (renameValue old new values) new = valueOf values old := by
  unfold renameValue
  split
  · next v hv =>
    rw [valueOf, getElem?_insert_self, valueOf, hv]
  · next hnone => grind [valueOf]

/-- Rows written again can be read; the other documents can be read already. -/
theorem readable_rewrite (hid : "_id" ∉ t'.columns.map Column.name) (versionOf : String → Int)
    {rows : List (String × RowValues C)} (hrows : ∀ row ∈ rows, ∀ c ∈ t'.columns,
      Storable D c.ty (valueOf (renameValue old new row.2) c.name))
    (hds : ∀ p ∈ ds, Readable D t' p.1 p.2 ∨ p.1 ∈ rows.map Prod.fst) :
    ∀ p ∈ rows.foldl (fun ds row => putDoc ds row.1
      (encodeRow D t' row.1 (renameValue old new row.2) (versionOf row.1 + 1))) ds,
        Readable D t' p.1 p.2 := by
  induction rows generalizing ds with
  | nil => simp_all
  | cons row rows ih =>
    refine ih (fun row' hrow' => hrows row' (mem_cons_of_mem row hrow')) fun p hp => ?_
    rcases mem_append.mp hp with hp | hp
    · grind
    · grind [readable_encodeRow]

/-- The values of a row that is written again fit the columns. -/
theorem storable_renameValue (hnodup : (t.columns.map Column.name).Nodup)
    (h : RowFrom D t ds rowId values) (hi : columnIndex t old = some i)
    (hnew : new = old ∨ new ∉ t.columns.map Column.name) :
    ∀ c' ∈ (renameInTable i old new t).columns,
      Storable D c'.ty (valueOf (renameValue old new values) c'.name) := by
  obtain ⟨fields, -, hread, hnull⟩ := h
  have hvalue := valueOf_renameValue_new (hnew.imp_right (hnull new))
  intro c' hc'
  obtain ⟨j, hj⟩ := mem_iff_getElem?.mp hc'
  simp only [renameInTable, List.getElem?_modify] at hj
  obtain ⟨c, hc, rfl⟩ := Option.map_eq_some_iff.mp hj
  have hmem := mem_of_getElem? hc
  by_cases hij : i = j
  · subst hij
    rw [if_pos rfl, hvalue]
    have hstore := (hread c hmem).2
    rwa [columnIndex_name hi hc] at hstore
  · rw [if_neg hij]
    -- another column has another name
    have hne : c.name ≠ old := by
      intro heq
      have hold := columnIndex_spec hi
      have hj' : (t.columns.map Column.name)[j]? = some old := by simp_all
      obtain ⟨hlt, -⟩ := List.getElem?_eq_some_iff.mp hold
      exact hij ((List.getElem?_inj hlt hnodup).mp (hold.trans hj'.symm))
    have hne' : c.name ≠ new := by grind
    rw [valueOf_renameValue_of_ne values hne hne']
    exact (hread c hmem).2

/-! ### The whole -/

theorem intact_alter (h : Intact D s) (ht : s.catalog.tables[a]? = some t) {op : AlterOp}
    (hsound : AlterSound env D s a op) {loaded : LoadedTable C}
    (hload : loadStored D s a t = .ok loaded) (hstep : alterStep env a s.catalog op = .ok k') :
    Intact D ⟨k', s.nextOid, docsAfter D s k' a t loaded op⟩ := by
  have hkeyed := (alterStep_takes h.keyed hstep).2
  have hlocal : (∀ new, op ≠ .renameTable new) → ∀ ds, (∀ t', k'.tables[a]? = some t' →
      ColumnsAfter env t op t'.columns → ∀ p ∈ ds, Readable D t' p.1 p.2) →
        Intact D ⟨k', s.nextOid, withCollection s.docs t.storageCollection ds⟩ := by
    intro hop ds hds
    obtain ⟨t', hown, hcoll, hcols⟩ := alterStep_own ht hop hstep
    exact h.of_table ht hkeyed (fun q hq => alterStep_others h.keyed hop hstep hq) hown hcoll
      (names_after ht (h.names a t ht) hsound hcols) (hds t' hown hcols)
  have hunwritten : (∀ new, op ≠ .renameTable new) → (∀ old new, op ≠ .renameColumn old new) →
      Intact D ⟨k', s.nextOid, s.docs⟩ := by
    intro hop hop'
    have hintact := hlocal hop (s.docs t.storageCollection) fun t' _ hcols =>
      readable_after ht hop' hsound hcols (h.readable a t ht)
    rwa [withCollection_self] at hintact
  cases op with
  | renameTable new =>
    simp only [alterStep, ht] at hstep
    exact intact_renameTable h hstep
  | renameColumn old new =>
    have hop : ∀ name, AlterOp.renameColumn old new ≠ .renameTable name := by simp
    obtain ⟨t₁, hown, -, hcols₁⟩ := alterStep_own ht hop hstep
    simp only [docsAfter, hown]
    refine hlocal hop _ fun t' hown' hcols => ?_
    cases hown.symm.trans hown'
    obtain ⟨l, hl, hdec⟩ := h.loads ht
    cases hl.symm.trans hload
    obtain ⟨i, hi, hcols⟩ := hcols
    refine readable_rewrite (names_after ht (h.names a t ht) hsound hcols₁).2 _
      (fun row hrow c hc => ?_) fun p hp => ?_
    · rw [hcols] at hc
      have hfrom := hdec.rowFrom (mem_toList_iff_getElem?_eq_some.mp hrow)
      exact storable_renameValue (h.names a t ht).1 hfrom hi (hsound t ht).2 c hc
    · rcases hdec.live p hp with ⟨fields, hdoc, hdeleted⟩ | hrow
      · exact .inl ⟨fields, hdoc, .inl hdeleted⟩
      · simp_all
  | _ => exact hunwritten (by simp) (by simp)

/-- The table a step is on. -/
def SchemaStep.target : SchemaStep C → Option QualifiedName
  | .alter q _ | .dropTable q _ | .put q _ _ _ | .delete q _ => some q
  | _ => none

theorem schemaStep_target {step : SchemaStep C} (h : schemaStep env D s step = .ok s')
    (hq : step.target = some q) : ∃ t, s.catalog.tables[q]? = some t := by
  cases ht : s.catalog.tables[q]? with
  | some t => exact ⟨t, rfl⟩
  | none =>
    cases step <;> cases hq <;> simp [schemaStep, ht] at h

/-- **A sound step leaves every table loadable.** -/
theorem intact_step (h : Intact D s) {step : SchemaStep C} (hsound : step.Sound env D s)
    (hstep : schemaStep env D s step = .ok s') : Intact D s' := by
  cases step with
  | create schema name columns constraints =>
    obtain ⟨k, hk, hs⟩ := except_bind_ok.mp hstep
    cases hs
    exact intact_create h hsound hk
  | alter q op =>
    obtain ⟨t, ht⟩ := schemaStep_target hstep rfl
    simp only [schemaStep, ht] at hstep
    obtain ⟨loaded, hload, hs⟩ := except_bind_ok.mp hstep
    obtain ⟨k, hk, hs⟩ := except_bind_ok.mp hs
    cases hs
    exact intact_alter h ht hsound hload hk
  | dropTable q cascade =>
    obtain ⟨t, ht⟩ := schemaStep_target hstep rfl
    simp only [schemaStep, ht] at hstep
    obtain ⟨k, hk, hs⟩ := except_bind_ok.mp hstep
    cases hs
    exact intact_dropTable h ht hk
  | createIndex index ifNotExists => exact intact_createIndex h hstep
  | dropIndex name ifExists =>
    obtain ⟨k, hk, hs⟩ := except_bind_ok.mp hstep
    cases hs
    exact intact_dropIndex h hk
  | truncate targets => exact intact_truncate h hstep
  | put q rowId values version =>
    obtain ⟨t, ht⟩ := schemaStep_target hstep rfl
    simp only [schemaStep, ht] at hstep
    cases hstep
    refine h.of_table ht h.keyed (fun _ _ => rfl) ht rfl (h.names q t ht) fun p hp => ?_
    rcases mem_append.mp hp with hp | hp
    · exact h.readable q t ht p (mem_filter.mp hp).1
    · rw [mem_singleton.mp hp]
      exact readable_encodeRow D (h.names q t ht).2 (hsound t ht) rowId version
  | delete q rowId =>
    obtain ⟨t, ht⟩ := schemaStep_target hstep rfl
    simp only [schemaStep, ht] at hstep
    cases hstep
    exact h.of_table ht h.keyed (fun _ _ => rfl) ht rfl (h.names q t ht) fun p hp =>
      h.readable q t ht p (mem_filter.mp hp).1

/-- A statement that succeeds, of a sound step. -/
def SoundStep (env : DdlEnv) (D : Codec C) (s s' : DocStore) : Prop :=
  ∃ step : SchemaStep C, step.Sound env D s ∧ schemaStep env D s step = .ok s'

theorem intact_empty (D : Codec C) (searchPath : List String) :
    Intact D (.empty searchPath) := by
  have hnone : ∀ (q : QualifiedName) (t : Table),
      (DocStore.empty searchPath).catalog.tables[q]? ≠ some t := by
    intro q t ht
    cases ht
  refine ⟨⟨fun q t ht => absurd ht (hnone q t), fun q i hi => ?_⟩,
    fun q t ht => absurd ht (hnone q t), fun q _ t _ ht => absurd ht (hnone q t),
    fun _ _ => rfl, fun q t ht => absurd ht (hnone q t), fun q t ht => absurd ht (hnone q t)⟩
  cases hi

/-- Every state that sound steps reach. -/
theorem intact_run {searchPath : List String}
    (h : Relation.ReflTransGen (SoundStep env D) (.empty searchPath) s) : Intact D s := by
  induction h with
  | refl => exact intact_empty D searchPath
  | tail _ hstep ih =>
    obtain ⟨step, hsound, hok⟩ := hstep
    exact intact_step ih hsound hok

/-- A new column is NULL in every row that is there. -/
theorem added_null (h : Intact D s) {spec : ColumnSpec} {ifNotExists : Bool}
    (hsound : AlterSound env D s q (.addColumn spec ifNotExists))
    (hstep : schemaStep env D s (.alter q (.addColumn spec ifNotExists)) = .ok s')
    (hnew : ∀ t, s.catalog.tables[q]? = some t → (t.column spec.name).isNone)
    (ht' : s'.catalog.tables[q]? = some t') {l : LoadedTable C}
    (hload : loadStored D s' q t' = .ok l) (hrow : l.rows[rowId]? = some values) :
    valueOf values spec.name = .null := by
  have h' := intact_step h hsound hstep
  obtain ⟨l', hl', hdec⟩ := h'.loads ht'
  cases hl'.symm.trans hload
  obtain ⟨fields, hmem, hread, hnull⟩ := hdec.rowFrom hrow
  obtain ⟨t, ht⟩ := schemaStep_target hstep rfl
  simp only [schemaStep, ht] at hstep
  obtain ⟨loaded, -, hs⟩ := except_bind_ok.mp hstep
  obtain ⟨k, hk, hs⟩ := except_bind_ok.mp hs
  cases hs
  have hop : ∀ name, AlterOp.addColumn spec ifNotExists ≠ .renameTable name := fun _ => nofun
  obtain ⟨t₁, hown, hcoll, hcols⟩ := alterStep_own ht hop hk
  obtain rfl : t₁ = t' := Option.some.inj (hown.symm.trans ht')
  rw [hcoll] at hmem
  have hfree := (hsound t ht).2 (hnew t ht) _ hmem fields rfl
  by_cases hin : spec.name ∈ t₁.columns.map Column.name
  · grind [decodeJson.eq_def]
  · exact hnull spec.name hin

end

/-! ### A type that does not fit and a column that comes back -/

/-- The types `integer` and `text`. -/
def twoTypes : DdlEnv :=
  ⟨fun name => .ok (if name = "text" then .text else .integer), fun _ => .ok (), ["public"]⟩

/-- The values of other crates are texts here. -/
def plainCodec : Codec plainCrates where
  ofJson j := .string j
  toJson _ := ""
  trim s := s
  trim_label _ _ := rfl
  decimalText _ := "0"
  decimalText_read _ := by
    have hdigits : IsDigits "0" := ⟨by decide, List.all_eq_true.mp (by decide)⟩
    rw [plainCrates.decimalFromStr_digits "0" hdigits (by decide)]
    rfl
  base64 _ := ""
  unbase64 _ := some []
  base64_read _ := rfl
  parseUuid := some
  uuid_read _ := rfl
  dateText := id
  parseDate := some
  date_read _ := rfl
  timeText := id
  parseTime := some
  time_read _ := rfl
  timestampText := id
  parseTimestamp := some
  timestamp_read _ := rfl
  timestamptzText := id
  parseTimestamptz := some
  timestamptz_read _ := rfl
  jsonText _ := ""
  numberText _ := "0"
  parseTsVector _ := .ok []
  parseTsQuery _ := .ok none

/-- The state after some steps. -/
def afterSteps (steps : List (SchemaStep plainCrates)) : Except SqlError DocStore :=
  steps.foldlM (schemaStep twoTypes plainCodec) (.empty ["public"])

/-- The table `public.items` after some steps, if it can be loaded. -/
def itemsAfter (steps : List (SchemaStep plainCrates)) :
    Except SqlError (Option (LoadedTable plainCrates)) := do
  let s ← afterSteps steps
  match s.catalog.tables[(⟨"public", "items"⟩ : QualifiedName)]? with
  | some t => return (loadStored plainCodec s ⟨"public", "items"⟩ t).toOption
  | none => .error (.undefinedTable "items")

/-- The column of the row `1`. -/
def shownInRow (column : String) (steps : List (SchemaStep plainCrates)) : Option (Option Int64) :=
  match itemsAfter steps with
  | .ok (some l) => (l.rows["1"]?).map fun values => (valueOf values column).asI64
  | _ => none

/-- `CREATE TABLE items (b ..)`. -/
def createItems (dataType : String) : SchemaStep plainCrates :=
  .create "public" "items" [⟨"b", dataType, []⟩] []

/-- The row `1`. -/
def putItem (b : SqlValue plainCrates) : SchemaStep plainCrates :=
  .put ⟨"public", "items"⟩ "1" (ExtTreeMap.ofList [("b", b)]) 1

/-- `ALTER TABLE items ADD COLUMN c integer`. -/
def addC : SchemaStep plainCrates :=
  .alter ⟨"public", "items"⟩ (.addColumn ⟨"c", "integer", []⟩ false)

/-- The documents of `items` have no field `c`. -/
def withoutC (s : DocStore) (t : Table) : Bool :=
  (s.docs t.storageCollection).all fun p => match p.2 with
    | .object fields => match fieldOf fields "c" with
      | .null => true
      | _ => false
    | _ => true

theorem fieldFree_of_withoutC {s : DocStore} {t : Table} (h : withoutC s t = true) :
    FieldFree s t "c" := by
  intro p hp fields hfields
  have hp := List.all_eq_true.mp h p hp
  rw [hfields] at hp
  dsimp only at hp
  split at hp
  · assumption
  · cases hp

end GuardianDb.Sql
