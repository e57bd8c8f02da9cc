/-
CREATE TABLE, ALTER TABLE, DROP TABLE and DROP INDEX (`sql/ddl.rs`), and the catalog
operations behind them (`relational/catalog.rs`).

Indexes and sequences live in name spaces of their schema; the ones that belong to a
column or a constraint have names derived from those of the table and its columns.
Triggers, views, OIDs of indexes and the characteristics of PRIMARY KEY and UNIQUE are
left out, and so are the rows that RENAME COLUMN rewrites.
-/
import GuardianDb.Lib.Fallible
import GuardianDb.Sql.Scan

namespace GuardianDb.Sql

open Std Relational

/-! ### The catalog -/

namespace Catalog

def insertTable (schemas : List String) (k : Catalog) (t : Table) : Except SqlError Catalog :=
  if k.tables.contains t.qualified || k.views.contains t.qualified then
    .error (.duplicateTable (t.schema ++ "." ++ t.name))
  else if !schemas.contains t.schema then .error (.undefinedSchema t.schema)
  else .ok { k with tables := k.tables.insert t.qualified t }

def insertIndex (k : Catalog) (i : Index) : Except SqlError Catalog :=
  if k.indexes.contains ⟨i.schema, i.name⟩ then
    .error (.duplicateIndex (i.schema ++ "." ++ i.name))
  else .ok { k with indexes := k.indexes.insert ⟨i.schema, i.name⟩ i }

/-- `let _ = insert_index(..)`: an index whose name is taken is not created. -/
def tryInsertIndex (k : Catalog) (i : Index) : Catalog :=
  if k.indexes.contains ⟨i.schema, i.name⟩ then k
  else { k with indexes := k.indexes.insert ⟨i.schema, i.name⟩ i }

/-- `drop_index` in a schema, if the index exists. -/
def eraseIndex (k : Catalog) (schema name : String) : Catalog :=
  { k with indexes := k.indexes.erase ⟨schema, name⟩ }

def dropIndex (k : Catalog) (schema : Option String) (name : String) (ifExists : Bool) :
    Except SqlError Catalog :=
  match schema with
  | some s =>
      if k.indexes.contains ⟨s, name⟩ || ifExists then .ok (eraseIndex k s name)
      else .error (.undefinedIndex (s ++ "." ++ name))
  | none =>
      match (k.searchPath.map fun s => (⟨s, name⟩ : QualifiedName)).find? k.indexes.contains with
      | some q => .ok (eraseIndex k q.schema q.name)
      | none => if ifExists then .ok k else .error (.undefinedIndex name)

/-- `get_table_mut`: change a table in place. -/
def modifyTable (k : Catalog) (q : QualifiedName) (f : Table → Table) : Catalog :=
  match k.tables[q]? with
  | some t => { k with tables := k.tables.insert q (f t) }
  | none => k

def references (q : QualifiedName) (fk : ForeignKey) : Bool :=
  fk.refSchema == q.schema && fk.refTable == q.name

/-- A table without its foreign keys on another. -/
def withoutReferences (q : QualifiedName) (t : Table) : Table :=
  { t with foreignKeys := t.foreignKeys.filter fun fk => !references q fk }

/-- The sequences behind the columns of a table, in a schema. -/
def sequencesOf (schema : String) (t : Table) : List QualifiedName :=
  t.columns.filterMap fun c => c.identitySequence.map fun seq => ⟨schema, seq⟩

/-- What `drop_table_qualified` leaves of a catalog. -/
def withoutTable (k : Catalog) (q : QualifiedName) (t : Table) : Catalog :=
  { k with
    tables := (k.tables.erase q).map fun _ t' => withoutReferences q t'
    indexes := k.indexes.filter fun _ i => !(i.schema == q.schema && i.table == q.name)
    sequences := (sequencesOf q.schema t).foldl (fun m seq => m.erase seq) k.sequences }

def dropTableQualified (k : Catalog) (q : QualifiedName) : Except SqlError (Table × Catalog) :=
  match k.tables[q]? with
  | none => .error (.undefinedTable (q.schema ++ "." ++ q.name))
  | some t => .ok (t, withoutTable k q t)

end Catalog

/-- The position of a column in its table, of the last one of the name. -/
def columnIndex (t : Table) (name : String) : Option Nat :=
  (t.columns.reverse.findIdx? fun c => c.name == name).map fun i => t.columns.length - 1 - i

/-! ### Columns and constraints -/

/-- A REFERENCES clause. -/
structure FkSpec where
  schema : Option String
  table : String
  columns : List String
  onDelete : ReferentialAction
  onUpdate : ReferentialAction
  matchType : MatchType
  deferrable : Deferrable
  deriving DecidableEq, Repr

inductive ColumnOption where
  | notNull
  | null
  | default (text : String)
  | primaryKey
  | unique (name : Option String)
  | references (name : Option String) (fk : FkSpec)
  | check (name : Option String) (expr : String)
  | other
  deriving DecidableEq, Repr

/-- `ColumnDef`. -/
structure ColumnSpec where
  name : String
  dataType : String
  options : List ColumnOption
  deriving DecidableEq, Repr

inductive TableConstraint where
  | primaryKey (columns : List String)
  | unique (name : Option String) (columns : List String)
  | references (name : Option String) (columns : List String) (fk : FkSpec)
  | check (name : Option String) (expr : String)
  deriving DecidableEq, Repr

/-- What DDL takes from elsewhere: the types it can parse and use, and the schemas. -/
structure DdlEnv where
  parseType : String → Except SqlError SqlType
  checkTypeUsable : SqlType → Except SqlError Unit
  schemas : List String

/-- `SqlType::is_serial_name`, of a trimmed name in lower case. -/
def serialType (name : String) : Option SqlType :=
  if name = "smallserial" ∨ name = "serial2" then some .smallInt
  else if name = "serial" ∨ name = "serial4" then some .integer
  else if name = "bigserial" ∨ name = "serial8" then some .bigInt
  else none

/-- What CREATE TABLE collects from its columns and constraints. -/
structure TableParts where
  columns : List Column
  pk : List String
  uniques : List UniqueConstraint
  foreignKeys : List ForeignKey
  checks : List CheckConstraint
  sequences : List String
  deriving DecidableEq, Repr

/-- Nothing collected. -/
def TableParts.none : TableParts := ⟨[], [], [], [], [], []⟩

def buildForeignKey (k : Catalog) (schema table : String) (ownPk columns : List String)
    (name : String) (fk : FkSpec) : Except SqlError ForeignKey := do
  let refSchema := match fk.schema with
    | some s => s
    | none =>
        if fk.table = table then schema
        else ((k.resolveTableName none fk.table).map fun q => q.schema).getD schema
  let parent := k.tables[(⟨refSchema, fk.table⟩ : QualifiedName)]?
  if parent.isNone && !(refSchema == schema && fk.table == table) then
    throw (.undefinedTable fk.table)
  let refColumns := if fk.columns.isEmpty then
      match parent with
      | some p => p.primaryKey.getD []
      | none => ownPk
    else fk.columns
  if refColumns.isEmpty || refColumns.length != columns.length then
    throw (.invalidConstraint name)
  match parent with
  | some p =>
      match refColumns.find? fun c => (p.column c).isNone with
      | some c => throw (.undefinedColumn c)
      | none => pure ()
  | none => pure ()
  return ⟨name, columns, refSchema, fk.table, refColumns, fk.onDelete, fk.onUpdate, fk.matchType,
    fk.deferrable⟩

/-- A column while its options are read. -/
structure ColumnBuild where
  nullable : Bool
  default : Option String
  parts : TableParts
  deriving DecidableEq, Repr

/-- Add a column to the primary key. -/
def TableParts.addPk (p : TableParts) (name : String) : TableParts :=
  if p.pk.contains name then p else { p with pk := p.pk ++ [name] }

/-- One option of `build_column`. -/
def applyOption (k : Catalog) (schema table name : String) (b : ColumnBuild) :
    ColumnOption → Except SqlError ColumnBuild
  | .notNull => .ok { b with nullable := false }
  | .null => .ok { b with nullable := true }
  | .default text => .ok { b with default := some text }
  | .primaryKey => .ok { b with nullable := false, parts := b.parts.addPk name }
  | .unique uname => .ok { b with
      parts := { b.parts with uniques := b.parts.uniques ++ [⟨uname.getD "", [name]⟩] } }
  | .references fname fk => do
      let key ← buildForeignKey k schema table b.parts.pk [name]
        (fname.getD (table ++ "_" ++ name ++ "_fkey")) fk
      return { b with parts := { b.parts with foreignKeys := b.parts.foreignKeys ++ [key] } }
  | .check cname expr => .ok { b with
      parts := { b.parts with
        checks := b.parts.checks ++ [⟨cname.getD (table ++ "_" ++ name ++ "_check"), expr⟩] } }
  | .other => .ok b

/-- The name of the sequence behind a `serial` column. -/
def sequenceName (table column : String) : String := table ++ "_" ++ column ++ "_seq"

def columnType (env : DdlEnv) (dataType : String) : Except SqlError SqlType :=
  match serialType dataType with
  | some ty => .ok ty
  | none => env.parseType dataType

/-- `build_column`; the parts get the column too. -/
def buildColumn (env : DdlEnv) (k : Catalog) (schema table : String) (parts : TableParts)
    (spec : ColumnSpec) : Except SqlError TableParts := do
  let ty ← columnType env spec.dataType
  env.checkTypeUsable ty
  let seq := (serialType spec.dataType).map fun _ => sequenceName table spec.name
  let start : ColumnBuild := ⟨seq.isNone, seq.map fun s => "nextval('" ++ s ++ "')",
    { parts with sequences := parts.sequences ++ seq.toList }⟩
  let b ← spec.options.foldlM (applyOption k schema table spec.name) start
  return { b.parts with
    columns := b.parts.columns ++ [⟨spec.name, ty, b.nullable, b.default, seq⟩] }

def applyTableConstraint (k : Catalog) (schema table : String) (parts : TableParts) :
    TableConstraint → Except SqlError TableParts
  | .primaryKey columns => .ok { parts with pk := parts.pk ++ columns }
  | .unique name columns =>
      .ok { parts with uniques := parts.uniques ++ [⟨name.getD "", columns⟩] }
  | .references name columns fk => do
      let key ← buildForeignKey k schema table parts.pk columns
        (name.getD (table ++ "_" ++ "_".intercalate columns ++ "_fkey")) fk
      return { parts with foreignKeys := parts.foreignKeys ++ [key] }
  | .check name expr => .ok { parts with checks := parts.checks ++ [⟨name.getD "check", expr⟩] }

/-! ### CREATE TABLE -/

/-- The index of a primary key. -/
def pkIndex (schema table name : String) (columns : List String) : Index :=
  ⟨name, schema, table, columns, true, "btree"⟩

def uniqueIndexName (table : String) (u : UniqueConstraint) : String :=
  if u.name.isEmpty then table ++ "_" ++ "_".intercalate u.columns ++ "_key" else u.name

def uniqueIndex (schema table : String) (u : UniqueConstraint) : Index :=
  ⟨uniqueIndexName table u, schema, table, u.columns, true, "btree"⟩

/-- The table that CREATE TABLE makes of what it has collected. -/
def tableOf (oid : Nat) (schema name : String) (parts : TableParts) : Table where
  oid := oid
  schema := schema
  name := name
  columns := parts.columns.map fun c =>
    if parts.pk.contains c.name then { c with nullable := false } else c
  primaryKey := if parts.pk.isEmpty then none else some parts.pk
  uniques := parts.uniques
  foreignKeys := parts.foreignKeys
  checks := parts.checks
  storageCollection := "__gdb_sql_rows_" ++ toString oid
  pkName := if parts.pk.isEmpty then "" else name ++ "_pkey"

/-- The index of the primary key of a new table, if it has one. -/
def insertPkIndex (k : Catalog) (schema name : String) (pk : List String) :
    Except SqlError Catalog :=
  if pk.isEmpty then .ok k else Catalog.insertIndex k (pkIndex schema name (name ++ "_pkey") pk)

/-- The catalog after a table with the parts has been created. -/
def createParts (env : DdlEnv) (k : Catalog) (oid : Nat) (schema name : String)
    (parts : TableParts) : Except SqlError Catalog := do
  let k ← Catalog.insertTable env.schemas k (tableOf oid schema name parts)
  let k := parts.sequences.foldl (fun k seq => k.createSequence schema seq) k
  let k ← insertPkIndex k schema name parts.pk
  parts.uniques.foldlM (fun k u => Catalog.insertIndex k (uniqueIndex schema name u)) k

/-- `exec_create_table`, without IF NOT EXISTS. -/
def createTable (env : DdlEnv) (k : Catalog) (oid : Nat) (schema name : String)
    (columns : List ColumnSpec) (constraints : List TableConstraint) : Except SqlError Catalog :=
  if k.tables.contains ⟨schema, name⟩ then .error (.duplicateTable (schema ++ "." ++ name))
  else do
    let parts ← columns.foldlM (buildColumn env k schema name) .none
    let parts ← constraints.foldlM (applyTableConstraint k schema name) parts
    createParts env k oid schema name parts

/-! ### ALTER TABLE -/

/-- `AlterTableOperation`. -/
inductive AlterOp where
  | addColumn (spec : ColumnSpec) (ifNotExists : Bool)
  | dropColumn (names : List String) (ifExists : Bool)
  | renameColumn (old new : String)
  | setNotNull (column : String)
  | dropNotNull (column : String)
  | setDefault (column text : String)
  | dropDefault (column : String)
  | setDataType (column dataType : String)
  | renameTable (new : String)
  | addConstraint (constraint : TableConstraint)
  | dropConstraint (name : String)
  | rowSecurity (enabled forced : Option Bool)
  deriving DecidableEq, Repr

/-- ALTER TABLE .. ADD COLUMN; of what the column brings with it only the column is
used. -/
def alterAddColumn (env : DdlEnv) (k : Catalog) (q : QualifiedName) (t : Table)
    (spec : ColumnSpec) (ifNotExists : Bool) : Except SqlError Catalog := do
  let parts ← buildColumn env k q.schema q.name .none spec
  if (t.column spec.name).isSome then
    if ifNotExists then return k else throw (.duplicateColumn spec.name q.name)
  else return Catalog.modifyTable k q fun t => { t with columns := t.columns ++ parts.columns }

/-- The columns that are left after some have been dropped. Names are looked up at the
positions before the first one was, and one past the end is out of bounds. -/
def dropColumns (t : Table) (names : List String) (ifExists : Bool) :
    Except SqlError (List Column) :=
  names.foldlM (fun columns name =>
    match columnIndex t name with
    | none => if ifExists then .ok columns else .error (.undefinedColumn name)
    | some i =>
        if i < columns.length then .ok (columns.filter fun c => c.name != name)
        else .error (.internal "index out of bounds")) t.columns

/-- ALTER TABLE .. DROP COLUMN, with the indexes on the columns. -/
def alterDropColumn (k : Catalog) (q : QualifiedName) (t : Table) (names : List String)
    (ifExists : Bool) : Except SqlError Catalog := do
  let columns ← dropColumns t names ifExists
  let k := Catalog.modifyTable k q fun t => { t with columns := columns }
  return ((k.indexesForTable q.schema q.name).filter fun i =>
    i.columns.any fun c => names.contains c).foldl
      (fun k i => Catalog.eraseIndex k q.schema i.name) k

/-- A column name after RENAME COLUMN. -/
def renamed (old new c : String) : String := if c = old then new else c

/-- The table after RENAME COLUMN, of the column at a position. Foreign keys, checks and
policies keep the old name. -/
def renameInTable (i : Nat) (old new : String) (t : Table) : Table :=
  { t with
    columns := t.columns.modify i fun c => { c with name := new }
    primaryKey := t.primaryKey.map fun pk => pk.map (renamed old new)
    uniques := t.uniques.map fun u => { u with columns := u.columns.map (renamed old new) } }

/-- `rename_column`, of the catalog. The stored rows are written again with `docsAfter`. -/
def alterRenameColumn (k : Catalog) (q : QualifiedName) (t : Table) (old new : String) :
    Except SqlError Catalog :=
  match columnIndex t old with
  | none => .error (.undefinedColumn old)
  | some i =>
      let k := Catalog.modifyTable k q (renameInTable i old new)
      .ok ((k.indexesForTable q.schema q.name).foldl (fun k i =>
        Catalog.tryInsertIndex (Catalog.eraseIndex k q.schema i.name)
          { i with columns := i.columns.map (renamed old new) }) k)

def alterColumn (k : Catalog) (q : QualifiedName) (t : Table) (column : String)
    (f : Column → Column) : Except SqlError Catalog :=
  match columnIndex t column with
  | none => .error (.undefinedColumn column)
  | some i => .ok (Catalog.modifyTable k q fun t => { t with columns := t.columns.modify i f })

/-- ALTER TABLE .. RENAME TO: the table is dropped and inserted again, and the indexes of
its constraints are made anew. -/
def alterRenameTable (env : DdlEnv) (k : Catalog) (q : QualifiedName) (new : String) :
    Except SqlError Catalog := do
  let (t, k) ← Catalog.dropTableQualified k q
  let k ← Catalog.insertTable env.schemas k { t with name := new }
  let k := match t.primaryKey with
    | some pk => Catalog.tryInsertIndex k (pkIndex q.schema new t.pkName pk)
    | none => k
  return t.uniques.foldl (fun k u => Catalog.tryInsertIndex k
    (uniqueIndex q.schema new { u with name := "" })) k

/-- A table with more constraints; a new primary key replaces the old one. -/
def withConstraints (parts : TableParts) (t : Table) : Table :=
  { t with
    primaryKey := if parts.pk.isEmpty then t.primaryKey else some parts.pk
    pkName := if parts.pk.isEmpty then t.pkName else t.name ++ "_pkey"
    uniques := t.uniques ++ parts.uniques
    foreignKeys := t.foreignKeys ++ parts.foreignKeys
    checks := t.checks ++ parts.checks }

def alterAddConstraint (k : Catalog) (q : QualifiedName) (constraint : TableConstraint) :
    Except SqlError Catalog := do
  let parts ← applyTableConstraint k q.schema q.name .none constraint
  let k := Catalog.modifyTable k q (withConstraints parts)
  let k := if parts.pk.isEmpty then k
    else Catalog.tryInsertIndex k (pkIndex q.schema q.name (q.name ++ "_pkey") parts.pk)
  return parts.uniques.foldl (fun k u =>
    Catalog.tryInsertIndex k (uniqueIndex q.schema q.name u)) k

def withoutConstraint (name : String) (t : Table) : Table :=
  { t with
    uniques := t.uniques.filter fun u => u.name != name
    foreignKeys := t.foreignKeys.filter fun f => f.name != name
    checks := t.checks.filter fun c => c.name != name
    primaryKey := if t.pkName = name then none else t.primaryKey
    pkName := if t.pkName = name then "" else t.pkName }

/-- ALTER TABLE .. DROP CONSTRAINT. An index of the name goes, whatever its table. -/
def alterDropConstraint (k : Catalog) (q : QualifiedName) (name : String) : Catalog :=
  Catalog.modifyTable (Catalog.eraseIndex k q.schema name) q (withoutConstraint name)

def applyAlterOp (env : DdlEnv) (k : Catalog) (q : QualifiedName) (t : Table) :
    AlterOp → Except SqlError Catalog
  | .addColumn spec ifNotExists => alterAddColumn env k q t spec ifNotExists
  | .dropColumn names ifExists => alterDropColumn k q t names ifExists
  | .renameColumn old new => alterRenameColumn k q t old new
  | .setNotNull column => alterColumn k q t column fun c => { c with nullable := false }
  | .dropNotNull column => alterColumn k q t column fun c => { c with nullable := true }
  | .setDefault column text => alterColumn k q t column fun c => { c with default := some text }
  | .dropDefault column => alterColumn k q t column fun c => { c with default := none }
  | .setDataType column dataType => do
      let ty ← env.parseType dataType
      env.checkTypeUsable ty
      alterColumn k q t column fun c => { c with ty := ty }
  | .renameTable new => alterRenameTable env k q new
  | .addConstraint constraint => alterAddConstraint k q constraint
  | .dropConstraint name => .ok (alterDropConstraint k q name)
  | .rowSecurity enabled forced => .ok (Catalog.modifyTable k q fun t =>
      { t with rlsEnabled := enabled.getD t.rlsEnabled, rlsForced := forced.getD t.rlsForced })

/-- One operation of an ALTER TABLE on a table. After a renaming the next one does not
find the table; some operations panic then. -/
def alterStep (env : DdlEnv) (q : QualifiedName) (k : Catalog) (op : AlterOp) :
    Except SqlError Catalog :=
  match k.tables[q]? with
  | none => .error (.undefinedTable (q.schema ++ "." ++ q.name))
  | some t => applyAlterOp env k q t op

/-- `exec_alter_table`, on a table that has been resolved. -/
def alterTable (env : DdlEnv) (k : Catalog) (q : QualifiedName) (ops : List AlterOp) :
    Except SqlError Catalog :=
  ops.foldlM (alterStep env q) k

/-! ### DROP -/

/-- DROP TABLE of one table of a statement that drops several. Without CASCADE a foreign
key of a table that stays is an error. -/
def dropTable (dropSet : List QualifiedName) (cascade : Bool) (k : Catalog) (q : QualifiedName) :
    Except SqlError Catalog :=
  match (k.referencingForeignKeys q).find? fun p => !cascade && !dropSet.contains p.1 with
  | some (child, fk) => .error (.dependentObjectsStillExist ("table " ++ q.name)
      ("constraint " ++ fk.name ++ " on table " ++ child.name ++ " depends on table " ++ q.name))
  | none => (Catalog.dropTableQualified k q).map Prod.snd

/-- `exec_drop` of indexes. -/
def dropIndexes (names : List TableName) (ifExists : Bool) (k : Catalog) :
    Except SqlError Catalog :=
  names.foldlM (fun k n => Catalog.dropIndex k n.1 n.2 ifExists) k

end GuardianDb.Sql
