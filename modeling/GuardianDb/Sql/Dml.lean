/-
INSERT, UPDATE and DELETE (`sql/dml.rs`).

The rows of an INSERT are built and checked before the first one is written; the
new values of an UPDATE are computed on the rows as they were. RETURNING projects
the rows that the statements return here. The tables have no triggers: what
`fire_statement_triggers`, `fire_before_row` and `fire_after_row` do is left out.
-/
import GuardianDb.Sql.Arith
import GuardianDb.Sql.ForeignKeys

namespace GuardianDb.Sql

open Std Relational

section
variable (C : Crates) (δ : Type)

/-- An expression over a row of the target table. -/
abbrev RowExpr := DmlExec C δ → RowValues C → Except SqlError (SqlValue C)

/-- An expression of ON CONFLICT DO UPDATE: it also reads `excluded`. -/
abbrev ConflictExpr := DmlExec C δ → RowValues C → RowValues C → Except SqlError (SqlValue C)

inductive ConflictAction where
  | doNothing
  | doUpdate (assignments : List (String × ConflictExpr C δ)) (selection : Option (ConflictExpr C δ))

structure OnConflict where
  target : Option (List String)
  action : ConflictAction C δ

/-- An INSERT. Its rows come from VALUES or from a query; a column that is left out
takes its default. -/
structure InsertStmt where
  schema : Option String
  name : String
  rows : DmlExec C δ → Except SqlError (List (RowValues C))
  /-- What `Uuid::new_v4` gives for the n-th row. -/
  uuid : Nat → String
  onConflict : Option (OnConflict C δ)

structure UpdateStmt where
  schema : Option String
  name : String
  assignments : List (String × RowExpr C δ)
  selection : Option (RowExpr C δ)

structure DeleteStmt where
  schema : Option String
  name : String
  selection : Option (RowExpr C δ)

end

section
variable {C : Crates} {δ : Type} (env : DmlEnv C δ)

/-- The target table of a statement; views have no INSTEAD OF triggers here. -/
def resolveTarget (schema : Option String) (name view : String) :
    Dml C δ (QualifiedName × Table) := do
  let x ← get
  match x.catalog.resolveTableName schema name with
  | none => throw (.undefinedTable name)
  | some q =>
      if x.catalog.views.contains q then
        throw (.featureNotSupported (view ++ " view \"" ++ q.name ++ "\""))
      else
        match x.catalog.tables[q]? with
        | some table => return (q, table)
        | none => throw (.relational (.undefinedTable (q.schema ++ "." ++ q.name)))

/-- Other tables reference this one. -/
def isReferenced (q : QualifiedName) : Dml C δ Bool := do
  return !((← get).catalog.referencingForeignKeys q).isEmpty

/-- An optional condition; a missing one holds. -/
def selected (selection : Option (Except SqlError (SqlValue C))) : Except SqlError Bool :=
  match selection with
  | none => .ok true
  | some r => r.map fun v => truthy v == some true

/-! ### INSERT -/

def buildRow (table : Table) (provided : RowValues C) : Dml C δ (RowValues C) :=
  table.columns.foldlM (fun values c => do
    let v ← match provided[c.name]? with
      | some p => pure p
      | none => defaultValue env table c
    let v ← Fallible.ofExcept (coerceValue env v c.ty c.name)
    return values.insert c.name v) ∅

/-- A row that is complete and passes NOT NULL and CHECK. Its id comes from the
primary key, or is a UUID. -/
def prepareRow (table : Table) (uuid : Nat → String) (provided : RowValues C × Nat) :
    Dml C δ (String × RowValues C) := do
  let values ← buildRow env table provided.1
  Fallible.ofExcept (checkRowConstraints env table values)
  return ((deriveRowId (pkValues table values)).getD (uuid provided.2), values)

/-- An index that ON CONFLICT looks at. -/
def arbiter (target : Option (List String)) (idx : LoadedIndex) : Bool :=
  idx.index.unique && match target with
    | some columns => idx.index.columns == columns
    | none => true

/-- `find_conflict`: the first row under the key in the first index that has one. -/
def findConflict (x : DmlExec C δ) (q : QualifiedName) (values : RowValues C)
    (target : Option (List String)) : Option String :=
  (x.tables[q]?).bind fun t =>
    (t.indexes.filter (arbiter target)).findSome? fun idx =>
      if (compositeKey (indexValues idx.index values)).isNone then none
      else (idx.data.get (idx.keyOf values)).toList.head?

/-- `apply_conflict_update`: the new values of the conflicting row, unless WHERE
rejects it. NOT NULL and uniqueness are not checked. -/
def applyConflictUpdate (table : Table) (existingId : String) (excluded : RowValues C)
    (assignments : List (String × ConflictExpr C δ)) (selection : Option (ConflictExpr C δ)) :
    Dml C δ (Option (RowValues C)) := do
  let x ← get
  match (x.tables[table.qualified]?).bind fun t => t.rows[existingId]? with
  | none => throw (.internal "conflict row vanished")
  | some existing =>
      if ← Fallible.ofExcept (selected (selection.map fun e => e x existing excluded)) then
        let new ← Fallible.ofExcept (assignments.foldlM (fun new a => do
          let v ← coerceToCol env (← a.2 x existing excluded) table a.1
          return new.insert a.1 v) existing)
        Fallible.ofExcept (checkConstraints env table new)
        return some new
      else return none

def conflictUpdate (q : QualifiedName) (table : Table) (referenced : Bool) (existingId : String)
    (values : RowValues C) (assignments : List (String × ConflictExpr C δ))
    (selection : Option (ConflictExpr C δ)) : Dml C δ (Option (RowValues C)) := do
  let x ← get
  let existing := ((x.tables[q]?).bind fun t => t.rows[existingId]?).getD ∅
  if ← Fallible.ofExcept (env.oldRowVisible x q existing) then
    match ← applyConflictUpdate env table existingId values assignments selection with
    | none => return none
    | some new =>
        Fallible.ofExcept (env.newRowAllowed (← get) q new false)
        fkCheckChild env table new (some existing)
        writeUpdate env q table existingId new
        if referenced then fkApplyReferentialActions env [.updated q existing new]
        return some new
  else
    throw (.insufficientPrivilege ("new row violates row-level security policy " ++
      "(USING expression) for table \"" ++ table.name ++ "\""))

def freshInsert (q : QualifiedName) (table : Table) (rowId : String) (values : RowValues C) :
    Dml C δ (Option (RowValues C)) := do
  checkUniqueFor q values none
  fkCheckChild env table values none
  observeSerials table values
  insertRow env q table rowId values
  return some values

/-- One prepared row; none if it is skipped. -/
def insertPrepared (q : QualifiedName) (table : Table) (referenced : Bool)
    (onConflict : Option (OnConflict C δ)) (row : String × RowValues C) :
    Dml C δ (Option (RowValues C)) := do
  Fallible.ofExcept (env.newRowAllowed (← get) q row.2 true)
  match findConflict (← get) q row.2 (onConflict.bind fun oc => oc.target), onConflict with
  | none, _ => freshInsert env q table row.1 row.2
  | some _, none => do
      checkUniqueFor q row.2 none
      freshInsert env q table row.1 row.2
  | some existingId, some oc =>
      match oc.action with
      | .doNothing => return none
      | .doUpdate assignments selection =>
          conflictUpdate env q table referenced existingId row.2 assignments selection

/-- `exec_insert`; the rows that were inserted or updated. -/
def execInsert (stmt : InsertStmt C δ) : Dml C δ (List (RowValues C)) := do
  let (q, table) ← resolveTarget stmt.schema stmt.name "cannot insert into"
  let provided ← Fallible.ofExcept (stmt.rows (← get))
  let prepared ← provided.zipIdx.mapM (prepareRow env table stmt.uuid)
  let referenced ← isReferenced q
  let written ← prepared.mapM (insertPrepared env q table referenced stmt.onConflict)
  return written.reduceOption

/-! ### UPDATE and DELETE -/

/-- The rows a statement looks at: those the role may change. -/
def snapshot (x : DmlExec C δ) (q : QualifiedName) : List (String × RowValues C) :=
  match x.tables[q]? with
  | some t => t.rows.toList.filter fun r => !(env.dmlHidden q).contains r.1
  | none => []

/-- The new values of a row that UPDATE selects. -/
def updateTarget (x : DmlExec C δ) (q : QualifiedName) (table : Table) (stmt : UpdateStmt C δ)
    (row : String × RowValues C) :
    Except SqlError (Option (String × RowValues C × RowValues C)) := do
  if ← selected (stmt.selection.map fun e => e x row.2) then
    let new ← stmt.assignments.foldlM (fun new a => do
      let v ← coerceToCol env (← a.2 x row.2) table a.1
      return new.insert a.1 v) row.2
    checkRowConstraints env table new
    env.newRowAllowed x q new false
    return some (row.1, row.2, new)
  else return none

def updateRow (q : QualifiedName) (table : Table)
    (target : String × RowValues C × RowValues C) : Dml C δ Unit := do
  let (rid, old, new) := target
  lockRowLater table.oid rid
  checkUniqueFor q new (some rid)
  fkCheckChild env table new (some old)
  observeSerials table new
  writeUpdate env q table rid new

/-- `exec_update`; the new rows. -/
def execUpdate (stmt : UpdateStmt C δ) : Dml C δ (List (RowValues C)) := do
  let (q, table) ← resolveTarget stmt.schema stmt.name "cannot update"
  let x ← get
  let targets ← Fallible.ofExcept ((snapshot env x q).mapM (updateTarget env x q table stmt))
  let targets := targets.reduceOption
  let referenced ← isReferenced q
  targets.forM (updateRow env q table)
  fkApplyReferentialActions env
    (if referenced then targets.map fun t => .updated q t.2.1 t.2.2 else [])
  return targets.map fun t => t.2.2

/-- `exec_delete`; the deleted rows. -/
def execDelete (stmt : DeleteStmt C δ) : Dml C δ (List (RowValues C)) := do
  let (q, table) ← resolveTarget stmt.schema stmt.name "cannot delete from"
  let x ← get
  let deleted ← Fallible.ofExcept ((snapshot env x q).filterM fun r =>
    selected (stmt.selection.map fun e => e x r.2))
  deleted.forM fun r => lockRowLater table.oid r.1
  deleted.forM fun r => deleteRow q table r.1
  if ← isReferenced q then
    fkApplyReferentialActions env (deleted.map fun r => .deleted q r.2 1)
  return deleted.map fun r => r.2

end

end GuardianDb.Sql
