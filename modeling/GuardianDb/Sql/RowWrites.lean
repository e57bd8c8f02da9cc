/-
The execution state of INSERT, UPDATE and DELETE and the way they write rows
(`sql/dml.rs`, `sql/exec.rs`).

A statement works on the loaded tables and records what it does to them as storage
mutations. Expressions are functions of the execution state and of the rows they
read, without effects of their own; the row codec and row-level security are
parameters. Triggers are left out. A table that is not loaded where the source
relies on it is an internal error here.
-/
import GuardianDb.Lib.Fallible
import GuardianDb.Relational.Cast
import GuardianDb.Sql.GuardianStorage
import GuardianDb.Sql.Store
import GuardianDb.Sql.Transaction

namespace GuardianDb.Sql

open Std Relational

/-! ### Execution state -/

structure ConstraintModes where
  allDeferred : Option Bool
  /-- Overrides by table and constraint name; the first entry counts. -/
  named : List ((QualifiedName × String) × Bool)
  deriving DecidableEq, Repr

def ConstraintModes.isDeferred (m : ConstraintModes) (table : QualifiedName) (fk : ForeignKey) :
    Bool :=
  if !fk.deferrable.isDeferrable then false
  else
    match m.named.lookup (table, fk.name) with
    | some v => v
    | none => m.allDeferred.getD fk.deferrable.initiallyDeferred

section
variable (C : Crates) (δ : Type)

inductive DeferredFkCheck where
  | child (child : QualifiedName) (fk : ForeignKey) (key : String) (keyVals : List (SqlValue C))
  | referenced (parent child : QualifiedName) (fk : ForeignKey) (key : String)
      (keyVals : List (SqlValue C))
  | matchFullNullMix (child : QualifiedName) (fk : ForeignKey) (rowKey : String)

/-- `RiWork`: a row that was removed or rewritten. -/
inductive RiWork where
  | deleted (table : QualifiedName) (row : RowValues C) (cascadeDepth : Nat)
  | updated (table : QualifiedName) (old new : RowValues C)

structure PendingCheck where
  parent : QualifiedName
  child : QualifiedName
  fk : ForeignKey
  key : String
  keyVals : List (SqlValue C)

/-- The part of `Exec` that a statement reads and changes. -/
structure DmlExec where
  catalog : Catalog
  catalogDirty : Bool
  tables : ExtTreeMap QualifiedName (LoadedTable C)
  mutations : List (Mutation δ)
  pendingLocks : List (LockObject × LockMode × LockScope)
  deferredChecks : List (DeferredFkCheck C)
  /-- The values taken from sequences so far; nothing reads them. -/
  drawn : List (QualifiedName × Int)
  /-- The worklist of `fk_apply_referential_actions`. -/
  queue : List (RiWork C)
  /-- Its checks for the end of the statement. -/
  checks : List (PendingCheck C)

/-- What statements take from elsewhere. -/
structure DmlEnv where
  /-- The casts to other than integer types. -/
  castOther : SqlValue C → SqlType → Except RelError (SqlValue C)
  /-- `eval_default`. -/
  evalDefault : DmlExec C δ → String → Except SqlError (SqlValue C)
  /-- The truth value of a CHECK expression. -/
  evalCheck : Table → CheckConstraint → RowValues C → Except SqlError (Option Bool)
  /-- `encode_row`. -/
  encodeRow : Table → String → RowValues C → Int → δ
  /-- `constraint_modes`, none in autocommit. -/
  modes : Option ConstraintModes
  /-- `rls_check_new_row`, for INSERT or (false) UPDATE. -/
  newRowAllowed : DmlExec C δ → QualifiedName → RowValues C → Bool → Except SqlError Unit
  /-- `rls_old_row_visible` for UPDATE. -/
  oldRowVisible : DmlExec C δ → QualifiedName → RowValues C → Except SqlError Bool
  /-- `rls_dml_hidden`. -/
  dmlHidden : QualifiedName → ExtTreeSet String

abbrev Dml := Fallible (DmlExec C δ) SqlError

end

section
variable {C : Crates} {δ : Type} (env : DmlEnv C δ)

/-! ### Values -/

/-- `coerce_to`. -/
def coerceValue (v : SqlValue C) (ty : SqlType) (column : String) : Except SqlError (SqlValue C) :=
  (coerceTo env.castOther v ty column).mapError .relational

def coerceToCol (v : SqlValue C) (table : Table) (column : String) :
    Except SqlError (SqlValue C) :=
  match table.column column with
  | none => .error (.undefinedColumn column)
  | some c => coerceValue env v c.ty column

/-- `check_constraints`: a CHECK passes unless it is false. -/
def checkConstraints (table : Table) (values : RowValues C) : Except SqlError Unit :=
  table.checks.forM fun check => do
    if (← env.evalCheck table check values) = some false then
      throw (.checkViolation table.name check.name)

def checkNotNull (table : Table) (values : RowValues C) : Except SqlError Unit :=
  table.columns.forM fun c =>
    if !c.nullable && (valueOf values c.name).isNull then
      throw (.notNullViolation c.name table.name)
    else pure ()

def checkRowConstraints (table : Table) (values : RowValues C) : Except SqlError Unit := do
  checkNotNull table values
  checkConstraints env table values

def pkValues (table : Table) (values : RowValues C) : List (SqlValue C) :=
  (table.primaryKey.getD []).map (valueOf values)

/-! ### Tables -/

def loadedTable (q : QualifiedName) : Dml C δ (LoadedTable C) := do
  match (← get).tables[q]? with
  | some t => return t
  | none => throw (.internal ("table " ++ q.name ++ " was not preloaded"))

def setTable (q : QualifiedName) (t : LoadedTable C) : Dml C δ Unit :=
  modify fun x => { x with tables := x.tables.insert q t }

/-- Record a storage write. -/
def pushMutation (m : Mutation δ) : Dml C δ Unit :=
  modify fun x => { x with mutations := x.mutations ++ [m] }

/-- A FOR UPDATE lock on a row, to be taken after the statement. -/
def lockRowLater (oid : Nat) (rowId : String) : Dml C δ Unit :=
  modify fun x =>
    { x with pendingLocks := x.pendingLocks ++ [(.row oid rowId, .forUpdate, .transaction)] }

def checkUniqueFor (q : QualifiedName) (values : RowValues C) (exclude : Option String) :
    Dml C δ Unit := do
  match (← get).tables[q]? with
  | some t => Fallible.ofExcept (t.checkUnique values exclude)
  | none => pure ()

/-- A row is added to its table and written to storage. -/
def insertRow (q : QualifiedName) (table : Table) (rowId : String) (values : RowValues C) :
    Dml C δ Unit := do
  let t ← loadedTable q
  setTable q (t.applyInsert rowId values)
  pushMutation (.put table.storageCollection rowId
    (env.encodeRow table rowId values (t.versionOf rowId)))

/-- A row is removed from its table and from storage. -/
def deleteRow (q : QualifiedName) (table : Table) (rowId : String) : Dml C δ Unit := do
  let t ← loadedTable q
  setTable q (t.applyDelete rowId)
  pushMutation (.delete table.storageCollection rowId)

/-- `write_update`; a change of the primary key moves the row. -/
def writeUpdate (q : QualifiedName) (table : Table) (rowId : String) (values : RowValues C) :
    Dml C δ Unit := do
  let newId := (deriveRowId (pkValues table values)).getD rowId
  if newId ≠ rowId then
    deleteRow q table rowId
    insertRow env q table newId values
  else
    let t ← loadedTable q
    let t' := t.applyUpdate rowId values
    setTable q t'
    pushMutation (.put table.storageCollection rowId
      (env.encodeRow table rowId values (t'.versionOf rowId)))

/-! ### Sequences -/

/-- The next value of the sequence behind a column. -/
def drawSerial (table : Table) (seq : String) : Dml C δ Int := do
  let x ← get
  match x.catalog.nextSequenceValue ⟨table.schema, seq⟩ with
  | .error e => throw (.relational e)
  | .ok (n, k) =>
      set { x with
        catalog := k, catalogDirty := true, drawn := x.drawn ++ [((⟨table.schema, seq⟩ : QualifiedName), n)] }
      return n

/-- `observe_serials`. The catalog does not become dirty by it. -/
def observeSerials (table : Table) (values : RowValues C) : Dml C δ Unit :=
  modify fun x =>
    { x with
      catalog := table.columns.foldl (fun k c =>
        match c.identitySequence, (valueOf values c.name).asI64 with
        | some seq, some v => k.observeSequenceValue ⟨table.schema, seq⟩ v.toInt
        | _, _ => k) x.catalog }

/-- The value a column gets when none is given, before it is coerced: the next of
its sequence or its default. -/
def defaultValue (table : Table) (c : Column) : Dml C δ (SqlValue C) := do
  match c.identitySequence with
  | some seq =>
      let n ← drawSerial table seq
      return .int8 (Int64.ofInt n)
  | none =>
      match c.default with
      | some text => Fallible.ofExcept (env.evalDefault (← get) text)
      | none => return .null

end

end GuardianDb.Sql
