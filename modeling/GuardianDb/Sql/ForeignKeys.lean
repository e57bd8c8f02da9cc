/-
Foreign-key enforcement (`sql/fk.rs`).

A row that is written is checked against its parents. A row that is removed or
rewritten becomes a work item: the worklist runs the referential actions breadth
first, each of them may add items, and what NO ACTION and RESTRICT forbid is looked
at when the list is empty. Checks of a constraint that is deferred are queued for
COMMIT.
-/
import GuardianDb.Sql.RowWrites

namespace GuardianDb.Sql

open Std Relational

section
variable {C : Crates} {δ : Type} (env : DmlEnv C δ)

def maxRiSteps : Nat := 1000000

def maxCascadeDepth : Nat := 25

def fkValues (fk : ForeignKey) (row : RowValues C) : List (SqlValue C) :=
  fk.columns.map (valueOf row)

def refValues (fk : ForeignKey) (row : RowValues C) : List (SqlValue C) :=
  fk.refColumns.map (valueOf row)

def displayVals (vals : List (SqlValue C)) : String :=
  ", ".intercalate (vals.map fun v => String.ofList (v.toText.getD "null".toList))

/-! ### Lookups -/

def fkIsDeferred (table : QualifiedName) (fk : ForeignKey) : Bool :=
  match env.modes with
  | some m => m.isDeferred table fk
  | none => false

def fkLoaded (x : DmlExec C δ) (q : QualifiedName) : Except SqlError (LoadedTable C) :=
  match x.tables[q]? with
  | some t => .ok t
  | none => .error (.internal
      ("foreign-key table " ++ q.schema ++ "." ++ q.name ++ " was not preloaded"))

def fkParent (x : DmlExec C δ) (fk : ForeignKey) : Except SqlError QualifiedName :=
  match x.catalog.resolveTableName (some fk.refSchema) fk.refTable with
  | some q => .ok q
  | none => .error (.undefinedTable (fk.refSchema ++ "." ++ fk.refTable))

/-- A row of the parent has the key; the first index on the referenced columns is
used. -/
def hasKey (t : LoadedTable C) (fk : ForeignKey) (key : String) : Bool :=
  match t.indexes.find? fun idx => idx.index.columns == fk.refColumns with
  | some idx => !(idx.data.get key).isEmpty
  | none => t.rows.values.any fun r => compositeKey (refValues fk r) == some key

def fkParentHasKey (x : DmlExec C δ) (parent : QualifiedName) (fk : ForeignKey) (key : String) :
    Except SqlError Bool := do
  return hasKey (← fkLoaded x parent) fk key

/-- The rows with the key; the first index on the referencing columns is used. -/
def matching (t : LoadedTable C) (fk : ForeignKey) (key : String) : List (String × RowValues C) :=
  match t.indexes.find? fun idx => idx.index.columns == fk.columns with
  | some idx => (idx.data.get key).toList.filterMap fun rid => (t.rows[rid]?).map fun r => (rid, r)
  | none => t.rows.toList.filter fun r => compositeKey (fkValues fk r.2) == some key

def fkMatchingChildren (x : DmlExec C δ) (child : QualifiedName) (fk : ForeignKey) (key : String) :
    Except SqlError (List (String × RowValues C)) := do
  return matching (← fkLoaded x child) fk key

def fkChildRowShapeExists (x : DmlExec C δ) (child : QualifiedName) (fk : ForeignKey)
    (rowKey : String) : Except SqlError Bool := do
  return (← fkLoaded x child).rows.values.any fun r => orderedKey (fkValues fk r) == rowKey

/-! ### The referencing side -/

/-- Rows that need no parent: under MATCH SIMPLE with a NULL in the key, under MATCH
FULL with nothing else. -/
def exempt (fk : ForeignKey) (vals : List (SqlValue C)) : Bool :=
  match fk.matchType with
  | .simple => vals.any SqlValue.isNull
  | .full => vals.all SqlValue.isNull

/-- A check is left to COMMIT. -/
def deferCheck (check : DeferredFkCheck C) : Dml C δ Unit :=
  modify fun x => { x with deferredChecks := x.deferredChecks ++ [check] }

def nullMixError (table : String) (fk : ForeignKey) : SqlError :=
  .foreignKeyViolation table fk.name
    "MATCH FULL does not allow mixing of null and nonnull key values."

def missingParentError (table : String) (fk : ForeignKey) (vals : List (SqlValue C)) : SqlError :=
  .foreignKeyViolation table fk.name ("Key (" ++ ", ".intercalate fk.columns ++ ")=(" ++
    displayVals vals ++ ") is not present in table \"" ++ fk.refTable ++ "\".")

def fkCheckOne (table : Table) (fk : ForeignKey) (row : RowValues C) : Dml C δ Unit := do
  let vals := fkValues fk row
  if exempt fk vals then pure ()
  else
    match compositeKey vals with
    | none =>
        if fkIsDeferred env table.qualified fk then
          deferCheck (.matchFullNullMix table.qualified fk (orderedKey vals))
        else throw (nullMixError table.name fk)
    | some key =>
        let x ← get
        let parent ← Fallible.ofExcept (fkParent x fk)
        if ← Fallible.ofExcept (fkParentHasKey x parent fk key) then pure ()
        else if fkIsDeferred env table.qualified fk then
          deferCheck (.child table.qualified fk key vals)
        else throw (missingParentError table.name fk vals)

/-- `fk_check_child`; an update leaves the keys alone that it does not change. -/
def fkCheckChild (table : Table) (new : RowValues C) (old : Option (RowValues C)) : Dml C δ Unit :=
  table.foreignKeys.forM fun fk =>
    match old with
    | some old =>
        if orderedKey (fkValues fk old) = orderedKey (fkValues fk new) then pure ()
        else fkCheckOne env table fk new
    | none => fkCheckOne env table fk new

/-! ### The referenced side -/

def riReferencedError (parent child : QualifiedName) (fk : ForeignKey)
    (keyVals : List (SqlValue C)) : SqlError :=
  .foreignKeyViolationReferenced parent.name fk.name child.name ("Key (" ++
    ", ".intercalate fk.refColumns ++ ")=(" ++ displayVals keyVals ++
    ") is still referenced from table \"" ++ child.name ++ "\".")

/-- A row that was removed or rewritten goes on the worklist. -/
def enqueue (item : RiWork C) : Dml C δ Unit :=
  modify fun x => { x with queue := x.queue ++ [item] }

/-- A check for the end of the statement. -/
def checkLater (check : PendingCheck C) : Dml C δ Unit :=
  modify fun x => { x with checks := x.checks ++ [check] }

def riQueueOrCheck (parent child : QualifiedName) (fk : ForeignKey) (key : String)
    (keyVals : List (SqlValue C)) : Dml C δ Unit :=
  if fkIsDeferred env child fk then deferCheck (.referenced parent child fk key keyVals)
  else checkLater ⟨parent, child, fk, key, keyVals⟩

def riDeleteChild (child : QualifiedName) (rid : String) : Dml C δ Unit := do
  let t ← Fallible.ofExcept (fkLoaded (← get) child)
  lockRowLater t.table.oid rid
  deleteRow child t.table rid

/-- The key of a row over all columns of its table. -/
def rowKey (table : Table) (row : RowValues C) : String :=
  orderedKey (table.columns.map fun c => valueOf row c.name)

/-- `ri_update_child`; a row that does not change is not written. -/
def riUpdateChild (child : QualifiedName) (rid : String) (old new : RowValues C) :
    Dml C δ Unit := do
  let t ← Fallible.ofExcept (fkLoaded (← get) child)
  if rowKey t.table old = rowKey t.table new then pure ()
  else
    Fallible.ofExcept (checkRowConstraints env t.table new)
    checkUniqueFor child new (some rid)
    fkCheckChild env t.table new (some old)
    lockRowLater t.table.oid rid
    writeUpdate env child t.table rid new
    enqueue (.updated child old new)

def riDefaultsFor (child : QualifiedName) (fk : ForeignKey) (row : RowValues C) :
    Dml C δ (RowValues C) := do
  let t ← Fallible.ofExcept (fkLoaded (← get) child)
  fk.columns.foldlM (fun new c => do
    match t.table.column c with
    | none => throw (.undefinedColumn c)
    | some col =>
        let v ← defaultValue env t.table col
        let v ← Fallible.ofExcept (coerceToCol env v t.table c)
        return new.insert c v) row

/-- A row whose foreign-key columns are NULL. -/
def setNull (fk : ForeignKey) (row : RowValues C) : RowValues C :=
  fk.columns.foldl (fun r c => r.insert c .null) row

/-- A child row with the new key of its parent. -/
def cascaded (table : Table) (fk : ForeignKey) (newVals : List (SqlValue C)) (row : RowValues C) :
    Except SqlError (RowValues C) :=
  fk.columns.zipIdx.foldlM (fun r c => do
    let v := newVals[c.2]?.getD .null
    let v ← if v.isNull then pure .null else coerceToCol env v table c.1
    return r.insert c.1 v) row

/-- What happens to the children of a removed row, by one foreign key. -/
def riDeleteAction (parent : QualifiedName) (depth : Nat) (child : QualifiedName) (fk : ForeignKey)
    (key : String) (keyVals : List (SqlValue C)) : Dml C δ Unit := do
  match fk.onDelete with
  | .noAction => riQueueOrCheck env parent child fk key keyVals
  | .restrict => checkLater ⟨parent, child, fk, key, keyVals⟩
  | .cascade =>
      let children ← Fallible.ofExcept (fkMatchingChildren (← get) child fk key)
      children.forM fun r => do
        riDeleteChild child r.1
        enqueue (.deleted child r.2 (depth + 1))
  | .setNull =>
      let children ← Fallible.ofExcept (fkMatchingChildren (← get) child fk key)
      children.forM fun r => riUpdateChild env child r.1 r.2 (setNull fk r.2)
  | .setDefault =>
      let children ← Fallible.ofExcept (fkMatchingChildren (← get) child fk key)
      children.forM fun r => do
        let new ← riDefaultsFor env child fk r.2
        riUpdateChild env child r.1 r.2 new
      riQueueOrCheck env parent child fk key keyVals

/-- What happens to the children of a rewritten row, by one foreign key. -/
def riUpdateAction (parent child : QualifiedName) (fk : ForeignKey) (key : String)
    (oldVals newVals : List (SqlValue C)) : Dml C δ Unit := do
  match fk.onUpdate with
  | .noAction => riQueueOrCheck env parent child fk key oldVals
  | .restrict => checkLater ⟨parent, child, fk, key, oldVals⟩
  | .cascade =>
      let t ← Fallible.ofExcept (fkLoaded (← get) child)
      (matching t fk key).forM fun r => do
        let new ← Fallible.ofExcept (cascaded env t.table fk newVals r.2)
        riUpdateChild env child r.1 r.2 new
  | .setNull =>
      let children ← Fallible.ofExcept (fkMatchingChildren (← get) child fk key)
      children.forM fun r => riUpdateChild env child r.1 r.2 (setNull fk r.2)
  | .setDefault =>
      let children ← Fallible.ofExcept (fkMatchingChildren (← get) child fk key)
      children.forM fun r => do
        let new ← riDefaultsFor env child fk r.2
        riUpdateChild env child r.1 r.2 new
      riQueueOrCheck env parent child fk key oldVals

def riOnDelete (parent : QualifiedName) (row : RowValues C) (depth : Nat) : Dml C δ Unit := do
  ((← get).catalog.referencingForeignKeys parent).forM fun (child, fk) =>
    match compositeKey (refValues fk row) with
    | none => pure ()
    | some key => riDeleteAction env parent depth child fk key (refValues fk row)

/-- `ri_on_update`; nothing is done for a key that did not change. -/
def riOnUpdate (parent : QualifiedName) (old new : RowValues C) : Dml C δ Unit := do
  ((← get).catalog.referencingForeignKeys parent).forM fun (child, fk) =>
    match compositeKey (refValues fk old) with
    | none => pure ()
    | some key =>
        if orderedKey (refValues fk old) = orderedKey (refValues fk new) then pure ()
        else riUpdateAction env parent child fk key (refValues fk old) (refValues fk new)

def riItem : RiWork C → Dml C δ Unit
  | .deleted table row depth =>
      if depth > maxCascadeDepth then
        throw (.statementTooComplex
          "FK CASCADE DELETE depth limit exceeded — too many levels of cascades (max 25)")
      else riOnDelete env table row depth
  | .updated table old new => riOnUpdate env table old new

/-- The worklist loop, for so many steps. -/
def riLoop : Nat → Dml C δ Unit
  | 0 => do
      match (← get).queue with
      | [] => pure ()
      | _ :: _ => throw (.internal "foreign-key referential actions did not terminate")
  | fuel + 1 => do
      match (← get).queue with
      | [] => pure ()
      | item :: rest =>
          modify fun x => { x with queue := rest }
          riItem env item
          riLoop fuel

/-- A check at the end of the statement: the key is there again, or no row has it. -/
def riCheck (c : PendingCheck C) : Dml C δ Unit := do
  let x ← get
  if ← Fallible.ofExcept (fkParentHasKey x c.parent c.fk c.key) then pure ()
  else
    let children ← Fallible.ofExcept (fkMatchingChildren x c.child c.fk c.key)
    if children.isEmpty then pure ()
    else throw (riReferencedError c.parent c.child c.fk c.keyVals)

def fkApplyReferentialActions (work : List (RiWork C)) : Dml C δ Unit := do
  modify fun x => { x with queue := work, checks := [] }
  riLoop env maxRiSteps
  (← get).checks.forM riCheck

/-! ### Deferred checks -/

/-- The table name in the error of a deferred check. -/
def checkedName (x : DmlExec C δ) (child : QualifiedName) : String :=
  match x.catalog.tables[child]? with
  | some t => t.name
  | none => child.name

/-- `fk_drain_deferred`, for one check. -/
def fkDrainOne (x : DmlExec C δ) : DeferredFkCheck C → Except SqlError Unit
  | .child child fk key keyVals => do
      let parent ← fkParent x fk
      if ← fkParentHasKey x parent fk key then pure ()
      else if (← fkMatchingChildren x child fk key).isEmpty then pure ()
      else throw (missingParentError (checkedName x child) fk keyVals)
  | .referenced parent child fk key keyVals => do
      if ← fkParentHasKey x parent fk key then pure ()
      else if (← fkMatchingChildren x child fk key).isEmpty then pure ()
      else throw (riReferencedError parent child fk keyVals)
  | .matchFullNullMix child fk rowKey => do
      if ← fkChildRowShapeExists x child fk rowKey then
        throw (nullMixError (checkedName x child) fk)

def fkDrainDeferred (x : DmlExec C δ) (checks : List (DeferredFkCheck C)) : Except SqlError Unit :=
  checks.forM (fkDrainOne x)

end

end GuardianDb.Sql
