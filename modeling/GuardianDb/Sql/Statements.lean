/-
The statements of SQL sessions (`Session::dispatch`, `stmt_lock_plan`, `fk_preload`):
SELECT with or without a lock clause, INSERT, UPDATE, DELETE and CREATE INDEX.

A statement locks the tables it names, and those its foreign keys reach, in the
strongest mode it needs, and loads the same tables. Which tables its queries and
conditions mention is part of the statement; user-defined functions and the tables
that row-security policies mention are left out, and so is what is deferred to
COMMIT.
-/
import GuardianDb.Sql.Dml
import GuardianDb.Sql.Engine
import GuardianDb.Sql.ForUpdate

namespace GuardianDb.Sql

open Std Relational

section
variable (C : Crates) (δ : Type)

/-- A statement, with the tables that its queries and its WHERE clause mention
(`reads`) and those that only its other expressions do (`mentions`). -/
inductive Stmt where
  | select (sel : Select C) (clause : Option LockClause) (arr : Arrangement C)
      (reads : List TableName)
  | insert (stmt : InsertStmt C δ) (reads mentions : List TableName)
  | update (stmt : UpdateStmt C δ) (reads mentions : List TableName)
  | delete (stmt : DeleteStmt C δ) (reads : List TableName)
  | createIndex (index : Index)

/-- `ExecResult`, up to the projection of rows. -/
inductive Answer where
  /-- The rows of a SELECT, with their ids in its table. -/
  | rows (table : Option QualifiedName) (rows : List (Option String × Tuple C))
  /-- The rows a statement has written, and the values it took from sequences. -/
  | written (rows : List (RowValues C)) (drawn : List (QualifiedName × Int))
  | created

end

/-! ### Foreign keys around a statement -/

/-- The search of `fk_ripple` for tables that referential actions may write, for so
many rounds. -/
def rippleWritten (k : Catalog) (root : QualifiedName) :
    Nat → List QualifiedName → ExtTreeSet QualifiedName → ExtTreeSet QualifiedName
  | 0, _, written => written
  | _ + 1, [], written => written
  | fuel + 1, q :: todo, written =>
      let fresh := ((k.referencingForeignKeys q).map Prod.fst).filter fun child =>
        child != root && !written.contains child
      rippleWritten k root fuel (todo ++ fresh.dedup) (fresh.foldl ExtTreeSet.insert written)

/-- `fk_ripple`: the tables a statement may write and those it reads. Each table is
searched once. -/
def fkRipple (k : Catalog) (root : QualifiedName) (includeChildren : Bool) :
    List QualifiedName × List QualifiedName :=
  let written := if includeChildren then rippleWritten k root (k.tables.size + 1) [root] ∅ else ∅
  let parents := (root :: written.toList).flatMap fun q =>
    match k.tables[q]? with
    | some t => t.foreignKeys.filterMap fun fk =>
        k.resolveTableName (some fk.refSchema) fk.refTable
    | none => []
  (written.toList, (ExtTreeSet.ofList parents).toList)

namespace Stmt

section
variable {C : Crates} {δ : Type}

/-- `fk_dml_target`, with whether children may be written. -/
def fkDmlTarget : Stmt C δ → Option (TableName × Bool)
  | .insert stmt _ _ => some ((stmt.schema, stmt.name), match stmt.onConflict with
      | some ⟨_, .doUpdate _ _⟩ => true
      | _ => false)
  | .update stmt _ _ => some ((stmt.schema, stmt.name), true)
  | .delete stmt _ => some ((stmt.schema, stmt.name), true)
  | _ => none

/-- The foreign-key ripple of a statement. -/
def ripple (stmt : Stmt C δ) (k : Catalog) : List QualifiedName × List QualifiedName :=
  match stmt.fkDmlTarget with
  | none => ([], [])
  | some ((schema, name), children) =>
      match k.resolveTableName schema name with
      | some q => fkRipple k q children
      | none => ([], [])

/-- The tables a statement locks by name, before they are looked up. -/
def ownLocks : Stmt C δ → List (TableName × LockMode)
  | .select sel clause _ reads =>
      let mode := if clause.isSome then .rowShare else .accessShare
      ((sel.relation.schema, sel.relation.name) :: reads).map fun n => (n, mode)
  | .insert stmt reads _ =>
      ((stmt.schema, stmt.name), .rowExclusive) :: reads.map fun n => (n, .accessShare)
  | .update stmt reads _ =>
      ((stmt.schema, stmt.name), .rowExclusive) :: reads.map fun n => (n, .accessShare)
  | .delete stmt reads =>
      ((stmt.schema, stmt.name), .rowExclusive) :: reads.map fun n => (n, .accessShare)
  | .createIndex index => [((some index.schema, index.table), .share)]

/-- `table_mode_rank`. -/
def modeRank (mode : LockMode) : Nat :=
  match mode.tableIndex with
  | some i => i
  | none => 0

/-- The strongest mode per table. -/
def strongest (plan : List (Nat × LockMode)) : List (Nat × LockMode) :=
  (plan.foldl (fun (m : ExtTreeMap Nat LockMode) p =>
    match m[p.1]? with
    | some mode => if modeRank p.2 > modeRank mode then m.insert p.1 p.2 else m
    | none => m.insert p.1 p.2) ∅).toList

/-- `stmt_lock_plan`. -/
def lockPlan (stmt : Stmt C δ) (k : CatalogDoc) : List (Nat × LockMode) :=
  let oid := fun q => (k.tables[q]?).map fun t => t.oid
  let own := stmt.ownLocks.filterMap fun p =>
    ((k.resolveTableName p.1.1 p.1.2).bind oid).map fun o => (o, p.2)
  let (written, read) := stmt.ripple k.toCatalog
  strongest (own ++ (written.filterMap fun q => (oid q).map fun o => (o, .rowExclusive)) ++
    read.filterMap fun q => (oid q).map fun o => (o, .rowShare))

/-- `collect_stmt` and `fk_preload`, resolved. -/
def names (stmt : Stmt C δ) (k : CatalogDoc) : List QualifiedName :=
  let own : List TableName := match stmt with
    | .select sel _ _ reads => (sel.relation.schema, sel.relation.name) :: reads
    | .insert stmt reads mentions => (stmt.schema, stmt.name) :: reads ++ mentions
    | .update stmt reads mentions => (stmt.schema, stmt.name) :: mentions ++ reads
    | .delete stmt reads => (stmt.schema, stmt.name) :: reads
    | .createIndex index => [(some index.schema, index.table)]
  let (written, read) := stmt.ripple k.toCatalog
  (own.filterMap fun n => k.resolveTableName n.1 n.2) ++ written ++ read

end

end Stmt

/-! ### Dispatch -/

section
variable {C : Crates} {δ : Type}

/-- A catalog document with other sequences. -/
def CatalogDoc.withSequences (k : CatalogDoc) (sequences : ExtTreeMap QualifiedName Sequence) :
    CatalogDoc :=
  ⟨{ k.toCatalog with sequences := sequences }, k.collections_distinct⟩

def DmlExec.new (k : CatalogDoc) (tables : ExtTreeMap QualifiedName (LoadedTable C)) :
    DmlExec C δ :=
  ⟨k.toCatalog, false, tables, [], [], [], [], [], []⟩

/-- `Exec::new` for a SELECT, with what a session has set up besides. -/
def SelectExec.new (base : SelectExec C) (i : SessionId) (k : CatalogDoc)
    (tables : ExtTreeMap QualifiedName (LoadedTable C)) (locks : Inner) : SelectExec C :=
  { base with
    catalog := k.toCatalog
    tables := tables
    sessionId := i
    locks := locks
    pendingLocks := []
    forUpdateFilter := none }

/-- What INSERT, UPDATE or DELETE leaves behind. Of the catalog they only change
sequences. -/
def runDml (k : CatalogDoc) (tables : ExtTreeMap QualifiedName (LoadedTable C))
    (m : Dml C δ (List (RowValues C))) : Except SqlError (Produced δ CatalogDoc (Answer C)) :=
  match m.exec (DmlExec.new k tables) with
  | (.error e, _) => .error e
  | (.ok rows, x) =>
      .ok ⟨.written rows x.drawn, x.pendingLocks, x.mutations,
        k.withSequences x.catalog.sequences, x.catalogDirty⟩

def runSelect (base : SelectExec C) (i : SessionId) (k : CatalogDoc)
    (tables : ExtTreeMap QualifiedName (LoadedTable C)) (locks : Inner) (sel : Select C)
    (clause : Option LockClause) (arr : Arrangement C) :
    Except SqlError (Produced δ CatalogDoc (Answer C)) × Inner :=
  match (execSelectQuery sel clause arr).exec (base.new i k tables locks) with
  | (.error e, x) => (.error e, x.locks)
  | (.ok out, x) =>
      (.ok ⟨.rows (k.resolveTableName sel.relation.schema sel.relation.name) out.2,
        x.pendingLocks, [], k, false⟩, x.locks)

def sqlStatements (decode : RowDecoder C δ) (env : DmlEnv C δ) (base : SelectExec C) :
    Statements δ CatalogDoc (LoadedTable C) SqlError (Stmt C δ) (Answer C) where
  toRelations := tableRelations decode
  lockPlan := Stmt.lockPlan
  names := Stmt.names
  dispatch i stmt k tables locks :=
    match stmt with
    | .select sel clause arr _ => runSelect base i k tables locks sel clause arr
    | .insert stmt _ _ => (runDml k tables (execInsert env stmt), locks)
    | .update stmt _ _ => (runDml k tables (execUpdate env stmt), locks)
    | .delete stmt _ => (runDml k tables (execDelete env stmt), locks)
    | .createIndex index =>
        (match tables[(⟨index.schema, index.table⟩ : QualifiedName)]? with
          | none => .error (.undefinedTable index.table)
          | some t => (createIndex k t index).map fun k' => ⟨.created, [], [], k', true⟩, locks)

end

end GuardianDb.Sql
