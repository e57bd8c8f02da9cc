/-
The scans of a single-table SELECT (`sql/select.rs`), with the name resolution and
the comparison its WHERE clause needs (`sql/eval.rs`, `sql/row.rs`).

A SELECT over one relation takes its rows from an ANN candidate scan, from an
index scan or from the relation itself, in this order, and filters them by WHERE.
Rows here carry the row id they come from; a row of a CTE, a view or a system
relation has none. Identifiers are case-folded names. Expressions other than
column references, AND and `=` are arbitrary functions of the frames in scope
(and of the SKIP LOCKED filter, which subqueries see); the gates of the ANN scan,
the rows of views and of system relations are parameters.
-/
import GuardianDb.Relational.Compare
import GuardianDb.Sql.Arith
import GuardianDb.Sql.Lock
import GuardianDb.Sql.Store

namespace GuardianDb.Sql

open Std Relational

/-! ### Names and frames -/

structure FieldRef where
  table : Option String
  name : String
  deriving DecidableEq, Repr

/-- `RowSchema`; its two lookup maps are functions of the fields. -/
abbrev RowSchema := List FieldRef

namespace RowSchema

/-- The positions of the fields that satisfy `p`. -/
def positions (p : FieldRef → Bool) (schema : RowSchema) : List Nat :=
  (schema.zipIdx.filter fun f => p f.1).map fun f => f.2

def resolve (schema : RowSchema) (table : Option String) (column : String) :
    Except SqlError Nat :=
  match table with
  | some t =>
      match (schema.positions fun f => f.table == some t && f.name == column).getLast? with
      | some i => .ok i
      | none => .error (.undefinedColumn (t ++ "." ++ column))
  | none =>
      match schema.positions fun f => f.name == column with
      | [i] => .ok i
      | [] => .error (.undefinedColumn column)
      | _ => .error (.syntaxError ("column reference \"" ++ column ++ "\" is ambiguous"))

end RowSchema

section
variable {C : Crates}

abbrev Tuple (C : Crates) := List (SqlValue C)

structure Frame (C : Crates) where
  schema : RowSchema
  row : Tuple C

/-- `for_update_filter`. -/
abbrev ScanFilter := Option (QualifiedName × ExtTreeSet String)

/-! ### Expressions -/

/-- An expression; `other` is every form that the scans do not look into. -/
inductive Expr (C : Crates) where
  | ident (name : String)
  | compound (parts : List String)
  | nested (e : Expr C)
  | and (left right : Expr C)
  | eq (left right : Expr C)
  | other (eval : ScanFilter → List (Frame C) → Except SqlError (SqlValue C))

/-- What evaluation takes from elsewhere. -/
structure EvalEnv (C : Crates) where
  /-- `call_scalar` for functions without parentheses. -/
  callScalar : String → Except SqlError (SqlValue C)
  /-- The casts to other than integer types. -/
  castOther : SqlValue C → SqlType → Except RelError (SqlValue C)

/-- The frames from the innermost outward; an ambiguous name ends the search. -/
def lookupFrames (table : Option String) (column : String) :
    List (Frame C) → Option (Except SqlError (SqlValue C))
  | [] => none
  | f :: fs =>
      match f.schema.resolve table column with
      | .ok i => some (.ok (f.row[i]?.getD .null))
      | .error (.syntaxError m) => some (.error (.syntaxError m))
      | .error _ => lookupFrames table column fs

def resolveOrSpecial (env : EvalEnv C) (frames : List (Frame C)) (table : Option String)
    (column : String) : Except SqlError (SqlValue C) :=
  match lookupFrames table column frames.reverse with
  | some r => r
  | none =>
      let missing := match table, frames with
        | some t, _ :: _ => t ++ "." ++ column
        | _, _ => column
      if table.isSome then .error (.undefinedColumn missing)
      else if ["current_timestamp", "current_date", "current_time", "current_user",
          "session_user", "user", "current_schema", "current_catalog", "current_database",
          "localtimestamp", "localtime"].contains column then env.callScalar column
      else if column = "true" then .ok (.bool true)
      else if column = "false" then .ok (.bool false)
      else if column = "null" then .ok .null
      else .error (.undefinedColumn missing)

/-- The text side of a comparison, cast to the type of the other side. -/
def coerceOne (env : EvalEnv C) (text typed : SqlValue C) : Option (SqlValue C) :=
  match typed.typeOf with
  | .text => none
  | .unknown => none
  | ty => (Relational.cast env.castOther text ty).toOption

def coercePair (env : EvalEnv C) (a b : SqlValue C) : SqlValue C × SqlValue C :=
  match a, b with
  | .text _, .text _ => (a, b)
  | .text _, .null => (a, b)
  | .text _, _ => ((coerceOne env a b).getD a, b)
  | .null, .text _ => (a, b)
  | _, .text _ => (a, (coerceOne env b a).getD b)
  | _, _ => (a, b)

/-- `compare_op` for `=`. -/
def compareEq (env : EvalEnv C) (a b : SqlValue C) : SqlValue C :=
  if a.isNull || b.isNull then .null
  else
    let p := coercePair env a b
    match p.1.compare p.2 with
    | none => .null
    | some ord => .bool (ord == .eq)

namespace Expr

/-- `eval`; AND is three-valued and stops at a false side. -/
def eval (env : EvalEnv C) (filter : ScanFilter) (frames : List (Frame C)) :
    Expr C → Except SqlError (SqlValue C)
  | .ident name => resolveOrSpecial env frames none name
  | .compound parts =>
      match parts.reverse with
      | [] => .error (.syntaxError "empty identifier")
      | [column] => resolveOrSpecial env frames none column
      | column :: table :: _ => resolveOrSpecial env frames (some table) column
  | .nested e => e.eval env filter frames
  | .and left right => do
      let l := truthy (← left.eval env filter frames)
      if l = some false then return .bool false
      let r := truthy (← right.eval env filter frames)
      if r = some false then return .bool false
      if l = some true ∧ r = some true then return .bool true
      return .null
  | .eq left right => do
      let a ← left.eval env filter frames
      let b ← right.eval env filter frames
      return compareEq env a b
  | .other f => f filter frames

def columnName : Expr C → Option String
  | .ident name => some name
  | .compound parts => parts.getLast?
  | _ => none

def isColumnRef : Expr C → Bool
  | .ident _ => true
  | .compound _ => true
  | _ => false

end Expr

/-! ### Relations in scope -/

structure RowSet (C : Crates) where
  schema : RowSchema
  rows : List (Tuple C)

/-- A possibly qualified table name. -/
abbrev TableName := Option String × String

/-- A table factor: a possibly qualified name, its alias and column aliases. -/
structure TableRef where
  schema : Option String
  name : String
  alias? : Option String
  columnAliases : List String
  deriving DecidableEq, Repr

def TableRef.aliasName (r : TableRef) : String := r.alias?.getD r.name

/-- What an ANN scan works with once the query has passed its gates. -/
structure AnnPlan where
  /-- `LIMIT + OFFSET`. -/
  k : Nat
  k_pos : 0 < k
  column : String
  efSearch : Nat
  efCeiling : Nat
  /-- `AnnRuntime::candidates` for a fetch size and `ef`. -/
  candidates : Nat → Nat → Option (List String)
  /-- `AnnRuntime::live_count`. -/
  live : Option Nat

structure Select (C : Crates) where
  relation : TableRef
  selection : Option (Expr C)

/-- The part of `Exec` that a SELECT reads and changes. -/
structure SelectExec (C : Crates) where
  env : EvalEnv C
  catalog : Catalog
  tables : ExtTreeMap QualifiedName (LoadedTable C)
  cte : ExtTreeMap String (RowSet C)
  /-- `pg_locks_rows`. -/
  pgLocks : RowSet C
  /-- Views and introspection relations. -/
  otherRelation : TableRef → Except SqlError (RowSet C)
  /-- `rls_select_hidden`. -/
  rlsHidden : QualifiedName → ExtTreeSet String
  /-- The gates of `try_ann_scan`. -/
  annPlan : Select C → List (Frame C) → Option AnnPlan
  sessionId : SessionId
  locks : Inner
  pendingLocks : List (LockObject × LockMode × LockScope)
  forUpdateFilter : ScanFilter

/-- Rows with the row id they come from. -/
structure Candidates (C : Crates) where
  schema : RowSchema
  rows : List (Option String × Tuple C)

def tableSchema (table : Table) (aliasName : String) : RowSchema :=
  table.columns.map fun c => ⟨some aliasName, c.name⟩

def rowTuple (table : Table) (values : RowValues C) : Tuple C :=
  table.columns.map fun c => valueOf values c.name

def tupleRows (t : LoadedTable C) (ids : List String) : List (Option String × Tuple C) :=
  ids.filterMap fun rid => (t.rows[rid]?).map fun values => (some rid, rowTuple t.table values)

def relabel (r : TableRef) (rs : Candidates C) : Candidates C :=
  { rs with
    schema := rs.schema.zipIdx.map fun f =>
      ⟨some r.aliasName, r.columnAliases[f.2]?.getD f.1.name⟩ }

/-- A row set without row ids. -/
def RowSet.unsourced (rs : RowSet C) : Candidates C := ⟨rs.schema, rs.rows.map fun t => (none, t)⟩

namespace SelectExec

variable (x : SelectExec C)

/-- Row-level security does not hide the row. -/
def visible (q : QualifiedName) (rid : String) : Bool := !(x.rlsHidden q).contains rid

def applyWhere (selection : Option (Expr C)) (outer : List (Frame C)) (schema : RowSchema) :
    List (Option String × Tuple C) → Except SqlError (List (Option String × Tuple C))
  | [] => .ok []
  | row :: rows =>
      match selection with
      | none => .ok (row :: rows)
      | some predicate => do
          let v ← predicate.eval x.env x.forUpdateFilter (outer ++ [⟨schema, row.2⟩])
          let rest ← applyWhere selection outer schema rows
          return if truthy v = some true then row :: rest else rest

/-! ### Index scan -/

def isSingleIndexed (t : LoadedTable C) (column : String) : Bool :=
  t.indexes.any fun idx => idx.index.columns == [column]

/-- One side of an equality as an indexed column, the other as its value. -/
def indexedSide (t : LoadedTable C) (column value : Expr C) : Option (String × Expr C) :=
  match column.columnName with
  | some c => if isSingleIndexed t c && !value.isColumnRef then some (c, value) else none
  | none => none

def findIndexedEquality (t : LoadedTable C) : Expr C → Option (String × Expr C)
  | .and left right => (findIndexedEquality t left).or (findIndexedEquality t right)
  | .eq left right => (indexedSide t left right).or (indexedSide t right left)
  | .nested e => findIndexedEquality t e
  | _ => none

/-- The value of an indexed equality, cast to the column's type, and the row ids
under it. -/
def indexedIds (t : LoadedTable C) (selection : Expr C) (outer : List (Frame C)) :
    Option (List String) := do
  let (column, expr) ← findIndexedEquality t selection
  let value ← (expr.eval x.env x.forUpdateFilter outer).toOption
  let c ← t.table.column column
  let coerced ← (Relational.cast x.env.castOther value c.ty).toOption
  t.indexLookupEq column coerced

/-- The base table a table factor names, if it is loaded. The scans that use it
do not ask whether a CTE has the name. -/
def baseTable (r : TableRef) : Option (QualifiedName × LoadedTable C) := do
  let q ← x.catalog.resolveTableName r.schema r.name
  let t ← x.tables[q]?
  return (q, t)

def tryIndexScan (sel : Select C) (outer : List (Frame C)) : Option (Candidates C) := do
  let (q, t) ← x.baseTable sel.relation
  let selection ← sel.selection
  let ids ← x.indexedIds t selection outer
  return ⟨tableSchema t.table sel.relation.aliasName, tupleRows t (ids.filter (x.visible q))⟩

/-! ### ANN scan -/

def nullRows (q : QualifiedName) (t : LoadedTable C) (column : String) : List String :=
  (t.rows.toList.filter fun row => x.visible q row.1 &&
    match row.2[column]? with
    | some (.vector _) => false
    | _ => true).map fun row => row.1

/-- The growth loop of `try_ann_scan`: fetch more candidates until enough of them
pass WHERE, or give up at the ceiling. -/
def annGrow (sel : Select C) (outer : List (Frame C)) (q : QualifiedName) (t : LoadedTable C)
    (plan : AnnPlan) (fetch : Nat) (hfetch : 0 < fetch) :
    Except SqlError (Option (Candidates C)) :=
  match plan.candidates fetch (min (max plan.efSearch fetch) plan.efCeiling) with
  | none => .ok none
  | some ranked => do
      let exhausted := plan.live.any fun live => live ≤ ranked.length
      let schema := tableSchema t.table sel.relation.aliasName
      let rows := tupleRows t (ranked.filter (x.visible q)) ++
        tupleRows t (x.nullRows q t plan.column)
      let survivors ← x.applyWhere sel.selection outer schema rows
      if plan.k ≤ survivors.length || exhausted then return some ⟨schema, rows⟩
      else if h : plan.efCeiling < max plan.efSearch (2 * fetch) then return none
      else annGrow sel outer q t plan (2 * fetch) (by omega)
  termination_by plan.efCeiling + 1 - fetch

def tryAnnScan (sel : Select C) (outer : List (Frame C)) :
    Except SqlError (Option (Candidates C)) :=
  match x.annPlan sel outer, x.baseTable sel.relation with
  | some plan, some (q, t) => x.annGrow sel outer q t plan plan.k plan.k_pos
  | _, _ => .ok none

/-! ### Full scan -/

def loadedToRowset (r : TableRef) (q : QualifiedName) (t : LoadedTable C) : Candidates C :=
  let allowed := fun rid => match x.forUpdateFilter with
    | some (fq, ids) => if fq = q then ids.contains rid else true
    | none => true
  ⟨tableSchema t.table r.aliasName,
    tupleRows t ((t.rows.keys.filter allowed).filter (x.visible q))⟩

/-- Where a SELECT takes its rows from. -/
inductive ScanKind where
  | ann
  | index
  | full
  /-- A CTE, a view or a system relation. -/
  | elsewhere
  deriving DecidableEq, Repr

/-- `exec_table_factor` for a named relation. -/
def execTableFactor (r : TableRef) : Except SqlError (ScanKind × Candidates C) :=
  match if r.schema.isNone then x.cte[r.name]? else none with
  | some rs => .ok (.elsewhere, relabel r rs.unsourced)
  | none =>
      if r.name = "pg_locks" ∧ (r.schema = some "pg_catalog" ∨ r.schema = none) then
        .ok (.elsewhere, relabel r x.pgLocks.unsourced)
      else
        match x.baseTable r with
        | some (q, t) => .ok (.full, relabel r (x.loadedToRowset r q t))
        | none => (x.otherRelation r).map fun rs => (.elsewhere, relabel r rs.unsourced)

/-! ### The scan that is taken -/

/-- The rows a SELECT starts from. -/
def chooseScan (sel : Select C) (outer : List (Frame C)) :
    Except SqlError (ScanKind × Candidates C) := do
  match ← x.tryAnnScan sel outer with
  | some rs => return (.ann, rs)
  | none =>
      match x.tryIndexScan sel outer with
      | some rs => return (.index, rs)
      | none => x.execTableFactor sel.relation

/-- `exec_select` up to the rows that pass WHERE. -/
def filteredRows (sel : Select C) (outer : List (Frame C)) :
    Except SqlError (ScanKind × List (Option String × Tuple C)) := do
  let (kind, rs) ← x.chooseScan sel outer
  return (kind, ← x.applyWhere sel.selection outer rs.schema rs.rows)

end SelectExec

end

end GuardianDb.Sql
