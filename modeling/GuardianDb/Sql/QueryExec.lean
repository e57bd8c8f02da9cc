/-
The query executor (`sql/select.rs`, `sql/eval.rs`): expressions, single SELECT blocks
with joins, grouping, windows and ORDER BY, set operations, views, and WITH.

The functions are written with open recursion: they evaluate the expressions and
queries inside theirs through an `Evaluator`, and `evaluator` ties the knot for a
bounded nesting depth, which stands for the stack of the program. The rows of tables
are read in two places only, the index scan of a single-table SELECT and
`execTableFactor`, and both go through the scans of `Sql/Scan.lean`. A user-defined
function whose body is made of SELECT statements is evaluated like the queries inside
others; what other bodies do is a parameter. Built-in functions and operators, the
folding of aggregates, the computation of a window function from its operands and the
checks on the form of recursive terms are parameters too; the types of result columns
are left out, and so is the ANN candidate scan.
-/
import GuardianDb.Sql.Query

namespace GuardianDb.Sql

open Std Relational

section
variable (C : Crates)

/-- Aggregate and window results, by the SQL text of the call. -/
abbrev Aggs := ExtTreeMap String (SqlValue C)

/-- The body of a user-defined function. -/
inductive UserBody where
  /-- An SQL function of SELECT statements that have no WITH and no locking clause: the
  statements, and what they are with the arguments in place of the parameters. -/
  | queries (text : List Query) (bound : List (SqlValue C) → List Query)
      (names_bound : ∀ args, ∀ q ∈ bound args, ∀ n ∈ q.names, ∃ q₀ ∈ text, n ∈ q₀.names)
  /-- Any other: the relations that it may go through, itself or in views, policies and
  other functions, and its value from the tables and WITH items of these names. -/
  | other (reads : List TableName)
      (run : ExtTreeMap QualifiedName (LoadedTable C) → ExtTreeMap String (RowSet C) →
        List (SqlValue C) → Except SqlError (SqlValue C))

/-- `FunctionDef`. -/
structure UserFunction where
  name : String
  arity : Nat
  strict : Bool
  returnsTrigger : Bool
  body : UserBody C

/-- What the executor takes from elsewhere. Only the bodies of user-defined functions see
tables. -/
structure QueryEnv where
  literal : Literal → Except SqlError (SqlValue C)
  unary : String → SqlValue C → Except SqlError (SqlValue C)
  /-- Binary operators other than AND, OR and `=`. -/
  operator : String → SqlValue C → SqlValue C → Except SqlError (SqlValue C)
  /-- `compare_op` for operators other than `=`. -/
  compareOther : BinaryOperator → SqlValue C → SqlValue C → SqlValue C
  /-- `call_scalar` for the functions of the server and its extensions, and the
  advisory-lock functions. -/
  call : String → List (SqlValue C) → Except SqlError (SqlValue C)
  /-- The user-defined functions that none of these hides, in the order of
  `find_function`. -/
  functions : List (UserFunction C)
  /-- CAST to a named type. -/
  castTo : String → SqlValue C → Except SqlError (SqlValue C)
  /-- `like_match`. -/
  likeMatch : Bool → Option String → SqlValue C → SqlValue C → Bool
  /-- `values_not_distinct`. -/
  notDistinct : SqlValue C → SqlValue C → Bool
  position : SqlValue C → SqlValue C → SqlValue C
  extract : String → SqlValue C → Except SqlError (SqlValue C)
  /-- `fold_aggregate`: the function, the separator of `string_agg`, whether it is
  over `*`, the values and the number of rows. -/
  foldAggregate : String → Option (SqlValue C) → Bool → List (SqlValue C) → Nat →
    Except SqlError (SqlValue C)
  /-- A window call: its operands by number and row, the offsets of its frame and the
  number of rows give a value per row. -/
  window : Function → (Nat → Nat → Except SqlError (SqlValue C)) →
    (Nat → Except SqlError (SqlValue C)) → Nat → Except SqlError (List (SqlValue C))
  /-- The query of a view. -/
  viewQuery : QualifiedName → Except SqlError Query
  /-- Introspection relations (`view_rows`). -/
  catalogView : Option String → String → Except SqlError (Option (RowSet C))
  /-- `query_references`. -/
  references : Query → String → Bool
  /-- The checks on the two terms of a recursive query. -/
  recursiveTerms : SetExpr → SetExpr → String → Except SqlError Unit
  /-- The column types a recursive query takes from its base term. -/
  recursiveTypes : SetExpr → RowSet C → List SqlType
  /-- `guardian.recursive_max_iterations`. -/
  maxIterations : Nat

/-- The part of `Exec` that queries read. -/
structure QueryExec extends SelectExec C where
  queries : QueryEnv C

/-- How expressions and queries inside others are evaluated. -/
structure Evaluator where
  expr : SqlExpr → List (Frame C) → Option (Aggs C) → Except SqlError (SqlValue C)
  query : Query → List (Frame C) → Except SqlError (RowSet C)

end

section
variable {C : Crates}

/-! ### Row sets -/

namespace RowSet

def relabel (rs : RowSet C) (aliasName : String) (columns : List String) : RowSet C :=
  { rs with
    schema := rs.schema.zipIdx.map fun f => ⟨some aliasName, columns[f.2]?.getD f.1.name⟩ }

def crossJoin (left right : RowSet C) : RowSet C :=
  ⟨left.schema ++ right.schema, left.rows.flatMap fun l => right.rows.map fun r => l ++ r⟩

end RowSet

def Candidates.toRowSet (rs : Candidates C) : RowSet C := ⟨rs.schema, rs.rows.map Prod.snd⟩

/-- The key of a row for DISTINCT and the set operations. -/
def tupleKey (t : Tuple C) : List (List Char) := t.map SqlValue.indexKey

def dedupe (rows : List (Tuple C)) : List (Tuple C) := dedupeBy tupleKey rows

def applySetOp (left right : RowSet C) (op : SetOperator) (all : Bool) : RowSet C :=
  let rows := match op with
    | .union => left.rows ++ right.rows
    | .except => left.rows.filter fun t => !(right.rows.map tupleKey).contains (tupleKey t)
    | .intersect => left.rows.filter fun t => (right.rows.map tupleKey).contains (tupleKey t)
  ⟨left.schema, if all then rows else dedupe rows⟩

def compareSort (a b : SqlValue C) (asc nullsFirst : Bool) : Ordering :=
  match a.isNull, b.isNull with
  | true, true => .eq
  | true, false => if nullsFirst then .lt else .gt
  | false, true => if nullsFirst then .gt else .lt
  | false, false =>
      let ord := (a.compare b).getD .eq
      if asc then ord else ord.swap

/-- The direction of a sort key and where it puts NULLs. -/
def OrderByExpr.direction : OrderByExpr → Bool × Bool
  | .mk _ asc nullsFirst =>
      let up := asc.getD true
      (up, nullsFirst.getD (!up))

/-- The order of two rows by their sort keys. -/
def compareKeys : List (Bool × Bool) → List (SqlValue C) → List (SqlValue C) → Ordering
  | (asc, nullsFirst) :: dirs, a :: as, b :: bs =>
      (compareSort a b asc nullsFirst).then (compareKeys dirs as bs)
  | _, _, _ => .eq

def sortByKeys {α : Type} (orderBy : List OrderByExpr) (keyed : List (List (SqlValue C) × α)) :
    List α :=
  (keyed.mergeSort fun a b =>
    compareKeys (orderBy.map OrderByExpr.direction) a.1 b.1 != .gt).map Prod.snd

/-! ### Expressions -/

namespace QueryEnv

variable (env : QueryEnv C)

def compareOp (casts : EvalEnv C) (op : BinaryOperator) (a b : SqlValue C) : SqlValue C :=
  match op with
  | .eq => compareEq casts a b
  | op => env.compareOther op a b

/-- The loop of `eval_in_list` and `eval_in_subquery` over the members. -/
def memberLoop (casts : EvalEnv C) (v : SqlValue C) (negated : Bool) :
    List (Except SqlError (SqlValue C)) → Bool → Except SqlError (SqlValue C)
  | [], sawNull => .ok (if sawNull then .null else .bool negated)
  | item :: items, sawNull => do
      let iv ← item
      if iv.isNull then memberLoop casts v negated items true
      else
        let p := coercePair casts v iv
        if p.1.sqlEq p.2 = some true then return .bool (!negated)
        else memberLoop casts v negated items sawNull

/-- The loop of `eval_any_all` over the elements. -/
def quantifiedLoop (casts : EvalEnv C) (any : Bool) (l : SqlValue C) (op : BinaryOperator) :
    List (SqlValue C) → Bool → SqlValue C
  | [], sawNull => if sawNull then .null else .bool (!any)
  | e :: es, sawNull =>
      if e.isNull then quantifiedLoop casts any l op es true
      else
        match truthy (env.compareOp casts op l e) with
        | some true => if any then .bool true else quantifiedLoop casts any l op es sawNull
        | some false => if any then quantifiedLoop casts any l op es sawNull else .bool false
        | none => quantifiedLoop casts any l op es sawNull

/-- The loop of `eval_case` over conditions and results. -/
def caseLoop (casts : EvalEnv C) (operand : Option (SqlValue C)) :
    List (Except SqlError (SqlValue C) × Except SqlError (SqlValue C)) →
    Except SqlError (SqlValue C) → Except SqlError (SqlValue C)
  | [], otherwise => otherwise
  | (condition, result) :: rest, otherwise => do
      let c ← condition
      let hit : Bool := match operand with
        | some v =>
            let p := coercePair casts v c
            p.1.sqlEq p.2 == some true
        | none => truthy c == some true
      if hit then result else caseLoop casts operand rest otherwise

/-- `eval_between`. -/
def between (casts : EvalEnv C) (v lo hi : SqlValue C) (negated : Bool) : SqlValue C :=
  if v.isNull || lo.isNull || hi.isNull then .null
  else
    let low := coercePair casts v lo
    let high := coercePair casts v hi
    let ge := match low.1.compare low.2 with
      | some .lt => false
      | some _ => true
      | none => false
    let le := match high.1.compare high.2 with
      | some .gt => false
      | some _ => true
      | none => false
    .bool ((ge && le) != negated)

end QueryEnv

def firstColumn (t : Tuple C) : SqlValue C := t.headD .null

section
variable (r : Evaluator C) (x : QueryExec C)

/-- An optional operand. -/
def evalOpt (e : Option SqlExpr) (frames : List (Frame C)) (aggs : Option (Aggs C)) :
    Except SqlError (List (SqlValue C)) :=
  match e with
  | none => .ok []
  | some e => (r.expr e frames aggs).map fun v => [v]

def evalArgs (args : FunctionArguments) (frames : List (Frame C)) (aggs : Option (Aggs C)) :
    Except SqlError (List (SqlValue C)) :=
  match args with
  | .none => .ok []
  | .subquery _ => .ok []
  | .list args => args.mapM fun
      | .expr _ e => r.expr e frames aggs
      | .wildcard => .ok (.int4 1)
      | .other => .error (.featureNotSupported "wildcard function argument not supported")

/-- The tables that some names stand for. -/
def SelectExec.tablesNamed (x : SelectExec C) (names : List TableName) :
    ExtTreeMap QualifiedName (LoadedTable C) :=
  x.tables.filter fun q _ => names.any fun n => x.catalog.resolveTableName n.1 n.2 == some q

/-- The WITH items among some names. -/
def SelectExec.itemsNamed (x : SelectExec C) (names : List TableName) :
    ExtTreeMap String (RowSet C) :=
  x.cte.filter fun name _ => names.contains (none, name)

/-- `call_function`. The WITH items of the caller are in sight in the body, its rows are
not. `init_rls` runs again for every statement of a body; on the same tables it hides the
same rows. Left out are policies that call SQL functions themselves, which come to no end
that way, and policies that name a WITH item of the caller. -/
def callUser (f : UserFunction C) (args : List (SqlValue C)) : Except SqlError (SqlValue C) :=
  if f.returnsTrigger then
    .error (.featureNotSupported "trigger functions can only be called as triggers")
  else if f.strict && args.any SqlValue.isNull then .ok .null
  else
    match f.body with
    | .queries _ bound _ =>
        -- `run_sql_body`: the value is that of the last statement
        (bound args).foldlM (fun _ q => do
          return firstColumn ((← r.query q []).rows.headD [])) .null
    | .other reads run => run (x.tablesNamed reads) (x.itemsNamed reads) args

/-- `call_scalar`. -/
def callScalar (name : String) (args : List (SqlValue C)) : Except SqlError (SqlValue C) :=
  match x.queries.functions.find? fun f => f.name == name && f.arity == args.length with
  | some f => callUser r x f args
  | none => x.queries.call name args

def evalFunction (f : Function) (frames : List (Frame C)) (aggs : Option (Aggs C)) :
    Except SqlError (SqlValue C) :=
  if f.window.isSome then
    match aggs.bind fun m => m[f.text]? with
    | some v => .ok v
    | none => .error (.windowingError "window functions are not allowed here")
  else if isAggregate f.name then
    match aggs with
    | some m =>
        match m[f.text]? with
        | some v => .ok v
        | none => .error (.internal ("aggregate " ++ f.text ++ " not precomputed"))
    | none => .error (.syntaxError ("aggregate function " ++ f.name ++ " is not allowed here"))
  else do callScalar r x f.name (← evalArgs r f.args frames aggs)

/-- The elements on the right of ANY and ALL; none is NULL. -/
def evalElements (right : SqlExpr) (frames : List (Frame C)) (aggs : Option (Aggs C)) :
    Except SqlError (Option (List (SqlValue C))) :=
  match right with
  | .subquery q => (r.query q frames).map fun rs => some (rs.rows.map firstColumn)
  | e => do
      match ← r.expr e frames aggs with
      | .array items => return some items
      | .null => return none
      | v => return some [v]

/-- `eval_inner`. -/
def evalExpr (e : SqlExpr) (frames : List (Frame C)) (aggs : Option (Aggs C)) :
    Except SqlError (SqlValue C) :=
  match e with
  | .ident name => resolveOrSpecial x.env frames none name
  | .compound parts =>
      match parts.reverse with
      | [] => .error (.syntaxError "empty identifier")
      | [column] => resolveOrSpecial x.env frames none column
      | column :: table :: _ => resolveOrSpecial x.env frames (some table) column
  | .literal l => x.queries.literal l
  | .nested e => r.expr e frames aggs
  | .unary op e => do x.queries.unary op (← r.expr e frames aggs)
  | .binary left .and right => do
      let a := truthy (← r.expr left frames aggs)
      if a = some false then return .bool false
      let b := truthy (← r.expr right frames aggs)
      if b = some false then return .bool false
      if a = some true ∧ b = some true then return .bool true
      return .null
  | .binary left .or right => do
      let a := truthy (← r.expr left frames aggs)
      if a = some true then return .bool true
      let b := truthy (← r.expr right frames aggs)
      if b = some true then return .bool true
      if a = some false ∧ b = some false then return .bool false
      return .null
  | .binary left .eq right => do
      let a ← r.expr left frames aggs
      let b ← r.expr right frames aggs
      return compareEq x.env a b
  | .binary left (.other token) right => do
      let a ← r.expr left frames aggs
      let b ← r.expr right frames aggs
      x.queries.operator token a b
  | .isNull negated e => do
      return .bool ((← r.expr e frames aggs).isNull != negated)
  | .isTruth value negated e => do
      return .bool ((truthy (← r.expr e frames aggs) == value) != negated)
  | .isDistinctFrom negated a b => do
      let v ← r.expr a frames aggs
      let w ← r.expr b frames aggs
      return .bool (x.queries.notDistinct v w == negated)
  | .between e negated low high => do
      let v ← r.expr e frames aggs
      let lo ← r.expr low frames aggs
      let hi ← r.expr high frames aggs
      return QueryEnv.between x.env v lo hi negated
  | .inList e list negated => do
      let v ← r.expr e frames aggs
      if v.isNull then return .null
      else QueryEnv.memberLoop x.env v negated (list.map fun e => r.expr e frames aggs) false
  | .inSubquery e q negated => do
      -- aggregates are not in scope on the left of IN (SELECT ..)
      let v ← r.expr e frames none
      if v.isNull then return .null
      else
        let rs ← r.query q frames
        QueryEnv.memberLoop x.env v negated (rs.rows.map fun t => .ok (firstColumn t)) false
  | .like insensitive negated e pattern escape => do
      let v ← r.expr e frames aggs
      let p ← r.expr pattern frames aggs
      if v.isNull || p.isNull then return .null
      else return .bool (x.queries.likeMatch insensitive escape v p != negated)
  | .case operand conditions elseResult => do
      let o ← evalOpt r operand frames aggs
      QueryEnv.caseLoop x.env o.head?
        (conditions.map fun c => (r.expr c.condition frames aggs, r.expr c.result frames aggs))
        ((evalOpt r elseResult frames aggs).map fun v => v.headD .null)
  | .cast e dataType => do x.queries.castTo dataType (← r.expr e frames aggs)
  | .existsSubquery q negated => do
      return .bool (!(← r.query q frames).rows.isEmpty != negated)
  | .subquery q => do
      match (← r.query q frames).rows with
      | [] => return .null
      | [t] => return firstColumn t
      | _ => throw (.internal "more than one row returned by a subquery used as an expression")
  | .quantified any left op right => do
      let l ← r.expr left frames aggs
      if l.isNull then return .null
      else
        match ← evalElements r right frames aggs with
        | none => return .null
        | some elements => return x.queries.quantifiedLoop x.env any l op elements false
  | .function f => evalFunction r x f frames aggs
  | .tuple items => do
      return .array (← items.mapM fun e => r.expr e frames aggs)
  | .array items => do
      return .array (← items.mapM fun e => r.expr e frames aggs)
  | .substring e from? for? => do
      let v ← r.expr e frames aggs
      let f ← evalOpt r from? frames aggs
      let n ← evalOpt r for? frames aggs
      x.queries.call "substring" (v :: f ++ n)
  | .position e inside => do
      let needle ← r.expr e frames aggs
      let hay ← r.expr inside frames aggs
      if needle.isNull || hay.isNull then return .null
      else return x.queries.position needle hay
  | .trim e what => do
      let v ← r.expr e frames aggs
      let w ← evalOpt r what frames aggs
      x.queries.call "btrim" (v :: w)
  | .extract field e => do x.queries.extract field (← r.expr e frames aggs)
  | .collate e => r.expr e frames aggs
  | .prefixed e => r.expr e frames aggs
  | .unsupported text => .error (.featureNotSupported ("expression not supported: " ++ text))

/-! ### FROM -/

/-- The rows of a loaded table that are in sight. -/
def QueryExec.tableScan (ref : TableRef) : Option (RowSet C) :=
  (x.baseTable ref).map fun p => (x.loadedToRowset ref p.1 p.2).toRowSet

/-- The view of a WHERE clause that the index scan has. -/
def SqlExpr.scanned : SqlExpr → Expr C
  | .ident name => .ident name
  | .compound parts => .compound parts
  | .nested e => .nested e.scanned
  | .binary left .and right => .and left.scanned right.scanned
  | .binary left .eq right => .eq left.scanned right.scanned
  | e => .other fun _ frames => r.expr e frames none

/-- `try_index_scan`. -/
def indexScan (s : SelectBlock) (outer : List (Frame C)) : Option (RowSet C) :=
  match s.sources, s.selection with
  | [.mk (.table ref) []], some selection =>
      (x.tryIndexScan ⟨ref, some (selection.scanned r)⟩ outer).map Candidates.toRowSet
  | _, _ => none

def execTableFunction (name : String) (args : List FunctionArg) (as? : TableAlias)
    (outer : List (Frame C)) : Except SqlError (RowSet C) :=
  if ["generate_series", "unnest", "jsonb_array_elements", "json_array_elements"].contains name then
    .error (.featureNotSupported ("set-returning function " ++ name ++ " is not supported"))
  else do
    let values ← (args.filterMap FunctionArg.expr?).mapM fun e => r.expr e outer none
    let v ← callScalar r x name values
    return ⟨[⟨some (as?.name.getD name), as?.columns.headD name⟩], [[v]]⟩

def execView (ref : TableRef) (view : QualifiedName) (outer : List (Frame C)) :
    Except SqlError (RowSet C) := do
  let q ← x.queries.viewQuery view
  let rs ← r.query q outer
  return rs.relabel ref.aliasName ref.columnAliases

/-- `exec_table_factor`. -/
def execFactor (tf : TableFactor) (outer : List (Frame C)) : Except SqlError (RowSet C) :=
  match tf with
  | .function _ _ name args as? => execTableFunction r x name args as? outer
  | .table ref =>
      match if ref.schema.isNone then x.cte[ref.name]? else none with
      | some rs => .ok (rs.relabel ref.aliasName ref.columnAliases)
      | none =>
          if ref.name = "pg_locks" ∧ (ref.schema = some "pg_catalog" ∨ ref.schema = none) then
            .ok (x.pgLocks.relabel ref.aliasName ref.columnAliases)
          else
            match x.tableScan ref with
            | some rs => .ok (rs.relabel ref.aliasName ref.columnAliases)
            | none =>
                match (x.catalog.resolveTableName ref.schema ref.name).filter
                    fun q => x.catalog.views.contains q with
                | some view => execView r x ref view outer
                | none => do
                    match ← x.queries.catalogView ref.schema ref.name with
                    | some rs => return rs.relabel ref.aliasName ref.columnAliases
                    | none => throw (.undefinedTable
                        (match ref.schema with
                        | some s => s ++ "." ++ ref.name
                        | none => ref.name))
  | .derived q as? => do
      let rs ← r.query q outer
      return rs.relabel (as?.name.getD "subquery") as?.columns
  | .unsupported text =>
      .error (.featureNotSupported ("table factor not supported: " ++ text))

def usingMatches (left right : RowSchema) (combined : Tuple C) :
    List String → Except SqlError Bool
  | [] => .ok true
  | column :: columns => do
      let i ← left.resolve none column
      let j ← right.resolve none column
      let a := combined[i]?.getD .null
      let b := combined[left.length + j]?.getD .null
      if a.sqlEq b = some true then usingMatches left right combined columns else return false

def joinMatches (constraint : JoinConstraint) (left right : RowSchema) (outer : List (Frame C))
    (combined : Tuple C) : Except SqlError Bool :=
  match constraint with
  | .none => .ok true
  | .on e => do
      let v ← r.expr e (outer ++ [⟨left ++ right, combined⟩]) none
      return truthy v = some true
  | .usingColumns columns => usingMatches left right combined columns
  | .natural =>
      usingMatches left right combined
        ((left.filter fun f => right.any fun g => g.name == f.name).map FieldRef.name)

/-- A join keeps the rows of this side that match nothing. -/
def JoinKeyword.keepsLeft : JoinKeyword → Bool
  | .left => true
  | .leftOuter => true
  | .fullOuter => true
  | _ => false

def JoinKeyword.keepsRight : JoinKeyword → Bool
  | .right => true
  | .rightOuter => true
  | .fullOuter => true
  | _ => false

section
variable (hit : Tuple C → Except SqlError Bool)

/-- The loop over the right rows for one left row: whether one has matched, the rows so
far, and which right rows have matched a left row. -/
def joinRow (right : List (Tuple C)) (l : Tuple C) (acc : List (Tuple C) × List Bool) :
    Except SqlError (Bool × List (Tuple C) × List Bool) :=
  right.zipIdx.foldlM (fun s t => do
    if ← hit (l ++ t.1) then return (true, s.2.1 ++ [l ++ t.1], s.2.2.set t.2 true)
    else return s) (false, acc)

/-- One left row. -/
def joinLeft (keyword : JoinKeyword) (right : RowSet C) (acc : List (Tuple C) × List Bool)
    (l : Tuple C) : Except SqlError (List (Tuple C) × List Bool) := do
  let (any, rows, matched) ← joinRow hit right.rows l acc
  if !any && keyword.keepsLeft then
    return (rows ++ [l ++ List.replicate right.schema.length .null], matched)
  else return (rows, matched)

/-- The rows of a join. -/
def joinRows (keyword : JoinKeyword) (left right : RowSet C) : Except SqlError (List (Tuple C)) := do
  let (rows, matched) ← left.rows.foldlM (joinLeft hit keyword right)
    ([], List.replicate right.rows.length false)
  if keyword.keepsRight then
    return rows ++ (right.rows.zip matched).filterMap fun t =>
      if t.2 then none else some (List.replicate left.schema.length .null ++ t.1)
  else return rows

end

def execJoin (left : RowSet C) (join : Join) (outer : List (Frame C)) :
    Except SqlError (RowSet C) :=
  match join with
  | .mk relation op => do
      let right ← execFactor r x relation outer
      match op with
      | .cross => return left.crossJoin right
      | .unsupported text => throw (.featureNotSupported ("join type not supported: " ++ text))
      | .conditional keyword constraint =>
          let rows ← joinRows (joinMatches r constraint left.schema right.schema outer) keyword
            left right
          return ⟨left.schema ++ right.schema, rows⟩

def execSource (s : TableWithJoins) (outer : List (Frame C)) : Except SqlError (RowSet C) :=
  match s with
  | .mk relation joins => do
      let rs ← execFactor r x relation outer
      joins.foldlM (fun acc join => execJoin r x acc join outer) rs

def execFrom (sources : List TableWithJoins) (outer : List (Frame C)) :
    Except SqlError (RowSet C) :=
  match sources with
  | [] => .ok ⟨[], [[]]⟩
  | s :: rest => do
      let rs ← execSource r x s outer
      rest.foldlM (fun acc s => do return acc.crossJoin (← execSource r x s outer)) rs

/-! ### WHERE, projection and ORDER BY -/

/-- `apply_where`. -/
def filterRows (rs : RowSet C) (selection : Option SqlExpr) (outer : List (Frame C)) :
    Except SqlError (RowSet C) :=
  match selection with
  | none => .ok rs
  | some e => do
      let rows ← rs.rows.filterM fun t => do
        return truthy (← r.expr e (outer ++ [⟨rs.schema, t⟩]) none) = some true
      return ⟨rs.schema, rows⟩

def projectionColumns (s : SelectBlock) (input : RowSchema) : RowSchema :=
  s.projection.flatMap fun
    | .wildcard => input.map fun f => ⟨none, f.name⟩
    | .qualifiedWildcard table =>
        (input.filter fun f => f.table == some table).map fun f => ⟨none, f.name⟩
    | .expr e as? => [⟨none, as?.getD e.defaultColName⟩]
    | .exprWithAliases e aliases => [⟨none, aliases.headD e.defaultColName⟩]

def projectRow (s : SelectBlock) (input : RowSchema) (outer : List (Frame C)) (row : Tuple C)
    (win : Option (Aggs C)) : Except SqlError (Tuple C) := do
  let parts ← s.projection.mapM fun
    | .wildcard => .ok row
    | .qualifiedWildcard table =>
        .ok ((input.zip row).filterMap fun p => if p.1.table == some table then some p.2 else none)
    | .expr e _ => (r.expr e (outer ++ [⟨input, row⟩]) win).map fun v => [v]
    | .exprWithAliases e _ => (r.expr e (outer ++ [⟨input, row⟩]) win).map fun v => [v]
  return parts.flatten

def unnestColumn (e : SqlExpr) (frames : List (Frame C)) (win : Option (Aggs C)) :
    Except SqlError (SqlValue C ⊕ List (SqlValue C)) :=
  match e.unnestArg with
  | some arg => do
      match ← r.expr arg frames win with
      | .array items => return .inr items
      | .null => return .inr []
      | v => return .inr [v]
  | none => (r.expr e frames win).map .inl

def projectRowUnnest (s : SelectBlock) (frames : List (Frame C)) (win : Option (Aggs C)) :
    Except SqlError (List (Tuple C)) := do
  let columns ← s.projection.mapM fun item =>
    match item.expr? with
    | some e => unnestColumn r e frames win
    | none => .error (.featureNotSupported "wildcard with UNNEST is not supported")
  let height := (columns.map fun
    | .inl _ => 0
    | .inr items => items.length).foldl max 0
  return (List.range height).map fun i => columns.map fun
    | .inl v => v
    | .inr items => items[i]?.getD .null

/-- The operands of a window call: its arguments, its filter and what it partitions
and orders by. -/
def windowOperands : Function → List SqlExpr
  | .mk _ _ _ args _ filter window =>
      args.exprs ++ filter.toList ++ match window with
      | some (.mk partitionBy orderBy _) => partitionBy ++ orderBy.map OrderByExpr.expr
      | none => []

def windowOffsets : Function → List SqlExpr
  | .mk _ _ _ _ _ _ (some (.mk _ _ offsets)) => offsets
  | .mk _ _ _ _ _ _ none => []

/-- `compute_window_call`. -/
def windowCall (f : Function) (schema : RowSchema) (rows : List (Tuple C))
    (aggs : Option (List (Aggs C))) (outer : List (Frame C)) :
    Except SqlError (List (SqlValue C)) :=
  x.queries.window f
    (fun i j =>
      match (windowOperands f)[i]?, rows[j]? with
      | some e, some row => r.expr e (outer ++ [⟨schema, row⟩]) (aggs.bind fun l => l[j]?)
      | _, _ => .error (.internal "no such operand"))
    (fun i =>
      match (windowOffsets f)[i]? with
      | some e => r.expr e outer none
      | none => .error (.internal "no such offset"))
    rows.length

/-- `compute_window_maps`. -/
def windowMaps (calls : List Function) (schema : RowSchema) (rows : List (Tuple C))
    (aggs : Option (List (Aggs C))) (outer : List (Frame C)) :
    Except SqlError (Option (List (Aggs C))) :=
  if calls.isEmpty then .ok none
  else
    (calls.foldlM (fun (maps : List (Aggs C)) f => do
      let values ← windowCall r x f schema rows aggs outer
      return (maps.zip values).map fun (p : Aggs C × SqlValue C) => p.1.insert f.text p.2)
      (rows.map fun _ => ∅)).map some

/-- A position in the output row, if the ORDER BY key is one. -/
def outputPosition (e : SqlExpr) (row : Tuple C) : Option (SqlValue C) :=
  match e with
  | .literal (.number text) => text.toNat?.bind fun n => if n = 0 then none else row[n - 1]?
  | _ => none

/-- An output column, if the ORDER BY key names one. -/
def outputColumn (e : SqlExpr) (schema : RowSchema) (row : Tuple C) : Option (SqlValue C) :=
  match e with
  | .ident name => (schema.findIdx? fun f => f.name == name).bind fun i => row[i]?
  | _ => none

/-- `order_key_paired` and `eval_order_key`: a position or a name of the output, or
an expression in the given frames. -/
def orderKey (e : SqlExpr) (schema : RowSchema) (row : Tuple C) (frames : List (Frame C))
    (aggs : Option (Aggs C)) : Except SqlError (SqlValue C) :=
  match (outputPosition e row).or (outputColumn e schema row) with
  | some v => .ok v
  | none => r.expr e frames aggs

def orderKeys (orderBy : List OrderByExpr) (schema : RowSchema) (row : Tuple C)
    (frames : List (Frame C)) (aggs : Option (Aggs C)) : Except SqlError (List (SqlValue C)) :=
  orderBy.mapM fun o => orderKey r o.expr schema row frames aggs

def projectOutput (s : SelectBlock) (input : RowSchema) (outer : List (Frame C))
    (row : Tuple C) (win : Option (Aggs C)) : Except SqlError (List (Tuple C)) :=
  if s.itemExprs.any fun e => e.unnestArg.isSome then
    projectRowUnnest r s (outer ++ [⟨input, row⟩]) win
  else (projectRow r s input outer row win).map fun t => [t]

/-- `exec_projection_ordered`. -/
def execProjection (s : SelectBlock) (input : RowSet C) (outer : List (Frame C))
    (orderBy : List OrderByExpr) : Except SqlError (RowSet C) := do
  let schema := projectionColumns s input.schema
  let wins ← windowMaps r x (s.windowCalls orderBy) input.schema input.rows none outer
  let winAt := fun i => wins.bind fun (l : List (Aggs C)) => l[i]?
  let paired ← input.rows.zipIdx.mapM fun p => do
    let outs ← projectOutput r s input.schema outer p.1 (winAt p.2)
    return outs.map fun out => (p, out)
  let keyed ← paired.flatten.mapM fun p => do
    let keys ← orderKeys r orderBy schema p.2 (outer ++ [⟨input.schema, p.1.1⟩]) (winAt p.1.2)
    return (keys, p.2)
  let rows := sortByKeys orderBy keyed
  return ⟨schema, if s.distinct then dedupe rows else rows⟩

/-! ### Grouping -/

/-- The groups of rows with one key, in the order of their first rows. -/
def groupRows (keyed : List (List (List Char) × Tuple C)) : List (List (Tuple C)) :=
  (dedupeBy Prod.fst keyed).map fun k => (keyed.filter fun p => p.1 == k.1).map Prod.snd

/-- `aggregate_arg`: the argument, or that the call is over `*`. -/
def aggregateArg (args : FunctionArguments) : Except SqlError (Option SqlExpr × Bool) :=
  match args with
  | .none => .ok (none, true)
  | .subquery _ => .error (.featureNotSupported "aggregate over subquery argument")
  | .list [] => .ok (none, false)
  | .list (.wildcard :: _) => .ok (none, true)
  | .list (.expr false e :: _) => .ok (some e, false)
  | .list (_ :: _) => .error (.featureNotSupported "aggregate argument")

def aggregateSecondArg (args : FunctionArguments) : Option SqlExpr :=
  match args with
  | .list (_ :: .expr false e :: _) => some e
  | _ => none

/-- What a row adds to an aggregate: nothing, a count or a value. -/
def aggregateRow (filter arg : Option SqlExpr) (star : Bool) (frames : List (Frame C)) :
    Except SqlError (Option (Option (SqlValue C))) := do
  let passed ← evalOpt r filter frames none
  if passed.any fun v => truthy v != some true then return none
  else if star then return some none
  else
    match ← evalOpt r arg frames none with
    | v :: _ => return some (some v)
    | [] => throw (.internal "aggregate without an argument")

def evalAggregate (f : Function) (rows : List (Tuple C)) (schema : RowSchema)
    (outer : List (Frame C)) : Except SqlError (SqlValue C) := do
  let (arg, star) ← aggregateArg f.args
  let counted ← rows.mapM fun row => aggregateRow r f.filter arg star (outer ++ [⟨schema, row⟩])
  let values := counted.reduceOption.reduceOption.filter fun v => !v.isNull
  let values := if f.distinct then dedupeBy SqlValue.indexKey values else values
  let separator := match evalOpt r (aggregateSecondArg f.args) [] none with
    | .ok (v :: _) => some v
    | _ => none
  x.queries.foldAggregate f.base separator star values counted.reduceOption.length

/-- The first row of a group, which stands for it. -/
def representative (schema : RowSchema) (rows : List (Tuple C)) : Tuple C :=
  rows.headD (List.replicate schema.length .null)

/-- A group after HAVING: the row that stands for it and its aggregates. -/
def groupResult (s : SelectBlock) (schema : RowSchema) (outer : List (Frame C))
    (rows : List (Tuple C)) : Except SqlError (Option (Tuple C × Aggs C)) := do
  let aggs ← s.aggregates.foldlM (fun (m : Aggs C) f => do
    return m.insert f.text (← evalAggregate r x f rows schema outer)) ∅
  let rep := representative schema rows
  match s.having with
  | none => return some (rep, aggs)
  | some e =>
      let v ← r.expr e (outer ++ [⟨schema, rep⟩]) (some aggs)
      return if truthy v = some true then some (rep, aggs) else none

/-- The output row of a group. -/
def projectGroup (s : SelectBlock) (frames : List (Frame C)) (aggs : Aggs C) :
    Except SqlError (Tuple C) :=
  s.projection.mapM fun item =>
    match item.expr? with
    | some e => r.expr e frames (some aggs)
    | none => .error (.syntaxError "cannot use * in an aggregate query without GROUP BY columns")

def execGrouped (s : SelectBlock) (input : RowSet C) (outer : List (Frame C))
    (orderBy : List OrderByExpr) : Except SqlError (RowSet C) := do
  let keyed ← input.rows.mapM fun row => do
    let key ← s.groupBy.mapM fun e => r.expr e (outer ++ [⟨input.schema, row⟩]) none
    return (key.map SqlValue.indexKey, row)
  let groups := groupRows keyed
  -- aggregates over no rows still give one group
  let groups := if s.groupBy.isEmpty && groups.isEmpty then [[]] else groups
  if s.projection.any fun i => i.expr?.isNone then
    throw (.syntaxError "cannot use * in an aggregate query")
  let schema := projectionColumns s input.schema
  let survivors ← groups.mapM (groupResult r x s input.schema outer)
  let survivors := survivors.reduceOption
  let wins ← windowMaps r x (s.windowCalls orderBy) input.schema (survivors.map Prod.fst)
    (some (survivors.map Prod.snd)) outer
  let keyed ← survivors.zipIdx.mapM fun p => do
    let win := (wins.bind fun (l : List (Aggs C)) => l[p.2]?).getD ∅
    let aggs := win.toList.foldl (fun (m : Aggs C) kv => m.insert kv.1 kv.2) p.1.2
    let frames := outer ++ [⟨input.schema, p.1.1⟩]
    let row ← projectGroup r s frames aggs
    let keys ← orderKeys r orderBy schema row frames (some aggs)
    return (keys, row)
  let rows := sortByKeys orderBy keyed
  return ⟨schema, if s.distinct then dedupe rows else rows⟩

/-! ### SELECT blocks and queries -/

/-- Window calls stand in the SELECT list and in ORDER BY only. -/
def checkWindows (s : SelectBlock) : Except SqlError Unit := do
  if s.selection.any SqlExpr.hasWindow then
    throw (.windowingError "window functions are not allowed in WHERE")
  if s.groupBy.any SqlExpr.hasWindow then
    throw (.windowingError "window functions are not allowed in GROUP BY")
  if s.having.any SqlExpr.hasWindow then
    throw (.windowingError "window functions are not allowed in HAVING")

def execSelect (s : SelectBlock) (outer : List (Frame C)) (orderBy : List OrderByExpr) :
    Except SqlError (RowSet C) := do
  checkWindows s
  let input ← match indexScan r x s outer with
    | some rs => pure rs
    | none => execFrom r x s.sources outer
  let filtered ← filterRows r input s.selection outer
  if !s.groupBy.isEmpty || s.hasAggregate then execGrouped r x s filtered outer orderBy
  else execProjection r x s filtered outer orderBy

def execValues (rows : List ValuesRow) (outer : List (Frame C)) : Except SqlError (RowSet C) := do
  let tuples ← rows.mapM fun
    | .mk content => content.mapM fun e => r.expr e outer none
  let width := (tuples.map List.length).foldl max 0
  return ⟨(List.range width).map fun i => ⟨none, "column" ++ toString (i + 1)⟩, tuples⟩

def execSetExpr (outer : List (Frame C)) : SetExpr → Except SqlError (RowSet C)
  | .select s => execSelect r x s outer []
  | .query q => r.query q outer
  | .values rows => execValues r rows outer
  | .setOperation op all left right => do
      let a ← execSetExpr outer left
      let b ← execSetExpr outer right
      return applySetOp a b op all
  | .unsupported text =>
      .error (.featureNotSupported ("set expression not supported: " ++ text))

def applyOrderBy (rs : RowSet C) (orderBy : List OrderByExpr) (outer : List (Frame C)) :
    Except SqlError (RowSet C) := do
  let keyed ← rs.rows.mapM fun row => do
    let keys ← orderKeys r orderBy rs.schema row (outer ++ [⟨rs.schema, row⟩]) none
    return (keys, row)
  return ⟨rs.schema, sortByKeys orderBy keyed⟩

/-- The number a LIMIT or OFFSET gives. -/
def rowCount (v : SqlValue C) : Nat := ((v.asI64.map Int64.toInt).getD 0).toNat

def applyLimit (rs : RowSet C) (limit offset : Option SqlExpr) (outer : List (Frame C)) :
    Except SqlError (RowSet C) := do
  let off ← evalOpt r offset outer none
  let rows := rs.rows.drop ((off.map rowCount).headD 0)
  let lim ← evalOpt r limit outer none
  return ⟨rs.schema, match lim with
    | [] => rows
    | v :: _ => rows.take (rowCount v)⟩

/-- WITH stands at the top of a statement, where it has been materialized. -/
def checkWith (ctes : List Cte) : Except SqlError Unit :=
  ctes.forM fun
    | .mk name _ _ =>
        if x.cte.contains name then .ok ()
        else .error (.featureNotSupported
          "WITH inside a subquery is not supported (use a top-level WITH)")

/-- `exec_select_query`. -/
def execQuery (q : Query) (outer : List (Frame C)) : Except SqlError (RowSet C) := do
  checkWith x q.ctes
  let rs ← match q.body with
    | .select s => execSelect r x s outer q.orderBy
    | body => do
        let rs ← execSetExpr r x outer body
        applyOrderBy r rs q.orderBy outer
  applyLimit r rs q.limit q.offset outer

end

/-- Evaluation of expressions and queries up to a nesting depth. -/
def evaluator (x : QueryExec C) : Nat → Evaluator C
  | 0 => ⟨fun _ _ _ => .error (.statementTooComplex "stack depth limit exceeded"),
      fun _ _ => .error (.statementTooComplex "stack depth limit exceeded")⟩
  | depth + 1 =>
      ⟨evalExpr (evaluator x depth) x, execQuery (evaluator x depth) x⟩

/-! ### WITH -/

/-- A context with the rows of a WITH item. -/
def QueryExec.withCte (x : QueryExec C) (name : String) (rs : RowSet C) : QueryExec C :=
  { x with cte := x.cte.insert name rs }

def labelCte (rs : RowSet C) (name : String) (columns : List String) :
    Except SqlError (RowSet C) :=
  if !columns.isEmpty && columns.length > rs.schema.length then
    .error (.syntaxError ("table \"" ++ name ++ "\" has " ++ toString rs.schema.length ++
      " columns available but " ++ toString columns.length ++ " columns specified"))
  else .ok (rs.relabel name columns)

def coerceRecursiveRow (casts : EvalEnv C) (types : List SqlType) (name : String) (row : Tuple C) :
    Except SqlError (Tuple C) :=
  if row.length ≠ types.length then
    .error (.syntaxError ("recursive query \"" ++ name ++
      "\": each UNION query must have the same number of columns"))
  else
    (row.zip types).mapM fun p =>
      if p.1.isNull || p.1.typeOf = p.2 then .ok p.1
      else (Relational.cast casts.castOther p.1 p.2).mapError .relational

/-- The rows of a round that are new. -/
def absorb (unionAll : Bool) (acc rows : List (Tuple C)) : List (Tuple C) :=
  if unionAll then rows
  else dedupe (rows.filter fun t => !(acc.map tupleKey).contains (tupleKey t))

/-- The loop of `exec_recursive_cte`: the recursive term sees the rows of the round
before. -/
def recursiveLoop (x : QueryExec C) (depth : Nat) (name : String) (schema : RowSchema)
    (types : List SqlType) (unionAll : Bool) (term : SetExpr) :
    Nat → List (Tuple C) → List (Tuple C) → Except SqlError (List (Tuple C))
  | _, acc, [] => .ok acc
  | 0, _, _ :: _ => .error (.statementTooComplex ("recursive query \"" ++ name ++ "\" exceeded " ++
      toString x.queries.maxIterations ++
      " iterations (set guardian.recursive_max_iterations to raise the limit)"))
  | rounds + 1, acc, t :: working => do
      let y := x.withCte name ⟨schema, t :: working⟩
      let out ← execSetExpr (evaluator y depth) y [] term
      let rows ← out.rows.mapM (coerceRecursiveRow x.env types name)
      let fresh := absorb unionAll acc rows
      let acc' := acc ++ fresh
      if acc'.length > 10000000 then
        throw (.statementTooComplex ("recursive query \"" ++ name ++
          "\" produced more than 10000000 rows"))
      else recursiveLoop x depth name schema types unionAll term rounds acc' fresh

def checkRecursive (q : Query) : Except SqlError Unit :=
  if !q.orderBy.isEmpty then
    .error (.featureNotSupported "ORDER BY in a recursive query is not implemented")
  else if q.limit.isSome || q.offset.isSome then
    .error (.featureNotSupported "LIMIT/OFFSET in a recursive query is not implemented")
  else .ok ()

def execRecursiveCte (x : QueryExec C) (depth : Nat) (name : String) (columns : List String)
    (q : Query) : Except SqlError (RowSet C) := do
  checkRecursive q
  match q.body with
  | .setOperation .union all left right =>
      x.queries.recursiveTerms left right name
      let base ← execSetExpr (evaluator x depth) x [] left
      let labelled : RowSet C ← labelCte { base with rows := [] } name columns
      let types := x.queries.recursiveTypes left base
      let rows ← base.rows.mapM (coerceRecursiveRow x.env types name)
      let fresh := absorb all [] rows
      let out ← recursiveLoop x depth name labelled.schema types all right
        x.queries.maxIterations fresh fresh
      return ⟨labelled.schema, out⟩
  | _ => throw (.invalidRecursion ("recursive query \"" ++ name ++
      "\" does not have the form non-recursive-term UNION [ALL] recursive-term"))

/-- A WITH item that refers to a later one. -/
def laterReference (env : QueryEnv C) (name : String) (q : Query) (later : List Cte) :
    Option String :=
  (later.map fun
    | .mk n _ _ => n).find? fun n => n != name && env.references q n

def execCte (x : QueryExec C) (depth : Nat) (recursive : Bool) (name : String)
    (columns : List String) (q : Query) : Except SqlError (RowSet C) := do
  let rs ← if recursive && x.queries.references q name then
      execRecursiveCte x depth name columns q
    else (evaluator x depth).query q []
  labelCte rs name columns

def materializeWith (depth : Nat) (recursive : Bool) :
    List Cte → QueryExec C → Except SqlError (QueryExec C)
  | [], x => .ok x
  | .mk name columns q :: rest, x =>
      match if recursive then laterReference x.queries name q rest else none with
      | some later => .error (.featureNotSupported ("mutual recursion between WITH items \"" ++
          name ++ "\" and \"" ++ later ++ "\" is not implemented"))
      | none => do
          let rs ← execCte x depth recursive name columns q
          materializeWith depth recursive rest (x.withCte name rs)

/-- A SELECT statement without a lock clause. -/
def runQuery (x : QueryExec C) (depth : Nat) (q : Query) : Except SqlError (RowSet C) := do
  let y ← materializeWith depth q.recursive q.ctes x
  (evaluator y depth).query q []

end

end GuardianDb.Sql
