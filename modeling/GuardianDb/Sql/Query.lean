/-
Queries as the parser gives them (the part of `sqlparser::ast` that the executor
looks at), and the names in them.

The AST keeps the distinctions that the executor makes. Identifiers are case-folded, a
window name stands for its definition, and a function call carries its SQL text, under
which aggregate and window results are looked up.

  * `Query.names` — the relations and functions that a query names.
-/
import Mathlib.Data.List.Induction
import GuardianDb.Sql.Scan

namespace GuardianDb.Sql

open List

/-! ### Syntax -/

/-- `BinaryOperator`, with the token of an operator that is not looked into. -/
inductive BinaryOperator where
  | and
  | or
  | eq
  | other (token : String)
  deriving DecidableEq, Repr

/-- A literal or a placeholder. ORDER BY reads a number as an output position. -/
inductive Literal where
  | number (text : String)
  | other (text : String)
  deriving DecidableEq, Repr

/-- `SetOperator`; MINUS is EXCEPT. -/
inductive SetOperator where
  | union
  | except
  | intersect
  deriving DecidableEq, Repr

inductive JoinKeyword where
  | join
  | inner
  | left
  | leftOuter
  | right
  | rightOuter
  | fullOuter
  deriving DecidableEq, Repr

structure TableAlias where
  name : Option String
  columns : List String
  deriving DecidableEq, Repr

mutual

/-- `Expr`. -/
inductive SqlExpr where
  | ident (name : String)
  | compound (parts : List String)
  | literal (l : Literal)
  | nested (e : SqlExpr)
  | unary (op : String) (e : SqlExpr)
  | binary (left : SqlExpr) (op : BinaryOperator) (right : SqlExpr)
  | isNull (negated : Bool) (e : SqlExpr)
  /-- IS [NOT] TRUE, FALSE or UNKNOWN. -/
  | isTruth (value : Option Bool) (negated : Bool) (e : SqlExpr)
  | isDistinctFrom (negated : Bool) (a b : SqlExpr)
  | between (e : SqlExpr) (negated : Bool) (low high : SqlExpr)
  | inList (e : SqlExpr) (list : List SqlExpr) (negated : Bool)
  | inSubquery (e : SqlExpr) (subquery : Query) (negated : Bool)
  /-- LIKE and ILIKE. -/
  | like (insensitive negated : Bool) (e pattern : SqlExpr) (escape : Option String)
  | case (operand : Option SqlExpr) (conditions : List CaseWhen) (elseResult : Option SqlExpr)
  | cast (e : SqlExpr) (dataType : String)
  | existsSubquery (subquery : Query) (negated : Bool)
  | subquery (q : Query)
  /-- ANY and ALL. -/
  | quantified (any : Bool) (left : SqlExpr) (op : BinaryOperator) (right : SqlExpr)
  | function (f : Function)
  | tuple (items : List SqlExpr)
  | array (items : List SqlExpr)
  | substring (e : SqlExpr) (from? for? : Option SqlExpr)
  | position (e inside : SqlExpr)
  | trim (e : SqlExpr) (what : Option SqlExpr)
  | extract (field : String) (e : SqlExpr)
  | collate (e : SqlExpr)
  | prefixed (e : SqlExpr)
  | unsupported (text : String)

inductive CaseWhen where
  | mk (condition result : SqlExpr)

/-- `Function`, with the name it is dispatched on, the last part of its name and its
SQL text. -/
inductive Function where
  | mk (name base text : String) (args : FunctionArguments) (distinct : Bool) (filter : Option SqlExpr)
      (window : Option WindowSpec)

inductive FunctionArguments where
  | none
  | subquery (q : Query)
  | list (args : List FunctionArg)

inductive FunctionArg where
  | expr (named : Bool) (e : SqlExpr)
  | wildcard
  | other

/-- PARTITION BY, ORDER BY and the offsets of the frame. -/
inductive WindowSpec where
  | mk (partitionBy : List SqlExpr) (orderBy : List OrderByExpr) (offsets : List SqlExpr)

inductive OrderByExpr where
  | mk (e : SqlExpr) (asc nullsFirst : Option Bool)

inductive SelectItem where
  | wildcard
  | qualifiedWildcard (table : String)
  | expr (e : SqlExpr) (as? : Option String)
  | exprWithAliases (e : SqlExpr) (aliases : List String)

inductive JoinConstraint where
  | on (e : SqlExpr)
  | usingColumns (columns : List String)
  | natural
  | none

inductive JoinOperator where
  | conditional (keyword : JoinKeyword) (constraint : JoinConstraint)
  | cross
  | unsupported (text : String)

inductive TableFactor where
  | table (r : TableRef)
  /-- A function in the place of a table, `call` if it is written like a table name
  with arguments. -/
  | function (call : Bool) (schema : Option String) (name : String) (args : List FunctionArg)
      (as? : TableAlias)
  | derived (subquery : Query) (as? : TableAlias)
  | unsupported (text : String)

inductive Join where
  | mk (relation : TableFactor) (op : JoinOperator)

inductive TableWithJoins where
  | mk (relation : TableFactor) (joins : List Join)

/-- `Select`. -/
inductive SelectBlock where
  | mk (distinct : Bool) (projection : List SelectItem) (sources : List TableWithJoins)
      (selection : Option SqlExpr) (groupBy : List SqlExpr) (having : Option SqlExpr)

inductive ValuesRow where
  | mk (content : List SqlExpr)

inductive SetExpr where
  | select (s : SelectBlock)
  | query (q : Query)
  | values (rows : List ValuesRow)
  | setOperation (op : SetOperator) (all : Bool) (left right : SetExpr)
  | unsupported (text : String)

inductive Cte where
  | mk (name : String) (columns : List String) (query : Query)

/-- `Query`: WITH, the body, ORDER BY, LIMIT and OFFSET. -/
inductive Query where
  | mk (recursive : Bool) (ctes : List Cte) (body : SetExpr) (orderBy : List OrderByExpr)
      (limit offset : Option SqlExpr)

end

namespace Function

def name : Function → String
  | .mk n _ _ _ _ _ _ => n

def base : Function → String
  | .mk _ b _ _ _ _ _ => b

def text : Function → String
  | .mk _ _ t _ _ _ _ => t

def args : Function → FunctionArguments
  | .mk _ _ _ a _ _ _ => a

def distinct : Function → Bool
  | .mk _ _ _ _ d _ _ => d

def filter : Function → Option SqlExpr
  | .mk _ _ _ _ _ f _ => f

def window : Function → Option WindowSpec
  | .mk _ _ _ _ _ _ o => o

end Function

namespace SelectBlock

def distinct : SelectBlock → Bool
  | .mk d _ _ _ _ _ => d

def projection : SelectBlock → List SelectItem
  | .mk _ p _ _ _ _ => p

def sources : SelectBlock → List TableWithJoins
  | .mk _ _ f _ _ _ => f

def selection : SelectBlock → Option SqlExpr
  | .mk _ _ _ w _ _ => w

def groupBy : SelectBlock → List SqlExpr
  | .mk _ _ _ _ g _ => g

def having : SelectBlock → Option SqlExpr
  | .mk _ _ _ _ _ h => h

end SelectBlock

namespace Query

def recursive : Query → Bool
  | .mk r _ _ _ _ _ => r

def ctes : Query → List Cte
  | .mk _ c _ _ _ _ => c

def body : Query → SetExpr
  | .mk _ _ b _ _ _ => b

def orderBy : Query → List OrderByExpr
  | .mk _ _ _ o _ _ => o

def limit : Query → Option SqlExpr
  | .mk _ _ _ _ l _ => l

def offset : Query → Option SqlExpr
  | .mk _ _ _ _ _ o => o

end Query

def OrderByExpr.expr : OrderByExpr → SqlExpr
  | .mk e _ _ => e

def CaseWhen.condition : CaseWhen → SqlExpr
  | .mk c _ => c

def CaseWhen.result : CaseWhen → SqlExpr
  | .mk _ r => r

/-! ### Function calls in an expression -/

mutual

/-- The function calls that `walk_expr` visits; it does not go into subqueries. -/
def SqlExpr.calls : SqlExpr → List Function
  | .nested e => e.calls
  | .unary _ e => e.calls
  | .binary left _ right => left.calls ++ right.calls
  | .isNull _ e => e.calls
  | .isTruth _ _ e => e.calls
  | .isDistinctFrom _ a b => a.calls ++ b.calls
  | .between e _ low high => e.calls ++ (low.calls ++ high.calls)
  | .inList e list _ => e.calls ++ exprsCalls list
  | .inSubquery e _ _ => e.calls
  | .like _ _ e pattern _ => e.calls ++ pattern.calls
  | .case operand conditions elseResult =>
      optCalls operand ++ (whensCalls conditions ++ optCalls elseResult)
  | .cast e _ => e.calls
  | .function f => f :: f.argCalls
  | .collate e => e.calls
  | _ => []

def exprsCalls : List SqlExpr → List Function
  | [] => []
  | e :: es => e.calls ++ exprsCalls es

def optCalls : Option SqlExpr → List Function
  | none => []
  | some e => e.calls

def CaseWhen.calls : CaseWhen → List Function
  | .mk condition result => condition.calls ++ result.calls

def whensCalls : List CaseWhen → List Function
  | [] => []
  | c :: cs => c.calls ++ whensCalls cs

def Function.argCalls : Function → List Function
  | .mk _ _ _ args _ _ _ => args.calls

def FunctionArguments.calls : FunctionArguments → List Function
  | .none => []
  | .subquery _ => []
  | .list args => argsCalls args

def argsCalls : List FunctionArg → List Function
  | [] => []
  | a :: as => a.calls ++ argsCalls as

def FunctionArg.calls : FunctionArg → List Function
  | .expr _ e => e.calls
  | .wildcard => []
  | .other => []

end

/-- The first element of each key. -/
def dedupeBy {α κ : Type} [DecidableEq κ] (key : α → κ) (l : List α) : List α :=
  l.foldl (fun out a => if out.any fun b => key b == key a then out else out ++ [a]) []

section
variable {α κ : Type} [DecidableEq κ] {key : α → κ} {l : List α} {a : α}

theorem dedupeBy_concat (l : List α) (a : α) : dedupeBy key (l ++ [a]) =
    if (dedupeBy key l).any fun b => key b == key a then dedupeBy key l
    else dedupeBy key l ++ [a] :=
  foldl_append

theorem mem_of_mem_dedupeBy (h : a ∈ dedupeBy key l) : a ∈ l := by
  induction l using List.reverseRecOn with
  | nil => cases h
  | append_singleton l b ih =>
    rw [dedupeBy_concat] at h
    split at h
    · exact mem_append_left _ (ih h)
    · exact mem_append.mpr ((mem_append.mp h).imp_left ih)

/-- Every key of the list is kept once. -/
theorem keys_dedupeBy (key : α → κ) (l : List α) : ((dedupeBy key l).map key).Nodup ∧
    ∀ k, k ∈ (dedupeBy key l).map key ↔ k ∈ l.map key := by
  induction l using List.reverseRecOn with
  | nil => simp [dedupeBy]
  | append_singleton l b ih =>
    have hany : (dedupeBy key l).any (fun c => key c == key b) = true ↔
        key b ∈ (dedupeBy key l).map key := by
      simp [any_eq_true]
    rw [dedupeBy_concat]
    split
    next hold =>
      refine ⟨ih.1, fun k => ?_⟩
      have hb := (ih.2 _).mp (hany.mp hold)
      rw [ih.2, map_append, mem_append]
      refine ⟨.inl, fun h => h.elim id fun hk => ?_⟩
      rwa [mem_singleton.mp hk]
    next hnew =>
      rw [map_append]
      refine ⟨nodup_append.mpr ⟨ih.1, by simp, ?_⟩, fun k => ?_⟩
      · rintro k hk _ hkb rfl
        rw [mem_singleton.mp hkb] at hk
        exact hnew (hany.mpr hk)
      · rw [mem_append, ih.2, map_append, mem_append]

end

/-- `expr_has_window`. -/
def SqlExpr.hasWindow (e : SqlExpr) : Bool := e.calls.any fun f => f.window.isSome

/-- The expression of an argument. -/
def FunctionArg.expr? : FunctionArg → Option SqlExpr
  | .expr _ e => some e
  | .wildcard => none
  | .other => none

/-- The argument expressions of a call. -/
def FunctionArguments.exprs : FunctionArguments → List SqlExpr
  | .none => []
  | .subquery _ => []
  | .list args => args.filterMap FunctionArg.expr?

/-- The expression of an item of the SELECT list. -/
def SelectItem.expr? : SelectItem → Option SqlExpr
  | .wildcard => none
  | .qualifiedWildcard _ => none
  | .expr e _ => some e
  | .exprWithAliases e _ => some e

def SqlExpr.defaultColName : SqlExpr → String
  | .ident name => name
  | .compound parts => parts.getLast?.getD "?column?"
  | .function f => f.base
  | .cast e _ => e.defaultColName
  | .nested e => e.defaultColName
  | _ => "?column?"

def SqlExpr.unnestArg : SqlExpr → Option SqlExpr
  | .function f =>
      match f.args with
      | .list (.expr false e :: _) => if f.base = "unnest" then some e else none
      | _ => none
  | _ => none

def isAggregate (name : String) : Bool :=
  ["count", "sum", "avg", "min", "max", "array_agg", "string_agg", "bool_and", "bool_or",
    "every"].contains name

/-- A plain aggregate call; one with OVER is a window call. -/
def Function.isPlainAggregate (f : Function) : Bool := f.window.isNone && isAggregate f.base

namespace SelectBlock

def itemExprs (s : SelectBlock) : List SqlExpr := s.projection.filterMap SelectItem.expr?

/-- `collect_aggregates`. -/
def aggregates (s : SelectBlock) : List Function :=
  ((s.itemExprs ++ s.having.toList).flatMap SqlExpr.calls).filter Function.isPlainAggregate

/-- `select_has_aggregate`. -/
def hasAggregate (s : SelectBlock) : Bool := !s.aggregates.isEmpty

/-- `collect_window_calls`: each text once. -/
def windowCalls (s : SelectBlock) (orderBy : List OrderByExpr) : List Function :=
  dedupeBy Function.text
    (((s.itemExprs ++ orderBy.map OrderByExpr.expr).flatMap SqlExpr.calls).filter
      fun f => f.window.isSome)

end SelectBlock

/-! ### The names in a query -/

/-- What a query names: a relation, or a function that it calls. -/
inductive Mention where
  | table (name : TableName)
  | function (name : String)
  deriving DecidableEq, Repr

mutual

/-- The names in an expression, with those in its subqueries. -/
def SqlExpr.names : SqlExpr → List Mention
  | .ident _ => []
  | .compound _ => []
  | .literal _ => []
  | .nested e => e.names
  | .unary _ e => e.names
  | .binary left _ right => left.names ++ right.names
  | .isNull _ e => e.names
  | .isTruth _ _ e => e.names
  | .isDistinctFrom _ a b => a.names ++ b.names
  | .between e _ low high => e.names ++ (low.names ++ high.names)
  | .inList e list _ => e.names ++ exprsNames list
  | .inSubquery e q _ => e.names ++ q.names
  | .like _ _ e pattern _ => e.names ++ pattern.names
  | .case operand conditions elseResult =>
      optNames operand ++ (whensNames conditions ++ optNames elseResult)
  | .cast e _ => e.names
  | .existsSubquery q _ => q.names
  | .subquery q => q.names
  | .quantified _ left _ right => left.names ++ right.names
  | .function f => f.names
  | .tuple items => exprsNames items
  | .array items => exprsNames items
  | .substring e from? for? => e.names ++ (optNames from? ++ optNames for?)
  | .position e inside => e.names ++ inside.names
  | .trim e what => e.names ++ optNames what
  | .extract _ e => e.names
  | .collate e => e.names
  | .prefixed e => e.names
  | .unsupported _ => []

def exprsNames : List SqlExpr → List Mention
  | [] => []
  | e :: es => e.names ++ exprsNames es

def optNames : Option SqlExpr → List Mention
  | none => []
  | some e => e.names

def CaseWhen.names : CaseWhen → List Mention
  | .mk condition result => condition.names ++ result.names

def whensNames : List CaseWhen → List Mention
  | [] => []
  | c :: cs => c.names ++ whensNames cs

def Function.names : Function → List Mention
  | .mk name _ _ args _ filter window =>
      .function name :: (args.names ++ (optNames filter ++ specNames window))

def FunctionArguments.names : FunctionArguments → List Mention
  | .none => []
  | .subquery _ => []
  | .list args => argsNames args

def argsNames : List FunctionArg → List Mention
  | [] => []
  | a :: as => a.names ++ argsNames as

def FunctionArg.names : FunctionArg → List Mention
  | .expr _ e => e.names
  | .wildcard => []
  | .other => []

def specNames : Option WindowSpec → List Mention
  | none => []
  | some spec => spec.names

def WindowSpec.names : WindowSpec → List Mention
  | .mk partitionBy orderBy offsets =>
      exprsNames partitionBy ++ (orderNames orderBy ++ exprsNames offsets)

def orderNames : List OrderByExpr → List Mention
  | [] => []
  | o :: os => o.names ++ orderNames os

def OrderByExpr.names : OrderByExpr → List Mention
  | .mk e _ _ => e.names

def SelectItem.names : SelectItem → List Mention
  | .wildcard => []
  | .qualifiedWildcard _ => []
  | .expr e _ => e.names
  | .exprWithAliases e _ => e.names

def itemsNames : List SelectItem → List Mention
  | [] => []
  | i :: is => i.names ++ itemsNames is

def JoinConstraint.names : JoinConstraint → List Mention
  | .on e => e.names
  | .usingColumns _ => []
  | .natural => []
  | .none => []

def JoinOperator.names : JoinOperator → List Mention
  | .conditional _ c => c.names
  | .cross => []
  | .unsupported _ => []

/-- A function call that looks like a table may be one. -/
def TableFactor.names : TableFactor → List Mention
  | .table r => [.table (r.schema, r.name)]
  | .function call schema name args _ =>
      (if call then [.table (schema, name)] else []) ++ (.function name :: argsNames args)
  | .derived q _ => q.names
  | .unsupported _ => []

def Join.names : Join → List Mention
  | .mk relation op => relation.names ++ op.names

def joinsNames : List Join → List Mention
  | [] => []
  | j :: js => j.names ++ joinsNames js

def TableWithJoins.names : TableWithJoins → List Mention
  | .mk relation joins => relation.names ++ joinsNames joins

def sourcesNames : List TableWithJoins → List Mention
  | [] => []
  | s :: ss => s.names ++ sourcesNames ss

def SelectBlock.names : SelectBlock → List Mention
  | .mk _ projection sources selection groupBy having =>
      sourcesNames sources ++ (optNames selection ++ (optNames having ++
        (itemsNames projection ++ exprsNames groupBy)))

def ValuesRow.names : ValuesRow → List Mention
  | .mk content => exprsNames content

def rowsNames : List ValuesRow → List Mention
  | [] => []
  | r :: rs => r.names ++ rowsNames rs

def SetExpr.names : SetExpr → List Mention
  | .select s => s.names
  | .query q => q.names
  | .values rows => rowsNames rows
  | .setOperation _ _ left right => left.names ++ right.names
  | .unsupported _ => []

def Cte.names : Cte → List Mention
  | .mk _ _ q => q.names

def ctesNames : List Cte → List Mention
  | [] => []
  | c :: cs => c.names ++ ctesNames cs

/-- The names in a query, at every position. -/
def Query.names : Query → List Mention
  | .mk _ ctes body orderBy limit offset =>
      ctesNames ctes ++ (body.names ++
        (orderNames orderBy ++ (optNames limit ++ optNames offset)))

end

end GuardianDb.Sql
