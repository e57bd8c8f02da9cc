/-
What a query depends on.

The executor sees the tables only through two scans, the WITH items and the enclosing
rows only by their names, and only of names that occur in a part of the query, of a view
it goes through, or in the body of a function that it calls. Two contexts that are alike
in these places (`AlikeIn`) evaluate the query alike. One lemma per function of the
executor says so for the function, given that the evaluators inside agree (`Agree`); the
induction is on the nesting depth.

  * `evaluator_agree` — like contexts give results with the same observation, also
    under enclosing rows that no part of the query looks into.
  * `evaluator_congr`, `runQuery_congr` — equal scans give equal results.
-/
import GuardianDb.Lib.Observation
import GuardianDb.Sql.QueryParts

namespace GuardianDb.Sql

open Std Relational Fallible List

/-! ### Contexts and evaluators that agree -/

/-- The column that an expression refers to. -/
def SqlExpr.column? : SqlExpr → Option (Option String × String)
  | .ident name => some (none, name)
  | .compound parts =>
      match parts.reverse with
      | [] => none
      | [column] => some (none, column)
      | column :: table :: _ => some (some table, column)
  | _ => none

variable {e : SqlExpr} {before : List TableFactor}

section
variable {C : Crates}

/-- What an index scan of a table may evaluate of a WHERE clause, in the scope around the
table: the other sides of indexed columns. -/
def SqlExpr.lookups (r : Evaluator C) (t : LoadedTable C) : SqlExpr → List SqlExpr
  | .nested e => e.lookups r t
  | .binary left .and right => left.lookups r t ++ right.lookups r t
  | .binary left .eq right =>
      (if (SelectExec.indexedSide t (left.scanned r) (right.scanned r)).isSome then [right]
        else []) ++
      if (SelectExec.indexedSide t (right.scanned r) (left.scanned r)).isSome then [left] else []
  | _ => []

namespace QueryExec

variable (x : QueryExec C)

def lookups (r : Evaluator C) (s : SelectBlock) : List SqlExpr :=
  match s.sources, s.selection with
  | [.mk (.table ref) []], some e => (x.baseTable ref).elim [] fun p => e.lookups r p.2
  | _, _ => []

/-- The columns that a relation has whatever is evaluated: those of a table. -/
def columns : TableFactor → RowSchema
  | .table ref =>
      if ref.columnAliases.isEmpty && !(ref.schema.isNone && x.cte.contains ref.name) &&
          ref.name != "pg_locks" then
        (x.baseTable ref).elim [] fun p => tableSchema p.2.table ref.aliasName
      else []
  | _ => []

/-- A schema has the columns of these relations. -/
def Covers (relations : List TableFactor) (schema : RowSchema) : Prop :=
  ∀ tf ∈ relations, x.columns tf ⊆ schema

end QueryExec

/-- The body of a function is made of queries that are `Ok`, or sees the same in both
contexts. -/
def UserFunction.Alike (Ok : Query → Prop) (x y : QueryExec C) (f : UserFunction C) : Prop :=
  match f.body with
  | .queries _ bound _ => ∀ args, ∀ q ∈ bound args, Ok q
  | .other reads _ =>
      x.tablesNamed reads = y.tablesNamed reads ∧ x.itemsNamed reads = y.itemsNamed reads

variable {F : Type → Type} [Monad F] [LawfulMonad F]

/-- Two contexts that are alike for the parts that are `Ok` in the scope of some rows, the
first also under more enclosing rows. What is alike is what an observation sees. `Body` are
the queries in the bodies of functions that these parts call. -/
structure AlikeIn (T : Observation SqlError F) (Ok : List (Frame C) → Part → Prop)
    (Scope : List (Frame C) → Prop) (Body : Query → Prop) (x y : QueryExec C) : Prop where
  env : x.env = y.env
  queries : x.queries = y.queries
  catalog : x.catalog = y.catalog
  pgLocks : x.pgLocks = y.pgLocks
  outside : Scope []
  children : ∀ fs p, Ok fs p → ∀ c ∈ p.children, Ok fs c
  inner : ∀ fs p, Ok fs p → ∀ c ∈ p.inner, ∀ frame, x.Covers c.1 frame.schema →
    Ok (fs ++ [frame]) (.expr c.2)
  offsets : ∀ fs frame f, Ok (fs ++ [frame]) (.call f) → ∀ e ∈ windowOffsets f, Ok fs (.expr e)
  separator : ∀ fs f, Ok fs (.call f) → ∀ e ∈ (aggregateSecondArg f.args).toList, Ok [] (.expr e)
  lookups : ∀ fs r s, Ok fs (.block s) → ∀ e ∈ x.lookups r s, Ok fs (.expr e)
  column : ∀ fs e table column, Ok fs (.expr e) → e.column? = some (table, column) →
    ∀ o, Scope o → T.of (resolveOrSpecial x.env (o ++ fs) table column) =
      T.of (resolveOrSpecial x.env fs table column)
  window : ∀ f (a a' : Nat → Nat → Except SqlError (SqlValue C))
    (b b' : Nat → Except SqlError (SqlValue C)) n, (∀ i j, T.of (a i j) = T.of (a' i j)) →
      (∀ i, T.of (b i) = T.of (b' i)) →
        T.of (x.queries.window f a b n) = T.of (x.queries.window f a' b' n)
  values : ∀ a b : Except SqlError (SqlValue C), T.of a = T.of b → a.toOption = b.toOption
  cte : ∀ fs (ref : TableRef), Ok fs (.factor (.table ref)) → ref.schema = none →
    x.cte[ref.name]? = y.cte[ref.name]?
  withs : ∀ fs q, Ok fs (.query q) → checkWith x q.ctes = checkWith y q.ctes
  index : ∀ fs (ref : TableRef), Ok fs (.factor (.table ref)) → ∀ e outer,
    (x.tryIndexScan ⟨ref, some e⟩ outer).map Candidates.toRowSet =
      (y.tryIndexScan ⟨ref, some e⟩ outer).map Candidates.toRowSet
  scan : ∀ fs (ref : TableRef), Ok fs (.factor (.table ref)) → x.tableScan ref = y.tableScan ref
  views : ∀ fs (ref : TableRef), Ok fs (.factor (.table ref)) → ∀ v q,
    x.catalog.resolveTableName ref.schema ref.name = some v → x.queries.viewQuery v = .ok q →
      Ok fs (.query q)
  bodies : ∀ fs p name, Ok fs p → p.callee? = some name → ∀ f ∈ x.queries.functions,
    f.name = name → f.Alike Body x y

/-- Two evaluators that agree on the parts that are `Ok`, the first under more enclosing
rows, and on the bodies of functions. -/
structure Agree (T : Observation SqlError F) (Ok : List (Frame C) → Part → Prop)
    (Scope : List (Frame C) → Prop) (Body : Query → Prop) (r r' : Evaluator C) : Prop where
  expr : ∀ fs e, Ok fs (.expr e) → ∀ o, Scope o → ∀ aggs,
    T.of (r.expr e (o ++ fs) aggs) = T.of (r'.expr e fs aggs)
  query : ∀ fs q, Ok fs (.query q) → ∀ o, Scope o →
    T.of (r.query q (o ++ fs)) = T.of (r'.query q fs)
  body : ∀ q, Body q → T.of (r.query q []) = T.of (r'.query q [])

variable {α : Type} {T : Observation SqlError F}

theorem memberLoop_congr (casts : EvalEnv C) (v : SqlValue C) (negated : Bool) {l : List α}
    {f g : α → Except SqlError (SqlValue C)} (h : ∀ a ∈ l, T.of (f a) = T.of (g a))
    (sawNull : Bool) : T.of (QueryEnv.memberLoop casts v negated (l.map f) sawNull) =
      T.of (QueryEnv.memberLoop casts v negated (l.map g) sawNull) := by
  induction l generalizing sawNull with
  | nil => rfl
  | cons a l ih =>
    simp [QueryEnv.memberLoop, T.of_bind, T.of_ite, h a (.head _), ih fun b hb => h b (.tail a hb)]

theorem caseLoop_congr (casts : EvalEnv C) (operand : Option (SqlValue C)) {l : List CaseWhen}
    {f g : SqlExpr → Except SqlError (SqlValue C)}
    (h : ∀ c ∈ l, T.of (f c.condition) = T.of (g c.condition) ∧
      T.of (f c.result) = T.of (g c.result)) {e e' : Except SqlError (SqlValue C)}
    (helse : T.of e = T.of e') :
    T.of (QueryEnv.caseLoop casts operand (l.map fun c => (f c.condition, f c.result)) e) =
      T.of (QueryEnv.caseLoop casts operand (l.map fun c => (g c.condition, g c.result)) e') := by
  induction l with
  | nil => exact helse
  | cons c l ih => simp_all [QueryEnv.caseLoop, T.of_bind, T.of_ite]

theorem columnName_scanned (r r' : Evaluator C) (e : SqlExpr) :
    (e.scanned r).columnName = (e.scanned r').columnName := by
  fun_cases SqlExpr.scanned r e <;> simp_all [SqlExpr.scanned, Expr.columnName]

theorem isColumnRef_scanned (r r' : Evaluator C) (e : SqlExpr) :
    (e.scanned r).isColumnRef = (e.scanned r').isColumnRef := by
  fun_cases SqlExpr.scanned r e <;> simp_all [SqlExpr.scanned, Expr.isColumnRef]

variable {Ok : List (Frame C) → Part → Prop} {Scope : List (Frame C) → Prop}
  {Body : Query → Prop} {r r' : Evaluator C} {x y : QueryExec C}
  (hr : Agree T Ok Scope Body r r') (hx : AlikeIn T Ok Scope Body x y)
  {o : List (Frame C)} (ho : Scope o)
  {frames outer : List (Frame C)} {aggs win : Option (Aggs C)}

/-! ### Expressions -/

include hr ho

theorem evalOpt_congr {e : Option SqlExpr} (h : ∀ e' ∈ e.toList, Ok frames (.expr e')) :
    T.of (evalOpt r e (o ++ frames) aggs) = T.of (evalOpt r' e frames aggs) := by
  cases e with
  | none => rfl
  | some e =>
    simp only [evalOpt, T.of_map, hr.expr _ e (h e mem_cons_self) o ho]

theorem evalExprs_congr {es : List SqlExpr} (h : ∀ e ∈ es, Ok frames (.expr e)) :
    (es.mapM fun e => T.of (r.expr e (o ++ frames) aggs)) =
      es.mapM fun e => T.of (r'.expr e frames aggs) :=
  mapM_congr fun e he => hr.expr _ e (h e he) o ho aggs

theorem evalArgs_congr {args : FunctionArguments} (h : ∀ e ∈ args.exprs, Ok frames (.expr e)) :
    T.of (evalArgs r args (o ++ frames) aggs) = T.of (evalArgs r' args frames aggs) := by
  cases args with
  | none | subquery => rfl
  | list args =>
    simp only [evalArgs, T.of_mapM]
    refine mapM_congr fun a ha => ?_
    cases a with
    | expr named e => exact hr.expr _ e (h e (mem_filterMap.mpr ⟨_, ha, rfl⟩)) o ho aggs
    | wildcard | other => rfl

include hx

omit hx ho in
theorem callUser_congr {f : UserFunction C} (h : f.Alike Body x y)
    (args : List (SqlValue C)) : T.of (callUser r x f args) = T.of (callUser r' y f args) := by
  unfold callUser
  split
  · rfl
  · split
    · rfl
    · unfold UserFunction.Alike at h
      cases hbody : f.body with
      | queries text bound names_bound =>
        rw [hbody] at h
        simp only [T.of_foldlM, T.of_bind]
        refine foldlM_congr (fun q hq _ => ?_) _
        rw [hr.body q (h args q hq)]
      | other reads run =>
        rw [hbody] at h
        simp only [h.1, h.2]

omit ho in
theorem callScalar_congr {p : Part} (h : Ok frames p) {name : String} (hname : p.callee? = some name)
    (args : List (SqlValue C)) : T.of (callScalar r x name args) = T.of (callScalar r' y name args) := by
  unfold callScalar
  rw [← hx.queries]
  split
  next f hf =>
    have hsame := List.find?_some hf
    simp only [Bool.and_eq_true, beq_iff_eq] at hsame
    exact callUser_congr hr
      (hx.bodies _ p name h hname f (List.mem_of_find?_eq_some hf) hsame.1) args
  · rfl

theorem evalElements_congr (h : Ok frames (.expr e)) :
    T.of (evalElements r e (o ++ frames) aggs) = T.of (evalElements r' e frames aggs) := by
  unfold evalElements
  split
  next q =>
    have hq : Ok frames (.query q) := hx.children _ _ h _ (.head _)
    simp only [T.of_map, hr.query _ q hq o ho]
  · simp only [T.of_bind, hr.expr _ e h o ho]

theorem evalFunction_congr {f : Function} (h : Ok frames (.call f)) :
    T.of (evalFunction r x f (o ++ frames) aggs) = T.of (evalFunction r' y f frames aggs) := by
  have hargs := operand_ok (hx.children frames) h
  unfold evalFunction
  split
  · rfl
  · split
    · rfl
    · simp only [T.of_bind, evalArgs_congr hr ho hargs, callScalar_congr hr hx h rfl]

omit hr in
theorem compound_congr {parts : List String} (h : Ok frames (.expr (.compound parts)))
    (filter : ScanFilter) :
    T.of (Expr.eval x.env filter (o ++ frames) (.compound parts)) =
      T.of (Expr.eval x.env filter frames (.compound parts)) := by
  have hcolumn := fun table column => hx.column _ _ table column h
  simp only [Expr.eval, SqlExpr.column?] at hcolumn ⊢
  split
  next hparts => rfl
  next column hparts => exact hcolumn none column (by rw [hparts]) o ho
  next column table rest hparts => exact hcolumn (some table) column (by rw [hparts]) o ho

theorem evalExpr_congr (h : Ok frames (.expr e)) :
    T.of (evalExpr r x e (o ++ frames) aggs) = T.of (evalExpr r' y e frames aggs) := by
  have one : ∀ e, Ok frames (.expr e) → ∀ aggs, T.of (r.expr e (o ++ frames) aggs) =
      T.of (r'.expr e frames aggs) := fun e he => hr.expr _ e he o ho
  have hquery : ∀ q, Ok frames (.query q) →
      T.of (r.query q (o ++ frames)) = T.of (r'.query q frames) :=
    fun q hq => hr.query _ q hq o ho
  have hparts : ∀ c ∈ (Part.expr e).children, Ok frames c := hx.children _ _ h
  cases e <;> simp only [Part.children, forall_mem_cons, forall_mem_append,
    forall_mem_map, forall_mem_flatMap] at hparts
  case ident name =>
    simp only [evalExpr, ← hx.env]
    exact hx.column _ _ none name h rfl o ho
  case compound parts =>
    simp only [evalExpr, ← hx.env]
    exact compound_congr hx ho h none
  case literal l => simp only [evalExpr, hx.queries]
  case unsupported text => rfl
  case nested e | collate e | prefixed e => exact one e hparts.1 aggs
  case unary op e | isNull negated e | isTruth value negated e | cast e dataType
      | extract field e =>
    simp only [evalExpr, T.of_bind, one e hparts.1, hx.queries]
  case binary a op b =>
    cases op <;>
      simp only [evalExpr, T.of_bind, T.of_ite, one a hparts.1, one b hparts.2.1, hx.env,
        hx.queries]
  case isDistinctFrom negated a b =>
    simp only [evalExpr, T.of_bind, one a hparts.1, one b hparts.2.1, hx.queries]
  case between e negated low high =>
    simp only [evalExpr, T.of_bind, one e hparts.1, one low hparts.2.1, one high hparts.2.2.1,
      hx.env]
  case inList e list negated =>
    simp only [evalExpr, T.of_bind, T.of_ite, one e hparts.1, ← hx.env]
    exact bind_congr fun v => ite_congr rfl (fun _ => rfl) fun _ =>
      memberLoop_congr _ _ _ (fun e he => one e (hparts.2 e he) aggs) _
  case inSubquery e q negated =>
    simp only [evalExpr, T.of_bind, T.of_ite, one e hparts.1, hquery q hparts.2.1, hx.env]
  case like insensitive negated a b escape =>
    simp only [evalExpr, T.of_bind, T.of_ite, one a hparts.1, one b hparts.2.1, hx.queries]
  case case operand conditions elseResult =>
    simp only [evalExpr, T.of_bind, evalOpt_congr hr ho hparts.1.1, ← hx.env]
    refine bind_congr fun v => caseLoop_congr (f := (r.expr · (o ++ frames) aggs))
      (g := (r'.expr · frames aggs)) _ _ (fun c hc => ?_) ?_
    · simp_all
    · simp only [T.of_map, evalOpt_congr hr ho hparts.2]
  case existsSubquery q negated | subquery q =>
    simp only [evalExpr, T.of_bind, hquery q hparts.1]
  case quantified any a op b =>
    simp only [evalExpr, T.of_bind, T.of_ite, one a hparts.1,
      evalElements_congr hr hx ho hparts.2.1, hx.env, hx.queries]
  case function f => exact evalFunction_congr hr hx ho hparts.1
  case tuple items | array items =>
    simp only [evalExpr, T.of_bind, T.of_mapM, evalExprs_congr hr ho hparts]
  case substring e from? for? =>
    simp only [evalExpr, T.of_bind, one e hparts.1.1, evalOpt_congr hr ho hparts.1.2,
      evalOpt_congr hr ho hparts.2, hx.queries]
  case position a b =>
    simp only [evalExpr, T.of_bind, T.of_ite, one a hparts.1, one b hparts.2.1, hx.queries]
  case trim e what =>
    simp only [evalExpr, T.of_bind, one e hparts.1, evalOpt_congr hr ho hparts.2, hx.queries]

/-! ### FROM -/

theorem eval_scanned_congr (filter : ScanFilter) (h : Ok frames (.expr e)) :
    T.of ((e.scanned r).eval x.env filter (o ++ frames)) =
      T.of ((e.scanned r').eval x.env filter frames) := by
  fun_induction SqlExpr.scanned r e with
  | case1 name => exact hx.column _ _ none name h rfl o ho
  | case2 parts => exact compound_congr hx ho h filter
  | case3 e ih => exact ih (hx.children _ _ h _ mem_cons_self)
  | case4 left right ihl ihr | case5 left right ihl ihr =>
    have hparts := hx.children _ _ h
    simp only [Part.children, forall_mem_cons] at hparts
    simp only [SqlExpr.scanned, Expr.eval, T.of_bind, T.of_ite, ihl hparts.1, ihr hparts.2.1]
  | case6 e hident hcompound hnested hand heq =>
    simp only [SqlExpr.scanned, Expr.eval, hr.expr _ e h o ho]

/-- The indexed column that a WHERE clause compares, and the value it has to have. -/
theorem findIndexedEquality_congr (t : LoadedTable C) (filter : ScanFilter)
    (h : ∀ e' ∈ e.lookups r t, Ok outer (.expr e')) :
    ((SelectExec.findIndexedEquality t (e.scanned r)).map fun p =>
        (p.1, (p.2.eval x.env filter (o ++ outer)).toOption)) =
      (SelectExec.findIndexedEquality t (e.scanned r')).map fun p =>
        (p.1, (p.2.eval x.env filter outer).toOption) := by
  have hside : ∀ a b : SqlExpr, ((SelectExec.indexedSide t (a.scanned r) (b.scanned r)).isSome →
        Ok outer (.expr b)) →
      ((SelectExec.indexedSide t (a.scanned r) (b.scanned r)).map fun p =>
          (p.1, (p.2.eval x.env filter (o ++ outer)).toOption)) =
        (SelectExec.indexedSide t (a.scanned r') (b.scanned r')).map fun p =>
          (p.1, (p.2.eval x.env filter outer).toOption) := by
    intro a b hb
    simp only [SelectExec.indexedSide, ← columnName_scanned r r' a, ← isColumnRef_scanned r r' b]
      at hb ⊢
    split
    next c hc =>
      split
      next hindexed =>
        have hb : Ok outer (.expr b) := hb (by simp [hc, hindexed])
        have hvalue := hx.values _ _ (eval_scanned_congr hr hx ho filter hb)
        simp only [Option.map_some, hvalue]
      · rfl
    · rfl
  fun_induction SqlExpr.scanned r e with
  | case1 name => rfl
  | case2 parts => rfl
  | case3 e ih => exact ih h
  | case4 left right ihl ihr =>
    simp only [SqlExpr.lookups, forall_mem_append] at h
    simp only [SqlExpr.scanned, SelectExec.findIndexedEquality, Option.map_or, ihl h.1, ihr h.2]
  | case5 left right ihl ihr =>
    simp only [SqlExpr.lookups, forall_mem_append] at h
    simp only [SqlExpr.scanned, SelectExec.findIndexedEquality, Option.map_or]
    rw [hside left right fun hs => h.1 right (by simp [hs]),
      hside right left fun hs => h.2 left (by simp [hs])]
  | case6 e hident hcompound hnested hand heq =>
    simp only [SqlExpr.scanned, SelectExec.findIndexedEquality]
    rfl

theorem indexedIds_congr (t : LoadedTable C) (h : ∀ e' ∈ e.lookups r t, Ok outer (.expr e')) :
    x.indexedIds t (e.scanned r) (o ++ outer) = x.indexedIds t (e.scanned r') outer := by
  have hids : ∀ e frames, x.indexedIds t e frames =
      ((SelectExec.findIndexedEquality t e).map fun p =>
        (p.1, (p.2.eval x.env x.forUpdateFilter frames).toOption)).bind fun p =>
          p.2.bind fun value => (t.table.column p.1).bind fun c =>
            (Relational.cast x.env.castOther value c.ty).toOption.bind (t.indexLookupEq p.1) := by
    intro e frames
    rw [Option.bind_map]
    rfl
  rw [hids, hids, findIndexedEquality_congr hr hx ho t x.forUpdateFilter h]

theorem indexScan_congr {s : SelectBlock} (h : Ok outer (.block s)) :
    indexScan r x s (o ++ outer) = indexScan r' y s outer := by
  have hparts := hx.children _ _ h
  have hlookups := hx.lookups _ r _ h
  unfold indexScan
  split
  next ref e hsources hselection =>
    simp only [Part.children, SelectBlock.factors, hsources, flatMap_cons,
      TableWithJoins.factors, map_cons, cons_append, forall_mem_cons] at hparts
    simp only [QueryExec.lookups, hsources, hselection] at hlookups
    rw [← hx.index _ ref hparts.1]
    simp only [SelectExec.tryIndexScan, Option.bind_eq_bind, Option.bind_some]
    cases hb : x.baseTable ref with
    | none => rfl
    | some p => grind [indexedIds_congr]
  · rfl

theorem execTableFunction_congr {call : Bool} {schema : Option String} {name : String}
    {args : List FunctionArg} {as? : TableAlias}
    (h : Ok outer (.factor (.function call schema name args as?))) :
    T.of (execTableFunction r x name args as? (o ++ outer)) =
      T.of (execTableFunction r' y name args as? outer) := by
  have hargs := hx.children _ _ h
  simp only [Part.children, forall_mem_map] at hargs
  simp only [execTableFunction, T.of_ite, T.of_bind, T.of_mapM, evalExprs_congr hr ho hargs,
    callScalar_congr hr hx h rfl]

theorem execView_congr {ref : TableRef} (href : Ok outer (.factor (.table ref))) {v : QualifiedName}
    (hv : x.catalog.resolveTableName ref.schema ref.name = some v) :
    T.of (execView r x ref v (o ++ outer)) = T.of (execView r' y ref v outer) := by
  unfold execView
  rw [← hx.queries]
  cases hq : x.queries.viewQuery v with
  | error e => rfl
  | ok q =>
    have hok := hr.query _ q (hx.views _ ref href v q hv hq) o ho
    simp only [T.of_bind, T.of_ok, pure_bind, hok]

theorem execFactor_congr {tf : TableFactor} (h : Ok outer (.factor tf)) :
    T.of (execFactor r x tf (o ++ outer)) = T.of (execFactor r' y tf outer) := by
  have hparts := hx.children _ _ h
  cases tf with
  | function call schema name args as? => exact execTableFunction_congr hr hx ho h
  | derived q as? =>
    have hq : Ok outer (.query q) := hparts _ (.head _)
    simp only [execFactor, T.of_bind, hr.query _ q hq o ho]
  | unsupported text => rfl
  | table ref =>
    have hcte : (if ref.schema.isNone then x.cte[ref.name]? else none) =
        if ref.schema.isNone then y.cte[ref.name]? else none :=
      ite_congr rfl (fun hnone => hx.cte _ ref h (Option.isNone_iff_eq_none.mp hnone))
        fun _ => rfl
    simp only [execFactor, hcte, ← hx.pgLocks, ← hx.catalog, ← hx.queries, ← hx.scan _ ref h]
    cases hv : x.catalog.resolveTableName ref.schema ref.name with
    | none => rfl
    | some v =>
      rw [Option.filter_some]
      cases x.catalog.views.contains v with
      | false => rfl
      | true =>
        simp only [if_true]
        split
        · rfl
        · rw [T.of_ite, T.of_ite]
          split
          · rfl
          · grind [execView_congr]

omit hx in
theorem joinMatches_congr {c : JoinConstraint} {left right : RowSchema}
    (h : ∀ e, c = .on e → ∀ row, Ok (outer ++ [⟨left ++ right, row⟩]) (.expr e)) (t : Tuple C) :
    T.of (joinMatches r c left right (o ++ outer) t) =
      T.of (joinMatches r' c left right outer t) := by
  cases c with
  | on e => simp only [joinMatches, T.of_bind, append_assoc, hr.expr _ e (h e rfl t) o ho]
  | usingColumns | natural | none => rfl

omit hr hx ho in
/-- The columns of two sides of a join. -/
theorem QueryExec.Covers.join {before after : List TableFactor} {left right : RowSchema}
    (hleft : x.Covers before left) (hright : x.Covers after right) {relations : List TableFactor}
    (h : ∀ tf ∈ relations, tf ∈ before ∨ tf ∈ after) : x.Covers relations (left ++ right) := by
  intro tf htf f hf
  rcases h tf htf with htf | htf
  · exact mem_append_left _ (hleft tf htf hf)
  · exact mem_append_right _ (hright tf htf hf)

variable {rs : RowSet C}

omit hr hx ho in
/-- The rows of a relation have its columns. -/
theorem execFactor_covers {tf : TableFactor}
    (h : execFactor r x tf outer = .ok rs) : x.Covers [tf] rs.schema := by
  refine forall_mem_singleton.mpr ?_
  unfold QueryExec.columns
  split
  next ref =>
    split
    next hplain =>
      simp only [Bool.and_eq_true, Bool.not_eq_true', Bool.and_eq_false_imp, bne_iff_ne,
        List.isEmpty_iff] at hplain
      obtain ⟨⟨haliases, hcte⟩, hlocks⟩ := hplain
      have hitem : (if ref.schema.isNone then x.cte[ref.name]? else none) = none := by grind
      simp only [execFactor, hitem, hlocks, false_and, if_false] at h
      cases hb : x.baseTable ref with
      | none => exact nil_subset _
      | some p =>
        simp only [QueryExec.tableScan, hb, Option.map_some] at h
        cases h
        intro f hf
        obtain ⟨c, hc, rfl⟩ := List.mem_map.mp hf
        obtain ⟨i, hi⟩ := List.getElem?_of_mem hc
        refine List.mem_map.mpr ⟨(⟨some ref.aliasName, c.name⟩, i), ?_, by simp [haliases]⟩
        simp [mem_zipIdx_iff_getElem?, SelectExec.loadedToRowset, tableSchema,
          Candidates.toRowSet, hi]
    · exact nil_subset _
  · exact nil_subset _

theorem execJoin_congr {relation : TableFactor} {op : JoinOperator}
    {left : RowSet C} (hleft : x.Covers before left.schema) (h : Ok outer (.factor relation))
    (hon : ∀ e ∈ op.on?.toList, ∀ frame : Frame C, x.Covers (relation :: before) frame.schema →
      Ok (outer ++ [frame]) (.expr e)) :
    T.of (execJoin r x left (.mk relation op) (o ++ outer)) =
      T.of (execJoin r' y left (.mk relation op) outer) := by
  refine T.of_bind_congr (execFactor_congr hr hx ho h) fun right hright => ?_
  cases op with
  | cross | unsupported => rfl
  | conditional keyword c =>
    have hc : ∀ e, c = .on e → ∀ row, Ok (outer ++ [⟨left.schema ++ right.schema, row⟩])
        (.expr e) := by
      rintro e rfl row
      refine hon e (.head _) _ (hleft.join (execFactor_covers hright) fun tf htf => ?_)
      simpa [or_comm] using htf
    simp only [joinRows, joinLeft, joinRow, T.of_bind, T.of_foldlM, T.of_ite,
      joinMatches_congr hr ho hc]

omit hr hx ho in
/-- A join has the columns of both of its sides. -/
theorem execJoin_covers {relation : TableFactor} {op : JoinOperator}
    {left rs : RowSet C} (hleft : x.Covers before left.schema)
    (h : execJoin r x left (.mk relation op) outer = .ok rs) :
    x.Covers (relation :: before) rs.schema := by
  obtain ⟨right, hright, h⟩ := except_bind_ok.mp h
  have hschema : rs.schema = left.schema ++ right.schema := by
    cases op with
    | cross =>
      cases h
      rfl
    | unsupported text => cases h
    | conditional keyword c =>
      obtain ⟨hits, -, h⟩ := except_bind_ok.mp h
      cases h
      rfl
  rw [hschema]
  refine hleft.join (execFactor_covers hright) fun tf htf => ?_
  simpa [or_comm] using htf

/-- The joins of a FROM item, from left to right: each has the columns of the relations
before it. -/
theorem execJoins_congr {joins : List Join} {left : RowSet C} (hleft : x.Covers before left.schema)
    (h : ∀ tf ∈ joins.map (fun | .mk relation _ => relation), Ok outer (.factor tf))
    (hon : ∀ p ∈ onClauses before joins, ∀ frame : Frame C, x.Covers p.1 frame.schema →
      Ok (outer ++ [frame]) (.expr p.2)) :
    T.of (joins.foldlM (fun acc join => execJoin r x acc join (o ++ outer)) left) =
      T.of (joins.foldlM (fun acc join => execJoin r' y acc join outer) left) := by
  induction joins generalizing before left with
  | nil => rfl
  | cons join joins ih =>
    obtain ⟨relation, op⟩ := join
    simp only [map_cons, forall_mem_cons] at h
    simp only [onClauses, forall_mem_append, forall_mem_map] at hon
    exact T.of_bind_congr (execJoin_congr hr hx ho hleft h.1 hon.1) fun rs hrs =>
      ih (execJoin_covers hleft hrs) h.2 hon.2

omit hr hx ho in
theorem execJoins_covers {joins : List Join} {left rs : RowSet C}
    (hleft : x.Covers before left.schema)
    (h : joins.foldlM (fun acc join => execJoin r x acc join outer) left = .ok rs) :
    x.Covers (joins.map (fun | .mk relation _ => relation) ++ before) rs.schema := by
  induction joins generalizing before left with
  | nil =>
    cases h
    exact hleft
  | cons join joins ih =>
    obtain ⟨relation, op⟩ := join
    obtain ⟨mid, hmid, h⟩ := except_bind_ok.mp h
    have hrest := ih (execJoin_covers hleft hmid) h
    simp only [QueryExec.Covers, forall_mem_append, map_cons, cons_append,
      forall_mem_cons] at hrest ⊢
    exact ⟨hrest.2.1, hrest.1, hrest.2.2⟩

theorem execSource_congr {s : TableWithJoins} (h : ∀ tf ∈ s.factors, Ok outer (.factor tf))
    (hon : ∀ p ∈ s.ons, ∀ frame : Frame C, x.Covers p.1 frame.schema →
      Ok (outer ++ [frame]) (.expr p.2)) :
    T.of (execSource r x s (o ++ outer)) = T.of (execSource r' y s outer) := by
  obtain ⟨relation, joins⟩ := s
  simp only [TableWithJoins.factors, forall_mem_cons] at h
  refine T.of_bind_congr (execFactor_congr hr hx ho h.1) fun rs hrs => ?_
  exact execJoins_congr hr hx ho (execFactor_covers hrs) h.2 hon

omit hr hx ho in
theorem execSource_covers {s : TableWithJoins}
    (h : execSource r x s outer = .ok rs) : x.Covers s.factors rs.schema := by
  obtain ⟨relation, joins⟩ := s
  obtain ⟨first, hfirst, h⟩ := except_bind_ok.mp h
  have hall := execJoins_covers (execFactor_covers hfirst) h
  simp only [QueryExec.Covers, TableWithJoins.factors, forall_mem_append,
    forall_mem_cons] at hall ⊢
  exact ⟨hall.2.1, hall.1⟩

omit hr hx ho in
theorem execFrom_congr {ss : List TableWithJoins}
    (h : ∀ s ∈ ss, T.of (execSource r x s (o ++ outer)) = T.of (execSource r' y s outer)) :
    T.of (execFrom r x ss (o ++ outer)) = T.of (execFrom r' y ss outer) := by
  cases ss with
  | nil => rfl
  | cons s ss => grind [execFrom, T.of_bind, T.of_foldlM, foldlM_congr]

omit hr hx ho in
/-- The rows of FROM have the columns of all its relations. -/
theorem execFrom_covers {ss : List TableWithJoins} (h : execFrom r x ss outer = .ok rs) :
    x.Covers (ss.flatMap TableWithJoins.factors) rs.schema := by
  cases ss with
  | nil => exact fun tf htf => nomatch htf
  | cons s ss =>
    obtain ⟨first, hfirst, hrest⟩ := except_bind_ok.mp h
    have hall := execSource_covers hfirst
    clear h hfirst
    rw [flatMap_cons]
    generalize s.factors = before at hall ⊢
    induction ss generalizing before first with
    | nil =>
      cases hrest
      simpa using hall
    | cons s' ss ih =>
      obtain ⟨mid, hmid, hrest⟩ := except_bind_ok.mp hrest
      obtain ⟨right, hright, hmid⟩ := except_bind_ok.mp hmid
      cases hmid
      rw [flatMap_cons, ← append_assoc]
      exact ih _ hrest _ (hall.join (execSource_covers hright) fun _ => mem_append.mp)

omit hr hx ho in
theorem indexScan_covers {s : SelectBlock} (h : indexScan r x s outer = some rs) :
    x.Covers s.factors rs.schema := by
  unfold indexScan at h
  split at h
  next ref e hsources hselection =>
    obtain ⟨candidates, hc, rfl⟩ := Option.map_eq_some_iff.mp h
    simp only [SelectExec.tryIndexScan, Option.bind_eq_bind, Option.bind_eq_some_iff] at hc
    obtain ⟨p, hp, -, -, ids, -, hc⟩ := hc
    cases hc
    simp only [SelectBlock.factors, hsources]
    refine forall_mem_singleton.mpr ?_
    simp only [QueryExec.columns, hp]
    split
    · exact List.Subset.refl _
    · exact nil_subset _
  · cases h

/-! ### WHERE, projection and ORDER BY -/

omit hx in
theorem filterRows_congr {e : Option SqlExpr}
    (h : ∀ e' ∈ e.toList, ∀ row, Ok (outer ++ [⟨rs.schema, row⟩]) (.expr e')) :
    T.of (filterRows r rs e (o ++ outer)) = T.of (filterRows r' rs e outer) := by
  cases e with
  | none => rfl
  | some e =>
    have he := fun row => hr.expr _ e (h e (.head _) row) o ho
    simp only [filterRows, T.of_bind, T.of_filterM, append_assoc, he]

omit hr hx ho in
theorem filterRows_schema {e : Option SqlExpr} {rs rs' : RowSet C}
    (h : filterRows r rs e outer = .ok rs') : rs'.schema = rs.schema := by
  cases e with
  | none =>
    cases h
    rfl
  | some e =>
    obtain ⟨rows, -, h⟩ := except_bind_ok.mp h
    cases h
    rfl

variable {s : SelectBlock} {orderBy : List OrderByExpr} {input schema : RowSchema} {row : Tuple C}
  {rows : List (Tuple C)}

omit hx in
theorem projectRow_congr (h : ∀ e ∈ s.itemExprs, Ok (outer ++ [⟨input, row⟩]) (.expr e)) :
    T.of (projectRow r s input (o ++ outer) row win) =
      T.of (projectRow r' s input outer row win) := by
  simp only [projectRow, T.of_bind, T.of_mapM, append_assoc]
  refine congrArg (· >>= _) (mapM_congr fun i hi => ?_)
  cases i with
  | wildcard => rfl
  | qualifiedWildcard table => rfl
  | expr e as? | exprWithAliases e aliases =>
    have he := h e (mem_filterMap.mpr ⟨_, hi, rfl⟩)
    simp only [T.of_map, hr.expr _ e he o ho]

theorem unnestColumn_congr (h : Ok frames (.expr e)) :
    T.of (unnestColumn r e (o ++ frames) win) = T.of (unnestColumn r' e frames win) := by
  unfold unnestColumn
  split
  next arg harg =>
    simp only [T.of_bind, hr.expr _ arg (unnestArg_ok (hx.children frames) h harg) o ho]
  · simp only [T.of_map, hr.expr _ e h o ho]

theorem projectRowUnnest_congr (h : ∀ e ∈ s.itemExprs, Ok frames (.expr e)) :
    T.of (projectRowUnnest r s (o ++ frames) win) = T.of (projectRowUnnest r' s frames win) := by
  simp only [projectRowUnnest, T.of_bind, T.of_mapM]
  refine congrArg (· >>= _) (mapM_congr fun i hi => ?_)
  split
  next e he => exact unnestColumn_congr hr hx ho (h e (mem_filterMap.mpr ⟨i, hi, he⟩))
  · rfl

theorem projectOutput_congr (h : ∀ e ∈ s.itemExprs, Ok (outer ++ [⟨input, row⟩]) (.expr e)) :
    T.of (projectOutput r s input (o ++ outer) row win) =
      T.of (projectOutput r' s input outer row win) := by
  simp [projectOutput, T.of_ite, T.of_map, projectRow_congr hr ho h, projectRowUnnest_congr hr hx ho h]

theorem windowCall_congr {f : Function} (h : ∀ row, Ok (outer ++ [⟨schema, row⟩]) (.call f))
    (aggs : Option (List (Aggs C))) : T.of (windowCall r x f schema rows aggs (o ++ outer)) =
      T.of (windowCall r' y f schema rows aggs outer) := by
  unfold windowCall
  rw [← hx.queries]
  refine hx.window f _ _ _ _ _ (fun i j => ?_) fun i => ?_
  · split
    next e row he hrow =>
      have hoperand := forall_mem_map.mp (hx.children _ _ (h row))
      rw [append_assoc]
      exact hr.expr _ e (hoperand e (mem_of_getElem? he)) o ho _
    · rfl
  · split
    next e he => exact hr.expr _ e (hx.offsets _ _ f (h []) e (mem_of_getElem? he)) o ho none
    · rfl

theorem windowMaps_congr {calls : List Function}
    (h : ∀ f ∈ calls, ∀ row, Ok (outer ++ [⟨schema, row⟩]) (.call f))
    (aggs : Option (List (Aggs C))) :
    T.of (windowMaps r x calls schema rows aggs (o ++ outer)) =
      T.of (windowMaps r' y calls schema rows aggs outer) := by
  simp only [windowMaps, T.of_ite, T.of_map, T.of_foldlM, T.of_bind]
  refine ite_congr rfl (fun _ => rfl) fun _ => congrArg (some <$> ·) ?_
  exact foldlM_congr (fun f hf maps => by rw [windowCall_congr hr hx ho (h f hf)]) _

omit hx in
theorem orderKeys_congr (h : ∀ k ∈ orderBy, Ok frames (.expr k.expr)) :
    T.of (orderKeys r orderBy schema row (o ++ frames) aggs) =
      T.of (orderKeys r' orderBy schema row frames aggs) := by
  simp only [orderKeys, T.of_mapM]
  refine mapM_congr fun k hk => ?_
  unfold orderKey
  split
  · rfl
  · exact hr.expr _ _ (h k hk) o ho aggs

/-- What a SELECT block evaluates under each of its rows. -/
structure Inside (Ok : List (Frame C) → Part → Prop) (outer : List (Frame C)) (s : SelectBlock)
    (orderBy : List OrderByExpr) (schema : RowSchema) : Prop where
  items : ∀ row, ∀ e ∈ s.itemExprs, Ok (outer ++ [⟨schema, row⟩]) (.expr e)
  having : ∀ row, ∀ e ∈ s.having.toList, Ok (outer ++ [⟨schema, row⟩]) (.expr e)
  groupBy : ∀ row, ∀ e ∈ s.groupBy, Ok (outer ++ [⟨schema, row⟩]) (.expr e)
  order : ∀ row, ∀ k ∈ orderBy, Ok (outer ++ [⟨schema, row⟩]) (.expr k.expr)

omit hr ho in
theorem Inside.windowCalls (h : Inside Ok outer s orderBy schema) :
    ∀ f ∈ s.windowCalls orderBy, ∀ row, Ok (outer ++ [⟨schema, row⟩]) (.call f) :=
  fun f hf row => windowCalls_ok (hx.children _) (h.items row) (h.order row) f hf

theorem execProjection_congr {input : RowSet C} (h : Inside Ok outer s orderBy input.schema) :
    T.of (execProjection r x s input (o ++ outer) orderBy) =
      T.of (execProjection r' y s input outer orderBy) := by
  simp only [execProjection, T.of_bind, T.of_mapM, append_assoc,
    projectOutput_congr hr hx ho (h.items _), orderKeys_congr hr ho (h.order _),
    windowMaps_congr hr hx ho (h.windowCalls hx)]

/-! ### Grouping -/

omit hx in
theorem aggregateRow_congr {filter arg : Option SqlExpr}
    (hf : ∀ e ∈ filter.toList, Ok frames (.expr e)) (ha : ∀ e ∈ arg.toList, Ok frames (.expr e))
    (star : Bool) : T.of (aggregateRow r filter arg star (o ++ frames)) =
      T.of (aggregateRow r' filter arg star frames) := by
  simp only [aggregateRow, T.of_bind, T.of_ite, evalOpt_congr hr ho hf, evalOpt_congr hr ho ha]

omit ho in
/-- The separator of an aggregate, which is evaluated outside of all rows. -/
theorem separator_congr {e : Option SqlExpr} (h : ∀ e' ∈ e.toList, Ok [] (.expr e')) :
    (match evalOpt r e [] none with | .ok (v :: _) => some v | _ => none) =
      match evalOpt r' e [] none with | .ok (v :: _) => some v | _ => none := by
  cases e with
  | none => rfl
  | some e =>
    have hvalue := hx.values _ _ (hr.expr _ e (h e mem_cons_self) [] hx.outside none)
    simp only [nil_append, evalOpt] at hvalue ⊢
    cases hv : r.expr e [] none <;> cases hv' : r'.expr e [] none <;>
      simp_all [Except.toOption, Except.map]

theorem evalAggregate_congr {f : Function} (h : ∀ row, Ok (outer ++ [⟨schema, row⟩]) (.call f)) :
    T.of (evalAggregate r x f rows schema (o ++ outer)) =
      T.of (evalAggregate r' y f rows schema outer) := by
  have hseparator := separator_congr hr hx (hx.separator _ f (h []))
  simp only [evalAggregate, ← hx.queries]
  cases hargs : aggregateArg f.args with
  | error e => rfl
  | ok p =>
    have hrow := fun row => aggregateRow_congr hr ho (aggregate_ok (hx.children _) (h row)).2
      ((aggregate_ok (hx.children _) (h row)).1 p.1 p.2 hargs) p.2
    simp only [T.of_bind, T.of_ok, pure_bind, T.of_mapM, append_assoc, hrow]
    exact bind_congr fun counted => congrArg (fun separator =>
      T.of (x.queries.foldAggregate f.base separator p.2 _ _)) hseparator

theorem groupResult_congr (h : Inside Ok outer s orderBy schema) :
    T.of (groupResult r x s schema (o ++ outer) rows) =
      T.of (groupResult r' y s schema outer rows) := by
  have hexprs : ∀ row, ∀ e ∈ s.itemExprs ++ s.having.toList,
      Ok (outer ++ [⟨schema, row⟩]) (.expr e) :=
    fun row => forall_mem_append.mpr ⟨h.items row, h.having row⟩
  simp only [groupResult, T.of_bind, T.of_foldlM]
  refine (congrArg (· >>= _) (foldlM_congr (fun f hf m => ?_) _)).trans
    (bind_congr fun aggs => ?_)
  · rw [evalAggregate_congr hr hx ho fun row => aggregates_ok (hx.children _) (hexprs row) f hf]
  · cases hhaving : s.having with
    | none => rfl
    | some e =>
      have he := fun row => h.having row e (by simp [hhaving])
      simp only [T.of_bind, append_assoc, hr.expr _ e (he _) o ho]

omit hx in
theorem projectGroup_congr (h : ∀ e ∈ s.itemExprs, Ok frames (.expr e)) {aggs : Aggs C} :
    T.of (projectGroup r s (o ++ frames) aggs) = T.of (projectGroup r' s frames aggs) := by
  simp only [projectGroup, T.of_mapM]
  refine mapM_congr fun i hi => ?_
  split
  next e he => exact hr.expr _ e (h e (mem_filterMap.mpr ⟨i, hi, he⟩)) o ho _
  · rfl

theorem execGrouped_congr {input : RowSet C} (h : Inside Ok outer s orderBy input.schema) :
    T.of (execGrouped r x s input (o ++ outer) orderBy) =
      T.of (execGrouped r' y s input outer orderBy) := by
  simp only [execGrouped, T.of_bind, T.of_mapM, T.of_ite, append_assoc,
    evalExprs_congr hr ho (h.groupBy _), groupResult_congr hr hx ho h,
    windowMaps_congr hr hx ho (h.windowCalls hx), projectGroup_congr hr ho (h.items _),
    orderKeys_congr hr ho (h.order _)]

/-! ### SELECT blocks and queries -/

theorem execSelect_congr (h : Ok outer (.block s))
    (hk : ∀ schema, x.Covers s.factors schema → ∀ row, ∀ k ∈ orderBy,
      Ok (outer ++ [⟨schema, row⟩]) (.expr k.expr)) :
    T.of (execSelect r x s (o ++ outer) orderBy) = T.of (execSelect r' y s outer orderBy) := by
  have hinner := hx.inner _ _ h
  simp only [Part.inner, forall_mem_append, forall_mem_map, forall_mem_flatMap]
    at hinner
  obtain ⟨⟨⟨⟨hselection, hhaving⟩, hitems⟩, hgroup⟩, hon⟩ := hinner
  have hfactors := forall_mem_flatMap.mp (forall_mem_map.mp (hx.children _ _ h))
  -- what comes after FROM, on rows that have the columns of its relations
  have hblock : ∀ input : RowSet C, x.Covers s.factors input.schema →
      T.of (do
        let filtered ← filterRows r input s.selection (o ++ outer)
        if !s.groupBy.isEmpty || s.hasAggregate then execGrouped r x s filtered (o ++ outer) orderBy
        else execProjection r x s filtered (o ++ outer) orderBy) =
      T.of (do
        let filtered ← filterRows r' input s.selection outer
        if !s.groupBy.isEmpty || s.hasAggregate then execGrouped r' y s filtered outer orderBy
        else execProjection r' y s filtered outer orderBy) := by
    intro input hinput
    refine T.of_bind_congr (filterRows_congr hr ho fun e he row => hselection e he _ hinput)
      fun filtered hfiltered => ?_
    have hschema : filtered.schema = input.schema := filterRows_schema hfiltered
    have hinside : Inside Ok outer s orderBy filtered.schema := by
      rw [hschema]
      exact ⟨fun row e he => hitems e he _ hinput, fun row e he => hhaving e he _ hinput,
        fun row e he => hgroup e he _ hinput, hk _ hinput⟩
    simp only [T.of_ite, execGrouped_congr hr hx ho hinside, execProjection_congr hr hx ho hinside]
  simp only [execSelect, T.of_bind, indexScan_congr hr hx ho h]
  refine bind_congr fun _ => ?_
  have hindex := indexScan_congr hr hx ho h
  cases hscan : indexScan r' y s outer with
  | some rs => grind [indexScan_covers]
  | none =>
    have hfrom := execFrom_congr fun s' hs' =>
      execSource_congr hr hx ho (hfactors s' hs') (hon s' hs')
    exact T.of_bind_congr hfrom fun rs hrs => hblock rs (execFrom_covers hrs)

omit hx in
theorem execValues_congr {rows : List ValuesRow}
    (h : ∀ content, .mk content ∈ rows → ∀ e ∈ content, Ok outer (.expr e)) :
    T.of (execValues r rows (o ++ outer)) = T.of (execValues r' rows outer) := by
  simp only [execValues, T.of_bind, T.of_mapM]
  refine congrArg (· >>= _) (mapM_congr fun row hrow => ?_)
  obtain ⟨content⟩ := row
  simp only [T.of_mapM, evalExprs_congr hr ho (h content hrow)]

theorem execSetExpr_congr {s : SetExpr} (h : Ok outer (.set s)) :
    T.of (execSetExpr r x (o ++ outer) s) = T.of (execSetExpr r' y outer s) := by
  have hparts := hx.children _ _ h
  fun_induction execSetExpr r x (o ++ outer) s with
  | case1 s =>
    exact execSelect_congr hr hx ho (hparts _ mem_cons_self)
      fun _ _ _ => forall_mem_nil _
  | case2 q => exact hr.query _ q (hparts _ mem_cons_self) o ho
  | case3 rows =>
    simp only [Part.children, forall_mem_flatMap] at hparts
    exact execValues_congr hr ho (fun c hc => forall_mem_map.mp (hparts _ hc))
  | case4 op all left right ihl ihr =>
    simp only [Part.children, forall_mem_cons] at hparts
    simp only [execSetExpr, T.of_bind, ihl hparts.1 (hx.children _ _ hparts.1),
      ihr hparts.2.1 (hx.children _ _ hparts.2.1)]
  | case5 text => rfl

theorem execQuery_congr {q : Query} (h : Ok outer (.query q)) :
    T.of (execQuery r x q (o ++ outer)) = T.of (execQuery r' y q outer) := by
  have hparts := hx.children _ _ h
  have horder := forall_mem_map.mp (hx.inner _ _ h)
  simp only [Part.children, forall_mem_append, forall_mem_map, forall_mem_cons]
    at hparts
  obtain ⟨hbody, hlimit, hoffset⟩ := hparts
  have hlim : ∀ rs, T.of (applyLimit r rs q.limit q.offset (o ++ outer)) =
      T.of (applyLimit r' rs q.limit q.offset outer) := fun rs => by
    simp only [applyLimit, T.of_bind, evalOpt_congr hr ho hlimit, evalOpt_congr hr ho hoffset]
  simp only [execQuery, T.of_bind, hx.withs _ q h]
  refine bind_congr fun _ => ?_
  split
  next s hs =>
    simp only [hs] at hbody horder
    have hs : Ok outer (.block s) := hx.children _ _ hbody _ (.head _)
    have hselect := execSelect_congr hr hx ho hs fun schema hschema row k hk =>
      horder k hk ⟨schema, row⟩ hschema
    simp only [T.of_bind, hselect, hlim]
  next hnone =>
    have hkeys : ∀ frame, ∀ k ∈ q.orderBy, Ok (outer ++ [frame]) (.expr k.expr) := by
      intro frame k hk
      refine horder k hk frame ?_
      split
      next s hs => exact absurd hs (hnone s)
      · exact forall_mem_nil _
    simp only [T.of_bind, execSetExpr_congr hr hx ho hbody, applyOrderBy, T.of_mapM,
      append_assoc, orderKeys_congr hr ho (hkeys _), hlim]

omit hr ho in
/-- **Contexts that are alike give the same observations**, at every depth, if the bodies of
functions do so where the parts do. -/
theorem evaluator_agree (hbody : ∀ depth,
      (∀ q, Ok [] (.query q) → T.of ((evaluator x depth).query q []) =
        T.of ((evaluator y depth).query q [])) →
      ∀ q, Body q → T.of ((evaluator x depth).query q []) = T.of ((evaluator y depth).query q []))
    (depth : Nat) : Agree T Ok Scope Body (evaluator x depth) (evaluator y depth) := by
  induction depth with
  | zero => exact ⟨fun _ _ _ _ _ _ => rfl, fun _ _ _ _ _ => rfl, fun _ _ => rfl⟩
  | succ depth ih =>
    have hquery : ∀ fs q, Ok fs (.query q) → ∀ o, Scope o →
        T.of ((evaluator x (depth + 1)).query q (o ++ fs)) =
          T.of ((evaluator y (depth + 1)).query q fs) :=
      fun fs q h o ho => execQuery_congr ih hx ho h
    exact ⟨fun _ e h o ho _ => evalExpr_congr ih hx ho h, hquery,
      hbody (depth + 1) fun q h => hquery [] q h [] hx.outside⟩

end

/-! ### Equal scans -/

section
variable {C : Crates}

/-- What is named in a text, in the views that it goes through and in the statements of the
functions that it calls. -/
inductive Mentioned (x : QueryExec C) (names : List Mention) : Mention → Prop where
  | own {m : Mention} (hm : m ∈ names) : Mentioned x names m
  | view {n : TableName} {v : QualifiedName} {q : Query} {m : Mention}
      (hn : Mentioned x names (.table n)) (hv : x.catalog.resolveTableName n.1 n.2 = some v)
      (hq : x.queries.viewQuery v = .ok q) (hm : m ∈ q.names) : Mentioned x names m
  | statement {f : UserFunction C} {text : List Query}
      {bound : List (SqlValue C) → List Query} {names_bound : _} {q : Query} {m : Mention}
      (hf : f ∈ x.queries.functions) (hn : Mentioned x names (.function f.name))
      (hbody : f.body = .queries text bound names_bound) (hq : q ∈ text)
      (hm : m ∈ q.names) : Mentioned x names m

/-- The functions that a text calls are SQL functions of SELECT statements. -/
def CallsQueries (x : QueryExec C) (names : List Mention) : Prop :=
  ∀ f ∈ x.queries.functions, Mentioned x names (.function f.name) →
    ∀ reads run, f.body ≠ .other reads run

/-- The names in the body of a function whose statements the executor runs itself. -/
def UserFunction.Within (N : Mention → Prop) (f : UserFunction C) : Prop :=
  match f.body with
  | .queries text _ _ => ∀ q ∈ text, Sql.Within N q.names
  | .other _ _ => True

/-- Two contexts that differ at most in the tables, with the same scans of the names
in `N`. A view or function among these names has its own names there. -/
structure SameScans (N : Mention → Prop) (x y : QueryExec C) : Prop where
  env : x.env = y.env
  queries : x.queries = y.queries
  catalog : x.catalog = y.catalog
  cte : x.cte = y.cte
  pgLocks : x.pgLocks = y.pgLocks
  index : ∀ ref : TableRef, N (.table (ref.schema, ref.name)) → ∀ e outer,
    (x.tryIndexScan ⟨ref, some e⟩ outer).map Candidates.toRowSet =
      (y.tryIndexScan ⟨ref, some e⟩ outer).map Candidates.toRowSet
  scan : ∀ ref : TableRef, N (.table (ref.schema, ref.name)) → x.tableScan ref = y.tableScan ref
  views : ∀ ref : TableRef, N (.table (ref.schema, ref.name)) → ∀ v q,
    x.catalog.resolveTableName ref.schema ref.name = some v → x.queries.viewQuery v = .ok q →
      Within N q.names
  bodies : ∀ f ∈ x.queries.functions, N (.function f.name) → f.Within N
  others : ∀ f ∈ x.queries.functions, N (.function f.name) → ∀ reads run,
    f.body = .other reads run → x.tablesNamed reads = y.tablesNamed reads

/-- Two evaluators that agree on what names only tables in `N`. -/
structure SameEval (N : Mention → Prop) (r r' : Evaluator C) : Prop where
  expr : ∀ e : SqlExpr, Within N e.names → r.expr e = r'.expr e
  query : ∀ q : Query, Within N q.names → r.query q = r'.query q

variable {N : Mention → Prop} {x y : QueryExec C} (hx : SameScans N x y) {q : Query}
include hx

omit hx in
theorem within_lookups {r : Evaluator C} {t : LoadedTable C}
    (h : Within N e.names) : ∀ e' ∈ e.lookups r t, Within N e'.names := by
  fun_induction SqlExpr.lookups r t e with
  | case1 e ih => exact ih h
  | case2 left right ihl ihr => grind [SqlExpr.names, within_append]
  | case3 left right => grind [SqlExpr.names, within_append]
  | case4 e => exact forall_mem_nil _

theorem SameScans.alike : AlikeIn .exact (fun _ p => Within N p.names) (· = [])
    (fun q => Within N q.names) x y where
  env := hx.env
  queries := hx.queries
  catalog := hx.catalog
  pgLocks := hx.pgLocks
  outside := rfl
  children := fun _ _ => Part.within_children
  inner := fun _ _ h c hc _ _ => Part.within_inner h c hc
  offsets := fun _ _ _ h => (within_call h).2
  separator := fun _ _ => secondArg_ok fun _ => Part.within_children
  lookups := by
    intro _ r s h e he
    have hselection := Part.within_inner h
    simp only [Part.inner, forall_mem_append, forall_mem_map] at hselection
    unfold QueryExec.lookups at he
    split at he
    next ref e' hsources hwhere =>
      cases hb : x.baseTable ref with
      | none => simp [hb] at he
      | some p =>
        rw [hb] at he
        exact within_lookups (hselection.1.1.1.1 e' (by simp [hwhere])) e he
    · cases he
  column := by
    rintro fs e table column - - o rfl
    rfl
  window := by
    intro f a a' b b' n ha hb
    rw [show a = a' from funext fun i => funext (ha i), show b = b' from funext hb]
  values := fun _ _ h => congrArg Except.toOption h
  cte := fun _ ref _ _ => by rw [hx.cte]
  withs := fun _ q _ => by simp only [checkWith, hx.cte]
  index := fun _ ref h => hx.index ref (h _ mem_cons_self)
  scan := fun _ ref h => hx.scan ref (h _ mem_cons_self)
  views := fun _ ref h => hx.views ref (h _ mem_cons_self)
  bodies := by
    rintro _ p _ h hname f hf rfl
    have hcalled := Part.within_callee h hname
    have hnames := hx.bodies f hf hcalled
    have hsees := hx.others f hf hcalled
    unfold UserFunction.Within at hnames
    unfold UserFunction.Alike
    cases hbody : f.body with
    | queries text bound names_bound =>
      rw [hbody] at hnames
      intro args q hq n hn
      obtain ⟨q₀, hq₀, hn₀⟩ := names_bound args q hq n hn
      exact hnames q₀ hq₀ n hn₀
    | other reads run =>
      refine ⟨hsees reads run hbody, ?_⟩
      simp only [SelectExec.itemsNamed, hx.cte]

theorem SameScans.agree (depth : Nat) : Agree .exact (fun _ p => Within N p.names) (· = [])
    (fun q => Within N q.names) (evaluator x depth) (evaluator y depth) :=
  evaluator_agree hx.alike (fun _ hquery => hquery) depth

/-- **Equal scans, equal results**, at every depth. -/
theorem evaluator_congr (depth : Nat) : SameEval N (evaluator x depth) (evaluator y depth) where
  expr := fun e h => funext fun fs => funext ((hx.agree depth).expr fs e h [] rfl)
  query := fun q h => funext fun fs => (hx.agree depth).query fs q h [] rfl

/-! ### WITH -/

theorem SameScans.withCte (name : String) (rs : RowSet C) :
    SameScans N (x.withCte name rs) (y.withCte name rs) where
  env := hx.env
  queries := hx.queries
  catalog := hx.catalog
  cte := congrArg (fun m => m.insert name rs) hx.cte
  pgLocks := hx.pgLocks
  index := hx.index
  scan := hx.scan
  views := hx.views
  bodies := hx.bodies
  others := hx.others

theorem SameScans.execSetExpr (depth : Nat) {s : SetExpr} (h : Within N s.names) :
    execSetExpr (evaluator x depth) x [] s = execSetExpr (evaluator y depth) y [] s :=
  execSetExpr_congr (hx.agree depth) hx.alike rfl h

theorem recursiveLoop_congr {term : SetExpr} (h : Within N term.names) (depth : Nat)
    (name : String) (schema : RowSchema) (types : List SqlType) (unionAll : Bool) (rounds : Nat)
    (acc working : List (Tuple C)) :
    recursiveLoop x depth name schema types unionAll term rounds acc working =
      recursiveLoop y depth name schema types unionAll term rounds acc working := by
  induction rounds generalizing acc working with
  | zero =>
    cases working with
    | nil => rfl
    | cons t working => simp only [recursiveLoop, hx.queries]
  | succ rounds ih =>
    cases working with
    | nil => rfl
    | cons t working =>
      have hy := hx.withCte name ⟨schema, t :: working⟩
      simp only [recursiveLoop, hy.execSetExpr depth h, hx.env, ih]

theorem execRecursiveCte_congr (h : Within N q.names) (depth : Nat) (name : String)
    (columns : List String) :
    execRecursiveCte x depth name columns q = execRecursiveCte y depth name columns q := by
  have hbody : Within N q.body.names := by
    obtain ⟨recursive, ctes, body, orderBy, limit, offset⟩ := q
    simp only [Query.names, within_append] at h
    exact h.2.1
  refine bind_congr fun _ => ?_
  split
  · next all left right heq =>
    simp only [heq, SetExpr.names, within_append] at hbody
    rw [hx.queries, hx.env, hx.execSetExpr depth hbody.1]
    simp only [recursiveLoop_congr hx hbody.2]
  · rfl

theorem execCte_congr (h : Within N q.names) (depth : Nat) (recursive : Bool) (name : String)
    (columns : List String) :
    execCte x depth recursive name columns q = execCte y depth recursive name columns q := by
  unfold execCte
  rw [hx.queries, execRecursiveCte_congr hx h, (evaluator_congr hx depth).query q h]

theorem materializeWith_congr {ctes : List Cte} (h : Within N (ctesNames ctes)) (depth : Nat)
    (recursive : Bool) :
    (∃ e, materializeWith depth recursive ctes x = .error e ∧
        materializeWith depth recursive ctes y = .error e) ∨
      ∃ x' y', materializeWith depth recursive ctes x = .ok x' ∧
        materializeWith depth recursive ctes y = .ok y' ∧ SameScans N x' y' := by
  induction ctes generalizing x y with
  | nil => exact .inr ⟨x, y, rfl, rfl, hx⟩
  | cons c ctes ih =>
    obtain ⟨name, columns, q⟩ := c
    simp only [ctesNames, Cte.names, within_append] at h
    unfold materializeWith
    rw [hx.queries, execCte_congr hx h.1]
    split
    · exact .inl ⟨_, rfl, rfl⟩
    · cases execCte y depth recursive name columns q with
      | error e => exact .inl ⟨e, rfl, rfl⟩
      | ok rs => exact ih (hx.withCte name rs) h.2

/-- **A SELECT statement reads nothing of the tables but the scans.** -/
theorem runQuery_congr (h : Within N q.names) (depth : Nat) :
    runQuery x depth q = runQuery y depth q := by
  have hctes : Within N (ctesNames q.ctes) := by
    obtain ⟨recursive, ctes, body, orderBy, limit, offset⟩ := q
    simp only [Query.names, within_append] at h
    exact h.1
  unfold runQuery
  rcases materializeWith_congr hx hctes depth q.recursive with ⟨e, hl, hl'⟩ | ⟨x', y', hl, hl', hxy⟩
  · rw [hl, hl']
  · rw [hl, hl']
    exact congrFun ((evaluator_congr hxy depth).query q h) []

end

end GuardianDb.Sql
