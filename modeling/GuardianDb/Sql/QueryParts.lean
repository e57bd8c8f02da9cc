/-
The parts of a query.

A part is evaluated in the scope of the rows around it. Most parts of a part are
evaluated in its own scope (`Part.children`), some under one more row (`Part.inner`),
which has the columns of the FROM items. A table that is named in a part of a part is
named in the part (`Part.within_children`, `Part.within_inner`).
-/
import GuardianDb.Sql.QueryExec

namespace GuardianDb.Sql

open Std Relational List

inductive Part where
  | expr (e : SqlExpr)
  | call (f : Function)
  | factor (tf : TableFactor)
  | block (s : SelectBlock)
  | set (s : SetExpr)
  | query (q : Query)

def TableWithJoins.factors : TableWithJoins → List TableFactor
  | .mk relation joins => relation :: joins.map fun | .mk relation _ => relation

def SelectBlock.factors (s : SelectBlock) : List TableFactor :=
  s.sources.flatMap TableWithJoins.factors

def JoinOperator.on? : JoinOperator → Option SqlExpr
  | .conditional _ (.on e) => some e
  | _ => none

/-- The ON clauses of joins, each with the relations it speaks of. -/
def onClauses (before : List TableFactor) : List Join → List (List TableFactor × SqlExpr)
  | [] => []
  | .mk relation op :: joins =>
      op.on?.toList.map (relation :: before, ·) ++ onClauses (relation :: before) joins

def TableWithJoins.ons : TableWithJoins → List (List TableFactor × SqlExpr)
  | .mk relation joins => onClauses [relation] joins

namespace Part

/-- The parts that a part is made of and that are evaluated in its scope. -/
def children : Part → List Part
  | .expr e =>
      match e with
      | .ident _ | .compound _ | .literal _ | .unsupported _ => []
      | .nested e | .unary _ e | .isNull _ e | .isTruth _ _ e | .cast e _ | .extract _ e
      | .collate e | .prefixed e => [expr e]
      | .binary a _ b | .isDistinctFrom _ a b | .like _ _ a b _ | .quantified _ a _ b
      | .position a b => [expr a, expr b]
      | .between e _ low high => [expr e, expr low, expr high]
      | .inList e list _ => expr e :: list.map expr
      | .inSubquery e q _ => [expr e, query q]
      | .case operand conditions elseResult =>
          operand.toList.map expr ++
            (conditions.flatMap fun c => [expr c.condition, expr c.result]) ++
            elseResult.toList.map expr
      | .existsSubquery q _ | .subquery q => [query q]
      | .function f => [call f]
      | .tuple items | .array items => items.map expr
      | .substring e from? for? => expr e :: from?.toList.map expr ++ for?.toList.map expr
      | .trim e what => expr e :: what.toList.map expr
  | .call f => (windowOperands f).map expr
  | .factor tf =>
      match tf with
      | .table _ | .unsupported _ => []
      | .function _ _ _ args _ => (args.filterMap FunctionArg.expr?).map expr
      | .derived q _ => [query q]
  | .block s => s.factors.map factor
  | .set s =>
      match s with
      | .select s => [block s]
      | .query q => [query q]
      | .values rows => rows.flatMap fun | .mk content => content.map expr
      | .setOperation _ _ left right => [set left, set right]
      | .unsupported _ => []
  | .query q => set q.body :: (q.limit.toList ++ q.offset.toList).map expr

/-- The expressions of a part that are evaluated under one more row, each with the
relations whose columns the row has. -/
def inner : Part → List (List TableFactor × SqlExpr)
  | .block s => (s.selection.toList ++ s.having.toList ++ s.itemExprs ++ s.groupBy).map
      (s.factors, ·) ++ s.sources.flatMap TableWithJoins.ons
  | .query q => q.orderBy.map fun k =>
      (match q.body with | .select s => s.factors | _ => [], k.expr)
  | _ => []

def names : Part → List Mention
  | .expr e => e.names
  | .call f => f.names
  | .factor tf => tf.names
  | .block s => s.names
  | .set s => s.names
  | .query q => q.names

end Part

/-- All of these names are among `N`. -/
def Within (N : Mention → Prop) (names : List Mention) : Prop := ∀ n ∈ names, N n

variable {f : Function}

section
variable {N : Mention → Prop}

@[simp] theorem within_nil : Within N [] ↔ True := by simp [Within]

@[simp] theorem within_cons {m : Mention} {l : List Mention} :
    Within N (m :: l) ↔ N m ∧ Within N l := forall_mem_cons

@[simp] theorem within_append {a b : List Mention} :
    Within N (a ++ b) ↔ Within N a ∧ Within N b := by
  simp only [Within, mem_append, or_imp, forall_and]

@[simp] theorem within_exprs {es : List SqlExpr} :
    Within N (exprsNames es) ↔ ∀ e ∈ es, Within N e.names := by
  induction es with
  | nil => simp [exprsNames]
  | cons e es ih => simp [exprsNames, ih]

@[simp] theorem within_opt {e : Option SqlExpr} :
    Within N (optNames e) ↔ ∀ e' ∈ e.toList, Within N e'.names := by
  cases e <;> simp [optNames]

@[simp] theorem within_whens {cs : List CaseWhen} : Within N (whensNames cs) ↔
    ∀ c ∈ cs, Within N c.condition.names ∧ Within N c.result.names := by
  induction cs with
  | nil => simp [whensNames]
  | cons c cs ih =>
    obtain ⟨condition, result⟩ := c
    simp only [whensNames, CaseWhen.names, within_append, ih, forall_mem_cons]
    rfl

@[simp] theorem within_args {as : List FunctionArg} : Within N (argsNames as) ↔
    ∀ e ∈ as.filterMap FunctionArg.expr?, Within N e.names := by
  induction as with
  | nil => simp [argsNames]
  | cons a as ih => cases a <;> simp_all [argsNames, FunctionArg.names, FunctionArg.expr?]

@[simp] theorem within_order {os : List OrderByExpr} :
    Within N (orderNames os) ↔ ∀ o ∈ os, Within N o.expr.names := by
  induction os with
  | nil => simp [orderNames]
  | cons o os ih =>
    obtain ⟨e, asc, nullsFirst⟩ := o
    simp [orderNames, OrderByExpr.names, OrderByExpr.expr, ih]

@[simp] theorem within_items {is : List SelectItem} : Within N (itemsNames is) ↔
    ∀ e ∈ is.filterMap SelectItem.expr?, Within N e.names := by
  induction is with
  | nil => simp [itemsNames]
  | cons i is ih =>
    cases i <;> simp_all [itemsNames, SelectItem.names, SelectItem.expr?]

theorem within_joins {js : List Join} (h : Within N (joinsNames js))
    (before : List TableFactor) :
    (∀ tf ∈ js.map (fun | .mk relation _ => relation), Within N (TableFactor.names tf)) ∧
      ∀ p ∈ onClauses before js, Within N (p.2.names) := by
  induction js generalizing before with
  | nil => simp [onClauses]
  | cons j js ih =>
    obtain ⟨relation, op⟩ := j
    simp only [joinsNames, Join.names, within_append] at h
    have ih := ih h.2 (relation :: before)
    have hon : ∀ e ∈ op.on?.toList, Within N e.names := by
      unfold JoinOperator.on?
      split
      next keyword e =>
        cases keyword <;>
          simpa [JoinOperator.names, JoinConstraint.names] using h.1.2
      · simp
    refine ⟨forall_mem_cons.mpr ⟨h.1.1, ih.1⟩, ?_⟩
    simp only [onClauses, forall_mem_append, forall_mem_map]
    exact ⟨hon, ih.2⟩

theorem within_sources {ss : List TableWithJoins} (h : Within N (sourcesNames ss)) :
    (∀ tf ∈ ss.flatMap TableWithJoins.factors, Within N tf.names) ∧
      ∀ p ∈ ss.flatMap TableWithJoins.ons, Within N (p.2.names) := by
  induction ss with
  | nil => simp
  | cons s ss ih =>
    obtain ⟨relation, joins⟩ := s
    simp only [sourcesNames, TableWithJoins.names, within_append] at h
    have hjoins := within_joins h.1.2 [relation]
    simp only [flatMap_cons, TableWithJoins.factors, TableWithJoins.ons,
      forall_mem_append, forall_mem_cons]
    exact ⟨⟨⟨h.1.1, hjoins.1⟩, (ih h.2).1⟩, hjoins.2, (ih h.2).2⟩

theorem within_rows {rows : List ValuesRow} (h : Within N (rowsNames rows)) :
    ∀ row ∈ rows, Within N row.names := by
  induction rows with
  | nil => simp
  | cons row rows ih => simp_all [rowsNames]

/-- The user-defined function that a part calls, if there is one of that name. -/
def Part.callee? : Part → Option String
  | .call f => some f.name
  | .factor (.function _ _ name _ _) => some name
  | _ => none

/-- A part names the function that it calls. -/
theorem Part.within_callee {p : Part} {name : String} (h : Within N p.names)
    (hcall : p.callee? = some name) : N (.function name) := by
  unfold callee? at hcall
  split at hcall
  next f =>
    cases hcall
    obtain ⟨name, base, text, args, distinct, filter, window⟩ := f
    exact (within_cons.mp h).1
  next call schema name args as? =>
    cases hcall
    simp only [names, TableFactor.names, within_append, within_cons] at h
    exact h.2.1
  · cases hcall

/-- The operands of a call and the offsets of its window name tables that the call names. -/
theorem within_call (h : Within N f.names) :
    (∀ e ∈ windowOperands f, Within N e.names) ∧
      ∀ e ∈ windowOffsets f, Within N e.names := by
  obtain ⟨name, base, text, args, distinct, filter, window⟩ := f
  simp only [Function.names, within_cons, within_append, within_opt] at h
  obtain ⟨-, hargs, hfilter, hwindow⟩ := h
  have hexprs : ∀ e ∈ args.exprs, Within N e.names := by
    cases args with
    | list args => exact within_args.mp hargs
    | _ => exact forall_mem_nil _
  simp only [forall_mem_append, windowOperands]
  cases window with
  | none => exact ⟨⟨⟨hexprs, hfilter⟩, forall_mem_nil _⟩, forall_mem_nil _⟩
  | some spec =>
    obtain ⟨partitionBy, orderBy, offsets⟩ := spec
    simp only [specNames, WindowSpec.names, within_append, within_exprs, within_order] at hwindow
    simp only [forall_mem_append, forall_mem_map]
    exact ⟨⟨⟨hexprs, hfilter⟩, hwindow.1, hwindow.2.1⟩, hwindow.2.2⟩

/-- The names in the children of a part are names in the part. -/
theorem Part.within_children {p : Part} (h : Within N p.names) :
    ∀ c ∈ p.children, Within N c.names := by
  cases p with
  | expr e =>
    cases e <;> simp_all only [children, names, SqlExpr.names, within_append,
      within_exprs, within_opt, within_whens, forall_mem_cons, forall_mem_append,
      forall_mem_map, forall_mem_flatMap, not_mem_nil, false_imp_iff,
      implies_true, and_self]
  | call f => exact forall_mem_map.mpr (within_call h).1
  | factor tf =>
    cases tf with
    | function call schema name args as? =>
      simp only [names, TableFactor.names, within_append, within_cons,
        within_args] at h
      simpa only [children, forall_mem_map, names] using h.2.2
    | _ => simp_all [children, names, TableFactor.names]
  | block s =>
    obtain ⟨distinct, projection, sources, selection, groupBy, having⟩ := s
    simp only [names, SelectBlock.names, within_append] at h
    exact forall_mem_map.mpr (within_sources h.1).1
  | set s =>
    cases s with
    | values rows =>
      simp only [children, forall_mem_flatMap]
      rintro ⟨content⟩ hrow
      have hcontent := within_rows h _ hrow
      simpa only [ValuesRow.names, within_exprs, forall_mem_map, names] using hcontent
    | _ => simp_all [children, names, SetExpr.names]
  | query q =>
    obtain ⟨recursive, ctes, body, orderBy, limit, offset⟩ := q
    simp only [names, Query.names, within_append, within_opt] at h
    simp only [children, forall_mem_append, forall_mem_map, forall_mem_cons]
    exact ⟨h.2.1, h.2.2.2.1, h.2.2.2.2⟩

theorem Part.within_inner {p : Part} (h : Within N p.names) :
    ∀ c ∈ p.inner, Within N (c.2.names) := by
  cases p with
  | block s =>
    obtain ⟨distinct, projection, sources, selection, groupBy, having⟩ := s
    simp only [names, SelectBlock.names, within_append, within_opt, within_items,
      within_exprs] at h
    simp only [inner, forall_mem_append, forall_mem_map]
    exact ⟨⟨⟨⟨h.2.1, h.2.2.1⟩, h.2.2.2.1⟩, h.2.2.2.2⟩, (within_sources h.1).2⟩
  | query q =>
    obtain ⟨recursive, ctes, body, orderBy, limit, offset⟩ := q
    simp only [names, Query.names, within_append, within_order] at h
    exact forall_mem_map.mpr h.2.2.1
  | _ => exact forall_mem_nil _

end

/-! ### Calls inside an expression -/

theorem exprsCalls_eq (es : List SqlExpr) : exprsCalls es = es.flatMap SqlExpr.calls := by
  induction es with
  | nil => rfl
  | cons e es ih => rw [exprsCalls, ih, flatMap_cons]

theorem optCalls_eq (e : Option SqlExpr) : optCalls e = e.toList.flatMap SqlExpr.calls := by
  cases e <;> simp [optCalls]

theorem whensCalls_eq (cs : List CaseWhen) :
    whensCalls cs = cs.flatMap fun c => c.condition.calls ++ c.result.calls := by
  induction cs with
  | nil => rfl
  | cons c cs ih =>
    obtain ⟨condition, result⟩ := c
    rw [whensCalls, ih, flatMap_cons]
    rfl

theorem argCalls_eq (f : Function) : f.argCalls = f.args.exprs.flatMap SqlExpr.calls := by
  obtain ⟨name, base, text, args, distinct, filter, window⟩ := f
  cases args with
  | list args =>
    change argsCalls args = (args.filterMap FunctionArg.expr?).flatMap SqlExpr.calls
    induction args with
    | nil => rfl
    | cons a args ih =>
      cases a <;>
        simp [argsCalls, FunctionArg.calls, filterMap_cons, FunctionArg.expr?, ih]
  | _ => rfl

/-- The operands of a call are expressions in it. -/
theorem mem_windowOperands {e : SqlExpr} (h : e ∈ f.args.exprs) :
    e ∈ windowOperands f := by
  obtain ⟨name, base, text, args, distinct, filter, window⟩ := f
  exact mem_append_left _ (mem_append_left _ h)

theorem sizeOf_args {e : SqlExpr} (h : e ∈ f.args.exprs) : sizeOf e < sizeOf f := by
  obtain ⟨name, base, text, args, distinct, filter, window⟩ := f
  cases args with
  | list args =>
    obtain ⟨a, ha, hae⟩ := mem_filterMap.mp h
    have := sizeOf_lt_of_mem ha
    cases a <;> cases hae
    simp at this ⊢
    omega
  | _ => cases h

theorem sizeOf_opt {o : Option SqlExpr} {e : SqlExpr} (h : e ∈ o.toList) : sizeOf e < sizeOf o := by
  cases o <;> simp_all

theorem sizeOf_when {cs : List CaseWhen} {condition result : SqlExpr}
    (h : CaseWhen.mk condition result ∈ cs) : sizeOf condition + sizeOf result < sizeOf cs := by
  have := sizeOf_lt_of_mem h
  simp at this
  omega

/-- The calls in an expression are parts of it. -/
theorem call_ok {Ok : Part → Prop} (hok : ∀ p, Ok p → ∀ c ∈ p.children, Ok c)
    (e : SqlExpr) (h : Ok (.expr e)) (hf : f ∈ e.calls) : Ok (.call f) := by
  have hparts : ∀ c ∈ (Part.expr e).children, Ok c := hok _ h
  cases e <;> simp only [SqlExpr.calls, exprsCalls_eq, optCalls_eq, whensCalls_eq, argCalls_eq,
    mem_append, mem_cons, mem_flatMap, not_mem_nil] at hf
  case nested e | unary op e | isNull negated e | isTruth value negated e | cast e dataType
      | collate e | inSubquery e q negated =>
    exact call_ok hok e (hparts _ mem_cons_self) hf
  case binary a op b | isDistinctFrom negated a b | like insensitive negated a b escape =>
    simp only [Part.children, forall_mem_cons] at hparts
    exact hf.elim (call_ok hok a hparts.1) (call_ok hok b hparts.2.1)
  case between e negated low high =>
    simp only [Part.children, forall_mem_cons] at hparts
    rcases hf with hf | hf | hf
    · exact call_ok hok e hparts.1 hf
    · exact call_ok hok low hparts.2.1 hf
    · exact call_ok hok high hparts.2.2.1 hf
  case inList e list negated =>
    simp only [Part.children, forall_mem_cons, forall_mem_map] at hparts
    rcases hf with hf | ⟨e', he', hf⟩
    · exact call_ok hok e hparts.1 hf
    · have hsize := sizeOf_lt_of_mem he'
      exact call_ok hok e' (hparts.2 e' he') hf
  case case operand conditions elseResult =>
    simp only [Part.children, forall_mem_append, forall_mem_map,
      forall_mem_flatMap, forall_mem_cons] at hparts
    rcases hf with ⟨e', he', hf⟩ | ⟨⟨condition, result⟩, hc, hf | hf⟩ | ⟨e', he', hf⟩
    · have hsize := sizeOf_opt he'
      exact call_ok hok e' (hparts.1.1 e' he') hf
    · have hsize : sizeOf condition + sizeOf result < sizeOf conditions := sizeOf_when hc
      exact call_ok hok condition (hparts.1.2 _ hc).1 hf
    · have hsize : sizeOf condition + sizeOf result < sizeOf conditions := sizeOf_when hc
      exact call_ok hok result (hparts.1.2 _ hc).2.1 hf
    · have hsize := sizeOf_opt he'
      exact call_ok hok e' (hparts.2 e' he') hf
  case function g =>
    have hg : Ok (.call g) := hparts _ mem_cons_self
    rcases hf with rfl | ⟨e', he', hf⟩
    · exact hg
    · have hsize := sizeOf_args he'
      refine call_ok hok e' (hok _ hg _ ?_) hf
      exact mem_map_of_mem (mem_windowOperands he')
termination_by sizeOf e
decreasing_by
  all_goals
    subst_vars
    simp <;> omega

section
variable {Ok : Part → Prop} (hok : ∀ p, Ok p → ∀ c ∈ p.children, Ok c)
include hok

/-- The operands of a call are parts of it. -/
theorem operand_ok (h : Ok (.call f)) : ∀ e ∈ f.args.exprs, Ok (.expr e) :=
  fun _ he => hok _ h _ (mem_map_of_mem (mem_windowOperands he))

/-- The argument of UNNEST is part of the expression. -/
theorem unnestArg_ok {e arg : SqlExpr} (h : Ok (.expr e)) (harg : e.unnestArg = some arg) :
    Ok (.expr arg) := by
  unfold SqlExpr.unnestArg at harg
  split at harg
  next f =>
    refine operand_ok hok (hok _ h _ mem_cons_self) arg ?_
    split at harg
    next e' rest hargs =>
      split at harg
      · cases harg
        rw [hargs]
        exact mem_cons_self
      · cases harg
    · cases harg
  · cases harg

theorem windowCalls_ok {s : SelectBlock} {orderBy : List OrderByExpr}
    (h : ∀ e ∈ s.itemExprs, Ok (.expr e)) (hk : ∀ k ∈ orderBy, Ok (.expr k.expr)) :
    ∀ f ∈ s.windowCalls orderBy, Ok (.call f) := by
  intro f hf
  have hcall := (mem_filter.mp (mem_of_mem_dedupeBy hf)).1
  obtain ⟨e, he, hfe⟩ := mem_flatMap.mp hcall
  refine call_ok hok e ?_ hfe
  exact forall_mem_append.mpr ⟨h, forall_mem_map.mpr hk⟩ e he

theorem aggregates_ok {s : SelectBlock} (h : ∀ e ∈ s.itemExprs ++ s.having.toList, Ok (.expr e)) :
    ∀ f ∈ s.aggregates, Ok (.call f) := by
  intro f hf
  obtain ⟨e, he, hfe⟩ := mem_flatMap.mp (mem_filter.mp hf).1
  exact call_ok hok e (h e he) hfe

/-- The argument and the filter of an aggregate. -/
theorem aggregate_ok (h : Ok (.call f)) :
    (∀ arg star, aggregateArg f.args = .ok (arg, star) → ∀ e ∈ arg.toList, Ok (.expr e)) ∧
      ∀ e ∈ f.filter.toList, Ok (.expr e) := by
  have hargs := operand_ok hok h
  refine ⟨fun arg star he => ?_, fun e he => ?_⟩
  · unfold aggregateArg at he
    split at he <;> cases he <;> simp_all [FunctionArguments.exprs, FunctionArg.expr?]
  · obtain ⟨name, base, text, args, distinct, filter, window⟩ := f
    exact hok _ h _ (mem_map_of_mem
      (mem_append_left _ (mem_append_right _ he)))

/-- The second argument of an aggregate. -/
theorem secondArg_ok (h : Ok (.call f)) :
    ∀ e ∈ (aggregateSecondArg f.args).toList, Ok (.expr e) := by
  have hargs := operand_ok hok h
  unfold aggregateSecondArg
  split
  next a e rest heq => grind [FunctionArguments.exprs, FunctionArg.expr?]
  · exact fun e he => nomatch he

end

end GuardianDb.Sql
