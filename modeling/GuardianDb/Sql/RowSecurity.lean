/-
Row-level security (`sql/rls.rs`) and what SELECT shows of the rows it hides.

`initRls` computes, before a statement runs, which row ids of each loaded table its
role may not see. Both scans of the executor leave these ids out, so two databases
that agree on what is left give every query the same scans (`SameSight`), and by the
locality of queries the same result.

  * `initRls_local` — the hidden rows under policies that look at the row alone.
  * `rls_noninterference` — SELECT does not depend on hidden rows.
-/
import GuardianDb.Lib.OrderedMap
import GuardianDb.Sql.ForUpdate
import GuardianDb.Sql.QueryLocality

namespace GuardianDb.Sql

open List hiding getElem?_insert getElem?_map map_map
open Std Relational Fallible ExtTreeMap

/-! ### Roles and policies -/

def bypassRoles : List String := ["service_role"]

def ownerRoles : List String := ["postgres", "guardian"]

def roleBypassesRlsOn (role : String) (t : Table) : Bool :=
  bypassRoles.contains role || (ownerRoles.contains role && !t.rlsForced)

/-- `Phase`: which expression of a policy applies. -/
inductive PolicyPhase where
  | usingClause
  | checkClause
  deriving DecidableEq, Repr

structure CompiledPolicy where
  cmd : PolicyCmd
  permissive : Bool
  usingExpr : Option SqlExpr
  checkExpr : Option SqlExpr

/-- `expr_for`; WITH CHECK falls back to USING. -/
def CompiledPolicy.exprFor (p : CompiledPolicy) : PolicyPhase → Option SqlExpr
  | .usingClause => p.usingExpr
  | .checkClause => p.checkExpr.or p.usingExpr

def CompiledPolicy.appliesTo (p : CompiledPolicy) (cmd : PolicyCmd) : Bool :=
  p.cmd = .all || p.cmd = cmd

/-- The role of a session, and the parser for stored expressions. -/
structure RlsEnv where
  username : String
  parseExpr : String → Except String SqlExpr

/-- Row security filters the table for the role. -/
def RlsEnv.enforces (rls : RlsEnv) (t : Table) : Bool :=
  t.rlsEnabled && !roleBypassesRlsOn rls.username t

def parseStored (rls : RlsEnv) (text : Option String) (policy : String) :
    Except SqlError (Option SqlExpr) :=
  match text with
  | none => .ok none
  | some t =>
      match rls.parseExpr t with
      | .ok e => .ok (some e)
      | .error m => .error (.internal ("stored expression of policy \"" ++ policy ++
          "\" failed to parse: " ++ m))

def compilePolicies (rls : RlsEnv) (t : Table) : Except SqlError (List CompiledPolicy) :=
  (t.policies.filter fun p => p.roles.isEmpty || p.roles.contains rls.username).mapM fun p => do
    let u ← parseStored rls p.usingExpr p.name
    let c ← parseStored rls p.checkExpr p.name
    return ⟨p.cmd, p.permissive, u, c⟩

def compileAll (rls : RlsEnv) (tables : List (QualifiedName × Table)) :
    Except SqlError (List (QualifiedName × List CompiledPolicy)) :=
  tables.mapM fun p => do return (p.1, ← compilePolicies rls p.2)

variable {compiled : List (QualifiedName × List CompiledPolicy)} {policies : List CompiledPolicy}
  {target : Option (QualifiedName × PolicyCmd)} {q : QualifiedName}
  {hidden : ExtTreeSet String × ExtTreeSet String} {tables : List (QualifiedName × Table)}

section
variable {C : Crates}

/-- The loop of `rls_row_passes`: some permissive policy passes and every restrictive
one does. -/
def policiesPass (value : SqlExpr → Except SqlError (SqlValue C)) (cmd : PolicyCmd)
    (phase : PolicyPhase) : List CompiledPolicy → Bool → Except SqlError Bool
  | [], granted => .ok granted
  | p :: ps, granted =>
      match if p.appliesTo cmd then p.exprFor phase else none with
      | none => policiesPass value cmd phase ps granted
      | some e =>
          -- once granted, permissive policies are not evaluated any more
          if p.permissive && granted then policiesPass value cmd phase ps granted
          else do
            let pass := truthy (← value e) == some true
            if p.permissive then policiesPass value cmd phase ps pass
            else if pass then policiesPass value cmd phase ps granted
            else return false

structure RlsContext where
  policies : ExtTreeMap QualifiedName (List CompiledPolicy)
  selectHidden : ExtTreeMap QualifiedName (ExtTreeSet String)
  dmlHidden : ExtTreeMap QualifiedName (ExtTreeSet String)

/-- The ids hidden in a table, none if it has no entry. -/
def hiddenIn (hidden : ExtTreeMap QualifiedName (ExtTreeSet String)) (q : QualifiedName) :
    ExtTreeSet String := hidden[q]?.getD ∅

/-- A context whose scans leave out hidden rows. -/
def QueryExec.hiding (x : QueryExec C) (hidden : ExtTreeMap QualifiedName (ExtTreeSet String)) :
    QueryExec C := { x with rlsHidden := hiddenIn hidden }

section
variable (x : QueryExec C) (depth : Nat)

/-- `rls_row_passes` for the policies of a table. -/
def rowPasses (policies : List CompiledPolicy) (t : Table) (cmd : PolicyCmd) (phase : PolicyPhase)
    (values : RowValues C) : Except SqlError Bool :=
  policiesPass (fun e =>
    (evaluator x depth).expr e [⟨tableSchema t t.name, rowTuple t values⟩] none)
    cmd phase policies false

/-- A row passes the command of the statement, if that is an UPDATE or DELETE. -/
def rowReached (policies : List CompiledPolicy) (t : Table) (cmd : Option PolicyCmd)
    (values : RowValues C) : Except SqlError Bool :=
  match cmd with
  | some cmd => rowPasses x depth policies t cmd .usingClause values
  | none => .ok true

/-- One row of a table: it is added to those hidden from SELECT and to those hidden
from the UPDATE or DELETE of the statement. -/
def hideRow (policies : List CompiledPolicy) (t : Table) (cmd : Option PolicyCmd)
    (hidden : ExtTreeSet String × ExtTreeSet String) (row : String × RowValues C) :
    Except SqlError (ExtTreeSet String × ExtTreeSet String) := do
  let seen ← rowPasses x depth policies t .select .usingClause row.2
  let reached ← rowReached x depth policies t cmd row.2
  return (if seen then hidden.1 else hidden.1.insert row.1,
    if reached then hidden.2 else hidden.2.insert row.1)

def hideRows (policies : List CompiledPolicy) (t : Table) (cmd : Option PolicyCmd)
    (rows : List (String × RowValues C)) :
    Except SqlError (ExtTreeSet String × ExtTreeSet String) :=
  rows.foldlM (hideRow x depth policies t cmd) (∅, ∅)

/-- The loaded tables that row security filters, in the order of their names. -/
def enforcedTables (rls : RlsEnv) : List (QualifiedName × LoadedTable C) :=
  x.tables.toList.filter fun p => rls.enforces p.2.table

/-- One table of `init_rls`. The policies see the tables before it filtered, and the
others whole. -/
def initTable (target : Option (QualifiedName × PolicyCmd)) (ctx : RlsContext)
    (p : QualifiedName × LoadedTable C) : Except SqlError RlsContext := do
  let cmd := (target.filter fun t => t.1 = p.1).map Prod.snd
  let hidden ← hideRows (x.hiding ctx.selectHidden) depth (ctx.policies[p.1]?.getD [])
    p.2.table cmd p.2.rows.toList
  return {
    policies := ctx.policies
    selectHidden := ctx.selectHidden.insert p.1 hidden.1
    dmlHidden := if cmd.isSome then ctx.dmlHidden.insert p.1 hidden.2 else ctx.dmlHidden }

/-- `init_rls`, with the target of an UPDATE or DELETE. A role that bypasses row
security has no enforced tables. -/
def initRls (rls : RlsEnv) (target : Option (QualifiedName × PolicyCmd)) :
    Except SqlError RlsContext := do
  let compiled ← compileAll rls ((enforcedTables x rls).map fun p => (p.1, p.2.table))
  (enforcedTables x rls).foldlM (initTable x depth target) ⟨ExtTreeMap.ofList compiled, ∅, ∅⟩

/-- A SELECT statement of a role. -/
def selectAs (rls : RlsEnv) (q : Query) : Except SqlError (RowSet C) := do
  let ctx ← initRls x depth rls none
  runQuery (x.hiding ctx.selectHidden) depth q

end

/-! ### The hidden rows -/

variable {l : List (QualifiedName × LoadedTable C)}

section
variable {x : QueryExec C} {depth : Nat}

variable {policies : List CompiledPolicy} {t : Table} {cmd : Option PolicyCmd}
  {rows : List (String × RowValues C)}

/-- **Hidden are the rows that do not pass**, from SELECT and from the command. -/
theorem hideRows_ok (h : hideRows x depth policies t cmd rows = .ok hidden) :
    (∀ rid, rid ∈ hidden.1 ↔ ∃ values, (rid, values) ∈ rows ∧
        rowPasses x depth policies t .select .usingClause values = .ok false) ∧
      ∀ rid, rid ∈ hidden.2 ↔ ∃ values, (rid, values) ∈ rows ∧
        rowReached x depth policies t cmd values = .ok false := by
  -- the loop adds to the sets it starts from
  have hloop : ∀ (rows : List (String × RowValues C)) (h₀ h₁ : ExtTreeSet String × ExtTreeSet String),
      rows.foldlM (hideRow x depth policies t cmd) h₀ = .ok h₁ →
      (∀ rid, rid ∈ h₁.1 ↔ rid ∈ h₀.1 ∨ ∃ values, (rid, values) ∈ rows ∧
          rowPasses x depth policies t .select .usingClause values = .ok false) ∧
        ∀ rid, rid ∈ h₁.2 ↔ rid ∈ h₀.2 ∨ ∃ values, (rid, values) ∈ rows ∧
          rowReached x depth policies t cmd values = .ok false := by
    intro rows
    induction rows with
    | nil =>
      intro h₀ h₁ hrun
      cases hrun
      simp
    | cons row rows ih =>
      intro h₀ h₂ hrun
      rw [foldlM_cons] at hrun
      obtain ⟨h₁, hstep, hrest⟩ := except_bind_ok.mp hrun
      obtain ⟨seen, hseen, hstep₁⟩ := except_bind_ok.mp hstep
      obtain ⟨reached, hreached, hstep₂⟩ := except_bind_ok.mp hstep₁
      cases hstep₂
      obtain ⟨hsel, hdml⟩ := ih _ _ hrest
      refine ⟨fun rid => ?_, fun rid => ?_⟩
      · grind
      · grind
  obtain ⟨hsel, hdml⟩ := hloop rows (∅, ∅) hidden h
  exact ⟨fun rid => by simpa using hsel rid, fun rid => by simpa using hdml rid⟩

/-- Every row of a table that is filtered has been judged. -/
theorem hideRows_judged
    (h : hideRows x depth policies t cmd rows = .ok hidden) {row : String × RowValues C}
    (hrow : row ∈ rows) :
    (∃ b, rowPasses x depth policies t .select .usingClause row.2 = .ok b) ∧
      ∃ b, rowReached x depth policies t cmd row.2 = .ok b := by
  obtain ⟨h₀, h₁, hstep⟩ := except_foldlM_mem h hrow
  obtain ⟨seen, hseen, hstep₁⟩ := except_bind_ok.mp hstep
  obtain ⟨reached, hreached, -⟩ := except_bind_ok.mp hstep₁
  exact ⟨⟨seen, hseen⟩, reached, hreached⟩

/-- The rows of a table are hidden without an error if every row can be judged. -/
theorem exists_hideRows
    (hsel : ∀ row ∈ rows, ∃ b, rowPasses x depth policies t .select .usingClause row.2 = .ok b)
    (hcmd : ∀ row ∈ rows, ∃ b, rowReached x depth policies t cmd row.2 = .ok b) :
    ∃ hidden, hideRows x depth policies t cmd rows = .ok hidden := by
  refine except_foldlM_total (I := fun _ => True) (fun row hrow h₀ _ => ?_) trivial
  obtain ⟨seen, hseen⟩ := hsel row hrow
  obtain ⟨reached, hreached⟩ := hcmd row hrow
  rw [hideRow, hseen, hreached]
  exact ⟨_, rfl, trivial⟩

/-! ### The loop over the tables -/

/-- The command of the statement on a table. -/
def commandOn (target : Option (QualifiedName × PolicyCmd)) (q : QualifiedName) :
    Option PolicyCmd := (target.filter fun t => t.1 = q).map Prod.snd

/-- **What `init_rls` leaves for each table**: the rows that do not pass its policies,
which see the tables before it filtered. -/
theorem initTables_ok {ctx₀ ctx : RlsContext}
    (hd : (l.map Prod.fst).Nodup) (h : l.foldlM (initTable x depth target) ctx₀ = .ok ctx) :
    (∀ q ∉ l.map Prod.fst, ctx.selectHidden[q]? = ctx₀.selectHidden[q]? ∧
        ctx.dmlHidden[q]? = ctx₀.dmlHidden[q]?) ∧
      ∀ l₁ q t l₂, l = l₁ ++ (q, t) :: l₂ → ∃ before hidden,
        hideRows (x.hiding before) depth (ctx₀.policies[q]?.getD []) t.table (commandOn target q)
            t.rows.toList = .ok hidden ∧
          ctx.selectHidden[q]? = some hidden.1 ∧
          ((commandOn target q).isSome → ctx.dmlHidden[q]? = some hidden.2) ∧
          ∀ q', before[q']? = if q' ∈ l₁.map Prod.fst then ctx.selectHidden[q']?
            else ctx₀.selectHidden[q']? := by
  induction l generalizing ctx₀ with
  | nil =>
    cases h
    exact ⟨fun _ _ => ⟨rfl, rfl⟩, fun l₁ q t l₂ hl => by simp at hl⟩
  | cons p l ih =>
    obtain ⟨q₀, t₀⟩ := p
    rw [foldlM_cons] at h
    obtain ⟨ctx₁, hstep, hrest⟩ := except_bind_ok.mp h
    obtain ⟨hidden, hhide, hctx₁⟩ := except_bind_ok.mp hstep
    cases hctx₁
    rw [map_cons, nodup_cons] at hd
    obtain ⟨hkeep, hof⟩ := ih hd.2 hrest
    -- the entry of the first table stays
    obtain ⟨hsel₀, hdml₀⟩ := hkeep q₀ hd.1
    dsimp only at hsel₀ hdml₀
    rw [getElem?_insert_self] at hsel₀
    refine ⟨fun q hq => ?_, fun l₁ q t l₂ hl => ?_⟩
    · rw [map_cons, mem_cons, not_or] at hq
      obtain ⟨hs, hm⟩ := hkeep q hq.2
      have hne : q₀ ≠ q := Ne.symm hq.1
      dsimp only at hs hm
      rw [getElem?_insert] at hs
      refine ⟨by simpa [hne] using hs, hm.trans ?_⟩
      split
      · grind
      · rfl
    · cases l₁ with
      | nil =>
        obtain ⟨hp, rfl⟩ := List.cons.inj hl
        cases hp
        refine ⟨ctx₀.selectHidden, hidden, hhide, hsel₀, fun hc => ?_, fun q' => by simp⟩
        have hc' : ((target.filter fun t => t.1 = q₀).map Prod.snd).isSome = true := hc
        rw [hdml₀, if_pos hc', getElem?_insert_self]
      | cons p' l₁ =>
        rw [cons_append] at hl
        obtain ⟨rfl, hl'⟩ := List.cons.inj hl
        obtain ⟨before, hidden', hhide', hs, hm, hbefore⟩ := hof l₁ q t l₂ hl'
        refine ⟨before, hidden', hhide', hs, hm, fun q' => ?_⟩
        rw [hbefore q']
        by_cases hmem : q' ∈ l₁.map Prod.fst
        · simp [hmem]
        · grind

variable {rls : RlsEnv}

theorem compileAll_entries (h : compileAll rls tables = .ok compiled) :
    compiled.map Prod.fst = tables.map Prod.fst ∧ ∀ q t, (q, t) ∈ tables →
      ∃ policies, (q, policies) ∈ compiled ∧ compilePolicies rls t = .ok policies := by
  induction tables generalizing compiled with
  | nil =>
    cases h
    exact ⟨rfl, nofun⟩
  | cons p tables ih =>
    unfold compileAll at h
    rw [mapM_cons] at h
    obtain ⟨entry, hentry, h₁⟩ := except_bind_ok.mp h
    obtain ⟨policies, hpolicies, hentry'⟩ := except_bind_ok.mp hentry
    obtain ⟨rest, hrest, h₂⟩ := except_bind_ok.mp h₁
    cases hentry'
    cases h₂
    obtain ⟨hkeys, hof⟩ := ih hrest
    refine ⟨by rw [map_cons, map_cons, hkeys], fun q t hq => ?_⟩
    rcases mem_cons.mp hq with rfl | hq
    · exact ⟨policies, .head _, hpolicies⟩
    · grind

/-- The policies that a table is filtered by. -/
theorem compileAll_ok (hd : (tables.map Prod.fst).Nodup)
    (h : compileAll rls tables = .ok compiled) (hq : (q, t) ∈ tables) :
    compilePolicies rls t = .ok ((ofList compiled)[q]?.getD []) := by
  obtain ⟨hkeys, hof⟩ := compileAll_entries h
  obtain ⟨policies, hmem, hpolicies⟩ := hof q t hq
  have hdistinct : compiled.Pairwise fun a b => ¬ compare a.1 b.1 = .eq := by grind
  rw [getElem?_ofList_of_mem (k := q) ReflCmp.compare_self hdistinct hmem]
  exact hpolicies

theorem nodup_enforcedTables (x : QueryExec C) (rls : RlsEnv) :
    ((enforcedTables x rls).map Prod.fst).Nodup := by
  have hkeys : (x.tables.toList.map Prod.fst).Nodup := by
    rw [map_fst_toList_eq_keys]
    exact nodup_keys
  exact hkeys.sublist (filter_sublist.map Prod.fst)

theorem mem_enforcedTables {t : LoadedTable C} :
    (q, t) ∈ enforcedTables x rls ↔ x.tables[q]? = some t ∧ rls.enforces t.table = true := by
  simp [enforcedTables]

end

section
variable (x : QueryExec C) (depth : Nat)

/-- What is hidden in the tables before this one. -/
def earlier (hidden : ExtTreeMap QualifiedName (ExtTreeSet String)) (q : QualifiedName) :
    ExtTreeMap QualifiedName (ExtTreeSet String) :=
  hidden.filter fun q' _ => compare q' q == .lt

/-- How `init_rls` judges a row of a table for a command. -/
def judged (ctx : RlsContext) (q : QualifiedName) (t : Table) (cmd : PolicyCmd)
    (values : RowValues C) : Except SqlError Bool :=
  rowPasses (x.hiding (earlier ctx.selectHidden q)) depth (ctx.policies[q]?.getD []) t cmd
    .usingClause values

end

variable {t : LoadedTable C}

section
variable {x : QueryExec C} {depth : Nat}

theorem initTables_policies {ctx₀ ctx : RlsContext}
    (h : l.foldlM (initTable x depth target) ctx₀ = .ok ctx) : ctx.policies = ctx₀.policies := by
  induction l generalizing ctx₀ with
  | nil =>
    cases h
    rfl
  | cons p l ih =>
    obtain ⟨ctx₁, hstep, hrest⟩ := except_bind_ok.mp h
    obtain ⟨hidden, -, hctx₁⟩ := except_bind_ok.mp hstep
    cases hctx₁
    have hpolicies := ih hrest
    exact hpolicies

/-- The tables of a list in order that come before one of them. -/
theorem mem_before {l₁ l₂ : List (QualifiedName × LoadedTable C)} {q q' : QualifiedName}
    (hl : (l₁ ++ (q, t) :: l₂).Pairwise fun a b => compare a.1 b.1 = .lt)
    (hq' : q' ∈ (l₁ ++ (q, t) :: l₂).map Prod.fst) :
    q' ∈ l₁.map Prod.fst ↔ compare q' q = .lt := by
  obtain ⟨-, hright, hcross⟩ := pairwise_append.mp hl
  rw [map_append, mem_append, map_cons, mem_cons] at hq'
  have hself : compare q q = .eq := ReflCmp.compare_self
  constructor
  · intro hmem
    obtain ⟨p, hp, rfl⟩ := mem_map.mp hmem
    exact hcross p hp (q, t) (.head _)
  · intro hlt
    rcases hq' with hmem | rfl | hmem
    · exact hmem
    · rw [hself] at hlt
      cases hlt
    · obtain ⟨p, hp, rfl⟩ := mem_map.mp hmem
      have hgt : compare p.1 q = .gt := OrientedCmp.gt_of_lt ((pairwise_cons.mp hright).1 p hp)
      rw [hgt] at hlt
      cases hlt

/-- **What `init_rls` computes**: a row of a filtered table is hidden from SELECT, and
from the command of the statement, if it is judged so. -/
theorem initRls_ok {rls : RlsEnv} {ctx : RlsContext} (h : initRls x depth rls target = .ok ctx)
    (ht : x.tables[q]? = some t) (henf : rls.enforces t.table = true) {rid : String}
    {values : RowValues C} (hrow : t.rows[rid]? = some values) :
    (∃ b, judged x depth ctx q t.table .select values = .ok b ∧
        (rid ∈ hiddenIn ctx.selectHidden q ↔ b = false)) ∧
      ∀ cmd, commandOn target q = some cmd → ∃ b, judged x depth ctx q t.table cmd values = .ok b ∧
        (rid ∈ hiddenIn ctx.dmlHidden q ↔ b = false) := by
  obtain ⟨compiled, hc, hfold⟩ := except_bind_ok.mp h
  have hq : (q, t) ∈ enforcedTables x rls := mem_enforcedTables.mpr ⟨ht, henf⟩
  obtain ⟨hother, hof⟩ := initTables_ok (nodup_enforcedTables x rls) hfold
  obtain ⟨l₁, l₂, hl⟩ := append_of_mem hq
  obtain ⟨before, hidden, hhide, hsel, hdml, hbefore⟩ := hof l₁ q t l₂ hl
  have hpolicies := initTables_policies hfold
  have hearlier : before = earlier ctx.selectHidden q := by
    refine ext_getElem? fun q' => ?_
    rw [hbefore q', earlier, getElem?_filter']
    by_cases hq' : q' ∈ (enforcedTables x rls).map Prod.fst
    · have hordered : (enforcedTables x rls).Pairwise fun a b => compare a.1 b.1 = .lt :=
        ordered_keys_toList.sublist filter_sublist
      rw [hl] at hordered hq'
      simp only [mem_before hordered hq']
      cases hlt : compare q' q <;> cases ctx.selectHidden[q']? <;> simp [Option.filter]
    · simp_all
  have hmem : (rid, values) ∈ t.rows.toList := mem_toList_iff_getElem?_eq_some.mpr hrow
  rw [hearlier, ← hpolicies] at hhide
  obtain ⟨⟨b, hb⟩, b', hb'⟩ := hideRows_judged hhide hmem
  -- the only row under the id is this one
  have hunique : ∀ P : RowValues C → Prop, (∃ v, (rid, v) ∈ t.rows.toList ∧ P v) ↔ P values :=
    fun P => by simp [hrow]
  refine ⟨⟨b, hb, ?_⟩, fun cmd hcmd => ?_⟩
  · rw [hiddenIn, hsel, Option.getD_some, (hideRows_ok hhide).1, hunique, hb, Except.ok.injEq]
  · rw [hcmd] at hb' hhide
    refine ⟨b', hb', ?_⟩
    rw [hiddenIn, hdml (by rw [hcmd]; rfl), Option.getD_some, (hideRows_ok hhide).2, hunique, hb',
      Except.ok.injEq]

end

/-! ### Policies that look at the row alone -/

/-- Policies whose expressions have the same values give the same answer. -/
theorem policiesPass_congr {value value' : SqlExpr → Except SqlError (SqlValue C)} {cmd : PolicyCmd}
    {phase : PolicyPhase}
    (h : ∀ p ∈ policies, p.appliesTo cmd → ∀ e, p.exprFor phase = some e → value e = value' e)
    (granted : Bool) :
    policiesPass value cmd phase policies granted =
      policiesPass value' cmd phase policies granted := by
  induction policies generalizing granted with
  | nil => rfl
  | cons p policies ih => grind [policiesPass]

/-- Policies whose expressions have values give an answer. -/
theorem exists_policiesPass {value : SqlExpr → Except SqlError (SqlValue C)} {cmd : PolicyCmd}
    {phase : PolicyPhase}
    (h : ∀ p ∈ policies, p.appliesTo cmd → ∀ e, p.exprFor phase = some e → ∃ v, value e = .ok v)
    (granted : Bool) : ∃ b, policiesPass value cmd phase policies granted = .ok b := by
  induction policies generalizing granted with
  | nil => exact ⟨granted, rfl⟩
  | cons p policies ih =>
    have hrest := ih fun p' hp' => h p' (.tail p hp')
    unfold policiesPass
    split
    · exact hrest granted
    · next e he =>
      split
      · exact hrest granted
      · have hvalue : ∃ v, value e = .ok v := by simp_all
        obtain ⟨v, hv⟩ := hvalue
        rw [hv]
        dsimp only [bind, Except.bind]
        split
        · exact hrest _
        · split
          · exact hrest granted
          · exact ⟨false, rfl⟩

/-- The tables of a database as a statement loads them. -/
structure LoadedDatabase (C : Crates) where
  tables : ExtTreeMap QualifiedName (LoadedTable C)
  indexed : ∀ (q : QualifiedName) (t : LoadedTable C), tables[q]? = some t → t.Indexed

def QueryExec.on (x : QueryExec C) (d : LoadedDatabase C) : QueryExec C := { x with tables := d.tables }

section
variable (rls : RlsEnv) (x : QueryExec C) (depth : Nat)

/-- The SELECT policies of the role on a table are row-local and raise no errors: the
values of their expressions are functions of the row, whatever the tables hold and
whatever is hidden. -/
def LocalPolicies (t : Table) : Prop :=
  ∀ policies, compilePolicies rls t = .ok policies → ∀ p ∈ policies, p.appliesTo .select →
    ∀ e, p.usingExpr = some e → ∃ v : Tuple C → SqlValue C,
      ∀ (d : LoadedDatabase C) hidden tuple,
        (evaluator ((x.on d).hiding hidden) depth).expr e [⟨tableSchema t t.name, tuple⟩] none =
          .ok (v tuple)

/-- The role may see a row: the table is not filtered for it, or the row passes the
SELECT policies. -/
def SelectVisible (d : LoadedDatabase C) (t : Table) (values : RowValues C) : Prop :=
  rls.enforces t = true → ∀ policies, compilePolicies rls t = .ok policies →
    rowPasses ((x.on d).hiding ∅) depth policies t .select .usingClause values = .ok true

/-- Two databases with the same tables and indexes and the same rows in sight of the
role. -/
def SameVisibleRows (d d' : LoadedDatabase C) : Prop :=
  ∀ q : QualifiedName, match d.tables[q]?, d'.tables[q]? with
    | none, none => True
    | some t, some t' =>
        t.table = t'.table ∧
          t.indexes.map LoadedIndex.index = t'.indexes.map LoadedIndex.index ∧
          ∀ (rid : String) (values : RowValues C), SelectVisible rls x depth d t.table values →
            (t.rows[rid]? = some values ↔ t'.rows[rid]? = some values)
    | _, _ => False

end

section
variable {rls : RlsEnv} {x : QueryExec C} {depth : Nat}

/-- Whether a row passes local policies depends on the row. -/
theorem LocalPolicies.rowPasses_eq {t : Table} (h : LocalPolicies rls x depth t)
    (hp : compilePolicies rls t = .ok policies)
    (d d' : LoadedDatabase C) (hidden hidden' : ExtTreeMap QualifiedName (ExtTreeSet String))
    (values : RowValues C) :
    rowPasses ((x.on d).hiding hidden) depth policies t .select .usingClause values =
      rowPasses ((x.on d').hiding hidden') depth policies t .select .usingClause values := by
  refine policiesPass_congr (fun p hmem happ e he => ?_) false
  obtain ⟨v, hv⟩ := h policies hp p hmem happ e he
  rw [hv, hv]

theorem LocalPolicies.exists_rowPasses {t : Table} (h : LocalPolicies rls x depth t)
    (hp : compilePolicies rls t = .ok policies)
    (d : LoadedDatabase C) (hidden : ExtTreeMap QualifiedName (ExtTreeSet String))
    (values : RowValues C) :
    ∃ b, rowPasses ((x.on d).hiding hidden) depth policies t .select .usingClause values =
      .ok b := by
  refine exists_policiesPass (fun p hmem happ e he => ?_) false
  obtain ⟨v, hv⟩ := h policies hp p hmem happ e he
  exact ⟨_, hv d hidden _⟩

/-- The loop over the tables ends if every table can be filtered. -/
theorem exists_initTables (x : QueryExec C) (l : List (QualifiedName × LoadedTable C))
    (ctx₀ : RlsContext) (h : ∀ q t, (q, t) ∈ l → ∀ before, ∃ hidden,
      hideRows (x.hiding before) depth (ctx₀.policies[q]?.getD []) t.table none t.rows.toList =
        .ok hidden) :
    ∃ ctx, l.foldlM (initTable x depth none) ctx₀ = .ok ctx := by
  refine except_foldlM_total (I := fun ctx => ctx.policies = ctx₀.policies)
    (fun p hp ctx hctx => ?_) rfl
  obtain ⟨hidden, hhide⟩ := h p.1 p.2 hp ctx.selectHidden
  rw [← hctx] at hhide
  simp only [initTable, Option.filter_none, Option.map_none, hhide]
  exact ⟨_, rfl, hctx⟩

/-- **Local policies hide the rows that do not pass them**, and nothing else. -/
theorem initRls_local {d : LoadedDatabase C}
    (hlocal : ∀ (q : QualifiedName) (t : LoadedTable C), d.tables[q]? = some t →
      rls.enforces t.table = true → LocalPolicies rls x depth t.table)
    (hc : compileAll rls ((enforcedTables (x.on d) rls).map fun p => (p.1, p.2.table)) =
      .ok compiled) :
    ∃ ctx, initRls (x.on d) depth rls none = .ok ctx ∧
      ∀ (q : QualifiedName) (t : LoadedTable C), d.tables[q]? = some t →
        ∀ (rid : String) (values : RowValues C), t.rows[rid]? = some values →
          (rid ∉ hiddenIn ctx.selectHidden q ↔ SelectVisible rls x depth d t.table values) := by
  have hkeys : (((enforcedTables (x.on d) rls).map fun p => (p.1, p.2.table)).map Prod.fst).Nodup := by
    rw [List.map_map]
    exact nodup_enforcedTables (x.on d) rls
  have hpolicies : ∀ q t, (q, t) ∈ enforcedTables (x.on d) rls →
      compilePolicies rls t.table = .ok ((ofList compiled)[q]?.getD []) :=
    fun q t hq => compileAll_ok hkeys hc (mem_map.mpr ⟨(q, t), hq, rfl⟩)
  have hloc : ∀ q t, (q, t) ∈ enforcedTables (x.on d) rls → LocalPolicies rls x depth t.table :=
    fun q t hq => hlocal q t (mem_enforcedTables.mp hq).1 (mem_enforcedTables.mp hq).2
  obtain ⟨ctx, hctx⟩ := exists_initTables (x.on d) (enforcedTables (x.on d) rls)
    ⟨ofList compiled, ∅, ∅⟩ fun q t hq before => exists_hideRows
      (fun row _ => (hloc q t hq).exists_rowPasses (hpolicies q t hq) d before row.2)
      (fun row _ => ⟨true, rfl⟩)
  have hinit : initRls (x.on d) depth rls none = .ok ctx := by
    rw [initRls, hc]
    exact hctx
  refine ⟨ctx, hinit, fun q t ht rid values hrow => ?_⟩
  by_cases henf : rls.enforces t.table = true
  · have hq : (q, t) ∈ enforcedTables (x.on d) rls := mem_enforcedTables.mpr ⟨ht, henf⟩
    obtain ⟨⟨b, hb, hhidden⟩, -⟩ := initRls_ok hinit ht henf hrow
    rw [judged, initTables_policies hctx,
      (hloc q t hq).rowPasses_eq (hpolicies q t hq) d d _ ∅ values] at hb
    rw [hhidden, Bool.not_eq_false]
    constructor
    · rintro rfl _ policies hp
      obtain rfl := Except.ok.inj ((hpolicies q t hq).symm.trans hp)
      exact hb
    · intro hvis
      exact Except.ok.inj (hb.symm.trans (hvis henf _ (hpolicies q t hq)))
  · obtain ⟨hother, -⟩ := initTables_ok (nodup_enforcedTables (x.on d) rls) hctx
    have hq : q ∉ (enforcedTables (x.on d) rls).map Prod.fst := by
      rintro hmem
      obtain ⟨⟨q', t'⟩, hmem', rfl⟩ := mem_map.mp hmem
      obtain ⟨ht', henf'⟩ := mem_enforcedTables.mp hmem'
      cases ht.symm.trans ht'
      exact henf henf'
    have hnone : hiddenIn ctx.selectHidden q = ∅ := by
      rw [hiddenIn, (hother q hq).1]
      simp
    rw [hnone]
    simp [SelectVisible, henf]

end

/-! ### What is in sight -/

/-- Two loaded tables, with row ids hidden in each, that show the same rows. -/
structure SameSight (t t' : LoadedTable C) (hidden hidden' : ExtTreeSet String) : Prop where
  table : t.table = t'.table
  indexes : t.indexes.map LoadedIndex.index = t'.indexes.map LoadedIndex.index
  indexed : t.Indexed
  indexed' : t'.Indexed
  rows : ∀ (rid : String) (values : RowValues C),
    (t.rows[rid]? = some values ∧ rid ∉ hidden) ↔ (t'.rows[rid]? = some values ∧ rid ∉ hidden')

namespace SameSight

variable {t t' : LoadedTable C} {hidden hidden' : ExtTreeSet String}
  (h : SameSight t t' hidden hidden')
include h

/-- A row in sight is the same on both sides. -/
theorem getElem? {rid : String} (hrid : rid ∉ hidden) (hmem : rid ∈ t.rows) :
    t.rows[rid]? = t'.rows[rid]? := by
  obtain ⟨values, hvalues⟩ := Option.isSome_iff_exists.mp
    (isSome_getElem?_iff_mem.mpr hmem)
  exact hvalues.trans ((h.rows rid values).mp ⟨hvalues, hrid⟩).1.symm

theorem tupleRows_eq {ids : List String} (hids : ∀ rid ∈ ids, rid ∉ hidden ∧ rid ∈ t.rows) :
    tupleRows t ids = tupleRows t' ids := by
  refine filterMap_congr fun rid hrid => ?_
  rw [h.getElem? (hids rid hrid).1 (hids rid hrid).2, h.table]

theorem symm : SameSight t' t hidden' hidden where
  table := h.table.symm
  indexes := h.indexes.symm
  indexed := h.indexed'
  indexed' := h.indexed
  rows := fun rid values => (h.rows rid values).symm

/-- The ids in sight among some that both sides list alike. -/
theorem filter_eq {l l' : List String} (hl : l.Pairwise fun a b => compare a b = .lt)
    (hl' : l'.Pairwise fun a b => compare a b = .lt)
    (hmem : ∀ rid ∈ l, rid ∈ t.rows) (hmem' : ∀ rid ∈ l', rid ∈ t'.rows)
    (hsame : ∀ (rid : String) (values : RowValues C), t.rows[rid]? = some values →
      t'.rows[rid]? = some values → (rid ∈ l ↔ rid ∈ l')) :
    l.filter (fun rid => !hidden.contains rid) = l'.filter fun rid => !hidden'.contains rid := by
  -- an id in sight on one side is in sight on the other
  have hside : ∀ {u u' : LoadedTable C} {k k' : ExtTreeSet String} {m m' : List String},
      SameSight u u' k k' → (∀ rid ∈ m, rid ∈ u.rows) →
      (∀ (rid : String) (values : RowValues C), u.rows[rid]? = some values →
        u'.rows[rid]? = some values → (rid ∈ m ↔ rid ∈ m')) →
      ∀ rid, rid ∈ m ∧ rid ∉ k → rid ∈ m' ∧ rid ∉ k' := by
    rintro u u' k k' m m' hs hm hsame rid ⟨hrid, hk⟩
    obtain ⟨values, hvalues⟩ := Option.isSome_iff_exists.mp
      (isSome_getElem?_iff_mem.mpr (hm rid hrid))
    obtain ⟨hvalues', hk'⟩ := (hs.rows rid values).mp ⟨hvalues, hk⟩
    exact ⟨(hsame rid values hvalues hvalues').mp hrid, hk'⟩
  refine OrderedMap.eq_of_ordered (f := id) (hl.sublist filter_sublist) (hl'.sublist filter_sublist)
    fun rid => ?_
  simp only [mem_filter, Bool.not_eq_true', ← Bool.not_eq_true, ExtTreeSet.contains_iff_mem]
  exact ⟨hside h hmem hsame rid, hside h.symm hmem'
    (fun rid values h₁ h₂ => (hsame rid values h₂ h₁).symm) rid⟩

/-- The index scan chooses the same index. -/
theorem findIndexedEquality_eq (e : Expr C) :
    SelectExec.findIndexedEquality t e = SelectExec.findIndexedEquality t' e := by
  have hsingle : ∀ column, SelectExec.isSingleIndexed t column =
      SelectExec.isSingleIndexed t' column := by
    intro column
    have hany : ∀ u : LoadedTable C, SelectExec.isSingleIndexed u column =
        (u.indexes.map LoadedIndex.index).any fun i => i.columns == [column] := by
      intro u
      rw [any_map]
      rfl
    rw [hany, hany, h.indexes]
  induction e with
  | and left right ihl ihr => simp only [SelectExec.findIndexedEquality, ihl, ihr]
  | nested e ih => simp only [SelectExec.findIndexedEquality, ih]
  | eq left right ihl ihr =>
    simp only [SelectExec.findIndexedEquality, SelectExec.indexedSide, hsingle]
  | ident | compound | other => rfl

/-- The index on a column is the same. -/
theorem find_index (column : String) :
    (t.indexes.find? fun idx => idx.index.columns == [column]).map LoadedIndex.index =
      (t'.indexes.find? fun idx => idx.index.columns == [column]).map LoadedIndex.index := by
  have hfind : ∀ u : LoadedTable C,
      (u.indexes.find? fun idx => idx.index.columns == [column]).map LoadedIndex.index =
        (u.indexes.map LoadedIndex.index).find? fun i => i.columns == [column] := by
    intro u
    rw [List.find?_map]
    rfl
  rw [hfind, hfind, h.indexes]

/-- A bucket of an index shows the same rows. -/
theorem bucket_eq {idx idx' : LoadedIndex} (hidx : idx ∈ t.indexes) (hidx' : idx' ∈ t'.indexes)
    (hsame : idx.index = idx'.index) (key : String) :
    (idx.data.get key).toList.filter (fun rid => !hidden.contains rid) =
      (idx'.data.get key).toList.filter fun rid => !hidden'.contains rid := by
  have hmem : ∀ {u : LoadedTable C} {i : LoadedIndex}, u.Indexed → i ∈ u.indexes →
      ∀ rid ∈ (i.data.get key).toList, rid ∈ u.rows := by
    intro u i hu hi rid hrid
    obtain ⟨values, hrow, -⟩ := (hu i hi key rid).mp (ExtTreeSet.mem_toList.mp hrid)
    rw [← isSome_getElem?_iff_mem, hrow]
    rfl
  refine h.filter_eq ExtTreeSet.ordered_toList ExtTreeSet.ordered_toList
    (hmem h.indexed hidx) (hmem h.indexed' hidx') fun rid values hrow hrow' => ?_
  have hkey : idx.keyOf values = idx'.keyOf values := by
    simp only [LoadedIndex.keyOf, hsame]
  simp [h.indexed idx hidx key rid, h.indexed' idx' hidx' key rid, hrow, hrow', hkey]

/-- An index lookup finds the same rows in sight. -/
theorem indexLookupEq_eq (column : String) (v : SqlValue C) :
    (t.indexLookupEq column v).map (fun ids => tupleRows t
        (ids.filter fun rid => !hidden.contains rid)) =
      (t'.indexLookupEq column v).map fun ids => tupleRows t'
        (ids.filter fun rid => !hidden'.contains rid) := by
  have hfind := h.find_index column
  unfold LoadedTable.indexLookupEq
  cases hi : t.indexes.find? fun idx => idx.index.columns == [column] with
  | none => simp_all
  | some idx =>
    rw [hi, Option.map_some, eq_comm, Option.map_eq_some_iff] at hfind
    obtain ⟨idx', hi', hsame⟩ := hfind
    rw [hi']
    simp only [Option.map_some]
    cases v.isNull with
    | true => rfl
    | false =>
      have hidx := mem_of_find?_eq_some hi
      have hbucket := h.bucket_eq hidx (mem_of_find?_eq_some hi') hsame.symm
        (orderedKey [v])
      simp only [Bool.false_eq_true, if_false, ← hbucket]
      congr 1
      refine h.tupleRows_eq fun rid hrid => ?_
      obtain ⟨hmem, hvis⟩ := mem_filter.mp hrid
      obtain ⟨values, hrow, -⟩ := (h.indexed idx hidx _ rid).mp (ExtTreeSet.mem_toList.mp hmem)
      rw [Bool.not_eq_true', ← Bool.not_eq_true, ExtTreeSet.contains_iff_mem] at hvis
      refine ⟨hvis, ?_⟩
      rw [← isSome_getElem?_iff_mem, hrow]
      rfl

/-- The index scan finds the same rows in sight. -/
theorem indexedIds_eq {x y : SelectExec C} (henv : x.env = y.env)
    (hfilter : x.forUpdateFilter = y.forUpdateFilter) (e : Expr C) (outer : List (Frame C)) :
    (x.indexedIds t e outer).map (fun ids => tupleRows t
        (ids.filter fun rid => !hidden.contains rid)) =
      (y.indexedIds t' e outer).map fun ids => tupleRows t'
        (ids.filter fun rid => !hidden'.contains rid) := by
  simp only [SelectExec.indexedIds, h.findIndexedEquality_eq e, h.table, henv, hfilter,
    Option.bind_eq_bind, Option.map_bind, Function.comp_def]
  refine Option.bind_congr fun p _ => Option.bind_congr fun v _ => Option.bind_congr fun c _ =>
    Option.bind_congr fun coerced _ => ?_
  exact h.indexLookupEq_eq p.1 coerced

/-- The full scan finds the same rows in sight. -/
theorem scanned_eq (allowed : String → Bool) :
    tupleRows t ((t.rows.keys.filter allowed).filter fun rid => !hidden.contains rid) =
      tupleRows t' ((t'.rows.keys.filter allowed).filter fun rid => !hidden'.contains rid) := by
  have hmem : ∀ (u : LoadedTable C) (rid : String), rid ∈ u.rows.keys.filter allowed →
      rid ∈ u.rows := fun u rid hrid => mem_keys.mp (mem_filter.mp hrid).1
  have hids := h.filter_eq (ordered_keys.sublist filter_sublist)
    (ordered_keys.sublist filter_sublist) (hmem t) (hmem t')
    fun rid values hrow hrow' => by
      have hin : ∀ {u : LoadedTable C}, u.rows[rid]? = some values → rid ∈ u.rows := by grind
      simp [hin hrow, hin hrow']
  rw [← hids]
  refine h.tupleRows_eq fun rid hrid => ?_
  obtain ⟨hrow, hvis⟩ := mem_filter.mp hrid
  rw [Bool.not_eq_true', ← Bool.not_eq_true, ExtTreeSet.contains_iff_mem] at hvis
  exact ⟨hvis, hmem t rid hrow⟩

end SameSight

/-- Two databases, with row ids hidden in each, that show the same rows. -/
def SameSightIn (d d' : LoadedDatabase C) (hidden hidden' : ExtTreeMap QualifiedName (ExtTreeSet String)) :
    Prop :=
  ∀ q : QualifiedName, match d.tables[q]?, d'.tables[q]? with
    | none, none => True
    | some t, some t' => SameSight t t' (hiddenIn hidden q) (hiddenIn hidden' q)
    | _, _ => False

section
variable {x : QueryExec C} {d d' : LoadedDatabase C}
  {hidden hidden' : ExtTreeMap QualifiedName (ExtTreeSet String)}

/-- A table factor names the same base table on both sides, with the same rows in
sight. -/
theorem SameSightIn.baseTable (h : SameSightIn d d' hidden hidden') (ref : TableRef) :
    (((x.on d).hiding hidden).baseTable ref = none ∧
        ((x.on d').hiding hidden').baseTable ref = none) ∨
      ∃ q t t', ((x.on d).hiding hidden).baseTable ref = some (q, t) ∧
        ((x.on d').hiding hidden').baseTable ref = some (q, t') ∧
        SameSight t t' (hiddenIn hidden q) (hiddenIn hidden' q) := by
  have hbase : ∀ d hidden, ((x.on d).hiding hidden).baseTable ref =
      (x.catalog.resolveTableName ref.schema ref.name).bind fun q =>
        (d.tables[q]?).map fun t => (q, t) := by
    intro d hidden
    simp only [SelectExec.baseTable, QueryExec.hiding, QueryExec.on]
    cases x.catalog.resolveTableName ref.schema ref.name with
    | none => rfl
    | some q => cases hq : d.tables[q]? <;> simp [hq]
  rw [hbase, hbase]
  cases x.catalog.resolveTableName ref.schema ref.name with
  | none => exact .inl ⟨rfl, rfl⟩
  | some q =>
    have hq := h q
    cases ht : d.tables[q]? <;> cases ht' : d'.tables[q]? <;> simp only [ht, ht'] at hq
    · exact .inl ⟨by simp [ht], by simp [ht']⟩
    · exact .inr ⟨q, _, _, by simp [ht], by simp [ht'], hq⟩

/-- **What is in sight decides both scans.** -/
theorem SameSightIn.sameScans (h : SameSightIn d d' hidden hidden') {names : List Mention}
    (hcalls : CallsQueries x names) :
    SameScans (Mentioned x names) ((x.on d).hiding hidden) ((x.on d').hiding hidden') where
  env := rfl
  queries := rfl
  catalog := rfl
  cte := rfl
  pgLocks := rfl
  index ref _ e outer := by
    obtain ⟨hnone, hnone'⟩ | ⟨q, t, t', ht, ht', hsight⟩ := h.baseTable (x := x) ref
    · simp only [SelectExec.tryIndexScan, hnone, hnone']
      rfl
    · have hscan := hsight.indexedIds_eq (x := ((x.on d).hiding hidden).toSelectExec)
        (y := ((x.on d').hiding hidden').toSelectExec) rfl rfl e outer
      simp only [SelectExec.tryIndexScan, ht, ht', Option.bind_eq_bind, Option.bind_some,
        Option.pure_def, ← hsight.table]
      have hrows := congrArg (Option.map fun rows =>
        (⟨tableSchema t.table ref.aliasName, rows⟩ : Candidates C).toRowSet) hscan
      rw [Option.map_map, Option.map_map] at hrows
      have hmap : ∀ (o : Option (List String)) (f : List String → Candidates C),
          (o.bind fun ids => some (f ids)).map Candidates.toRowSet =
            o.map (Candidates.toRowSet ∘ f) := by
        intro o f
        cases o <;> rfl
      rw [hmap, hmap]
      exact hrows
  scan ref _ := by
    obtain ⟨hnone, hnone'⟩ | ⟨q, t, t', ht, ht', hsight⟩ := h.baseTable (x := x) ref
    · rw [QueryExec.tableScan, QueryExec.tableScan, hnone, hnone']
      rfl
    · rw [QueryExec.tableScan, QueryExec.tableScan, ht, ht']
      simp only [Option.map_some, SelectExec.loadedToRowset, ← hsight.table]
      exact congrArg (fun rows =>
        some (⟨tableSchema t.table ref.aliasName, rows⟩ : Candidates C).toRowSet)
        (hsight.scanned_eq _)
  views ref hn v q hv hq _ hm := .view hn hv hq hm
  bodies f hf hn := by
    unfold UserFunction.Within
    split
    next text bound names_bound hbody => exact fun q hq m hm => .statement hf hn hbody hq hm
    · trivial
  others f hf hn reads run hbody := absurd hbody (hcalls f hf hn reads run)

end

/-! ### Noninterference -/

section
variable {rls : RlsEnv} {x : QueryExec C} {depth : Nat} {d d' : LoadedDatabase C}

/-- The tables that are filtered for the role, without their rows. -/
theorem enforced_of_tables (rls : RlsEnv) (x : QueryExec C) (d : LoadedDatabase C) :
    ((enforcedTables (x.on d) rls).map fun p => (p.1, p.2.table)) =
      (d.tables.map fun _ t => t.table).toList.filter fun p => rls.enforces p.2 := by
  rw [toList_map, filter_map]
  rfl

/-- Databases with the same rows in sight have the same tables. -/
theorem SameVisibleRows.tables_eq (h : SameVisibleRows rls x depth d d') :
    (d.tables.map fun _ t => t.table) = d'.tables.map fun _ t => t.table := by
  refine ext_getElem? fun q => ?_
  have hq := h q
  rw [getElem?_map, getElem?_map]
  cases ht : d.tables[q]? <;> cases ht' : d'.tables[q]? <;> simp only [ht, ht'] at hq
  · rfl
  · simp [hq.1]

end

/-- **Row-level security noninterference**: a SELECT has the same result, or the same
error, in two databases with the same rows in sight of the role. User-defined functions that
it calls are SQL functions of SELECT statements. -/
theorem rls_noninterference (rls : RlsEnv) (x : QueryExec C) (depth : Nat) (d d' : LoadedDatabase C)
    (hlocal : ∀ (q : QualifiedName) (t : LoadedTable C), d.tables[q]? = some t →
      rls.enforces t.table = true → LocalPolicies rls x depth t.table)
    (hagree : SameVisibleRows rls x depth d d') (q : Query)
    (hcalls : CallsQueries x q.names) :
    selectAs (x.on d) depth rls q = selectAs (x.on d') depth rls q := by
  have htables : ((enforcedTables (x.on d) rls).map fun p => (p.1, p.2.table)) =
      (enforcedTables (x.on d') rls).map fun p => (p.1, p.2.table) := by
    rw [enforced_of_tables, enforced_of_tables, hagree.tables_eq]
  have hlocal' : ∀ (q : QualifiedName) (t : LoadedTable C), d'.tables[q]? = some t →
      rls.enforces t.table = true → LocalPolicies rls x depth t.table := by
    intro q t' ht' henf
    have hq := hagree q
    cases ht : d.tables[q]? <;> simp only [ht, ht'] at hq
    rw [← hq.1] at henf ⊢
    exact hlocal q _ ht henf
  cases hc : compileAll rls ((enforcedTables (x.on d) rls).map fun p => (p.1, p.2.table)) with
  | error e =>
    -- a policy that does not parse fails the statement in both
    have hfail : ∀ d : LoadedDatabase C,
        compileAll rls ((enforcedTables (x.on d) rls).map fun p => (p.1, p.2.table)) = .error e →
          selectAs (x.on d) depth rls q = .error e := by
      intro d hd
      rw [selectAs, initRls, hd]
      rfl
    rw [hfail d hc, hfail d' (htables ▸ hc)]
  | ok compiled =>
    obtain ⟨ctx, hctx, hvis⟩ := initRls_local hlocal hc
    obtain ⟨ctx', hctx', hvis'⟩ := initRls_local hlocal' (htables ▸ hc)
    rw [selectAs, selectAs, hctx, hctx']
    have hsight : SameSightIn d d' ctx.selectHidden ctx'.selectHidden := by
      intro q
      have hq := hagree q
      cases ht : d.tables[q]? <;> cases ht' : d'.tables[q]? <;> simp only [ht, ht'] at hq ⊢
      next t t' =>
      refine ⟨hq.1, hq.2.1, d.indexed q t ht, d'.indexed q t' ht', fun rid values => ?_⟩
      -- local policies judge a row alike on both databases
      have hsame : SelectVisible rls x depth d t.table values ↔
          SelectVisible rls x depth d' t.table values := by
        refine forall_congr' fun henf => forall₂_congr fun policies hp => ?_
        rw [(hlocal q t ht henf).rowPasses_eq hp d d' ∅ ∅ values]
      constructor
      · grind
      · grind
    exact runQuery_congr (hsight.sameScans hcalls) (fun _ hm => .own hm) depth

end

/-! ### Notes of two users -/

/-- Literals are texts, and there are no functions and views. -/
def plainQueries : QueryEnv plainCrates where
  literal
    | .number text => .ok (.text text)
    | .other text => .ok (.text text)
  unary _ v := .ok v
  operator _ _ _ := .ok .null
  compareOther _ _ _ := .null
  call name _ := .error (.featureNotSupported name)
  functions := []
  castTo _ v := .ok v
  likeMatch _ _ _ _ := false
  notDistinct _ _ := false
  position _ _ := .null
  extract _ v := .ok v
  foldAggregate name _ _ _ _ := .error (.featureNotSupported name)
  window _ _ _ _ := .error (.featureNotSupported "window")
  viewQuery view := .error (.undefinedTable view.name)
  catalogView _ _ := .ok none
  references _ _ := false
  recursiveTerms _ _ _ := .ok ()
  recursiveTypes _ _ := []
  maxIterations := 100

/-- A policy for a command with a USING text. -/
def usingPolicy (cmd : PolicyCmd) (text : String) : Policy := ⟨text, cmd, true, [], some text, none⟩

/-- A table of notes with row security. -/
def notesTable (name : String) (policies : List Policy) : Table where
  oid := 16400
  schema := "public"
  name := name
  columns := [⟨"id", .integer, false, none, none⟩, ⟨"owner", .text, true, none, none⟩]
  primaryKey := some ["id"]
  uniques := []
  foreignKeys := []
  checks := []
  storageCollection := "rows_16400"
  rlsEnabled := true
  policies := policies

def note (id : Int32) (owner : String) : RowValues plainCrates :=
  ExtTreeMap.ofList [("id", SqlValue.int4 id), ("owner", SqlValue.text owner)]

/-- Notes without an index. -/
def notesOf (table : Table) (rows : List (String × RowValues plainCrates)) :
    LoadedTable plainCrates := ⟨table, rows.foldr (fun r m => m.insert r.1 r.2) ∅, ∅, []⟩

def notesName : QualifiedName := ⟨"public", "notes"⟩

/-- A statement over some tables. -/
def notesExec (tables : List (QualifiedName × LoadedTable plainCrates)) : QueryExec plainCrates where
  env := plainEnv
  catalog := ⟨ExtTreeMap.ofList (tables.map fun p => (p.1, p.2.table)), ∅, ∅, ∅, ["public"]⟩
  tables := tables.foldr (fun p m => m.insert p.1 p.2) ∅
  cte := ∅
  pgLocks := ⟨[], []⟩
  otherRelation r := .error (.undefinedTable r.name)
  rlsHidden _ := ∅
  annPlan _ _ := none
  sessionId := 1
  locks := ⟨∅, ∅⟩
  pendingLocks := []
  forUpdateFilter := none
  queries := plainQueries

/-- `owner = 'ann'`. -/
def annOwns : SqlExpr := .binary (.ident "owner") .eq (.literal (.other "ann"))

/-- The role of a user. -/
def annRls : RlsEnv where
  username := "authenticated"
  parseExpr text := if text = "owner = 'ann'" then .ok annOwns else .error "syntax error"

/-- Anyone may see their own notes. -/
def ownNotes : Table := notesTable "notes" [usingPolicy .select "owner = 'ann'"]

/-- A database of one note of Ann's and one of another user. -/
def notesDatabase (other : String) : LoadedDatabase plainCrates where
  tables := (∅ : ExtTreeMap QualifiedName (LoadedTable plainCrates)).insert notesName
    (notesOf ownNotes [("n:1", note 1 "ann"), ("n:2", note 2 other)])
  indexed q t h := by
    rw [ExtTreeMap.getElem?_insert] at h
    split at h
    · cases h
      exact fun idx hidx => nomatch hidx
    · simp at h

/-- `SELECT id FROM notes`. -/
def allNotes : Query :=
  .mk false [] (.select (.mk false [.expr (.ident "id") none]
    [.mk (.table ⟨none, "notes", none, []⟩) []] none [] none)) [] none none

def ownNotesExec : QueryExec plainCrates := notesExec [(notesName, notesOf ownNotes [])]

/-- Whose note it is can be read from the note. -/
theorem ownNotes_local : LocalPolicies annRls ownNotesExec 8 ownNotes := by
  intro policies hp p hmem _ e he
  obtain rfl : [⟨.select, true, some annOwns, none⟩] = policies := Except.ok.inj hp
  rw [mem_singleton] at hmem
  subst hmem
  cases he
  exact ⟨fun tuple => compareEq plainEnv (tuple[1]?.getD .null) (.text "ann"),
    fun d hidden tuple => rfl⟩

theorem notesDatabase_tables {other : String} {t : LoadedTable plainCrates}
    (h : (notesDatabase other).tables[q]? = some t) :
    t = notesOf ownNotes [("n:1", note 1 "ann"), ("n:2", note 2 other)] := by
  simp only [notesDatabase] at h
  rw [getElem?_insert] at h
  split at h
  · simp_all
  · simp at h

/-- Ann does not see a note of another user. -/
theorem not_visible_note {other : String} (h : other = "bob" ∨ other = "eve") :
    ¬SelectVisible annRls ownNotesExec 8 (notesDatabase "bob") ownNotes (note 2 other) := by
  intro hvis
  have hpass := hvis rfl [⟨.select, true, some annOwns, none⟩] rfl
  have hfail : (rowPasses ((ownNotesExec.on (notesDatabase "bob")).hiding ∅) 8
      [⟨.select, true, some annOwns, none⟩] ownNotes .select .usingClause
      (note 2 other)).toOption = some false := by
    rcases h with rfl | rfl <;> decide +kernel
  rw [hpass] at hfail
  cases hfail

/-- The other user's note is out of Ann's sight, whoever they are. -/
theorem rls_noninterference_notes :
    selectAs (ownNotesExec.on (notesDatabase "bob")) 8 annRls allNotes =
      selectAs (ownNotesExec.on (notesDatabase "eve")) 8 annRls allNotes ∧
    (selectAs (ownNotesExec.on (notesDatabase "bob")) 8 annRls allNotes).toOption.map
      (fun rs => rs.rows.length) = some 1 := by
  refine ⟨rls_noninterference annRls ownNotesExec 8 (notesDatabase "bob") (notesDatabase "eve")
    (fun q t h _ => ?_) (fun q => ?_) allNotes (fun f hf => nomatch hf), by decide +kernel⟩
  · obtain rfl := notesDatabase_tables h
    exact ownNotes_local
  · simp only [notesDatabase]
    rw [getElem?_insert, getElem?_insert]
    by_cases hq : compare notesName q = .eq
    · rw [if_pos hq, if_pos hq]
      refine ⟨rfl, rfl, fun rid values hvis => ?_⟩
      simp only [notesOf, foldr_cons, foldr_nil, getElem?_insert]
      split
      · exact Iff.rfl
      · split
        · constructor <;> rintro ⟨⟩
          · exact absurd hvis (not_visible_note (.inl rfl))
          · exact absurd hvis (not_visible_note (.inr rfl))
        · exact Iff.rfl
    · simp [hq]

end GuardianDb.Sql
