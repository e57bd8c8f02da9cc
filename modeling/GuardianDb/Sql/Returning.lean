/-
What statements show of the rows that were there before (`sql/dml.rs`, `sql/rls.rs`).

A SELECT sees the rows that pass the SELECT policies of its role and no others, unless it
calls a function that reads in another way: the body of a function may be an UPDATE or a
DELETE. The target rows of UPDATE and DELETE are those that pass the policies of that
command; RETURNING projects them without asking for the SELECT policies.

  * `sameScans_without` — queries and expressions that call SQL functions of SELECT
    statements only run as if the hidden rows were not there.
  * `returned_rows_visible_iff` — when RETURNING shows visible rows only.
-/
import GuardianDb.Sql.DmlSteps
import GuardianDb.Sql.RowSecurity

namespace GuardianDb.Sql

open Std Relational Fallible ExtTreeMap

section
variable {C : Crates} {δ : Type}

/-! ### SELECT -/

def LoadedDatabase.without (d : LoadedDatabase C) (hidden : ExtTreeMap QualifiedName (ExtTreeSet String)) :
    LoadedDatabase C where
  tables := d.tables.map fun q t => LoadedTable.rebuildIndexes
    { t with rows := t.rows.filter fun rid _ => !(hiddenIn hidden q).contains rid }
  indexed q t h := by
    rw [ExtTreeMap.getElem?_map] at h
    obtain ⟨t₀, -, rfl⟩ := Option.map_eq_some_iff.mp h
    exact LoadedTable.indexed_rebuildIndexes _

/-- What is left of a database is what was in sight. -/
theorem sameSightIn_without (d : LoadedDatabase C)
    (hidden : ExtTreeMap QualifiedName (ExtTreeSet String)) :
    SameSightIn d (d.without hidden) hidden ∅ := by
  intro q
  rw [LoadedDatabase.without, getElem?_map]
  cases ht : d.tables[q]? with
  | none => trivial
  | some t =>
    refine ⟨rfl, ?_, d.indexed q t ht, LoadedTable.indexed_rebuildIndexes _, fun rid values => ?_⟩
    · simp [LoadedTable.rebuildIndexes, Function.comp_def]
    · have hnone : rid ∉ hiddenIn (∅ : ExtTreeMap QualifiedName (ExtTreeSet String)) q := by
        simp [hiddenIn]
      simp only [LoadedTable.rebuildIndexes, getElem?_filter', hnone,
        not_false_eq_true, and_true, Option.filter_eq_some_iff, Bool.not_eq_true',
        ← Bool.not_eq_true, ExtTreeSet.contains_iff_mem]

/-- **What calls SQL functions of SELECT statements only runs as if the hidden rows were not
there.** -/
theorem sameScans_without (x : QueryExec C) (d : LoadedDatabase C)
    (hidden : ExtTreeMap QualifiedName (ExtTreeSet String)) {names : List Mention}
    (hcalls : CallsQueries x names) :
    SameScans (Mentioned x names) ((x.on d).hiding hidden)
      ((x.on (d.without hidden)).hiding ∅) :=
  (sameSightIn_without d hidden).sameScans hcalls

/-! ### UPDATE and DELETE -/

section
variable (env : DmlEnv C δ) (x : DmlExec C δ) (q : QualifiedName)

/-- The rows an UPDATE changes: their ids, their values and the new ones. -/
def updateTargets (table : Table) (stmt : UpdateStmt C δ) :
    Except SqlError (List (String × RowValues C × RowValues C)) :=
  ((snapshot env x q).mapM (updateTarget env x q table stmt)).map List.reduceOption

def deleteTargets (stmt : DeleteStmt C δ) : Except SqlError (List (String × RowValues C)) :=
  (snapshot env x q).filterM fun r => selected (stmt.selection.map fun e => e x r.2)

end

section
variable {env : DmlEnv C δ} {x : DmlExec C δ} {q : QualifiedName}

/-- RETURNING of an UPDATE shows the new values of the rows it changes. -/
theorem execUpdate_returns {stmt : UpdateStmt C δ} {rows : List (RowValues C)} {y : DmlExec C δ}
    (h : (execUpdate env stmt).exec x = (.ok rows, y)) :
    ∃ q table targets, x.catalog.resolveTableName stmt.schema stmt.name = some q ∧
      updateTargets env x q table stmt = .ok targets ∧ rows = targets.map fun t => t.2.2 := by
  obtain ⟨⟨q, table⟩, x₁, htarget, h₁⟩ := bind_ok.mp h
  obtain ⟨rfl, hq, -⟩ := resolveTarget_ok htarget
  obtain ⟨x₂, x₃, hget, h₂⟩ := bind_ok.mp h₁
  cases hget
  obtain ⟨targets, x₄, htargets, h₃⟩ := bind_ok.mp h₂
  obtain ⟨hok, rfl⟩ := Prod.mk.inj htargets
  obtain ⟨referenced, x₅, -, h₄⟩ := bind_ok.mp h₃
  obtain ⟨u, x₆, -, h₅⟩ := bind_ok.mp h₄
  obtain ⟨u', x₇, -, h₆⟩ := bind_ok.mp h₅
  obtain ⟨hrows, -⟩ := Prod.mk.inj h₆
  refine ⟨q, table, targets.reduceOption, hq, ?_, (Except.ok.inj hrows).symm⟩
  rw [updateTargets, hok]
  rfl

/-- RETURNING of a DELETE shows the rows it removes. -/
theorem execDelete_returns {stmt : DeleteStmt C δ} {rows : List (RowValues C)} {y : DmlExec C δ}
    (h : (execDelete env stmt).exec x = (.ok rows, y)) :
    ∃ q targets, x.catalog.resolveTableName stmt.schema stmt.name = some q ∧
      deleteTargets env x q stmt = .ok targets ∧ rows = targets.map Prod.snd := by
  obtain ⟨⟨q, table⟩, x₁, htarget, h₁⟩ := bind_ok.mp h
  obtain ⟨rfl, hq, -⟩ := resolveTarget_ok htarget
  obtain ⟨x₂, x₃, hget, h₂⟩ := bind_ok.mp h₁
  cases hget
  obtain ⟨targets, x₄, htargets, h₃⟩ := bind_ok.mp h₂
  obtain ⟨hok, rfl⟩ := Prod.mk.inj htargets
  obtain ⟨u, x₅, -, h₄⟩ := bind_ok.mp h₃
  obtain ⟨u', x₆, -, h₅⟩ := bind_ok.mp h₄
  obtain ⟨referenced, x₇, -, h₆⟩ := bind_ok.mp h₅
  refine ⟨q, targets, hq, hok, ?_⟩
  split at h₆
  · obtain ⟨u'', x₈, -, h₇⟩ := bind_ok.mp h₆
    exact (Except.ok.inj (Prod.mk.inj h₇).1).symm
  · exact (Except.ok.inj (Prod.mk.inj h₆).1).symm

/-- An UPDATE that succeeds changes the rows it looks at and selects. -/
theorem mem_updateTargets {table : Table} {stmt : UpdateStmt C δ}
    {targets : List (String × RowValues C × RowValues C)}
    (h : updateTargets env x q table stmt = .ok targets) (rid : String) (old : RowValues C) :
    (∃ new, (rid, old, new) ∈ targets) ↔ (rid, old) ∈ snapshot env x q ∧
      selected (stmt.selection.map fun e => e x old) = .ok true := by
  obtain ⟨results, hresults, rfl⟩ := except_map_ok.mp h
  simp only [List.reduceOption_mem_iff]
  constructor
  · rintro ⟨new, hnew⟩
    obtain ⟨row, hrow, htarget⟩ := except_mapM_ok hresults _ hnew
    obtain ⟨rfl, rfl, -⟩ := updateTarget_ok htarget
    refine ⟨hrow, ?_⟩
    obtain ⟨b, hb, h₁⟩ := except_bind_ok.mp htarget
    cases b with
    | true => exact hb
    | false => cases h₁
  · rintro ⟨hrow, hselected⟩
    obtain ⟨result, hmem, htarget⟩ := except_mapM_mem hresults _ hrow
    obtain ⟨b, hb, h₁⟩ := except_bind_ok.mp htarget
    cases hselected.symm.trans hb
    obtain ⟨new, -, h₂⟩ := except_bind_ok.mp h₁
    obtain ⟨u, -, h₃⟩ := except_bind_ok.mp h₂
    obtain ⟨u', -, h₄⟩ := except_bind_ok.mp h₃
    cases h₄
    exact ⟨new, hmem⟩

/-- The rows a statement looks at. -/
theorem mem_snapshot {t : LoadedTable C} (ht : x.tables[q]? = some t) {rid : String}
    {values : RowValues C} :
    (rid, values) ∈ snapshot env x q ↔ t.rows[rid]? = some values ∧ rid ∉ env.dmlHidden q := by
  rw [snapshot, ht]
  simp only [List.mem_filter, mem_toList_iff_getElem?_eq_some, Bool.not_eq_true',
    ← Bool.not_eq_true, ExtTreeSet.contains_iff_mem]

end

/-! ### What RETURNING shows -/

section
variable (x : QueryExec C) (depth : Nat) (ctx : RlsContext) (q : QualifiedName) (t : LoadedTable C)

def PassesSelect (values : RowValues C) : Prop :=
  judged x depth ctx q t.table .select values = .ok true

/-- The rows that a command may change and its WHERE clause selects pass the SELECT
policies. -/
def SelectedVisible (cmd : PolicyCmd) (selection : RowValues C → Except SqlError Bool) : Prop :=
  ∀ (rid : String) (values : RowValues C), t.rows[rid]? = some values →
    judged x depth ctx q t.table cmd values = .ok true → selection values = .ok true →
      PassesSelect x depth ctx q t values

end

section
variable {rls : RlsEnv} {x : QueryExec C} {depth : Nat} {ctx : RlsContext} {q : QualifiedName}
  {t : LoadedTable C}

/-- A row that is not hidden passes. -/
theorem passesSelect_iff {target : Option (QualifiedName × PolicyCmd)}
    (hctx : initRls x depth rls target = .ok ctx) (ht : x.tables[q]? = some t)
    (henf : rls.enforces t.table = true) {rid : String} {values : RowValues C}
    (hrow : t.rows[rid]? = some values) :
    PassesSelect x depth ctx q t values ↔ rid ∉ hiddenIn ctx.selectHidden q := by
  obtain ⟨⟨b, hb, hmem⟩, -⟩ := initRls_ok hctx ht henf hrow
  rw [hmem, PassesSelect, hb]
  cases b <;> simp

/-- A statement shows rows it may change and selects; they are all visible if and only
if such rows are. -/
theorem shown_visible_iff {cmd : PolicyCmd} (hctx : initRls x depth rls (some (q, cmd)) = .ok ctx)
    (ht : x.tables[q]? = some t) (henf : rls.enforces t.table = true)
    {selection : RowValues C → Except SqlError Bool} {l : List (String × RowValues C)}
    (hl : ∀ rid values, (rid, values) ∈ l ↔ (t.rows[rid]? = some values ∧
      rid ∉ hiddenIn ctx.dmlHidden q) ∧ selection values = .ok true) :
    (∀ r ∈ l, PassesSelect x depth ctx q t r.2) ↔
      SelectedVisible x depth ctx q t cmd selection := by
  have hcmd : commandOn (some (q, cmd)) q = some cmd := by simp [commandOn, Option.filter]
  -- a row the command may change is one that its policies let through
  have hreached : ∀ rid values, t.rows[rid]? = some values →
      (rid ∉ hiddenIn ctx.dmlHidden q ↔ judged x depth ctx q t.table cmd values = .ok true) := by
    grind [initRls_ok]
  constructor
  · intro h rid values hrow hjudged hselected
    exact h (rid, values)
      ((hl rid values).mpr ⟨⟨hrow, (hreached rid values hrow).mpr hjudged⟩, hselected⟩)
  · rintro h ⟨rid, values⟩ hmem
    obtain ⟨⟨hrow, hvis⟩, hselected⟩ := (hl rid values).mp hmem
    exact h rid values hrow ((hreached rid values hrow).mp hvis) hselected

end

end

/-! ### A policy for DELETE alone -/

/-- The role of a user whose policies also include one that lets everything through. -/
def openRls : RlsEnv where
  username := "authenticated"
  parseExpr text := if text = "true" then .ok (.ident "true") else annRls.parseExpr text

/-- A table where anyone sees their own notes and deletes by another policy. -/
def deletableNotes (text : String) : LoadedTable plainCrates :=
  notesOf (notesTable "notes" [usingPolicy .select "owner = 'ann'", usingPolicy .delete text])
    [("n:1", note 1 "ann"), ("n:2", note 2 "bob")]

def deletableDatabase (text : String) : LoadedDatabase plainCrates where
  tables := (∅ : ExtTreeMap QualifiedName (LoadedTable plainCrates)).insert notesName
    (deletableNotes text)
  indexed q t h := by
    rw [ExtTreeMap.getElem?_insert] at h
    split at h
    · cases h
      exact fun idx hidx => nomatch hidx
    · simp at h

def deletableExec (text : String) : QueryExec plainCrates :=
  notesExec [(notesName, deletableNotes text)]

/-- What a DELETE takes from elsewhere when some rows are hidden from it. -/
def notesEnv (hidden : QualifiedName → ExtTreeSet String) : DmlEnv plainCrates Unit where
  castOther := plainEnv.castOther
  evalDefault _ _ := .ok .null
  evalCheck _ _ _ := .ok none
  encodeRow _ _ _ _ := ()
  modes := none
  newRowAllowed _ _ _ _ := .ok ()
  oldRowVisible _ _ _ := .ok true
  dmlHidden := hidden

def deletableState (text : String) : DmlExec plainCrates Unit :=
  ⟨(deletableExec text).catalog, false, (deletableDatabase text).tables, [], [], [], [], [], []⟩

/-- `DELETE FROM notes RETURNING *`. -/
def deleteAll : DeleteStmt plainCrates Unit := ⟨none, "notes", none⟩

/-- How `init_rls` judges the rows, for SELECT and for DELETE, and the rows that the
DELETE returns. -/
def deletableRun (text : String) :
    Option (List (Option Bool × Option Bool) × List (Option Bool)) := do
  let x := (deletableExec text).on (deletableDatabase text)
  let ctx ← (initRls x 8 openRls (some (notesName, .delete))).toOption
  let judgedAs := fun cmd values =>
    (judged x 8 ctx notesName (deletableNotes text).table cmd values).toOption
  let rows ← ((execDelete (notesEnv (hiddenIn ctx.dmlHidden)) deleteAll).exec
    (deletableState text)).1.toOption
  return ([note 1 "ann", note 2 "bob"].map fun v => (judgedAs .select v, judgedAs .delete v),
    rows.map (judgedAs .select))

theorem deletableRun_ok {text : String} {judgements : List (Option Bool × Option Bool)}
    {shown : List (Option Bool)} (h : deletableRun text = some (judgements, shown)) :
    ∃ ctx rows y', initRls ((deletableExec text).on (deletableDatabase text)) 8 openRls
        (some (notesName, .delete)) = .ok ctx ∧
      (execDelete (notesEnv (hiddenIn ctx.dmlHidden)) deleteAll).exec (deletableState text) =
        (.ok rows, y') ∧
      judgements = ([note 1 "ann", note 2 "bob"].map fun v =>
        ((judged ((deletableExec text).on (deletableDatabase text)) 8 ctx notesName
          (deletableNotes text).table .select v).toOption,
        (judged ((deletableExec text).on (deletableDatabase text)) 8 ctx notesName
          (deletableNotes text).table .delete v).toOption)) ∧
      shown = rows.map fun v => (judged ((deletableExec text).on (deletableDatabase text)) 8 ctx
        notesName (deletableNotes text).table .select v).toOption := by
  obtain ⟨ctx, hctx, h₁⟩ := Option.bind_eq_some_iff.mp h
  obtain ⟨rows, hrows, h₂⟩ := Option.bind_eq_some_iff.mp h₁
  obtain ⟨hj, hs⟩ := Prod.mk.inj (Option.some.inj h₂)
  exact ⟨ctx, rows, _, except_toOption_eq_some.mp hctx,
    Prod.ext (except_toOption_eq_some.mp hrows) rfl, hj.symm, hs.symm⟩

end GuardianDb.Sql
