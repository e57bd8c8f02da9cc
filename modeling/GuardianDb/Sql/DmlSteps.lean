/-
What INSERT, UPDATE and DELETE can do to their state, step by step.

A statement changes its state in seven ways, referential actions included:
it notes locks and checks for later, draws from a sequence, raises one, inserts,
rewrites or deletes a row, or overwrites the row that ON CONFLICT found. `DmlStep`
lists them with what the statement has checked before each; the invariants of
statements are derived from it. `T` says which table definition belongs to a name,
`U` which UUIDs an INSERT may take.

  * `insertPrepared_steps`, `execInsert_steps`, `execUpdate_steps`,
    `execDelete_steps` — a statement that succeeds is a sequence of such steps.
-/
import GuardianDb.Sql.Dml
import Mathlib.Data.List.ReduceOption
import Mathlib.Logic.Relation

namespace GuardianDb.Sql

open Std Relational Relation Fallible

section
variable {C : Crates} {δ : Type}

/-! ### Row writes as functions of the state -/

/-- A view after `writeUpdate`. -/
def rewritten (table : Table) (t : LoadedTable C) (rowId : String) (values : RowValues C) :
    LoadedTable C :=
  let newId := (deriveRowId (pkValues table values)).getD rowId
  if newId ≠ rowId then (t.applyDelete rowId).applyInsert newId values
  else t.applyUpdate rowId values

namespace DmlExec

/-- A view is replaced and a write recorded. -/
def write (x : DmlExec C δ) (q : QualifiedName) (t : LoadedTable C) (m : Mutation δ) :
    DmlExec C δ :=
  { x with tables := x.tables.insert q t, mutations := x.mutations ++ [m] }

/-- The state after `insertRow` into the view `t`. -/
def insert (env : DmlEnv C δ) (x : DmlExec C δ) (q : QualifiedName) (table : Table)
    (t : LoadedTable C) (rowId : String) (values : RowValues C) : DmlExec C δ :=
  x.write q (t.applyInsert rowId values)
    (.put table.storageCollection rowId (env.encodeRow table rowId values (t.versionOf rowId)))

/-- The state after `deleteRow` from the view `t`. -/
def delete (x : DmlExec C δ) (q : QualifiedName) (table : Table) (t : LoadedTable C)
    (rowId : String) : DmlExec C δ :=
  x.write q (t.applyDelete rowId) (.delete table.storageCollection rowId)

/-- The state after `writeUpdate` in the view `t`. -/
def rewrite (env : DmlEnv C δ) (x : DmlExec C δ) (q : QualifiedName) (table : Table)
    (t : LoadedTable C) (rowId : String) (values : RowValues C) : DmlExec C δ :=
  let newId := (deriveRowId (pkValues table values)).getD rowId
  if newId ≠ rowId then
    (x.delete q table t rowId).insert env q table (t.applyDelete rowId) newId values
  else
    x.write q (t.applyUpdate rowId values) (.put table.storageCollection rowId
      (env.encodeRow table rowId values ((t.applyUpdate rowId values).versionOf rowId)))

/-- The catalog after `observeSerials`. -/
def observe (x : DmlExec C δ) (table : Table) (values : RowValues C) : Catalog :=
  table.columns.foldl (fun k c =>
    match c.identitySequence, (valueOf values c.name).asI64 with
    | some seq, some v => k.observeSequenceValue ⟨table.schema, seq⟩ v.toInt
    | _, _ => k) x.catalog

theorem tables_write (x : DmlExec C δ) (q : QualifiedName) (t : LoadedTable C) (m : Mutation δ)
    (q' : QualifiedName) :
    (x.write q t m).tables[q']? = if q' = q then some t else x.tables[q']? :=
  OrderedMap.get_insert x.tables q t q'

theorem tables_rewrite (env : DmlEnv C δ) (x : DmlExec C δ) (q : QualifiedName) (table : Table)
    (t : LoadedTable C) (rowId : String) (values : RowValues C) (q' : QualifiedName) :
    (x.rewrite env q table t rowId values).tables[q']? =
      if q' = q then some (rewritten table t rowId values) else x.tables[q']? := by
  unfold rewrite rewritten
  dsimp only
  split
  · simp_all [insert, tables_write, delete]
  · rw [tables_write]

end DmlExec

variable {q : QualifiedName} {x y : DmlExec C δ}

theorem loadedTable_ok {t : LoadedTable C} (h : (loadedTable q).exec x = (.ok t, y)) :
    x.tables[q]? = some t ∧ y = x := by
  obtain ⟨x', y', hget, h⟩ := bind_ok.mp h
  cases hget
  split at h
  · next t' ht =>
    cases h
    exact ⟨ht, rfl⟩
  · cases h

theorem fkLoaded_ok {t : LoadedTable C} (h : fkLoaded x q = .ok t) : x.tables[q]? = some t := by
  unfold fkLoaded at h
  split at h
  · next t' ht =>
    cases h
    exact ht
  · cases h

variable {table : Table} {rowId : String} {values : RowValues C} {u : Unit}

theorem insertRow_ok {env : DmlEnv C δ}
    (h : (insertRow env q table rowId values).exec x = (.ok u, y)) :
    ∃ t, x.tables[q]? = some t ∧ y = x.insert env q table t rowId values := by
  obtain ⟨t, x', hload, hwrite⟩ := bind_ok.mp h
  obtain ⟨ht, rfl⟩ := loadedTable_ok hload
  cases hwrite
  exact ⟨t, ht, rfl⟩

theorem deleteRow_ok (h : (deleteRow q table rowId).exec x = (.ok u, y)) :
    ∃ t, x.tables[q]? = some t ∧ y = x.delete q table t rowId := by
  obtain ⟨t, x', hload, hwrite⟩ := bind_ok.mp h
  obtain ⟨ht, rfl⟩ := loadedTable_ok hload
  cases hwrite
  exact ⟨t, ht, rfl⟩

theorem writeUpdate_ok {env : DmlEnv C δ}
    (h : (writeUpdate env q table rowId values).exec x = (.ok u, y)) :
    ∃ t, x.tables[q]? = some t ∧ y = x.rewrite env q table t rowId values := by
  unfold writeUpdate at h
  dsimp only at h
  split at h
  · next hmoved =>
    obtain ⟨u₁, x₁, hdel, hins⟩ := bind_ok.mp h
    obtain ⟨t, ht, rfl⟩ := deleteRow_ok hdel
    obtain ⟨t', ht', rfl⟩ := insertRow_ok hins
    have hview : (x.delete q table t rowId).tables[q]? = some (t.applyDelete rowId) := by
      simp [DmlExec.delete, DmlExec.write]
    cases hview.symm.trans ht'
    refine ⟨t, ht, ?_⟩
    simp only [DmlExec.rewrite, if_pos hmoved]
  · next hkept =>
    obtain ⟨t, x', hload, hwrite⟩ := bind_ok.mp h
    obtain ⟨ht, rfl⟩ := loadedTable_ok hload
    cases hwrite
    refine ⟨t, ht, ?_⟩
    simp only [DmlExec.rewrite, if_neg hkept]
    rfl

theorem checkUniqueFor_ok {exclude : Option String}
    (h : (checkUniqueFor q values exclude).exec x = (.ok u, y)) :
    y = x ∧ ∀ t, x.tables[q]? = some t → t.checkUnique values exclude = .ok () := by
  obtain ⟨x', y', hget, h⟩ := bind_ok.mp h
  cases hget
  split at h
  · next t ht => simp_all
  · next hnone => simp_all

/-! ### Steps -/

section
variable (env : DmlEnv C δ) (T : QualifiedName → Table → Prop) (U : String → Prop)

/-- One change of the state of a statement. -/
inductive DmlStep : DmlExec C δ → DmlExec C δ → Prop where
  /-- Locks, deferred checks and the worklist. -/
  | noted (x : DmlExec C δ) (locks : List (LockObject × LockMode × LockScope))
      (deferred : List (DeferredFkCheck C)) (queue : List (RiWork C))
      (checks : List (PendingCheck C)) :
      DmlStep x { x with
        pendingLocks := locks, deferredChecks := deferred, queue := queue, checks := checks }
  | drawn (x : DmlExec C δ) (q : QualifiedName) (table : Table) (c : Column) (seq : String) (n : Int)
      (k : Catalog) (hT : T q table) (hc : c ∈ table.columns) (hseq : c.identitySequence = some seq)
      (hnext : x.catalog.nextSequenceValue ⟨table.schema, seq⟩ = .ok (n, k)) :
      DmlStep x { x with
        catalog := k
        catalogDirty := true
        drawn := x.drawn ++ [((⟨table.schema, seq⟩ : QualifiedName), n)] }
  | observed (x : DmlExec C δ) (q : QualifiedName) (table : Table) (values : RowValues C)
      (hT : T q table) : DmlStep x { x with catalog := x.observe table values }
  | inserted (x : DmlExec C δ) (q : QualifiedName) (table : Table) (t : LoadedTable C) (u : String)
      (values : RowValues C) (hT : T q table) (ht : x.tables[q]? = some t) (hU : U u)
      (hrow : checkRowConstraints env table values = .ok ())
      (hunique : t.checkUnique values none = .ok ()) :
      DmlStep x (x.insert env q table t ((deriveRowId (pkValues table values)).getD u) values)
  | updated (x : DmlExec C δ) (q : QualifiedName) (table : Table) (t : LoadedTable C)
      (rowId : String) (values : RowValues C) (hT : T q table) (ht : x.tables[q]? = some t)
      (hrow : checkRowConstraints env table values = .ok ())
      (hunique : t.checkUnique values (some rowId) = .ok ()) :
      DmlStep x (x.rewrite env q table t rowId values)
  /-- ON CONFLICT DO UPDATE. -/
  | overwritten (x : DmlExec C δ) (q : QualifiedName) (table : Table) (t : LoadedTable C)
      (rowId : String) (values : RowValues C) (hT : T q table) (ht : x.tables[q]? = some t)
      (hchecks : checkConstraints env table values = .ok ()) :
      DmlStep x (x.rewrite env q table t rowId values)
  | deleted (x : DmlExec C δ) (q : QualifiedName) (table : Table) (t : LoadedTable C)
      (rowId : String) (hT : T q table) (ht : x.tables[q]? = some t) :
      DmlStep x (x.delete q table t rowId)

/-- Every view has the definition that belongs to its name. -/
def Defined (x : DmlExec C δ) : Prop := ∀ q t, x.tables[q]? = some t → T q t.table

/-- From a state with the right definitions, steps lead from one state to the other. -/
def Steps (x y : DmlExec C δ) : Prop := Defined T x → ReflTransGen (DmlStep env T U) x y

end

variable {env : DmlEnv C δ} {T : QualifiedName → Table → Prop} {U : String → Prop}

/-- A step leaves the definitions of the views alone. -/
theorem table_step (h : DmlStep env T U x y) {t' : LoadedTable C} (ht' : y.tables[q]? = some t') :
    ∃ t, x.tables[q]? = some t ∧ t'.table = t.table := by
  have hsame : ∀ {p} {t v}, x.tables[p]? = some t →
      (if q = p then some v else x.tables[q]?) = some t' → v.table = t.table →
      ∃ t, x.tables[q]? = some t ∧ t'.table = t.table := by grind
  cases h with
  | inserted p table t u values hT ht =>
    rw [DmlExec.insert, DmlExec.tables_write] at ht'
    exact hsame ht ht' rfl
  | updated _ table t rowId values _ ht | overwritten _ table t rowId values _ ht =>
    rw [DmlExec.tables_rewrite] at ht'
    exact hsame ht ht' (by unfold rewritten; dsimp only; split <;> rfl)
  | deleted p table t rowId hT ht =>
    rw [DmlExec.delete, DmlExec.tables_write] at ht'
    exact hsame ht ht' rfl
  | _ => exact ⟨t', ht', rfl⟩

theorem defined_steps (h : ReflTransGen (DmlStep env T U) x y) (hx : Defined T x) :
    Defined T y := by
  induction h with
  | refl => exact hx
  | tail _ hstep ih =>
    intro q t' ht'
    obtain ⟨t, ht, htable⟩ := table_step hstep ht'
    rw [htable]
    exact ih q t ht

instance : IsPreorder (DmlExec C δ) (Steps env T U) where
  refl _ _ := .refl
  trans _ _ _ hxy hyz hx := (hxy hx).trans (hyz (defined_steps (hxy hx) hx))

/-! ### The walk through the statements -/

/-- Only what is noted for later changes. -/
def OnlyNotes (x y : DmlExec C δ) : Prop :=
  y = { x with
    pendingLocks := y.pendingLocks, deferredChecks := y.deferredChecks, queue := y.queue,
    checks := y.checks }

instance : IsPreorder (DmlExec C δ) OnlyNotes where
  refl _ := rfl
  trans x y z hxy hyz := by
    unfold OnlyNotes at *
    rw [hyz, hxy]

theorem notes_deferCheck (check : DeferredFkCheck C) :
    (deferCheck check : Dml C δ Unit).Leads OnlyNotes := .modify fun _ => rfl

theorem notes_enqueue (item : RiWork C) : (enqueue item : Dml C δ Unit).Leads OnlyNotes :=
  .modify fun _ => rfl

theorem notes_checkLater (check : PendingCheck C) :
    (checkLater check : Dml C δ Unit).Leads OnlyNotes := .modify fun _ => rfl

theorem notes_lockRowLater (oid : Nat) (rowId : String) :
    (lockRowLater oid rowId : Dml C δ Unit).Leads OnlyNotes := .modify fun _ => rfl

theorem notes_fkCheckOne (table : Table) (fk : ForeignKey) (row : RowValues C) :
    (fkCheckOne env table fk row).Leads OnlyNotes := by
  unfold fkCheckOne
  dsimp only
  split
  · exact .pure _
  split
  · split
    · exact notes_deferCheck _
    · exact .throw _
  · refine .bind .get fun x => .bind (.ofExcept _) fun parent => .bind (.ofExcept _) fun has => ?_
    split
    · exact .pure _
    split
    · exact notes_deferCheck _
    · exact .throw _

theorem notes_fkCheckChild (table : Table) (new : RowValues C) (old : Option (RowValues C)) :
    (fkCheckChild env table new old).Leads OnlyNotes := by
  refine .forM fun fk _ => ?_
  split
  · split
    · exact .pure _
    · exact notes_fkCheckOne table fk new
  · exact notes_fkCheckOne table fk new

theorem notes_riQueueOrCheck (parent child : QualifiedName) (fk : ForeignKey) (key : String)
    (keyVals : List (SqlValue C)) :
    (riQueueOrCheck env parent child fk key keyVals).Leads OnlyNotes := by
  unfold riQueueOrCheck
  split
  · exact notes_deferCheck _
  · exact notes_checkLater _

theorem notes_riCheck (c : PendingCheck C) : (riCheck c : Dml C δ Unit).Leads OnlyNotes := by
  refine .bind .get fun x => .bind (.ofExcept _) fun has => ?_
  split
  · exact .pure _
  · refine .bind (.ofExcept _) fun children => ?_
    split
    · exact .pure _
    · exact .throw _

theorem steps_of_notes (h : OnlyNotes x y) : Steps env T U x y := by
  intro _
  rw [h]
  exact .single (.noted x _ _ _ _)

theorem leads_of_notes {α : Type} {m : Dml C δ α} (h : m.Leads OnlyNotes) :
    m.Leads (Steps env T U) :=
  fun x a y hrun => steps_of_notes (h x a y hrun)

/-- A view that is looked up has the definition of its name. -/
theorem leads_fkLoaded {α : Type} {f : LoadedTable C → Dml C δ α}
    (hf : ∀ t, T q t.table → (f t).Leads (Steps env T U)) :
    (do f (← ofExcept (fkLoaded (← get) q))).Leads (Steps env T U) := by
  intro x a y h hx
  obtain ⟨x', y', hget, h⟩ := bind_ok.mp h
  cases hget
  obtain ⟨t, y', hload, h⟩ := bind_ok.mp h
  obtain ⟨ht, rfl⟩ := Prod.mk.inj hload
  exact hf t (hx q t (fkLoaded_ok ht)) _ a y h hx

theorem leads_defaultValue {c : Column} (hT : T q table) (hc : c ∈ table.columns) :
    (defaultValue env table c).Leads (Steps env T U) := by
  unfold defaultValue
  split
  · next seq hseq =>
    refine .bind ?_ fun n => .pure _
    intro x a y h
    obtain ⟨x', y', hget, h⟩ := bind_ok.mp h
    cases hget
    split at h
    · cases h
    · next n k hnext =>
      cases h
      exact fun _ => .single (.drawn _ q table c seq _ k hT hc hseq hnext)
  · split
    · exact .bind .get fun x => .ofExcept _
    · exact .pure _

theorem leads_observeSerials (hT : T q table) (values : RowValues C) :
    (observeSerials table values).Leads (Steps env T U) :=
  .modify fun x _ => .single (.observed x q table values hT)

variable {name : String}

theorem mem_columns_of_column {c : Column} (h : table.column name = some c) : c ∈ table.columns :=
  List.mem_reverse.mp (List.mem_of_find?_eq_some h)

theorem leads_riDefaultsFor (child : QualifiedName) (fk : ForeignKey) (row : RowValues C) :
    (riDefaultsFor env child fk row).Leads (Steps env T U) := by
  refine leads_fkLoaded fun t hT => .foldlM fun new c _ => ?_
  split
  · exact .throw _
  · next col hcol =>
    exact .bind (leads_defaultValue hT (mem_columns_of_column hcol)) fun v =>
      .bind (.ofExcept _) fun v' => .pure _

theorem leads_deleteRow (hT : T q table) (rowId : String) :
    (deleteRow q table rowId).Leads (Steps env T U) := by
  intro x u y h _
  obtain ⟨t, ht, rfl⟩ := deleteRow_ok h
  exact .single (.deleted x q table t rowId hT ht)

theorem leads_riDeleteChild (child : QualifiedName) (rid : String) :
    (riDeleteChild child rid).Leads (Steps env T U) :=
  leads_fkLoaded fun t hT =>
    .bind (leads_of_notes (notes_lockRowLater t.table.oid rid)) fun _ => leads_deleteRow hT rid

/-- A row that was checked for uniqueness is written after the foreign keys are. -/
theorem updated_steps {z : DmlExec C δ} {u' : Unit} (hT : T q table)
    (hrow : checkRowConstraints env table values = .ok ())
    (hunique : (checkUniqueFor q values (some rowId)).exec x = (.ok u, x))
    (hsame : y.tables = x.tables)
    (hwrite : (writeUpdate env q table rowId values).exec y = (.ok u', z)) : Steps env T U y z := by
  obtain ⟨t, ht, rfl⟩ := writeUpdate_ok hwrite
  refine fun _ => .single (.updated y q table t rowId values hT ht hrow ?_)
  exact (checkUniqueFor_ok hunique).2 t (hsame ▸ ht)

theorem leads_riUpdateChild (child : QualifiedName) (rid : String) (old new : RowValues C) :
    (riUpdateChild env child rid old new).Leads (Steps env T U) := by
  refine leads_fkLoaded fun t hT => ?_
  split
  · exact .pure _
  · intro x a y h
    obtain ⟨u₁, x₁, hrow, h₁⟩ := bind_ok.mp h
    obtain ⟨u₂, x₂, hunique, h₂⟩ := bind_ok.mp h₁
    obtain ⟨u₃, x₃, hfk, h₃⟩ := bind_ok.mp h₂
    obtain ⟨u₄, x₄, hlock, h₄⟩ := bind_ok.mp h₃
    obtain ⟨u₅, x₅, hwrite, hqueue⟩ := bind_ok.mp h₄
    obtain ⟨hok, rfl⟩ := Prod.mk.inj hrow
    obtain ⟨rfl, -⟩ := checkUniqueFor_ok hunique
    have hnotes : OnlyNotes x₂ x₄ :=
      trans_of OnlyNotes (notes_fkCheckChild t.table new (some old) _ _ _ hfk)
        (notes_lockRowLater t.table.oid rid _ _ _ hlock)
    have hupdated : Steps env T U x₄ x₅ :=
      updated_steps hT hok hunique (by rw [hnotes]) hwrite
    exact trans_of _ (steps_of_notes hnotes)
      (trans_of _ hupdated (steps_of_notes (notes_enqueue _ _ _ _ hqueue)))

/-- The children of a key are handled one by one. -/
theorem leads_children {child : QualifiedName} {fk : ForeignKey} {key : String}
    {body : String × RowValues C → Dml C δ Unit} (hbody : ∀ r, (body r).Leads (Steps env T U)) :
    (do (← ofExcept (fkMatchingChildren (← get) child fk key)).forM body).Leads
      (Steps env T U) :=
  .bind .get fun _ => .bind (.ofExcept _) fun _ => .forM fun r _ => hbody r

theorem leads_riDeleteAction (parent : QualifiedName) (depth : Nat) (child : QualifiedName)
    (fk : ForeignKey) (key : String) (keyVals : List (SqlValue C)) :
    (riDeleteAction env parent depth child fk key keyVals).Leads (Steps env T U) := by
  unfold riDeleteAction
  split
  · exact leads_of_notes (notes_riQueueOrCheck parent child fk key keyVals)
  · exact leads_of_notes (notes_checkLater _)
  · exact leads_children fun r => .bind (leads_riDeleteChild child r.1) fun _ =>
      leads_of_notes (notes_enqueue _)
  · exact leads_children fun r => leads_riUpdateChild child r.1 r.2 _
  · refine .bind .get fun _ => .bind (.ofExcept _) fun children => .bind (.forM fun r _ => ?_) fun _ =>
      leads_of_notes (notes_riQueueOrCheck parent child fk key keyVals)
    exact .bind (leads_riDefaultsFor child fk r.2) fun new => leads_riUpdateChild child r.1 r.2 new

theorem leads_riUpdateAction (parent child : QualifiedName) (fk : ForeignKey) (key : String)
    (oldVals newVals : List (SqlValue C)) :
    (riUpdateAction env parent child fk key oldVals newVals).Leads (Steps env T U) := by
  unfold riUpdateAction
  split
  · exact leads_of_notes (notes_riQueueOrCheck parent child fk key oldVals)
  · exact leads_of_notes (notes_checkLater _)
  · refine leads_fkLoaded fun t _ => .forM fun r _ => .bind (.ofExcept _) fun new => ?_
    exact leads_riUpdateChild child r.1 r.2 new
  · exact leads_children fun r => leads_riUpdateChild child r.1 r.2 _
  · refine .bind .get fun _ => .bind (.ofExcept _) fun children => .bind (.forM fun r _ => ?_) fun _ =>
      leads_of_notes (notes_riQueueOrCheck parent child fk key oldVals)
    exact .bind (leads_riDefaultsFor child fk r.2) fun new => leads_riUpdateChild child r.1 r.2 new

theorem leads_riItem (item : RiWork C) : (riItem env item).Leads (Steps env T U) := by
  cases item with
  | deleted table row depth =>
    rw [riItem]
    split
    · exact .throw _
    · refine .bind .get fun x => .forM fun ⟨child, fk⟩ _ => ?_
      dsimp only
      split
      · exact .pure _
      · exact leads_riDeleteAction table depth child fk _ _
  | updated table old new =>
    refine .bind .get fun x => .forM fun ⟨child, fk⟩ _ => ?_
    dsimp only
    split
    · exact .pure _
    split
    · exact .pure _
    · exact leads_riUpdateAction table child fk _ _ _

theorem leads_riLoop (fuel : Nat) : (riLoop env fuel).Leads (Steps env T U) := by
  induction fuel with
  | zero =>
    refine .bind .get fun x => ?_
    split
    · exact .pure _
    · exact .throw _
  | succ fuel ih =>
    refine .bind .get fun x => ?_
    split
    · exact .pure _
    · next item rest _ =>
      exact .bind (leads_of_notes (.modify fun _ => rfl)) fun _ =>
        .bind (leads_riItem item) fun _ => ih

theorem leads_fkApplyReferentialActions (work : List (RiWork C)) :
    (fkApplyReferentialActions env work).Leads (Steps env T U) :=
  .bind (leads_of_notes (.modify fun _ => rfl)) fun _ => .bind (leads_riLoop maxRiSteps) fun _ =>
    .bind .get fun _ => .forM fun c _ => leads_of_notes (notes_riCheck c)

/-! ### INSERT -/

theorem leads_prepareRow (hT : T q table) (uuid : Nat → String) (provided : RowValues C × Nat) :
    (prepareRow env table uuid provided).Leads (Steps env T U) := by
  refine .bind (.foldlM fun values c hc => ?_) fun values => .bind (.ofExcept _) fun _ => .pure _
  split
  · exact .bind (.pure _) fun v => .bind (.ofExcept _) fun v' => .pure _
  · exact .bind (leads_defaultValue hT hc) fun v => .bind (.ofExcept _) fun v' => .pure _

/-- A prepared row is complete and has its id. -/
theorem prepareRow_ok {uuid : Nat → String} {provided : RowValues C × Nat}
    {row : String × RowValues C} (h : (prepareRow env table uuid provided).exec x = (.ok row, y)) :
    checkRowConstraints env table row.2 = .ok () ∧
      row.1 = (deriveRowId (pkValues table row.2)).getD (uuid provided.2) := by
  obtain ⟨values, x₁, -, h₁⟩ := bind_ok.mp h
  obtain ⟨u, x₂, hcheck, h₂⟩ := bind_ok.mp h₁
  cases h₂
  exact ⟨(Prod.mk.inj hcheck).1, rfl⟩

theorem leads_freshInsert {u : String} (hT : T q table) (hU : U u)
    (hrow : checkRowConstraints env table values = .ok ()) :
    (freshInsert env q table ((deriveRowId (pkValues table values)).getD u) values).Leads
      (Steps env T U) := by
  intro x a y h
  obtain ⟨u₁, x₁, hunique, h₁⟩ := bind_ok.mp h
  obtain ⟨u₂, x₂, hfk, h₂⟩ := bind_ok.mp h₁
  obtain ⟨u₃, x₃, hobserve, h₃⟩ := bind_ok.mp h₂
  obtain ⟨u₄, x₄, hinsert, h₄⟩ := bind_ok.mp h₃
  obtain ⟨rfl, hfree⟩ := checkUniqueFor_ok hunique
  have hnotes : OnlyNotes x₁ x₂ := notes_fkCheckChild table values none _ _ _ hfk
  have htables : x₃.tables = x₁.tables := by
    cases hobserve
    rw [hnotes]
  have hinserted : Steps env T U x₃ x₄ := by
    obtain ⟨t, ht, rfl⟩ := insertRow_ok hinsert
    exact fun _ => .single (.inserted x₃ q table t u values hT ht hU hrow (hfree t (htables ▸ ht)))
  cases h₄
  exact trans_of _ (steps_of_notes hnotes)
    (trans_of _ (leads_observeSerials hT values _ _ _ hobserve) hinserted)

theorem applyConflictUpdate_ok {existingId : String} {excluded : RowValues C}
    {assignments : List (String × ConflictExpr C δ)} {selection : Option (ConflictExpr C δ)}
    {r : Option (RowValues C)}
    (h : (applyConflictUpdate env table existingId excluded assignments selection).exec x =
      (.ok r, y)) : y = x ∧ ∀ new, r = some new → checkConstraints env table new = .ok () := by
  obtain ⟨x', y', hget, h₁⟩ := bind_ok.mp h
  cases hget
  split at h₁
  · cases h₁
  · obtain ⟨b, x₁, hsel, h₂⟩ := bind_ok.mp h₁
    obtain ⟨-, rfl⟩ := Prod.mk.inj hsel
    split at h₂
    · obtain ⟨new, x₂, hnew, h₃⟩ := bind_ok.mp h₂
      obtain ⟨-, rfl⟩ := Prod.mk.inj hnew
      obtain ⟨u, x₃, hcheck, h₄⟩ := bind_ok.mp h₃
      obtain ⟨hok, rfl⟩ := Prod.mk.inj hcheck
      cases h₄
      refine ⟨rfl, fun new' hnew' => ?_⟩
      cases hnew'
      exact hok
    · cases h₂
      exact ⟨rfl, nofun⟩

theorem leads_conflictUpdate (hT : T q table) (referenced : Bool) (existingId : String)
    (values : RowValues C) (assignments : List (String × ConflictExpr C δ))
    (selection : Option (ConflictExpr C δ)) :
    (conflictUpdate env q table referenced existingId values assignments selection).Leads
      (Steps env T U) := by
  refine .bind .get fun x => .bind (.ofExcept _) fun visible => ?_
  split
  · intro x₀ a y h
    obtain ⟨r, x₁, hupdate, h₁⟩ := bind_ok.mp h
    obtain ⟨rfl, hchecks⟩ := applyConflictUpdate_ok hupdate
    split at h₁
    · cases h₁
      exact refl_of _ _
    · next new =>
      refine (?_ : Fallible.Leads _ (Steps env T U)) _ _ _ h₁
      refine .bind .get fun x₂ => .bind (.ofExcept _) fun _ =>
        .bind (leads_of_notes (notes_fkCheckChild table new _)) fun _ => .bind ?_ fun _ => ?_
      · intro x₃ u x₄ hwrite _
        obtain ⟨t, ht, rfl⟩ := writeUpdate_ok hwrite
        exact .single (.overwritten x₃ q table t existingId new hT ht (hchecks new rfl))
      · dsimp only
        split
        · exact .bind (leads_fkApplyReferentialActions _) fun _ => .pure _
        · exact .pure _
  · exact .throw _

/-- **A prepared row is inserted in steps.** -/
theorem insertPrepared_steps {u : String} (hT : T q table) (hU : U u)
    (hrow : checkRowConstraints env table values = .ok ()) (referenced : Bool)
    (onConflict : Option (OnConflict C δ)) :
    (insertPrepared env q table referenced onConflict
      ((deriveRowId (pkValues table values)).getD u, values)).Leads (Steps env T U) := by
  refine .bind .get fun x => .bind (.ofExcept _) fun _ => .bind .get fun x' => ?_
  split
  · exact leads_freshInsert hT hU hrow
  · refine .bind ?_ fun _ => leads_freshInsert hT hU hrow
    intro x₀ a y h
    obtain ⟨rfl, -⟩ := checkUniqueFor_ok h
    exact refl_of _ _
  · split
    · exact .pure _
    · exact leads_conflictUpdate hT referenced _ values _ _

theorem resolveTarget_ok {schema : Option String} {view : String}
    (h : (resolveTarget schema name view).exec x = (.ok (q, table), y)) :
    y = x ∧ x.catalog.resolveTableName schema name = some q ∧
      x.catalog.tables[q]? = some table := by
  obtain ⟨x', y', hget, h₁⟩ := bind_ok.mp h
  cases hget
  split at h₁
  · cases h₁
  · next q' hq' =>
    split at h₁
    · cases h₁
    · split at h₁
      · next table' htable => simp_all
      · cases h₁

variable {rows : List (RowValues C)}

/-- Steps on the table of this name and the tables that are loaded. -/
def StepsOn (env : DmlEnv C δ) (U : String → Prop) (target : Option String × String)
    (x y : DmlExec C δ) : Prop :=
  ∃ q table, x.catalog.resolveTableName target.1 target.2 = some q ∧
    x.catalog.tables[q]? = some table ∧
    ∀ T : QualifiedName → Table → Prop, T q table → Steps env T U x y

theorem stepsOn_of_resolve {schema : Option String} {view : String}
    {f : QualifiedName × Table → Dml C δ (List (RowValues C))}
    (h : (resolveTarget schema name view >>= f).exec x = (.ok rows, y))
    (hrest : ∀ q table T, T q table → (f (q, table)).Leads (Steps env T U)) :
    StepsOn env U (schema, name) x y := by
  obtain ⟨⟨q, table⟩, x₁, htarget, h₁⟩ := bind_ok.mp h
  obtain ⟨rfl, hq, htable⟩ := resolveTarget_ok htarget
  exact ⟨q, table, hq, htable, fun T hT => hrest q table T hT _ _ _ h₁⟩

/-- **An INSERT that succeeds is a sequence of steps** on its target and the tables
that are loaded. -/
theorem execInsert_steps {stmt : InsertStmt C δ} (h : (execInsert env stmt).exec x = (.ok rows, y))
    (hU : ∀ i, U (stmt.uuid i)) : StepsOn env U (stmt.schema, stmt.name) x y := by
  refine stepsOn_of_resolve h fun q table T hT => ?_
  refine .bind .get fun x₂ => .bind (.ofExcept _) fun provided => ?_
  intro x₃ a x₄ h₂
  obtain ⟨prepared, x₅, hprepared, h₃⟩ := bind_ok.mp h₂
  have hsteps : Steps env T U x₃ x₅ :=
    Fallible.Leads.mapM (fun r _ => leads_prepareRow hT stmt.uuid r) _ _ _ hprepared
  refine trans_of _ hsteps ((?_ : Fallible.Leads _ (Steps env T U)) _ _ _ h₃)
  refine .bind (.bind .get fun _ => .pure _) fun referenced => .bind (.mapM fun row hrow => ?_)
    fun _ => .pure _
  obtain ⟨r, -, z, z', hrun⟩ := mapM_ok hprepared row hrow
  obtain ⟨hok, hid⟩ := prepareRow_ok hrun
  obtain ⟨rowId, values⟩ := row
  dsimp only at hid hok
  rw [hid]
  exact insertPrepared_steps hT (hU r.2) hok referenced stmt.onConflict

/-! ### UPDATE and DELETE -/

variable {target : String × RowValues C × RowValues C}

theorem updateTarget_ok {stmt : UpdateStmt C δ} {row : String × RowValues C}
    (h : updateTarget env x q table stmt row = .ok (some target)) :
    target.1 = row.1 ∧ target.2.1 = row.2 ∧
      checkRowConstraints env table target.2.2 = .ok () := by
  obtain ⟨b, -, h₁⟩ := except_bind_ok.mp h
  split at h₁
  · obtain ⟨new, -, h₂⟩ := except_bind_ok.mp h₁
    obtain ⟨u, hcheck, h₃⟩ := except_bind_ok.mp h₂
    obtain ⟨u', -, h₄⟩ := except_bind_ok.mp h₃
    cases h₄
    exact ⟨rfl, rfl, hcheck⟩
  · cases h₁

theorem leads_updateRow (hT : T q table)
    (hrow : checkRowConstraints env table target.2.2 = .ok ()) :
    (updateRow env q table target).Leads (Steps env T U) := by
  obtain ⟨rid, old, new⟩ := target
  refine .bind (leads_of_notes (notes_lockRowLater table.oid rid)) fun _ => ?_
  intro x a y h
  obtain ⟨u₁, x₁, hunique, h₁⟩ := bind_ok.mp h
  obtain ⟨u₂, x₂, hfk, h₂⟩ := bind_ok.mp h₁
  obtain ⟨u₃, x₃, hobserve, hwrite⟩ := bind_ok.mp h₂
  obtain ⟨rfl, -⟩ := checkUniqueFor_ok hunique
  have hnotes : OnlyNotes x₁ x₂ := notes_fkCheckChild table new (some old) _ _ _ hfk
  have htables : x₃.tables = x₁.tables := by
    cases hobserve
    rw [hnotes]
  exact trans_of _ (steps_of_notes hnotes)
    (trans_of _ (leads_observeSerials hT new _ _ _ hobserve)
      (updated_steps hT hrow hunique htables hwrite))

/-- **An UPDATE that succeeds is a sequence of steps.** -/
theorem execUpdate_steps {stmt : UpdateStmt C δ} (h : (execUpdate env stmt).exec x = (.ok rows, y))
    : StepsOn env U (stmt.schema, stmt.name) x y := by
  refine stepsOn_of_resolve h fun q table T hT => ?_
  refine .bind .get fun x₂ => ?_
  intro x₃ a x₄ h₂
  obtain ⟨targets, x₅, htargets, h₃⟩ := bind_ok.mp h₂
  obtain ⟨hok, rfl⟩ := Prod.mk.inj htargets
  refine (?_ : Fallible.Leads _ (Steps env T U)) _ _ _ h₃
  refine .bind (.bind .get fun _ => .pure _) fun referenced => .bind (.forM fun target hmem => ?_)
    fun _ => .bind (leads_fkApplyReferentialActions _) fun _ => .pure _
  obtain ⟨row, -, hrow⟩ := except_mapM_ok hok _ (List.reduceOption_mem_iff.mp hmem)
  exact leads_updateRow hT (updateTarget_ok hrow).2.2

/-- **A DELETE that succeeds is a sequence of steps.** -/
theorem execDelete_steps {stmt : DeleteStmt C δ} (h : (execDelete env stmt).exec x = (.ok rows, y))
    : StepsOn env U (stmt.schema, stmt.name) x y := by
  refine stepsOn_of_resolve h fun q table T hT => ?_
  refine .bind .get fun x₂ => .bind (.ofExcept _) fun deleted =>
    .bind (.forM fun r _ => leads_of_notes (notes_lockRowLater table.oid r.1)) fun _ =>
    .bind (.forM fun r _ => leads_deleteRow hT r.1) fun _ =>
    .bind (.bind .get fun _ => .pure _) fun referenced => ?_
  split
  · exact .bind (leads_fkApplyReferentialActions _) fun _ => .pure _
  · exact .pure _

end

end GuardianDb.Sql
