/-
Statements that fail inside a transaction (`execute_one`, `execute_inner` and
`set_constraints_inner` of `sql/engine.rs`).

A statement works on a context of its own: loaded tables, a copy of the catalog, a
list of writes, two queues of deferred work. What the context has collected goes
into the transaction after everything that can fail. SET CONSTRAINTS ... IMMEDIATE
works on the transaction itself: it takes the checks it covers out of the queue and
then looks at them.

How statements run on their context is arbitrary here, and so is what a lock request
comes back with. BEGIN, COMMIT and ROLLBACK do not go through this code. Session
variables and the forwarding to another server are left out.

  * `failed_statement_unchanged_iff` — a command that fails leaves the transaction as
    it was, but for the aborted mark, unless it is a SET CONSTRAINTS ... IMMEDIATE
    that covers a queued check.
-/
import GuardianDb.Sql.Commit
import GuardianDb.Sql.LockedReads

namespace GuardianDb.Sql

open Std Relational Fallible

/-! ### Deferred checks of SQL statements -/

section
variable {C : Crates} {δ φ : Type}

def DeferredFkCheck.identity : DeferredFkCheck C → QualifiedName × String
  | .child q fk _ _ => (q, fk.name)
  | .referenced _ q fk _ _ => (q, fk.name)
  | .matchFullNullMix q fk _ => (q, fk.name)

/-- The tables that a deferred check looks at. -/
def DeferredFkCheck.tables (k : CatalogDoc) : DeferredFkCheck C → List QualifiedName
  | .child q fk _ _ => q :: (k.resolveTableName (some fk.refSchema) fk.refTable).toList
  | .referenced parent q _ _ _ => [parent, q]
  | .matchFullNullMix q _ _ => [q]

def deferredCheckTables (checks : List (DeferredFkCheck C)) (k : CatalogDoc) : List QualifiedName :=
  (ExtTreeSet.ofList (checks.flatMap (DeferredFkCheck.tables k))).toList

/-- Foreign keys at COMMIT, with the bodies of triggers. -/
def sqlDeferred (fire : φ → Exec δ CatalogDoc (LoadedTable C) →
      Except SqlError (Exec δ CatalogDoc (LoadedTable C))) :
    Deferred δ CatalogDoc (LoadedTable C) SqlError (DeferredFkCheck C) φ where
  checkTables := deferredCheckTables
  drain x checks :=
    fkDrainDeferred (DmlExec.new (δ := δ) x.catalog (ExtTreeMap.ofList x.tables)) checks
  fire := fire

end

def foreignKeysNamed (k : CatalogDoc) (schema : Option String) (name : String) :
    List (QualifiedName × ForeignKey) :=
  let schemas := match schema with
    | some s => [s]
    | none => k.searchPath
  let found := schemas.map fun s =>
    (k.tables.values.filter fun t => t.schema == s).flatMap fun t =>
      (t.foreignKeys.filter fun fk => fk.name == name).map fun fk => (t.qualified, fk)
  (found.find? fun l => !l.isEmpty).getD []

/-! ### Sessions with deferred work -/

section
variable (C : Crates) (δ φ : Type)

/-- What a statement has collected by its end. -/
structure Collected where
  catalog : CatalogDoc
  catalogDirty : Bool
  mutations : List (Mutation δ)
  pendingLocks : List (LockObject × LockMode × LockScope)
  deferredChecks : List (DeferredFkCheck C)
  deferredTriggers : List φ

/-- How an engine runs its statements. The context `X` is what `dispatch` changes. -/
structure Executor (σ ρ X : Type) where
  decode : RowDecoder C δ
  /-- `table_lock_plan`. -/
  lockPlan : σ → CatalogDoc → List (Nat × LockMode)
  /-- The tables `execute_inner` preloads. -/
  names : σ → CatalogDoc → List QualifiedName
  /-- `LockManager::acquire`, with what other sessions do while it waits. -/
  acquire : SessionId → LockObject → LockMode → LockScope → WaitPolicy → Inner →
    Except SqlError Unit × Inner
  /-- `Exec::new`, with the constraint modes of the transaction. -/
  new : CatalogDoc → ExtTreeMap QualifiedName (LoadedTable C) → Option ConstraintModes → X
  initRls : σ → Fallible X SqlError Unit
  /-- `materialize_with`. -/
  materializeWith : σ → Fallible X SqlError Unit
  dispatch : σ → Fallible X SqlError ρ
  collected : X → Collected C δ φ
  /-- One firing of a deferred trigger. -/
  fire : φ → Exec δ CatalogDoc (LoadedTable C) → Except SqlError (Exec δ CatalogDoc (LoadedTable C))

abbrev SqlTransaction := Transaction δ CatalogDoc (DeferredFkCheck C) φ

/-- `Session`, with the database and the constraint modes of its transaction. -/
structure TxnSession where
  db : Database δ CatalogDoc (LoadedTable C) SqlError
  txn : Option (SqlTransaction C δ φ)
  modes : ConstraintModes

end

/-- A command that is not transaction control. -/
inductive Command (σ : Type) where
  | statement (stmt : σ)
  | lockTable (targets : List TableName) (mode : LockMode) (nowait : Bool)
  /-- Some names, or (none) ALL. -/
  | setConstraints (names : Option (List TableName)) (deferred : Bool)
  /-- ALTER EXTENSION, CREATE and DROP TEXT SEARCH DICTIONARY. -/
  | alterCatalog (change : CatalogDoc → Except SqlError CatalogDoc)

section
variable {C : Crates} {δ φ σ ρ X α : Type}

abbrev InSession (C : Crates) (δ φ : Type) := Fallible (TxnSession C δ φ) SqlError

/-- A computation on the database of a session. -/
def onDb (m : Db δ CatalogDoc (LoadedTable C) SqlError α) : InSession C δ φ α := fun s =>
  ((m.exec s.db).1, { s with db := (m.exec s.db).2 })

/-- The writes of an autocommit statement. -/
def applyNow (sid : SessionId) (out : Collected C δ φ) : Db δ CatalogDoc (LoadedTable C) SqlError Unit := do
  applyMutations out.mutations
  if out.catalogDirty then
    write (·.saveCatalog out.catalog)
    modify fun db => { db with tableCache := ∅ }
  modify (·.release sid)

/-- A transaction after a statement. -/
def SqlTransaction.collect (txn : SqlTransaction C δ φ) (out : Collected C δ φ) :
    SqlTransaction C δ φ :=
  { txn with
    catalog := out.catalog
    catalogDirty := txn.catalogDirty || out.catalogDirty
    pendingDeferred := txn.pendingDeferred ++ out.deferredChecks
    deferredTriggers := txn.deferredTriggers ++ out.deferredTriggers }.stageMutations out.mutations

section
variable (E : Executor C δ φ σ ρ X) (sid : SessionId)

def acquireLock (object : LockObject) (mode : LockMode) (scope : LockScope) (policy : WaitPolicy) :
    InSession C δ φ Unit :=
  onDb fun db =>
    let (r, locks) := E.acquire sid object mode scope policy db.locks
    (r, { db with locks := locks })

def sessionCatalog : InSession C δ φ CatalogDoc := do
  match (← get).txn with
  | some txn => return txn.catalog
  | none => onDb (loadCatalog (tableRelations E.decode))

/-- The preloading loop of `execute_inner`. -/
def preload (txn : Option (SqlTransaction C δ φ)) (k : CatalogDoc) (names : List QualifiedName) :
    InSession C δ φ (ExtTreeMap QualifiedName (LoadedTable C)) :=
  names.foldlM (fun tables q => do
    if tables.contains q then return tables
    else
      match ← onDb (loadTable (tableRelations E.decode) txn k q) with
      | some t => return tables.insert q t
      | none => return tables) ∅

/-- The statement on its own context. An error leaves the context behind. -/
def runContext (stmt : σ) (x : X) : Except SqlError (ρ × Collected C δ φ) :=
  let m : Fallible X SqlError ρ := do
    E.initRls stmt
    E.materializeWith stmt
    E.dispatch stmt
  match m.exec x with
  | (.ok r, x') => .ok (r, E.collected x')
  | (.error e, _) => .error e

/-- The end of `execute_inner`: stage what the statement collected, or write it. -/
def stageOrApply (out : Collected C δ φ) : InSession C δ φ Unit := do
  match (← get).txn with
  | some txn => modify fun s => { s with txn := some (txn.collect out) }
  | none => onDb (applyNow sid out)

def executeInner (stmt : σ) : InSession C δ φ ρ := do
  let s ← get
  let k ← sessionCatalog E
  (E.lockPlan stmt k).forM fun p => acquireLock E sid (.table p.1) p.2 .transaction .wait
  let tables ← preload E s.txn k (E.names stmt k)
  let (result, out) ← Fallible.ofExcept
    (runContext E stmt (E.new k tables (s.txn.map fun _ => s.modes)))
  out.pendingLocks.forM fun p => acquireLock E sid p.1 p.2.1 p.2.2 .wait
  stageOrApply sid out
  return result

def execLockTable (targets : List TableName) (mode : LockMode) (nowait : Bool) :
    InSession C δ φ Unit := do
  let k ← sessionCatalog E
  targets.forM fun target => do
    match k.resolveTableName target.1 target.2 with
    | none => throw (.undefinedTable target.2)
    | some q =>
        match k.tables[q]? with
        | none => throw (.relational (.undefinedTable (q.schema ++ "." ++ q.name)))
        | some table =>
            acquireLock E sid (.table table.oid) mode .transaction
              (if nowait then .noWait else .wait)

/-- The constraints that SET CONSTRAINTS names, as tables and constraint names. -/
def resolveConstraints (k : CatalogDoc) (names : Option (List TableName)) (deferred : Bool) :
    Except SqlError (List (QualifiedName × String)) := do
  let found ← (names.getD []).mapM fun n => do
    let keys := foreignKeysNamed k n.1 n.2
    if keys.isEmpty then throw (.undefinedObject ("constraint \"" ++ n.2 ++ "\" does not exist"))
    keys.mapM fun p =>
      if deferred && !p.2.deferrable.isDeferrable then
        throw (.wrongObjectType ("constraint \"" ++ p.2.name ++ "\" is not deferrable"))
      else return (p.1, p.2.name)
  return found.flatten

/-- SET CONSTRAINTS is about this check. -/
def covers (names : Option (List TableName)) (ids : List (QualifiedName × String))
    (c : DeferredFkCheck C) : Bool :=
  names.isNone || ids.contains c.identity

/-- The constraint modes after SET CONSTRAINTS. -/
def ConstraintModes.set (m : ConstraintModes) (names : Option (List TableName))
    (ids : List (QualifiedName × String)) (deferred : Bool) : ConstraintModes :=
  if names.isNone then ⟨some deferred, []⟩
  else { m with named := (ids.map fun id => (id, deferred)).reverse ++ m.named }

def setConstraintsInner (names : Option (List TableName)) (deferred : Bool) :
    InSession C δ φ Unit := do
  let k ← sessionCatalog E
  let ids ← Fallible.ofExcept (resolveConstraints k names deferred)
  match (← get).txn with
  | none => pure ()
  | some txn =>
      modify fun s => { s with modes := s.modes.set names ids deferred }
      if deferred then pure ()
      else
        let (toRun, keep) := txn.pendingDeferred.partition (covers names ids)
        -- the checks are taken out of the queue before they are made
        modify fun s => { s with txn := some { txn with pendingDeferred := keep } }
        if toRun.isEmpty then pure ()
        else
          onDb (checkDeferred (tableRelations E.decode) (sqlDeferred E.fire)
            { txn with pendingDeferred := toRun })

def persistCatalog (k : CatalogDoc) : InSession C δ φ Unit := do
  match (← get).txn with
  | some txn => modify fun s => { s with txn := some { txn with catalog := k, catalogDirty := true } }
  | none => onDb do
      write (·.saveCatalog k)
      modify (·.release sid)

/-- A command, before its error is handled. -/
def executeCommand : Command σ → InSession C δ φ (Option ρ)
  | .statement stmt => some <$> executeInner E sid stmt
  | .lockTable targets mode nowait => do
      execLockTable E sid targets mode nowait
      return none
  | .setConstraints names deferred => do
      setConstraintsInner E names deferred
      return none
  | .alterCatalog change => do
      let k ← sessionCatalog E
      persistCatalog sid (← Fallible.ofExcept (change k))
      return none

/-- An error aborts the transaction, or releases the locks of an autocommit
statement. -/
def TxnSession.failed (s : TxnSession C δ φ) : TxnSession C δ φ :=
  match s.txn with
  | some txn => { s with txn := some { txn with aborted := true } }
  | none => { s with db := s.db.release sid }

def executeOne (cmd : Command σ) : InSession C δ φ (Option ρ) := fun s =>
  if s.txn.any fun txn => txn.aborted then (.error .inFailedTransaction, s)
  else
    match (executeCommand E sid cmd).exec s with
    | (.ok r, s') => (.ok r, s')
    | (.error e, s') => (.error e, s'.failed sid)

end

/-! ### What an error leaves behind -/

variable {txn : SqlTransaction C δ φ}

section
variable {E : Executor C δ φ σ ρ X} {sid : SessionId}

theorem keeps_onDb (m : Db δ CatalogDoc (LoadedTable C) SqlError α) :
    (onDb m : InSession C δ φ α).Keeps TxnSession.txn := fun _ => rfl

theorem keeps_sessionCatalog : (sessionCatalog E).Keeps TxnSession.txn := by
  refine (Fallible.Keeps.get _).bind fun s => ?_
  split
  · exact Fallible.Keeps.pure _ _
  · exact keeps_onDb _

theorem keeps_preload (txn : Option (SqlTransaction C δ φ)) (k : CatalogDoc)
    (names : List QualifiedName) : (preload E txn k names).Keeps TxnSession.txn := by
  refine .foldlM fun tables q => ?_
  split
  · exact Fallible.Keeps.pure _ _
  · refine (keeps_onDb _).bind fun t => ?_
    split <;> exact Fallible.Keeps.pure _ _

/-- Staging cannot fail, and writing does not touch the transaction. -/
theorem spares_stageOrApply (out : Collected C δ φ) :
    (stageOrApply sid out).Spares TxnSession.txn := by
  refine .bind (Fallible.Keeps.get _) fun s => ?_
  split
  · exact .of_ok fun s => ⟨_, _, rfl⟩
  · exact (keeps_onDb _).spares

/-- **A statement that fails does so before it touches its transaction.** -/
theorem spares_executeInner (stmt : σ) : (executeInner E sid stmt).Spares TxnSession.txn := by
  refine .bind (Fallible.Keeps.get _) fun s => .bind keeps_sessionCatalog fun k =>
    .bind (.forM (fun _ => keeps_onDb _) _) fun _ => .bind (keeps_preload _ _ _) fun tables =>
    .bind (Fallible.Keeps.ofExcept _ _) fun r => .bind (.forM (fun _ => keeps_onDb _) _) fun _ => ?_
  exact (spares_stageOrApply r.2).bind_pure _

theorem spares_execLockTable (targets : List TableName) (mode : LockMode) (nowait : Bool) :
    (execLockTable E sid targets mode nowait).Spares TxnSession.txn := by
  refine .bind keeps_sessionCatalog fun k => (Fallible.Keeps.forM (fun target => ?_) targets).spares
  split
  · exact fun _ => rfl
  split
  · exact fun _ => rfl
  · exact keeps_onDb _

theorem spares_persistCatalog (k : CatalogDoc) :
    (persistCatalog sid k : InSession C δ φ Unit).Spares TxnSession.txn := by
  refine .bind (Fallible.Keeps.get _) fun s => ?_
  split
  · exact .of_ok fun s => ⟨_, _, rfl⟩
  · exact (keeps_onDb _).spares

/-- The checks that a SET CONSTRAINTS ... IMMEDIATE takes out of the queue; none for
any other command, or if a name does not resolve. -/
def takenChecks (txn : SqlTransaction C δ φ) : Command σ → List (DeferredFkCheck C)
  | .setConstraints names false =>
      match resolveConstraints txn.catalog names false with
      | .ok ids => txn.pendingDeferred.filter (covers names ids)
      | .error _ => []
  | _ => []

/-- **What SET CONSTRAINTS leaves of the queue when it fails.** -/
theorem txn_setConstraintsInner {names : Option (List TableName)} {deferred : Bool}
    {s s' : TxnSession C δ φ} {e : SqlError} (htxn : s.txn = some txn)
    (h : (setConstraintsInner E names deferred).exec s = (.error e, s')) :
    ∃ keep, s'.txn = some { txn with pendingDeferred := keep } ∧
      (keep = txn.pendingDeferred ↔
        takenChecks txn (.setConstraints names deferred : Command σ) = []) := by
  have hcatalog : (sessionCatalog E).exec s = (.ok txn.catalog, s) := by
    change exec (match s.txn with
      | some txn => pure txn.catalog
      | none => onDb (loadCatalog (tableRelations E.decode))) s = _
    rw [htxn]
    rfl
  rw [setConstraintsInner, exec_bind, hcatalog] at h
  dsimp only at h
  cases hids : resolveConstraints txn.catalog names deferred with
  | error e' =>
    -- a name that does not resolve: nothing has been done yet
    rw [hids, exec_bind] at h
    cases h
    refine ⟨txn.pendingDeferred, htxn, iff_of_true rfl ?_⟩
    cases deferred with
    | true => rfl
    | false => simp only [takenChecks, hids]
  | ok ids =>
    rw [hids, exec_bind] at h
    dsimp only [exec_ofExcept] at h
    rw [exec_bind, exec_get] at h
    dsimp only at h
    rw [htxn] at h
    rw [exec_bind, exec_modify] at h
    cases deferred with
    | true => cases h
    | false =>
      dsimp only at h
      rw [if_neg (by decide), exec_bind, exec_modify,
        List.partition_eq_filter_filter] at h
      dsimp only at h
      split at h
      · cases h
      · next hsome =>
        obtain ⟨-, rfl⟩ := Prod.mk.inj h
        refine ⟨_, rfl, ?_⟩
        simp only [takenChecks, hids]
        simp

/-- What a command leaves of the queue when it fails. -/
theorem txn_executeCommand {cmd : Command σ} {s s' : TxnSession C δ φ} {e : SqlError}
    (htxn : s.txn = some txn)
    (h : (executeCommand E sid cmd).exec s = (.error e, s')) :
    ∃ keep, s'.txn = some { txn with pendingDeferred := keep } ∧
      (keep = txn.pendingDeferred ↔ takenChecks txn cmd = []) := by
  have hspared : s'.txn = s.txn → takenChecks txn cmd = [] →
      ∃ keep, s'.txn = some { txn with pendingDeferred := keep } ∧
        (keep = txn.pendingDeferred ↔ takenChecks txn cmd = []) :=
    fun hs htaken => ⟨txn.pendingDeferred, hs.trans htxn, iff_of_true rfl htaken⟩
  cases cmd with
  | statement stmt =>
    exact hspared ((spares_executeInner stmt).bind_pure _ s e s' h) rfl
  | lockTable targets mode nowait =>
    exact hspared ((spares_execLockTable targets mode nowait).bind_pure _ s e s' h) rfl
  | setConstraints names deferred =>
    rcases bind_error.mp h with h | ⟨r, t, -, h⟩
    · exact txn_setConstraintsInner htxn h
    · cases h
  | alterCatalog change =>
    refine hspared ((?_ : Fallible.Spares _ TxnSession.txn) s e s' h) rfl
    exact .bind keeps_sessionCatalog fun k => .bind (Fallible.Keeps.ofExcept _ _) fun k' =>
      (spares_persistCatalog k').bind_pure _

/-- **When a failing command leaves no trace.** After an error the transaction is
marked aborted. The rest of it (staged writes, truncations, catalog, both queues of
deferred work) is as before exactly if the command took no check out of the queue. -/
theorem failed_statement_unchanged_iff (E : Executor C δ φ σ ρ X) (sid : SessionId)
    (cmd : Command σ) (s s' : TxnSession C δ φ) (e : SqlError) (txn : SqlTransaction C δ φ)
    (htxn : s.txn = some txn) (h : (executeOne E sid cmd).exec s = (.error e, s')) :
    ∃ txn', s'.txn = some txn' ∧ txn'.aborted = true ∧
      (txn' = { txn with aborted := true } ↔ txn.aborted = true ∨ takenChecks txn cmd = []) := by
  have hexec : (executeOne E sid cmd).exec s =
      if s.txn.any fun txn => txn.aborted then (.error .inFailedTransaction, s)
      else match (executeCommand E sid cmd).exec s with
        | (.ok r, s') => (.ok r, s')
        | (.error e, s') => (.error e, s'.failed sid) := rfl
  rw [hexec, htxn, Option.any_some] at h
  cases haborted : txn.aborted with
  | true =>
    rw [haborted, if_pos rfl] at h
    cases h
    refine ⟨txn, htxn, haborted, iff_of_true ?_ (.inl rfl)⟩
    rw [← haborted]
  | false =>
    rw [haborted, if_neg (by decide)] at h
    rcases hrun : (executeCommand E sid cmd).exec s with ⟨e' | r, s₁⟩
    · rw [hrun] at h
      cases h
      obtain ⟨keep, hkeep, hiff⟩ := txn_executeCommand htxn hrun
      refine ⟨{ txn with pendingDeferred := keep, aborted := true }, ?_, rfl, ?_⟩
      · rw [TxnSession.failed, hkeep]
      · simp_all
    · rw [hrun] at h
      cases h

end

end

/-! ### A tree with a deferred parent key -/

/-- `parent` references the table itself, deferred to COMMIT. -/
def nodeTable : Table where
  oid := 16500
  schema := "public"
  name := "nodes"
  columns := [⟨"id", .integer, false, none, none⟩, ⟨"parent", .integer, true, none, none⟩]
  primaryKey := some ["id"]
  uniques := []
  foreignKeys := [⟨"nodes_parent_fkey", ["parent"], "public", "nodes", ["id"], .noAction, .noAction,
    .simple, .deferrableDeferred⟩]
  checks := []
  storageCollection := "rows_16500"

def nodeCatalog : CatalogDoc where
  tables := ExtTreeMap.ofList [((⟨"public", "nodes"⟩ : QualifiedName), nodeTable)]
  indexes := ExtTreeMap.ofList [((⟨"public", "nodes_pkey"⟩ : QualifiedName),
    (⟨"nodes_pkey", "public", "nodes", ["id"], true, "btree"⟩ : Index))]
  sequences := ∅
  views := ∅
  searchPath := ["public"]
  collections_distinct := collections_distinct_one ⟨"public", "nodes"⟩ nodeTable

/-- An engine that runs INSERT; every lock is granted. -/
def nodeExecutor : Executor plainCrates TaskDoc Unit (InsertStmt plainCrates TaskDoc)
    (List (RowValues plainCrates))
    (CatalogDoc × Option ConstraintModes × DmlExec plainCrates TaskDoc) where
  decode := taskDecoder
  lockPlan stmt := Stmt.lockPlan (.insert stmt [] [])
  names stmt := Stmt.names (.insert stmt [] [])
  acquire _ _ _ _ _ locks := (.ok (), locks)
  new k tables modes := (k, modes, DmlExec.new k tables)
  initRls _ := pure ()
  materializeWith _ := pure ()
  dispatch stmt x :=
    let (r, y) := (execInsert { taskEnv with modes := x.2.1 } stmt).exec x.2.2
    (r, x.1, x.2.1, y)
  collected x :=
    ⟨x.1.withSequences x.2.2.catalog.sequences, x.2.2.catalogDirty, x.2.2.mutations,
      x.2.2.pendingLocks, x.2.2.deferredChecks, []⟩
  fire _ x := .ok x

/-- A session after BEGIN on an empty table. -/
def nodeSession : TxnSession plainCrates TaskDoc Unit :=
  ⟨Database.new ⟨∅, some nodeCatalog, ∅⟩ true false, some ⟨nodeCatalog, false, ∅, ∅, false, [], []⟩,
    ⟨none, []⟩⟩

/-- `INSERT INTO nodes VALUES (id, parent)`. -/
def addNode (id parent : Int32) : Command (InsertStmt plainCrates TaskDoc) :=
  .statement ⟨none, "nodes",
    fun _ => .ok [ExtTreeMap.ofList [("id", SqlValue.int4 id), ("parent", SqlValue.int4 parent)]],
    fun _ => "", none⟩

/-- The commands one after the other, whatever comes of each. -/
def afterCommands (cmds : List (Command (InsertStmt plainCrates TaskDoc))) :
    TxnSession plainCrates TaskDoc Unit :=
  cmds.foldl (fun s cmd => ((executeOne nodeExecutor 1 cmd).exec s).2) nodeSession

/-- The staged rows, the length of the queue and the aborted mark. -/
def staged? (s : TxnSession plainCrates TaskDoc Unit) : Option (Nat × Nat × Bool) :=
  s.txn.map fun txn => ((txn.rows "rows_16500").size, txn.pendingDeferred.length, txn.aborted)

/-- A second row with the same key is rejected and leaves the transaction with what
the first one has staged. -/
theorem failed_statement_unchanged_duplicate :
    ∃ txn, (afterCommands [addNode 1 2]).txn = some txn ∧
      (afterCommands ([addNode 1 2] ++ [addNode 1 3])).txn = some { txn with aborted := true } ∧
      staged? (afterCommands ([addNode 1 2] ++ [addNode 1 3])) = some (1, 1, true) := by
  have hstaged : staged? (afterCommands [addNode 1 2]) = some (1, 1, false) := by decide +kernel
  have hfails : ((executeOne nodeExecutor 1 (addNode 1 3)).exec
      (afterCommands [addNode 1 2])).1.isOk = false := by decide +kernel
  obtain ⟨txn, htxn, -⟩ := Option.map_eq_some_iff.mp hstaged
  rcases hrun : (executeOne nodeExecutor 1 (addNode 1 3)).exec (afterCommands [addNode 1 2]) with
    ⟨e | r, s'⟩
  · obtain ⟨txn', htxn', -, hiff⟩ := failed_statement_unchanged_iff nodeExecutor 1 (addNode 1 3)
      (afterCommands [addNode 1 2]) s' e txn htxn hrun
    refine ⟨txn, htxn, ?_, by decide +kernel⟩
    rw [afterCommands, List.foldl_append, ← afterCommands, List.foldl_cons, List.foldl_nil, hrun,
      htxn', hiff.mpr (.inr rfl)]
  · rw [hrun] at hfails
    cases hfails

/-- **SET CONSTRAINTS ALL IMMEDIATE finds the row without a parent, fails, and leaves
the transaction without the queued check.** -/
theorem failed_set_constraints_drops_checks :
    staged? (afterCommands [addNode 1 2]) = some (1, 1, false) ∧
      ((executeOne nodeExecutor 1 (.setConstraints none false)).exec
        (afterCommands [addNode 1 2])).1.isOk = false ∧
      staged? (afterCommands [addNode 1 2, .setConstraints none false]) = some (1, 0, true) := by
  decide +kernel

end GuardianDb.Sql
