/-
Several sessions over one database (`Session` in `sql/engine.rs`).

A statement reads the catalog, takes its table locks, loads the tables it names,
runs on these views, waits for the row locks it asked for, and only then writes:
into the transaction of its session or, in autocommit, to storage. Between any two
accesses to what sessions share, other sessions may run. `Session.move` is one
such access; a run interleaves the moves of all sessions.

Statements (`σ`) and their results (`ρ`) are arbitrary. A storage call may fail at
any point, a lock wait may time out. What deferred checks and triggers do at
COMMIT is a parameter of the move. `base` and `ran` record which catalog a
statement or transaction started from and what it has run on it since; nothing
reads them.

  * `move_cases` — all that a move can do.
-/
import GuardianDb.Lib.Run
import GuardianDb.Sql.Commit

namespace GuardianDb.Sql

open Std Relational

/-! ### Statements -/

/-- What a statement leaves behind after it ran on its loaded tables. -/
structure Produced (δ κ ρ : Type) where
  result : ρ
  pendingLocks : List (LockObject × LockMode × LockScope)
  mutations : List (Mutation δ)
  catalog : κ
  catalogDirty : Bool

structure Statements (δ κ τ ε σ ρ : Type) extends Relations δ κ τ ε where
  /-- `table_lock_plan`. -/
  lockPlan : σ → κ → List (Nat × LockMode)
  /-- The tables `execute_inner` preloads. -/
  names : σ → κ → List QualifiedName
  /-- `dispatch`. NOWAIT and SKIP LOCKED take their locks here. -/
  dispatch : SessionId → σ → κ → ExtTreeMap QualifiedName τ → Inner →
    Except ε (Produced δ κ ρ) × Inner

/-! ### Sessions -/

/-- What sessions share. -/
structure Shared (δ κ τ : Type) where
  storage : MemoryStorage δ κ
  tableCache : ExtTreeMap String (Nat × τ)
  /-- The backend reports change counters. -/
  counted : Bool
  locks : Inner

/-- A statement that is loading its tables. -/
structure Load (κ τ σ : Type) where
  stmt : σ
  catalog : κ
  todo : List QualifiedName
  tables : ExtTreeMap QualifiedName τ

def Load.add {κ τ σ : Type} (l : Load κ τ σ) (q : QualifiedName) (t : τ) : Load κ τ σ :=
  { l with tables := l.tables.insert q t }

/-- Where a session stands between two accesses to shared state. -/
inductive Phase (δ κ τ σ ρ : Type) where
  | idle
  /-- Table locks still to be taken. -/
  | locking (l : Load κ τ σ) (plan : List (Nat × LockMode))
  | loading (l : Load κ τ σ)
  /-- `load_table` has read the change counter of a collection. -/
  | counted (l : Load κ τ σ) (q : QualifiedName) (collection : String) (generation : Nat)
  /-- `cached_table` has found no view at this counter. -/
  | missed (l : Load κ τ σ) (q : QualifiedName) (collection : String) (generation : Nat)
  /-- `cached_table` has scanned the collection. -/
  | scanned (l : Load κ τ σ) (q : QualifiedName) (collection : String) (generation : Nat)
      (docs : List (String × δ))
  /-- The statement has run; row locks are still to be taken. -/
  | acquiring (l : Load κ τ σ) (out : Produced δ κ ρ)
      (todo : List (LockObject × LockMode × LockScope))
  /-- Writes still to be made, then the catalog, by COMMIT or in autocommit. -/
  | writing (commit : Bool) (rest : List (Mutation δ)) (save : Option κ) (result : Option ρ)
  /-- The catalog is saved, the table cache not yet cleared. -/
  | invalidating (result : Option ρ)
  | releasing (result : Option ρ)

/-- A storage call or a lock wait is due; the cache is cleared and the locks are
released without one. -/
def Phase.mayFail {δ κ τ σ ρ : Type} : Phase δ κ τ σ ρ → Bool
  | .idle => false
  | .invalidating _ => false
  | .releasing _ => false
  | _ => true

/-- No statement or COMMIT is under way. -/
def Phase.isIdle {δ κ τ σ ρ : Type} : Phase δ κ τ σ ρ → Bool
  | .idle => true
  | _ => false

/-- A statement or COMMIT is writing. -/
def Phase.isWriting {δ κ τ σ ρ : Type} : Phase δ κ τ σ ρ → Bool
  | .writing _ _ _ _ => true
  | _ => false

/-- `Session`. Deferred work is not queued here. -/
structure Session (δ κ τ σ ρ : Type) where
  txn : Option (Transaction δ κ Unit Unit)
  phase : Phase δ κ τ σ ρ
  /-- The catalog that the statement or transaction has read. -/
  base : κ
  /-- The statements that have run on it since. -/
  ran : List (Load κ τ σ)
  /-- The results returned to the client, the last one first. -/
  returned : List ρ

inductive Move (δ σ : Type) where
  | start (stmt : σ)
  | begin
  /-- COMMIT, with the writes of the deferred triggers it fires. -/
  | commit (early : List (Mutation δ)) (order : HashOrder)
  | rollback
  /-- The next access of the statement or COMMIT under way. -/
  | next
  /-- A failed storage call, a lock timeout or a failed deferred check. -/
  | fail

section
variable {δ κ τ ε σ ρ : Type}

namespace Session

variable (E : Statements δ κ τ ε σ ρ) (i : SessionId)

/-- `load_catalog`. -/
def committed (sh : Shared δ κ τ) : κ := sh.storage.catalog.getD E.newCatalog

/-- The end of a statement with an error: `execute_one` aborts the transaction or
releases the locks; a failed COMMIT does neither. -/
def abort (sh : Shared δ κ τ) (me : Session δ κ τ σ ρ) :
    Shared δ κ τ × Session δ κ τ σ ρ :=
  match me.phase, me.txn with
  | .writing true _ _ _, _ => (sh, { me with phase := .idle })
  | _, some txn => (sh, { me with phase := .idle, txn := some { txn with aborted := true } })
  | _, none =>
      ({ sh with locks := sh.locks.releaseTransaction i }, { me with phase := .idle })

/-- One round of `LockManager::acquire`; a session that has to wait stays. -/
def acquire (sh : Shared δ κ τ) (me : Session δ κ τ σ ρ) (object : LockObject) (mode : LockMode)
    (scope : LockScope) (phase : Phase δ κ τ σ ρ) : Shared δ κ τ × Session δ κ τ σ ρ :=
  match sh.locks.attempt ⟨i, object, mode, scope, .wait, false⟩ with
  | (locks, none) => ({ sh with locks := locks }, me)
  | (locks, some (.ok _)) => ({ sh with locks := locks }, { me with phase := phase })
  | (locks, some (.error _)) => abort i { sh with locks := locks } me

/-- A view that was just built, or the error of building it. -/
def built (sh : Shared δ κ τ) (me : Session δ κ τ σ ρ) (l : Load κ τ σ) (q : QualifiedName) :
    Except ε τ → Shared δ κ τ × Session δ κ τ σ ρ
  | .ok t => (sh, { me with phase := .loading (l.add q t) })
  | .error _ => abort i sh me

/-- The transaction has staged writes for the collection. -/
def staged (me : Session δ κ τ σ ρ) (collection : String) : Bool :=
  me.txn.any fun t => t.truncated.contains collection || (t.overlay[collection]?).isSome

/-- `load_table` up to its first access to shared state. -/
def load (sh : Shared δ κ τ) (me : Session δ κ τ σ ρ) (l : Load κ τ σ) (q : QualifiedName) :
    Shared δ κ τ × Session δ κ τ σ ρ :=
  if l.tables.contains q then (sh, { me with phase := .loading l })
  else
    match E.collectionOf l.catalog q with
    | none => (sh, { me with phase := .loading l })
    | some c =>
        match me.txn with
        | some txn =>
            if me.staged c || txn.catalogDirty then
              built i sh me l q (E.build l.catalog q (merged
                (if txn.truncated.contains c then [] else sh.storage.scan c) (txn.rows c)))
            else if sh.counted then
              (sh, { me with phase := .counted l q c (sh.storage.generation c) })
            else built i sh me l q (E.build l.catalog q (sh.storage.scan c))
        | none =>
            if sh.counted then (sh, { me with phase := .counted l q c (sh.storage.generation c) })
            else built i sh me l q (E.build l.catalog q (sh.storage.scan c))

/-- The last part of `cached_table`: a view that is not older is kept. -/
def install (sh : Shared δ κ τ) (me : Session δ κ τ σ ρ) (l : Load κ τ σ) (q : QualifiedName)
    (c : String) (generation : Nat) (t : τ) : Shared δ κ τ × Session δ κ τ σ ρ :=
  let fresh : Shared δ κ τ × Session δ κ τ σ ρ :=
    ({ sh with tableCache := sh.tableCache.insert c (generation, t) },
      { me with phase := .loading (l.add q t) })
  match sh.tableCache[c]? with
  | some (g, kept) =>
      if g ≥ generation then (sh, { me with phase := .loading (l.add q kept) }) else fresh
  | none => fresh

/-- The end of `execute_inner`: stage the writes, or start to make them. -/
def settle (sh : Shared δ κ τ) (me : Session δ κ τ σ ρ) (out : Produced δ κ ρ) :
    Shared δ κ τ × Session δ κ τ σ ρ :=
  match me.txn with
  | some txn =>
      (sh, { me with
        phase := .idle
        returned := out.result :: me.returned
        txn := some ({ txn with
          catalog := out.catalog
          catalogDirty := txn.catalogDirty || out.catalogDirty }.stageMutations out.mutations) })
  | none =>
      (sh, { me with
        phase := .writing false out.mutations (if out.catalogDirty then some out.catalog else none)
          (some out.result) })

/-- The next access of the statement or COMMIT under way. -/
def next (sh : Shared δ κ τ) (me : Session δ κ τ σ ρ) :
    Option (Shared δ κ τ × Session δ κ τ σ ρ) :=
  match me.phase with
  | .idle => none
  | .locking l [] => some (sh, { me with phase := .loading l })
  | .locking l ((oid, mode) :: plan) =>
      some (acquire i sh me (.table oid) mode .transaction (.locking l plan))
  | .loading l =>
      match l.todo with
      | q :: todo => some (load E i sh me { l with todo := todo } q)
      | [] =>
          match E.dispatch i l.stmt l.catalog l.tables sh.locks with
          | (.error _, locks) => some (abort i { sh with locks := locks } me)
          | (.ok out, locks) =>
              some ({ sh with locks := locks },
                { me with phase := .acquiring l out out.pendingLocks, ran := l :: me.ran })
  | .counted l q c g =>
      match sh.tableCache[c]? with
      | some (g', t) =>
          if g' = g then some (sh, { me with phase := .loading (l.add q t) })
          else some (sh, { me with phase := .missed l q c g })
      | none => some (sh, { me with phase := .missed l q c g })
  | .missed l q c g => some (sh, { me with phase := .scanned l q c g (sh.storage.scan c) })
  | .scanned l q c g docs =>
      match E.build l.catalog q docs with
      | .ok t => some (install sh me l q c g t)
      | .error _ => some (abort i sh me)
  | .acquiring _ out [] => some (settle sh me out)
  | .acquiring l out ((object, mode, scope) :: todo) =>
      some (acquire i sh me object mode scope (.acquiring l out todo))
  | .writing commit (m :: rest) save result =>
      some ({ sh with storage := m.apply sh.storage },
        { me with phase := .writing commit rest save result })
  | .writing _ [] (some k) result =>
      some ({ sh with storage := sh.storage.saveCatalog k }, { me with phase := .invalidating result })
  | .writing _ [] none result => some (sh, { me with phase := .releasing result })
  | .invalidating result =>
      some ({ sh with tableCache := ∅ }, { me with phase := .releasing result })
  | .releasing result =>
      some ({ sh with locks := sh.locks.releaseTransaction i },
        { me with phase := .idle, returned := result.toList ++ me.returned })

/-- One move of a session, if it is possible now. -/
def move (sh : Shared δ κ τ) (me : Session δ κ τ σ ρ) :
    Move δ σ → Option (Shared δ κ τ × Session δ κ τ σ ρ)
  | .next => next E i sh me
  | .fail => if me.phase.mayFail then some (abort i sh me) else none
  | .start stmt =>
      match me.phase, me.txn with
      | .idle, some txn =>
          if txn.aborted then none
          else
            let l := ⟨stmt, txn.catalog, E.names stmt txn.catalog, ∅⟩
            some (sh, { me with phase := .locking l (E.lockPlan stmt txn.catalog) })
      | .idle, none =>
          let k := committed E sh
          let l := ⟨stmt, k, E.names stmt k, ∅⟩
          some (sh, { me with phase := .locking l (E.lockPlan stmt k), base := k, ran := [] })
      | _, _ => none
  | .begin =>
      match me.phase, me.txn with
      | .idle, none =>
          let k := committed E sh
          some (sh, { me with txn := some ⟨k, false, ∅, ∅, false, [], []⟩, base := k, ran := [] })
      | .idle, some _ => some (sh, me)
      | _, _ => none
  | .commit early order =>
      match me.phase, me.txn with
      | .idle, some txn =>
          if txn.aborted then
            some ({ sh with locks := sh.locks.releaseTransaction i }, { me with txn := none })
          else
            some (sh, { me with
              txn := none
              phase := .writing true (early ++ flushMutations order txn)
                (if txn.catalogDirty then some txn.catalog else none) none })
      | .idle, none =>
          some ({ sh with locks := sh.locks.releaseTransaction i }, me)
      | _, _ => none
  | .rollback =>
      match me.phase with
      | .idle => some ({ sh with locks := sh.locks.releaseTransaction i }, { me with txn := none })
      | _ => none

/-! ### What a move can do -/

/-- The documents a statement builds a view from when it does not use the cache. -/
def documents (sh : Shared δ κ τ) (me : Session δ κ τ σ ρ) (c : String) : List (String × δ) :=
  match me.txn with
  | some txn =>
      if me.staged c || txn.catalogDirty then
        merged (if txn.truncated.contains c then [] else sh.storage.scan c) (txn.rows c)
      else sh.storage.scan c
  | none => sh.storage.scan c

/-- No staged writes and no uncommitted schema: the cache may be used. -/
def cacheable (me : Session δ κ τ σ ρ) (c : String) : Prop :=
  ∀ txn, me.txn = some txn → me.staged c = false ∧ txn.catalogDirty = false

/-- The transaction after a statement. -/
def stagedTxn (txn : Transaction δ κ Unit Unit) (out : Produced δ κ ρ) :
    Transaction δ κ Unit Unit :=
  { txn with
    catalog := out.catalog
    catalogDirty := txn.catalogDirty || out.catalogDirty }.stageMutations out.mutations

/-- All that a move can do to what sessions share and to the session. -/
inductive Moved (sh : Shared δ κ τ) (me : Session δ κ τ σ ρ) :
    Move δ σ → Shared δ κ τ → Session δ κ τ σ ρ → Prop where
  | waited {m : Move δ σ} (locks : Inner) : Moved sh me m { sh with locks := locks } me
  | aborted {m : Move δ σ} (locks : Inner) (txn : Option (Transaction δ κ Unit Unit))
      (hphase : me.phase.mayFail = true)
      (h : txn = me.txn ∨ ∃ t, me.txn = some t ∧ txn = some { t with aborted := true })
      (hm : me.phase.isWriting = true → m = .fail) :
      Moved sh me m { sh with locks := locks } { me with phase := .idle, txn := txn }
  | startedIn (stmt : σ) (txn : Transaction δ κ Unit Unit) (hphase : me.phase = .idle)
      (htxn : me.txn = some txn) (hlive : txn.aborted = false) :
      Moved sh me (.start stmt) sh { me with
        phase := .locking ⟨stmt, txn.catalog, E.names stmt txn.catalog, ∅⟩
          (E.lockPlan stmt txn.catalog) }
  | started (stmt : σ) (hphase : me.phase = .idle) (htxn : me.txn = none) :
      Moved sh me (.start stmt) sh { me with
        phase := .locking ⟨stmt, committed E sh, E.names stmt (committed E sh), ∅⟩
          (E.lockPlan stmt (committed E sh))
        base := committed E sh
        ran := [] }
  | began (hphase : me.phase = .idle) (htxn : me.txn = none) :
      Moved sh me .begin sh { me with
        txn := some ⟨committed E sh, false, ∅, ∅, false, [], []⟩
        base := committed E sh
        ran := [] }
  | committing (txn : Transaction δ κ Unit Unit) (early : List (Mutation δ)) (order : HashOrder)
      (hphase : me.phase = .idle) (htxn : me.txn = some txn) (hlive : txn.aborted = false) :
      Moved sh me (.commit early order) sh { me with
        txn := none
        phase := .writing true (early ++ flushMutations order txn)
          (if txn.catalogDirty then some txn.catalog else none) none }
  /-- ROLLBACK, or COMMIT of an aborted transaction. -/
  | rolledBack {m : Move δ σ} (locks : Inner) (hphase : me.phase = .idle)
      (hm : m = .rollback ∨ ∃ early order txn, m = .commit early order ∧ me.txn = some txn ∧
        txn.aborted = true) :
      Moved sh me m { sh with locks := locks } { me with txn := none }
  | locked (locks : Inner) (l : Load κ τ σ) (oid : Nat) (mode : LockMode)
      (plan : List (Nat × LockMode)) (hphase : me.phase = .locking l ((oid, mode) :: plan)) :
      Moved sh me .next { sh with locks := locks } { me with phase := .locking l plan }
  | tablesLocked (l : Load κ τ σ) (hphase : me.phase = .locking l []) :
      Moved sh me .next sh { me with phase := .loading l }
  | skipped (l : Load κ τ σ) (q : QualifiedName) (todo : List QualifiedName)
      (hphase : me.phase = .loading l) (htodo : l.todo = q :: todo) :
      Moved sh me .next sh { me with phase := .loading { l with todo := todo } }
  | loaded (l : Load κ τ σ) (q : QualifiedName) (todo : List QualifiedName) (c : String) (t : τ)
      (hphase : me.phase = .loading l) (htodo : l.todo = q :: todo)
      (hc : E.collectionOf l.catalog q = some c)
      (hbuild : E.build l.catalog q (me.documents sh c) = .ok t) :
      Moved sh me .next sh { me with phase := .loading ({ l with todo := todo }.add q t) }
  | counted (l : Load κ τ σ) (q : QualifiedName) (todo : List QualifiedName) (c : String)
      (hphase : me.phase = .loading l) (htodo : l.todo = q :: todo)
      (hc : E.collectionOf l.catalog q = some c) (hcache : me.cacheable c) :
      Moved sh me .next sh { me with
        phase := .counted { l with todo := todo } q c (sh.storage.generation c) }
  | hit (l : Load κ τ σ) (q : QualifiedName) (c : String) (g : Nat) (t : τ)
      (hphase : me.phase = .counted l q c g) (hentry : sh.tableCache[c]? = some (g, t)) :
      Moved sh me .next sh { me with phase := .loading (l.add q t) }
  | missed (l : Load κ τ σ) (q : QualifiedName) (c : String) (g : Nat)
      (hphase : me.phase = .counted l q c g) :
      Moved sh me .next sh { me with phase := .missed l q c g }
  | scanned (l : Load κ τ σ) (q : QualifiedName) (c : String) (g : Nat)
      (hphase : me.phase = .missed l q c g) :
      Moved sh me .next sh { me with phase := .scanned l q c g (sh.storage.scan c) }
  | kept (l : Load κ τ σ) (q : QualifiedName) (c : String) (g g' : Nat) (docs : List (String × δ))
      (t : τ) (hphase : me.phase = .scanned l q c g docs)
      (hentry : sh.tableCache[c]? = some (g', t)) (hnewer : g ≤ g') :
      Moved sh me .next sh { me with phase := .loading (l.add q t) }
  | installed (l : Load κ τ σ) (q : QualifiedName) (c : String) (g : Nat)
      (docs : List (String × δ)) (t : τ) (hphase : me.phase = .scanned l q c g docs)
      (hbuild : E.build l.catalog q docs = .ok t)
      (holder : ∀ g' t', sh.tableCache[c]? = some (g', t') → g' < g) :
      Moved sh me .next { sh with tableCache := sh.tableCache.insert c (g, t) }
        { me with phase := .loading (l.add q t) }
  | ran (l : Load κ τ σ) (out : Produced δ κ ρ) (locks : Inner) (hphase : me.phase = .loading l)
      (htodo : l.todo = [])
      (hrun : E.dispatch i l.stmt l.catalog l.tables sh.locks = (.ok out, locks)) :
      Moved sh me .next { sh with locks := locks }
        { me with phase := .acquiring l out out.pendingLocks, ran := l :: me.ran }
  | acquired (locks : Inner) (l : Load κ τ σ) (out : Produced δ κ ρ)
      (object : LockObject) (mode : LockMode) (scope : LockScope)
      (todo : List (LockObject × LockMode × LockScope))
      (hphase : me.phase = .acquiring l out ((object, mode, scope) :: todo)) :
      Moved sh me .next { sh with locks := locks } { me with phase := .acquiring l out todo }
  | stagedIn (l : Load κ τ σ) (out : Produced δ κ ρ) (txn : Transaction δ κ Unit Unit)
      (hphase : me.phase = .acquiring l out []) (htxn : me.txn = some txn) :
      Moved sh me .next sh { me with
        phase := .idle
        returned := out.result :: me.returned
        txn := some (stagedTxn txn out) }
  | applying (l : Load κ τ σ) (out : Produced δ κ ρ) (hphase : me.phase = .acquiring l out [])
      (htxn : me.txn = none) :
      Moved sh me .next sh { me with
        phase := .writing false out.mutations (if out.catalogDirty then some out.catalog else none)
          (some out.result) }
  | wrote (commit : Bool) (m : Mutation δ) (rest : List (Mutation δ)) (save : Option κ)
      (result : Option ρ) (hphase : me.phase = .writing commit (m :: rest) save result) :
      Moved sh me .next { sh with storage := m.apply sh.storage }
        { me with phase := .writing commit rest save result }
  | saved (commit : Bool) (k : κ) (result : Option ρ)
      (hphase : me.phase = .writing commit [] (some k) result) :
      Moved sh me .next { sh with storage := sh.storage.saveCatalog k }
        { me with phase := .invalidating result }
  | unsaved (commit : Bool) (result : Option ρ) (hphase : me.phase = .writing commit [] none result) :
      Moved sh me .next sh { me with phase := .releasing result }
  | invalidated (result : Option ρ) (hphase : me.phase = .invalidating result) :
      Moved sh me .next { sh with tableCache := ∅ } { me with phase := .releasing result }
  | released (locks : Inner) (result : Option ρ) (hphase : me.phase = .releasing result) :
      Moved sh me .next { sh with locks := locks }
        { me with phase := .idle, returned := result.toList ++ me.returned }

variable {sh : Shared δ κ τ} {me : Session δ κ τ σ ρ}

theorem moved_abort (hphase : me.phase.mayFail = true) (m : Move δ σ)
    (hm : me.phase.isWriting = true → m = .fail) (locks : Inner) :
    Moved E i sh me m (abort i { sh with locks := locks } me).1
      (abort i { sh with locks := locks } me).2 := by
  obtain ⟨txn, phase, base, ran, returned⟩ := me
  unfold abort
  split
  · exact .aborted locks txn hphase (.inl rfl) hm
  · next t htxn _ => exact .aborted locks _ hphase (.inr ⟨t, htxn, rfl⟩) hm
  · exact .aborted _ txn hphase (.inl rfl) hm

theorem moved_acquire {phase : Phase δ κ τ σ ρ} (hphase : me.phase.mayFail = true)
    (hw : me.phase.isWriting = false) (object : LockObject) (mode : LockMode) (scope : LockScope)
    (h : ∀ locks, Moved E i sh me .next { sh with locks := locks } { me with phase := phase }) :
    Moved E i sh me .next (acquire i sh me object mode scope phase).1
      (acquire i sh me object mode scope phase).2 := by
  unfold acquire
  split
  · exact .waited _
  · exact h _
  · exact moved_abort E i hphase _ (fun h => by rw [hw] at h; cases h) _

variable {l : Load κ τ σ} {q : QualifiedName}

theorem moved_built {l' : Load κ τ σ} {r : Except ε τ} (hphase : me.phase = .loading l')
    (h : ∀ t, r = .ok t → Moved E i sh me .next sh { me with phase := .loading (l.add q t) }) :
    Moved E i sh me .next (built i sh me l q r).1 (built i sh me l q r).2 := by
  cases r with
  | ok t => exact h t rfl
  | error e =>
    exact moved_abort E i (by rw [hphase]; rfl) _ (fun h => by rw [hphase] at h; cases h) sh.locks

theorem moved_load {todo : List QualifiedName} (hphase : me.phase = .loading l)
    (htodo : l.todo = q :: todo) :
    Moved E i sh me .next (load E i sh me { l with todo := todo } q).1
      (load E i sh me { l with todo := todo } q).2 := by
  unfold load
  split
  · exact .skipped l q todo hphase htodo
  split
  · exact .skipped l q todo hphase htodo
  next c hc =>
    split
    · next txn htxn =>
      split
      · next hstaged =>
        refine moved_built E i hphase fun t ht => .loaded l q todo c t hphase htodo hc ?_
        simpa only [documents, htxn, if_pos hstaged] using ht
      · next hclean =>
        split
        · refine .counted l q todo c hphase htodo hc fun txn' htxn' => ?_
          cases htxn.symm.trans htxn'
          simpa using hclean
        · refine moved_built E i hphase fun t ht => .loaded l q todo c t hphase htodo hc ?_
          simpa only [documents, htxn, if_neg hclean] using ht
    · next htxn =>
      split
      · refine .counted l q todo c hphase htodo hc fun txn htxn' => ?_
        rw [htxn] at htxn'
        cases htxn'
      · refine moved_built E i hphase fun t ht => .loaded l q todo c t hphase htodo hc ?_
        simpa only [documents, htxn] using ht

theorem moved_install {c : String} {g : Nat} {docs : List (String × δ)} {t : τ}
    (hphase : me.phase = .scanned l q c g docs) (hbuild : E.build l.catalog q docs = .ok t) :
    Moved E i sh me .next (install sh me l q c g t).1 (install sh me l q c g t).2 := by
  unfold install
  split
  · next g' kept hentry =>
    split
    · next hnewer => exact .kept l q c g g' docs kept hphase hentry hnewer
    · next holder =>
      refine .installed l q c g docs t hphase hbuild fun g'' t'' hentry' => ?_
      cases hentry.symm.trans hentry'
      exact Nat.lt_of_not_le holder
  · next hnone =>
    refine .installed l q c g docs t hphase hbuild fun g' t' hentry => ?_
    rw [hnone] at hentry
    cases hentry

variable {r : Shared δ κ τ × Session δ κ τ σ ρ}

theorem moved_next (h : next E i sh me = some r) : Moved E i sh me .next r.1 r.2 := by
  unfold next at h
  split at h
  · cases h
  · next l hphase =>
    cases h
    exact .tablesLocked l hphase
  · next l oid mode plan hphase =>
    cases h
    exact moved_acquire E i (by rw [hphase]; rfl) (by rw [hphase]; rfl) _ _ _ fun locks =>
      .locked locks l oid mode plan hphase
  · next l hphase =>
    split at h
    · next q todo htodo =>
      cases h
      exact moved_load E i hphase htodo
    · next htodo =>
      split at h
      · cases h
        exact moved_abort E i (by rw [hphase]; rfl) _ (fun h => by rw [hphase] at h; cases h) _
      · next out locks hrun =>
        cases h
        exact .ran l out locks hphase htodo hrun
  · next l q c g hphase =>
    split at h
    · next g' t hentry =>
      split at h
      · next heq =>
        cases h
        subst heq
        exact .hit l q c _ t hphase hentry
      · cases h
        exact .missed l q c g hphase
    · cases h
      exact .missed l q c g hphase
  · next l q c g hphase =>
    cases h
    exact .scanned l q c g hphase
  · next l q c g docs hphase =>
    split at h
    · next t hbuild =>
      cases h
      exact moved_install E i hphase hbuild
    · cases h
      exact moved_abort E i (by rw [hphase]; rfl) _ (fun h => by rw [hphase] at h; cases h)
        sh.locks
  · next l out hphase =>
    cases h
    unfold settle
    split
    · next txn htxn => exact .stagedIn l out txn hphase htxn
    · next htxn => exact .applying l out hphase htxn
  · next l out object mode scope todo hphase =>
    cases h
    exact moved_acquire E i (by rw [hphase]; rfl) (by rw [hphase]; rfl) _ _ _ fun locks =>
      .acquired locks l out object mode scope todo hphase
  · next commit m rest save result hphase =>
    cases h
    exact .wrote commit m rest save result hphase
  · next commit k result hphase =>
    cases h
    exact .saved commit k result hphase
  · next commit result hphase =>
    cases h
    exact .unsaved commit result hphase
  · next result hphase =>
    cases h
    exact .invalidated result hphase
  · next result hphase =>
    cases h
    exact .released _ result hphase

/-- **Every move is one of `Moved`.** -/
theorem move_cases {m : Move δ σ} (h : move E i sh me m = some r) : Moved E i sh me m r.1 r.2 := by
  cases m with
  | next => exact moved_next E i h
  | fail =>
    rw [move] at h
    split at h
    · next hphase =>
      cases h
      exact moved_abort E i hphase _ (fun _ => rfl) sh.locks
    · cases h
  | start stmt =>
    rw [move] at h
    split at h
    · next txn hphase htxn =>
      split at h
      · cases h
      · next hlive =>
        cases h
        exact .startedIn stmt txn hphase htxn (by simpa using hlive)
    · next hphase htxn =>
      cases h
      exact .started stmt hphase htxn
    · cases h
  | begin =>
    rw [move] at h
    split at h
    · next hphase htxn =>
      cases h
      exact .began hphase htxn
    · cases h
      exact .waited sh.locks
    · cases h
  | commit early order =>
    rw [move] at h
    split at h
    · next txn hphase htxn =>
      split at h
      · next haborted =>
        cases h
        exact .rolledBack _ hphase (.inr ⟨early, order, txn, rfl, htxn, haborted⟩)
      · next hlive =>
        cases h
        exact .committing txn early order hphase htxn (by simpa using hlive)
    · next hphase htxn =>
      cases h
      exact .waited _
    · cases h
  | rollback =>
    rw [move] at h
    split at h
    · next hphase =>
      cases h
      exact .rolledBack _ hphase (.inl rfl)
    · cases h

/-- A statement starts with a catalog and without tables. -/
theorem move_start {stmt : σ} (h : move E i sh me (.start stmt) = some r) :
    r.1 = sh ∧ r.2.txn = me.txn ∧ ∃ k, r.2.phase =
        .locking ⟨stmt, k, E.names stmt k, ∅⟩ (E.lockPlan stmt k) ∧
      (me.txn = none ∧ k = committed E sh ∨ ∃ txn, me.txn = some txn ∧ k = txn.catalog) := by
  rw [move] at h
  split at h
  · next txn hphase htxn => grind
  · next hphase htxn => grind
  · cases h

end Session

/-! ### The database with its sessions -/

/-- All sessions and what they share. -/
structure State (δ κ τ σ ρ : Type) where
  shared : Shared δ κ τ
  sessions : SessionId → Session δ κ τ σ ρ

def State.step (E : Statements δ κ τ ε σ ρ) (s : State δ κ τ σ ρ) (a : SessionId × Move δ σ) :
    Option (State δ κ τ σ ρ) :=
  ((s.sessions a.1).move E a.1 s.shared a.2).map fun r =>
    ⟨r.1, fun j => if j = a.1 then r.2 else s.sessions j⟩

variable {E : Statements δ κ τ ε σ ρ}

/-- A step is a move of its session and leaves the others alone. -/
theorem State.step_moved {s s' : State δ κ τ σ ρ} {a : SessionId × Move δ σ}
    (h : s.step E a = some s') :
    Session.Moved E a.1 s.shared (s.sessions a.1) a.2 s'.shared (s'.sessions a.1) ∧
      ∀ j, j ≠ a.1 → s'.sessions j = s.sessions j := by
  obtain ⟨r, hr, rfl⟩ := Option.map_eq_some_iff.mp h
  refine ⟨?_, fun j hj => if_neg hj⟩
  dsimp only
  rw [if_pos rfl]
  exact Session.move_cases E a.1 hr

/-- A session that does not move stays as it is. -/
theorem State.run_sessions {j : SessionId} :
    ∀ {acts : List (SessionId × Move δ σ)} {s s' : State δ κ τ σ ρ},
      Run.run (State.step E) s acts = some s' → (∀ a ∈ acts, a.1 ≠ j) →
        s'.sessions j = s.sessions j
  | [], s, s', hrun, _ => by
      cases hrun
      rfl
  | a :: acts, s, s', hrun, hne => by
      obtain ⟨t, ht, hrest⟩ := Run.run_cons.mp hrun
      rw [State.run_sessions hrest fun b hb => hne b (List.mem_cons_of_mem a hb)]
      exact (State.step_moved ht).2 j (Ne.symm (hne a List.mem_cons_self))

theorem State.step_start {s s' : State δ κ τ σ ρ} {i : SessionId} {stmt : σ}
    (h : s.step E (i, .start stmt) = some s') :
    s'.shared = s.shared ∧ (s'.sessions i).txn = (s.sessions i).txn ∧
      ∃ k, (s'.sessions i).phase =
          .locking ⟨stmt, k, E.names stmt k, ∅⟩ (E.lockPlan stmt k) ∧
        ((s.sessions i).txn = none ∧ k = Session.committed E s.shared ∨
          ∃ txn, (s.sessions i).txn = some txn ∧ k = txn.catalog) := by
  obtain ⟨r, hr, rfl⟩ := Option.map_eq_some_iff.mp h
  obtain ⟨hsh, htxn, k, hphase, hk⟩ := Session.move_start E i hr
  refine ⟨hsh, ?_, k, ?_, hk⟩
  · dsimp only
    rw [if_pos rfl, htxn]
  · dsimp only
    rw [if_pos rfl, hphase]

end

end GuardianDb.Sql
