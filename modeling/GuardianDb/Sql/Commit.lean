/-
`COMMIT` (`Session::commit` of `sql/engine.rs`).

A commit validates the deferred foreign-key checks, runs the deferred constraint
triggers and applies their writes, then truncates, replays the overlay and saves
the catalog. Every storage call may fail. Hash maps and hash sets are gone
through in an arbitrary order (`HashOrder`).
-/
import GuardianDb.Sql.Transaction

namespace GuardianDb.Sql

open Std Relational Fallible List Mutation

/-- The order in which a hash map or hash set lists its entries. -/
structure HashOrder where
  order : {α : Type} → List α → List α
  perm : ∀ {α : Type} (l : List α), (order l).Perm l

/-- The part of an execution context that trigger bodies change. -/
structure Exec (δ κ τ : Type) where
  catalog : κ
  catalogDirty : Bool
  tables : List (QualifiedName × τ)
  mutations : List (Mutation δ)

/-- What `COMMIT` takes from foreign keys and triggers. -/
structure Deferred (δ κ τ ε χ φ : Type) where
  /-- `deferred_check_tables`. -/
  checkTables : List χ → κ → List QualifiedName
  /-- `Exec::fk_drain_deferred`. -/
  drain : Exec δ κ τ → List χ → Except ε Unit
  /-- One firing: `resolve_trigger_function`, then `call_trigger_function`. -/
  fire : φ → Exec δ κ τ → Except ε (Exec δ κ τ)

variable (H : HashOrder)

section
variable {δ κ τ ε χ φ α : Type}

/-- The tables of a list that the catalog has, under the staged writes. -/
def loadTables (R : Relations δ κ τ ε) (txn : Transaction δ κ χ φ) :
    List QualifiedName → Db δ κ τ ε (List (QualifiedName × τ))
  | [] => return []
  | q :: qs => do
      match ← loadTableWithOverlay R txn.catalog txn q with
      | some table => return (q, table) :: (← loadTables R txn qs)
      | none => loadTables R txn qs

def checkDeferred (R : Relations δ κ τ ε) (D : Deferred δ κ τ ε χ φ) (txn : Transaction δ κ χ φ) :
    Db δ κ τ ε Unit := do
  let tables ← loadTables R txn (D.checkTables txn.pendingDeferred txn.catalog)
  Fallible.ofExcept (D.drain ⟨txn.catalog, false, tables, []⟩ txn.pendingDeferred)

/-- Write a row; when there is a listener its old document is read first. -/
def writeRow (watch : Bool) (c r : String) (f : MemoryStorage δ κ → MemoryStorage δ κ) :
    Db δ κ τ ε Unit := do
  if watch then
    let _ ← read (·.get c r)
  write f

/-- One mutation of `apply_mutations`. -/
def applyMutation (watch : Bool) (m : Mutation δ) : Db δ κ τ ε Unit :=
  match m with
  | .put c r doc => writeRow watch c r (·.put c r doc)
  | .delete c r => writeRow watch c r (·.delete c r)
  | .truncate c => write (·.truncate c)

def applyMutations (ms : List (Mutation δ)) : Db δ κ τ ε Unit := do
  let watch := (← get).watch
  ms.forM (applyMutation watch)

def fireDeferred (D : Deferred δ κ τ ε χ φ) (exec : Exec δ κ τ) (firings : List φ) :
    Except ε (Exec δ κ τ) :=
  firings.foldlM (fun exec f => D.fire f exec) exec

/-- The bodies of the deferred triggers, run on the tables as the transaction sees
them. -/
def runTriggers (R : Relations δ κ τ ε) (D : Deferred δ κ τ ε χ φ) (txn : Transaction δ κ χ φ) :
    Db δ κ τ ε (Exec δ κ τ) := do
  let tables ← loadTables R txn (R.tables txn.catalog)
  Fallible.ofExcept (fireDeferred D ⟨txn.catalog, false, tables, []⟩ txn.deferredTriggers)

def fireDeferredTriggers (R : Relations δ κ τ ε) (D : Deferred δ κ τ ε χ φ)
    (txn : Transaction δ κ χ φ) : Db δ κ τ ε Unit := do
  applyMutations (← runTriggers R D txn).mutations

def Mutation.ofEntry (c r : String) : Option δ → Mutation δ
  | some doc => .put c r doc
  | none => .delete c r

/-- The truncations of `commit`. -/
def flushTruncated (H : HashOrder) (txn : Transaction δ κ χ φ) : Db δ κ τ ε Unit :=
  (H.order txn.truncated.toList).forM fun c => write (·.truncate c)

/-- The row writes of `commit`. -/
def flushOverlay (H : HashOrder) (watch : Bool) (txn : Transaction δ κ χ φ) : Db δ κ τ ε Unit :=
  (H.order txn.overlay.toList).forM fun e =>
    (H.order e.2.toList).forM fun w => applyMutation watch (.ofEntry e.1 w.1 w.2)

/-- The catalog write of `commit`, which also drops the cached views. -/
def flushCatalog (txn : Transaction δ κ χ φ) : Db δ κ τ ε Unit := do
  if txn.catalogDirty then
    write (·.saveCatalog txn.catalog)
    modify fun db => { db with tableCache := ∅ }

/-- The writes of `commit`. -/
def flush (H : HashOrder) (txn : Transaction δ κ χ φ) : Db δ κ τ ε Unit := do
  let watch := (← get).watch
  flushTruncated H txn
  flushOverlay H watch txn
  flushCatalog txn

/-- `release_transaction` for the session. -/
def Database.release (sid : SessionId) (db : Database δ κ τ ε) : Database δ κ τ ε :=
  { db with locks := db.locks.releaseTransaction sid }

/-- Release the session's locks if `m` fails. -/
def orRelease (sid : SessionId) (m : Db δ κ τ ε α) : Db δ κ τ ε α := fun db =>
  match m.exec db with
  | (.ok a, db') => (.ok a, db')
  | (.error e, db') => (.error e, db'.release sid)

/-- The deferred checks of `commit`. -/
def settleChecks (R : Relations δ κ τ ε) (D : Deferred δ κ τ ε χ φ) (sid : SessionId)
    (txn : Transaction δ κ χ φ) : Db δ κ τ ε Unit :=
  if txn.pendingDeferred.isEmpty then pure () else orRelease sid (checkDeferred R D txn)

/-- The deferred triggers of `commit`. -/
def settleTriggers (R : Relations δ κ τ ε) (D : Deferred δ κ τ ε χ φ) (sid : SessionId)
    (txn : Transaction δ κ χ φ) : Db δ κ τ ε Unit :=
  if txn.deferredTriggers.isEmpty then pure ()
  else orRelease sid (fireDeferredTriggers R D txn)

/-- `commit`: the command tag, or the error. Whatever happens the session has no
transaction afterwards. -/
def commit (R : Relations δ κ τ ε) (D : Deferred δ κ τ ε χ φ) (H : HashOrder) (sid : SessionId) :
    Option (Transaction δ κ χ φ) → Db δ κ τ ε String
  | none => do
      modify (·.release sid)
      return "COMMIT"
  | some txn =>
      if txn.aborted then do
        -- committing an aborted transaction rolls it back
        modify (·.release sid)
        return "ROLLBACK"
      else do
        settleChecks R D sid txn
        settleTriggers R D sid txn
        flush H txn
        modify (·.release sid)
        return "COMMIT"

/-! ### What the parts do -/

def Database.stored (db : Database δ κ τ ε) : (String × String → Option δ) × Option κ :=
  (db.storage.contents, db.storage.catalog)

/-- Everything but the storage and the calls still to come. -/
def Database.rest (db : Database δ κ τ ε) :
    ExtTreeMap String (Nat × τ) × Bool × Bool × Inner :=
  (db.tableCache, db.counted, db.watch, db.locks)

/-- A read changes nothing but the calls still to come. -/
theorem keeps_read (f : MemoryStorage δ κ → α) :
    (read f : Db δ κ τ ε α).Keeps fun db => (db.storage, db.rest) := by
  rintro ⟨storage, faults, _⟩
  rcases faults with _ | ⟨_ | e, rest⟩ <;> rfl

variable (R : Relations δ κ τ ε)

theorem keeps_loadTableWithOverlay (k : κ) (txn : Transaction δ κ χ φ) (q : QualifiedName) :
    (loadTableWithOverlay R k txn q).Keeps fun db => (db.storage, db.rest) := by
  unfold loadTableWithOverlay
  cases R.collectionOf k q with
  | none => exact Fallible.Keeps.pure _ _
  | some c =>
    refine (keeps_read _).bind fun docs db => ?_
    rw [exec_map]
    rfl

theorem keeps_loadTables (R : Relations δ κ τ ε) (txn : Transaction δ κ χ φ) :
    ∀ qs, (loadTables R txn qs).Keeps fun db => (db.storage, db.rest)
  | [] => Fallible.Keeps.pure _ _
  | q :: qs => by
      rw [loadTables]
      refine (keeps_loadTableWithOverlay R txn.catalog txn q).bind fun table => ?_
      cases table with
      | none => exact keeps_loadTables R txn qs
      | some table => exact (keeps_loadTables R txn qs).bind fun _ => Fallible.Keeps.pure _ _

/-- The deferred checks, if there are any. -/
def dueChecks (R : Relations δ κ τ ε) (D : Deferred δ κ τ ε χ φ) (txn : Transaction δ κ χ φ) :
    Db δ κ τ ε Unit :=
  if txn.pendingDeferred.isEmpty then pure () else checkDeferred R D txn

/-- What the bodies of the deferred triggers want written. -/
def triggerWrites (R : Relations δ κ τ ε) (D : Deferred δ κ τ ε χ φ) (txn : Transaction δ κ χ φ) :
    Db δ κ τ ε (List (Mutation δ)) :=
  if txn.deferredTriggers.isEmpty then pure [] else (·.mutations) <$> runTriggers R D txn

/-- What `commit` does before it writes. -/
def prepare (R : Relations δ κ τ ε) (D : Deferred δ κ τ ε χ φ) (txn : Transaction δ κ χ φ) :
    Db δ κ τ ε (List (Mutation δ)) := do
  dueChecks R D txn
  triggerWrites R D txn

/-- **Checking deferred constraints changes nothing.** -/
theorem keeps_dueChecks (D : Deferred δ κ τ ε χ φ) (txn : Transaction δ κ χ φ) :
    (dueChecks R D txn).Keeps fun db => (db.storage, db.rest) := by
  unfold dueChecks
  split
  · exact Fallible.Keeps.pure _ _
  · exact (keeps_loadTables R txn _).bind fun _ _ => rfl

/-- **Nor does running deferred triggers**: what they write is collected. -/
theorem keeps_prepare (D : Deferred δ κ τ ε χ φ) (txn : Transaction δ κ χ φ) :
    (prepare R D txn).Keeps fun db => (db.storage, db.rest) := by
  refine (keeps_dueChecks R D txn).bind fun _ => ?_
  unfold triggerWrites
  split
  · exact Fallible.Keeps.pure _ _
  · intro db
    rw [exec_map]
    exact ((keeps_loadTables R txn _).bind fun _ _ => rfl) db

variable {R : Relations δ κ τ ε} {txn : Transaction δ κ χ φ} {db : Database δ κ τ ε}
  {db' : Database δ κ τ ε} {D : Deferred δ κ τ ε χ φ}

theorem exec_orRelease (sid : SessionId) (m : Db δ κ τ ε α) (db : Database δ κ τ ε) :
    (orRelease sid m).exec db = match m.exec db with
      | (.ok a, db') => (.ok a, db')
      | (.error e, db') => (.error e, db'.release sid) := rfl

section
variable (R D)

theorem settleChecks_eq (sid : SessionId) (txn : Transaction δ κ χ φ) :
    settleChecks R D sid txn = orRelease sid (dueChecks R D txn) := by
  unfold settleChecks dueChecks
  split <;> rfl

theorem settleTriggers_eq (sid : SessionId) (txn : Transaction δ κ χ φ) :
    settleTriggers R D sid txn = orRelease sid (triggerWrites R D txn >>= applyMutations) := by
  unfold settleTriggers triggerWrites fireDeferredTriggers
  split
  · rfl
  · rw [bind_map_left]

/-- **The outcomes of a commit**: only a failing flush keeps the locks. -/
theorem exec_commit (H : HashOrder) (sid : SessionId) (hlive : txn.aborted = false)
    (db : Database δ κ τ ε) :
    (commit R D H sid (some txn)).exec db =
      match (prepare R D txn).exec db with
      | (.error e, db₁) => (.error e, db₁.release sid)
      | (.ok ms, db₁) =>
        match (applyMutations ms).exec db₁ with
        | (.error e, db₂) => (.error e, db₂.release sid)
        | (.ok _, db₂) =>
          match (flush H txn).exec db₂ with
          | (.error e, db₃) => (.error e, db₃)
          | (.ok _, db₃) => (.ok "COMMIT", db₃.release sid) := by
  rw [commit, hlive]
  simp only [Bool.false_eq_true, if_false, settleChecks_eq, settleTriggers_eq, prepare,
    exec_bind, exec_orRelease]
  rcases (dueChecks R D txn).exec db with ⟨e | _, db₁⟩
  · rfl
  dsimp only
  rcases (triggerWrites R D txn).exec db₁ with ⟨e | ms, db₁'⟩
  · rfl
  dsimp only
  rcases (applyMutations ms).exec db₁' with ⟨e | _, db₂⟩
  · rfl
  dsimp only
  rcases (flush H txn).exec db₂ with ⟨e | _, db₃⟩ <;> rfl

end

/-- **The parts of a successful commit.** -/
theorem commit_ok {H : HashOrder} {sid : SessionId}
    (h : (commit R D H sid (some txn)).exec db = (.ok "COMMIT", db')) :
    ∃ ms db₁ db₂ db₃, (prepare R D txn).exec db = (.ok ms, db₁) ∧
      (applyMutations ms).exec db₁ = (.ok (), db₂) ∧
      (flush H txn).exec db₂ = (.ok (), db₃) ∧ db' = db₃.release sid := by
  cases hlive : txn.aborted with
  | true =>
    rw [commit, hlive] at h
    exact absurd (Except.ok.inj (congrArg Prod.fst h)) (by decide)
  | false =>
    rw [exec_commit R D H sid hlive] at h
    rcases hprep : (prepare R D txn).exec db with ⟨e | ms, db₁⟩
    · simp [hprep] at h
    rcases happly : (applyMutations ms).exec db₁ with ⟨e | _, db₂⟩
    · simp [hprep, happly] at h
    rcases hflush : (flush H txn).exec db₂ with ⟨e | _, db₃⟩
    · simp [hprep, happly, hflush] at h
    · simp_all

/-! ### Storage calls and their failures -/

/-- The error of the first of the next `n` calls that fails. -/
def failure (faults : List (Option ε)) (n : Nat) : Option ε := (faults.take n).findSome? id

theorem failure_add (faults : List (Option ε)) (m n : Nat) :
    failure faults (m + n) = (failure faults m).or (failure (faults.drop m) n) := by
  rw [failure, take_add, List.findSome?_append]
  rfl

/-- `m` is `n` storage calls: it changes the storage by `g` if none of them fails,
and nothing if one does. -/
def Calls (m : Db δ κ τ ε α) (n : Nat) (g : MemoryStorage δ κ → MemoryStorage δ κ) : Prop :=
  ∀ db, match failure db.faults n with
    | none => ∃ a, m.exec db =
        (.ok a, { db with storage := g db.storage, faults := db.faults.drop n })
    | some e => ∃ faults, m.exec db = (.error e, { db with faults := faults })

theorem calls_call (f : MemoryStorage δ κ → α × MemoryStorage δ κ) :
    Calls (call f : Db δ κ τ ε α) 1 fun s => (f s).2 := by
  rintro ⟨storage, faults, _⟩
  rcases faults with _ | ⟨_ | e, rest⟩
  · exact ⟨_, rfl⟩
  · exact ⟨_, rfl⟩
  · exact ⟨_, rfl⟩

theorem calls_write (g : MemoryStorage δ κ → MemoryStorage δ κ) :
    Calls (write g : Db δ κ τ ε Unit) 1 g :=
  calls_call fun s => ((), g s)

/-- A read before the calls. -/
theorem Calls.after_read {m : Db δ κ τ ε Unit} {n : Nat}
    {g : MemoryStorage δ κ → MemoryStorage δ κ} (hm : Calls m n g)
    (f : MemoryStorage δ κ → α) : Calls (read f >>= fun _ => m) (1 + n) g := by
  intro db
  have hread := calls_call (fun s => (f s, s)) (τ := τ) db
  rw [failure_add, exec_bind, read]
  cases hfail : failure db.faults 1 with
  | some e => grind
  | none =>
    rw [hfail] at hread
    obtain ⟨a, hread⟩ := hread
    have hrest := hm { db with faults := db.faults.drop 1 }
    rw [Option.none_or, hread, ← drop_drop]
    exact hrest

def Mutation.calls (watch : Bool) : Mutation δ → Nat
  | .truncate _ => 1
  | _ => if watch then 2 else 1

theorem calls_writeRow (watch : Bool) (c r : String) (g : MemoryStorage δ κ → MemoryStorage δ κ) :
    Calls (writeRow watch c r g : Db δ κ τ ε Unit) (if watch then 2 else 1) g := by
  cases watch with
  | false => exact calls_write g
  | true => exact (calls_write g).after_read _

/-- **A mutation is applied, or fails without effect.** -/
theorem calls_applyMutation (watch : Bool) (m : Mutation δ) :
    Calls (applyMutation watch m : Db δ κ τ ε Unit) (m.calls watch) fun s => m.apply s := by
  cases m with
  | put c r | delete c r => exact calls_writeRow watch c r _
  | truncate c => exact calls_write _

def writeCalls (watch : Bool) (ms : List (Mutation δ)) : Nat := (ms.map (·.calls watch)).sum

/-- The mutations that reach storage: those before the first one with a failing
call. -/
def landed (watch : Bool) : List (Option ε) → List (Mutation δ) → List (Mutation δ)
  | _, [] => []
  | faults, m :: ms =>
      if (failure faults (m.calls watch)).isSome then []
      else m :: landed watch (faults.drop (m.calls watch)) ms

/-- **Mutations written one after another**: all of them, or those before the
first failing call. -/
theorem exec_forM_applyMutation (watch : Bool) (ms : List (Mutation δ))
    (db : Database δ κ τ ε) :
    match failure db.faults (writeCalls watch ms) with
    | none => (ms.forM (applyMutation watch)).exec db =
        (.ok (), { db with
          storage := Mutation.applyAll ms db.storage
          faults := db.faults.drop (writeCalls watch ms) })
    | some e => ∃ faults, (ms.forM (applyMutation watch)).exec db =
        (.error e, { db with
          storage := Mutation.applyAll (landed watch db.faults ms) db.storage
          faults := faults }) := by
  induction ms generalizing db with
  | nil => exact rfl
  | cons m ms ih =>
    have hsum : writeCalls watch (m :: ms) = m.calls watch + writeCalls watch ms := rfl
    have hloop : ((m :: ms).forM (applyMutation watch) : Db δ κ τ ε Unit) =
        applyMutation watch m >>= fun _ => ms.forM (applyMutation watch) := rfl
    have hm := calls_applyMutation (τ := τ) watch m db
    rw [hsum, hloop, failure_add, exec_bind, landed]
    cases hfail : failure db.faults (m.calls watch) with
    | some e =>
      rw [hfail] at hm
      obtain ⟨faults, hm⟩ := hm
      exact ⟨faults, by rw [hm]; rfl⟩
    | none =>
      rw [hfail] at hm
      obtain ⟨_, hm⟩ := hm
      have hrest := ih { db with
        storage := m.apply db.storage, faults := db.faults.drop (m.calls watch) }
      rw [Option.none_or, hm, ← drop_drop]
      exact hrest

theorem ensures_forM_applyMutation (watch : Bool) (ms : List (Mutation δ)) :
    (ms.forM (applyMutation watch) : Db δ κ τ ε Unit).Ensures fun db _ db' =>
      db'.storage = Mutation.applyAll ms db.storage := by
  intro db a db' h
  have hexec := exec_forM_applyMutation watch ms db
  cases hfail : failure db.faults (writeCalls watch ms) with
  | none | some => simp_all

theorem exec_applyMutations (ms : List (Mutation δ)) (db : Database δ κ τ ε) :
    (applyMutations ms).exec db = (ms.forM (applyMutation db.watch)).exec db := rfl

/-- The entries of the overlay, in the order the flush writes them. -/
def flushed (H : HashOrder) (txn : Transaction δ κ χ φ) : List ((String × String) × Option δ) :=
  (H.order txn.overlay.toList).flatMap fun e =>
    (H.order e.2.toList).map fun w => ((e.1, w.1), w.2)

theorem mem_flushed (txn : Transaction δ κ χ φ) (i : String × String)
    (v : Option δ) : (i, v) ∈ flushed H txn ↔ (txn.rows i.1)[i.2]? = some v := by
  obtain ⟨c, r⟩ := i
  simp only [flushed, mem_flatMap, mem_map, (H.perm _).mem_iff, Prod.exists,
    ExtTreeMap.mem_toList_iff_getElem?_eq_some, Prod.mk.injEq, Transaction.rows]
  constructor
  · simp_all
  · grind

theorem ofWrites_flushed (txn : Transaction δ κ χ φ) (i : String × String) :
    Patch.ofWrites (flushed H txn) i = (txn.rows i.1)[i.2]? := by
  refine Option.ext fun v => ?_
  rw [Patch.ofWrites_eq_some, mem_flushed]
  intro i v v' hv hv'
  rw [mem_flushed] at hv hv'
  exact Option.some.inj (hv.symm.trans hv')

theorem patchAll_ofEntry (ws : List ((String × String) × Option δ)) :
    Mutation.patchAll (ws.map fun w => .ofEntry w.1.1 w.1.2 w.2) = Patch.ofWrites ws := by
  induction ws with
  | nil => rfl
  | cons w ws ih =>
    rw [map_cons, Mutation.patchAll, ih, Patch.ofWrites]
    congr 1
    cases w.2 <;> rfl

theorem patchAll_truncate (cs : List String) (i : String × String) :
    Mutation.patchAll (cs.map (Mutation.truncate (δ := δ))) i =
      if i.1 ∈ cs then some none else none := by
  induction cs with
  | nil => rfl
  | cons c cs ih =>
    rw [map_cons, Mutation.patchAll, Patch.andThen, ih, Mutation.patch]
    by_cases hcs : i.1 ∈ cs
    · simp [hcs]
    · by_cases hc : i.1 = c <;> simp_all

def flushMutations (H : HashOrder) (txn : Transaction δ κ χ φ) : List (Mutation δ) :=
  (H.order txn.truncated.toList).map .truncate ++
    (flushed H txn).map fun w => .ofEntry w.1.1 w.1.2 w.2

/-- **The flush, in whatever order, does to every row what the staged history
does.** -/
theorem patchAll_flushMutations (txn : Transaction δ κ χ φ) :
    Mutation.patchAll (flushMutations H txn) = txn.patch := by
  funext i
  have htrunc : i.1 ∈ H.order txn.truncated.toList ↔ i.1 ∈ txn.truncated := by
    rw [(H.perm _).mem_iff, ExtTreeSet.mem_toList]
  rw [flushMutations, patchAll_append, Patch.andThen, patchAll_ofEntry, ofWrites_flushed,
    patchAll_truncate, Transaction.patch]
  by_cases hc : i.1 ∈ txn.truncated <;> simp [htrunc, hc]

/-- The flush writes its mutations one after another, then the catalog. -/
theorem exec_flush (txn : Transaction δ κ χ φ) (db : Database δ κ τ ε) :
    (flush H txn).exec db =
      ((flushMutations H txn).forM (applyMutation db.watch) >>= fun _ =>
        flushCatalog txn).exec db := by
  have hloops : (flushMutations H txn).forM (applyMutation db.watch) =
      (flushTruncated H txn >>= fun _ => flushOverlay H db.watch txn : Db δ κ τ ε Unit) := by
    rw [flushMutations, forM_eq_forM, forM_append, forM_map, forM_map,
      ← forM_eq_forM, ← forM_eq_forM, flushed, forM_flatMap]
    simp only [forM_eq_forM, forM_map]
    rfl
  rw [hloops, bind_assoc]
  rfl

/-- Saving the catalog. -/
theorem exec_flushCatalog (txn : Transaction δ κ χ φ) (db : Database δ κ τ ε) :
    match failure db.faults (if txn.catalogDirty then 1 else 0) with
    | none => ∃ db', (flushCatalog txn).exec db = (.ok (), db') ∧ db'.locks = db.locks ∧
        db'.storage = if txn.catalogDirty then db.storage.saveCatalog txn.catalog else db.storage
    | some e => ∃ faults, (flushCatalog txn).exec db = (.error e, { db with faults := faults }) := by
  cases hdirty : txn.catalogDirty with
  | false =>
    refine ⟨db, ?_, rfl, by simp⟩
    simp [flushCatalog, hdirty]
  | true =>
    have hwrite := calls_write (·.saveCatalog txn.catalog) db
    simp only [flushCatalog, hdirty, if_true, exec_bind]
    cases hfail : failure db.faults 1 with
    | none =>
      rw [hfail] at hwrite
      obtain ⟨_, hwrite⟩ := hwrite
      rw [hwrite]
      exact ⟨_, rfl, rfl, rfl⟩
    | some e => grind

/-- **A flush that succeeds has written the staged history**, and the catalog if
the transaction changed it. -/
theorem ensures_flush (txn : Transaction δ κ χ φ) :
    (flush H txn : Db δ κ τ ε Unit).Ensures fun db _ db' => db'.stored =
      (txn.over db.storage,
        if txn.catalogDirty then some txn.catalog else db.storage.catalog) := by
  intro db _ db' h
  rw [exec_flush] at h
  obtain ⟨_, db₁, hrows, hcatalog⟩ := bind_ok.mp h
  have hstorage : db₁.storage = Mutation.applyAll (flushMutations H txn) db.storage :=
    ensures_forM_applyMutation _ _ _ _ _ hrows
  have hcontents : db₁.storage.contents = txn.over db.storage := by
    rw [hstorage, contents_applyAll, patchAll_flushMutations, Transaction.over]
  have hold : db₁.storage.catalog = db.storage.catalog := by
    rw [hstorage, catalog_applyAll]
  have hsave := exec_flushCatalog txn db₁
  split at hsave
  · obtain ⟨db₂, hexec, -, hsaved⟩ := hsave
    cases hexec.symm.trans hcatalog
    unfold Database.stored
    rw [hsaved]
    split
    · rw [← hcontents]
      rfl
    · rw [hcontents, hold]
  · simp_all

/-! ### A transaction refines direct application -/

/-- What can happen while a transaction is open. -/
inductive TxnStep (δ κ χ : Type) where
  /-- A statement of the transaction loads a table. -/
  | load (q : QualifiedName)
  /-- A statement stages its mutations and postpones checks. -/
  | stage (ms : List (Mutation δ)) (checks : List χ)
  /-- A statement changes the catalog. -/
  | alter (catalog : κ)
  /-- Another session writes rows to storage. -/
  | other (ms : List (Mutation δ))

/-- The database and the open transaction after a step. -/
def TxnStep.run (R : Relations δ κ τ ε) (st : Database δ κ τ ε × Transaction δ κ χ φ) :
    TxnStep δ κ χ → Database δ κ τ ε × Transaction δ κ χ φ
  | .load q => (((loadTable R (some st.2) st.2.catalog q).exec st.1).2, st.2)
  | .stage ms checks =>
      (st.1, { st.2.stageMutations ms with
        pendingDeferred := st.2.pendingDeferred ++ checks })
  | .alter catalog => (st.1, { st.2 with catalog := catalog, catalogDirty := true })
  | .other ms => ({ st.1 with storage := Mutation.applyAll ms st.1.storage }, st.2)

def staged : List (TxnStep δ κ χ) → List (Mutation δ)
  | [] => []
  | .stage ms _ :: steps => ms ++ staged steps
  | _ :: steps => staged steps

/-- `begin`: an empty transaction on the catalog in storage. -/
def beginTxn (R : Relations δ κ τ ε) (db : Database δ κ τ ε) : Transaction δ κ χ φ :=
  ⟨db.storage.catalog.getD R.newCatalog, false, ∅, ∅, false, [], []⟩

/-- `Database::new`, over a storage whose calls do not fail. -/
def Database.new (storage : MemoryStorage δ κ) (counted watch : Bool) : Database δ κ τ ε :=
  ⟨storage, [], ∅, counted, watch, ⟨∅, ∅⟩⟩

/-- Tables loaded by autocommit statements before the transaction. -/
def Database.warmed (R : Relations δ κ τ ε) (db : Database δ κ τ ε) (qs : List QualifiedName) :
    Database δ κ τ ε :=
  qs.foldl (fun db q => ((loadTable R (none : Option (Transaction δ κ Unit Unit))
    (db.storage.catalog.getD R.newCatalog) q).exec db).2) db

/-- What holds while a transaction is open: no call fails, and the shared views
are those of its catalog as long as it has not changed it. -/
structure Opened (R : Relations δ κ τ ε) (st : Database δ κ τ ε × Transaction δ κ χ φ) : Prop where
  faults : st.1.faults = []
  sound : st.2.catalogDirty = false → CacheSound R st.2.catalog st.1

theorem cacheSound_other {k : κ} (hs : CacheSound R k db) (ms : List (Mutation δ)) :
    CacheSound R k { db with storage := Mutation.applyAll ms db.storage } := by
  intro c g table hentry
  obtain ⟨hle, hcur⟩ := hs c g table hentry
  obtain ⟨hgrow, hsame⟩ := generation_applyAll ms db.storage c
  refine ⟨hle.trans hgrow, fun hg q hq => ?_⟩
  -- the entry is current only if no write touched the collection
  have hgen : (Mutation.applyAll ms db.storage).generation c = db.storage.generation c :=
    Nat.le_antisymm (hg ▸ hle) hgrow
  have hrows := hsame hgen
  have hscan : (Mutation.applyAll ms db.storage).scan c = db.storage.scan c := by
    unfold MemoryStorage.scan
    rw [hrows]
  rw [hscan]
  exact hcur (hg.trans hgen) q hq

theorem exists_over (txn : Transaction δ κ χ φ) (s : MemoryStorage δ κ) :
    ∃ t : MemoryStorage δ κ, t.contents = txn.over s := by
  refine ⟨Mutation.applyAll (flushMutations ⟨id, fun _ => List.Perm.refl _⟩ txn) s, ?_⟩
  rw [contents_applyAll, patchAll_flushMutations, Transaction.over]

/-- **Every step keeps the transaction's views right.** -/
theorem opened_run {st : Database δ κ τ ε × Transaction δ κ χ φ} (h : Opened R st)
    (step : TxnStep δ κ χ) : Opened R (step.run R st) := by
  cases step with
  | load q =>
    obtain ⟨t, ht⟩ := exists_over st.2 st.1.storage
    obtain ⟨cache, hexec, hsound⟩ := loadTable_eq (some st.2) h.faults h.sound ht q
    have hrun : (TxnStep.load q).run R st =
        (((loadTable R (some st.2) st.2.catalog q).exec st.1).2, st.2) := rfl
    rw [hrun, hexec]
    exact ⟨h.faults, hsound⟩
  | stage ms checks =>
    obtain ⟨hcat, hdirty, -⟩ := st.2.frame_stageMutations ms
    refine ⟨h.faults, fun hclean => ?_⟩
    have hold := h.sound (hdirty.symm.trans hclean)
    rw [← hcat] at hold
    exact hold
  | alter k => exact ⟨h.faults, fun hclean => absurd hclean (by simp [TxnStep.run])⟩
  | other ms => exact ⟨h.faults, fun hclean => cacheSound_other (h.sound hclean) ms⟩

theorem patch_run (R : Relations δ κ τ ε) (steps : List (TxnStep δ κ χ))
    (st : Database δ κ τ ε × Transaction δ κ χ φ) :
    (steps.foldl (TxnStep.run R) st).2.patch =
        st.2.patch.andThen (Mutation.patchAll (staged steps)) ∧
      (steps.foldl (TxnStep.run R) st).2.deferredTriggers = st.2.deferredTriggers := by
  induction steps generalizing st with
  | nil =>
    refine ⟨?_, rfl⟩
    funext i
    simp [staged, Mutation.patchAll, Patch.andThen, Patch.nop]
  | cons step steps ih =>
    rw [foldl_cons]
    obtain ⟨hpatch, htriggers⟩ := ih (step.run R st)
    rw [hpatch, htriggers]
    cases step with
    | stage ms checks =>
      refine ⟨?_, (st.2.frame_stageMutations ms).2.2⟩
      have hms : ((TxnStep.stage ms checks).run R st).2.patch =
          (st.2.stageMutations ms).patch := rfl
      rw [hms, Transaction.patch_stageMutations, staged, patchAll_append,
        Patch.andThen_assoc]
    | load | alter | other => exact ⟨rfl, rfl⟩

/-- Autocommit loads leave shared views of the catalog in storage. -/
theorem warmed_sound (R : Relations δ κ τ ε) (qs : List QualifiedName) (db : Database δ κ τ ε)
    (hf : db.faults = []) (hs : CacheSound R (db.storage.catalog.getD R.newCatalog) db) :
    (db.warmed R qs).faults = [] ∧
      CacheSound R ((db.warmed R qs).storage.catalog.getD R.newCatalog) (db.warmed R qs) := by
  refine Loop.foldl_invariant (I := fun db => db.faults = [] ∧
    CacheSound R (db.storage.catalog.getD R.newCatalog) db) qs ?_ ⟨hf, hs⟩
  intro db q _ ⟨hf, hs⟩
  obtain ⟨cache, hexec, hsound⟩ := loadTable_eq
    (none : Option (Transaction δ κ Unit Unit)) hf (fun _ => hs) rfl q
  rw [hexec]
  exact ⟨hf, hsound rfl⟩

/-- **A transaction is direct application, seen from inside and after `COMMIT`.**
Over any storage, after any tables were loaded before it, whatever its statements
loaded, staged, postponed and altered and other sessions wrote meanwhile: the
next statement sees every table as the mutations staged so far, applied to
storage in order, would leave it; and a `COMMIT` that succeeds leaves just those
rows in storage. -/
theorem transaction_refines (R : Relations δ κ τ ε) (D : Deferred δ κ τ ε χ φ) (H : HashOrder)
    (sid : SessionId) (storage : MemoryStorage δ κ) (counted watch : Bool)
    (before : List QualifiedName) (steps : List (TxnStep δ κ χ)) :
    let db₀ := (Database.new storage counted watch).warmed R before
    let st := steps.foldl (TxnStep.run R) (db₀, beginTxn R db₀)
    let direct := Mutation.applyAll (staged steps) st.1.storage
    (∀ q, ((loadTable R (some st.2) st.2.catalog q).exec st.1).1 =
      tableView R st.2.catalog direct q) ∧
    ∀ faults db', (commit R D H sid (some st.2)).exec { st.1 with faults := faults } =
      (.ok "COMMIT", db') → db'.storage.contents = direct.contents := by
  intro db₀ st direct
  have hwarm := warmed_sound R before (Database.new storage counted watch) rfl
    (fun c g table hentry => absurd hentry (by simp [Database.new]))
  have hopened : Opened R st :=
    Loop.foldl_invariant (f := TxnStep.run R) (I := Opened R) steps
      (fun st step _ h => opened_run h step) ⟨hwarm.1, fun _ => hwarm.2⟩
  obtain ⟨hpatch, htriggers⟩ := patch_run R steps (db₀, beginTxn R db₀)
  have hdirect : direct.contents = st.2.over st.1.storage := by
    have hempty : (beginTxn R db₀ : Transaction δ κ χ φ).patch = .nop := by
      funext i
      simp [beginTxn, Transaction.patch, Transaction.rows, Patch.nop]
    rw [contents_applyAll, Transaction.over, hpatch, hempty, Patch.nop_andThen]
  constructor
  · intro q
    obtain ⟨cache, hexec, -⟩ := loadTable_eq (some st.2) hopened.faults hopened.sound
      hdirect q
    rw [hexec]
  · intro faults db' hcommit
    obtain ⟨ms, db₁, db₂, db₃, hprep, happly, hflush, rfl⟩ := commit_ok hcommit
    -- without deferred triggers there is nothing to write for them
    obtain ⟨_, db₁, -, hwrites⟩ := bind_ok.mp hprep
    rw [triggerWrites, htriggers] at hwrites
    cases hwrites
    cases happly
    have hsame : db₁.storage = st.1.storage :=
      congrArg Prod.fst ((keeps_prepare R D st.2).ensures _ _ _ hprep)
    have hstored : db₃.storage.contents = st.2.over db₁.storage :=
      congrArg Prod.fst (ensures_flush H st.2 _ _ _ hflush)
    rw [hsame] at hstored
    exact hstored.trans hdirect.symm

end

/-! ### A small schema -/

/-- Documents are numbers, a catalog is a counter, and every table has one
collection of its name; a table decodes to its rows. -/
def plainRelations : Relations Nat Nat (List (String × Nat)) String where
  newCatalog := 0
  collectionOf _ q := if q.schema = "public" then some q.name else none
  build _ _ docs := .ok docs
  tables _ := [⟨"public", "t"⟩]
  collectionOf_inj := by
    intro k q q' c h h'
    split at h
    · split at h'
      · obtain ⟨s, n⟩ := q
        obtain ⟨s', n'⟩ := q'
        simp_all
      · cases h'
    · cases h

/-- No deferred checks; a firing writes a row of `t` and may draw from the
catalog's counter. -/
def plainDeferred : Deferred Nat Nat (List (String × Nat)) String Unit (String × Nat × Bool) where
  checkTables _ _ := []
  drain _ _ := .ok ()
  fire f exec := .ok
    { exec with
      catalog := if f.2.2 then exec.catalog + 1 else exec.catalog
      catalogDirty := exec.catalogDirty || f.2.2
      mutations := exec.mutations ++ [.put "t" f.1 f.2.1] }

/-- Entries in their own order. -/
def plainOrder : HashOrder := ⟨id, fun _ => List.Perm.refl _⟩

abbrev PlainDatabase := Database Nat Nat (List (String × Nat)) String

abbrev PlainTransaction := Transaction Nat Nat Unit (String × Nat × Bool)

/-- A database without rows. -/
def emptyDatabase : PlainDatabase := Database.new ⟨∅, none, ∅⟩ true false

/-- A row is written, the table truncated, another row written. -/
def refillSteps : List (TxnStep Nat Nat Unit) :=
  [.load ⟨"public", "t"⟩, .stage [.put "t" "1" 7] [], .other [.put "t" "2" 8],
    .stage [.truncate "t", .put "t" "3" 9] []]

/-- The state in which `refillSteps` leave a new database. -/
def refilled : PlainDatabase × PlainTransaction :=
  let db₀ := emptyDatabase.warmed plainRelations []
  refillSteps.foldl (TxnStep.run plainRelations) (db₀, beginTxn plainRelations db₀)

theorem transaction_refines_refilled :
    ((commit plainRelations plainDeferred plainOrder 1 (some refilled.2)).exec refilled.1).1 =
      .ok "COMMIT" ∧
    ((commit plainRelations plainDeferred plainOrder 1 (some refilled.2)).exec
      refilled.1).2.storage.contents =
        (Mutation.applyAll (staged refillSteps) refilled.1.storage).contents := by
  have hok : ((commit plainRelations plainDeferred plainOrder 1 (some refilled.2)).exec
      refilled.1).1 = .ok "COMMIT" := by
    decide +kernel
  refine ⟨hok, ?_⟩
  exact (transaction_refines plainRelations plainDeferred plainOrder 1 ⟨∅, none, ∅⟩ true false []
    refillSteps).2 refilled.1.faults _ (Prod.ext hok rfl)

end GuardianDb.Sql
