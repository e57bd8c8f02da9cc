/-
What `COMMIT` leaves behind: failures, and the effect of deferred triggers.

The writes of a commit go to storage one call after another, first those of the
deferred triggers and then the transaction's own. A call that fails ends the
commit where it is. And because the overlay is written last, it hides what
trigger bodies wrote to the same rows.

  * `commit_allOrNothing_iff` — when a commit is all or nothing.
  * `deferred_triggers_iff` — when deferred triggers take effect.
-/
import GuardianDb.Sql.Commit

namespace GuardianDb.Sql

open Std Relational Fallible Mutation

section
variable {δ κ τ ε χ φ : Type}

/-! ### All or nothing -/

/-- A commit that fails leaves rows and catalog as they were, and no outcome leaves
the session with locks of the transaction. -/
def AllOrNothing (sid : SessionId) (db : Database δ κ τ ε)
    (out : Except ε String × Database δ κ τ ε) : Prop :=
  (∀ e, out.1 = .error e → out.2.stored = db.stored) ∧ ¬ out.2.locks.HoldsTransaction sid

/-- Everything a commit writes to rows: for the triggers, then for itself. -/
def commitWrites (H : HashOrder) (txn : Transaction δ κ χ φ) (ms : List (Mutation δ)) :
    List (Mutation δ) := ms ++ flushMutations H txn

/-- If one of the calls that write fails, the mutations that landed before it
change no row; and the call is one for a trigger, or the session holds no locks of
the transaction. -/
def HarmlessWrites (H : HashOrder) (sid : SessionId) (txn : Transaction δ κ χ φ)
    (db : Database δ κ τ ε) (ms : List (Mutation δ)) (faults : List (Option ε)) : Prop :=
  let ws := commitWrites H txn ms
  (failure faults (writeCalls db.watch ws + if txn.catalogDirty then 1 else 0)).isSome →
    (∀ i v, Mutation.patchAll (landed db.watch faults ws) i = some v →
      db.storage.contents i = v) ∧
    ((failure faults (writeCalls db.watch ms)).isSome ∨ ¬ db.locks.HoldsTransaction sid)

/-- The commit does not come to write, or its writes are harmless. -/
def HarmlessFailure (R : Relations δ κ τ ε) (D : Deferred δ κ τ ε χ φ) (H : HashOrder)
    (sid : SessionId) (txn : Transaction δ κ χ φ) (db : Database δ κ τ ε) : Prop :=
  ∀ ms db₁, (prepare R D txn).exec db = (.ok ms, db₁) →
    HarmlessWrites H sid txn db ms db₁.faults

theorem writeCalls_append (watch : Bool) (ms ns : List (Mutation δ)) :
    writeCalls watch (ms ++ ns) = writeCalls watch ms + writeCalls watch ns := by
  simp [writeCalls]

theorem landed_append (watch : Bool) (faults : List (Option ε)) (ms ns : List (Mutation δ)) :
    landed watch faults (ms ++ ns) =
      if (failure faults (writeCalls watch ms)).isSome then landed watch faults ms
      else ms ++ landed watch (faults.drop (writeCalls watch ms)) ns := by
  induction ms generalizing faults with
  | nil => rfl
  | cons m ms ih =>
    have hsum : writeCalls watch (m :: ms) = m.calls watch + writeCalls watch ms := rfl
    rw [List.cons_append, landed, landed, hsum, failure_add]
    cases failure faults (m.calls watch) with
    | some e => rfl
    | none =>
      rw [ih, Option.none_or, List.drop_drop]
      simp only [Option.isSome_none, Bool.false_eq_true, if_false]
      split <;> rfl

theorem landed_of_failure_none {watch : Bool} {faults : List (Option ε)} {ms : List (Mutation δ)}
    (h : failure faults (writeCalls watch ms) = none) : landed watch faults ms = ms := by
  have happ := landed_append watch faults ms []
  rw [List.append_nil, h] at happ
  simpa [landed] using happ

/-- **The outcomes of a flush.** -/
theorem exec_flush_cases (H : HashOrder) (txn : Transaction δ κ χ φ) (db : Database δ κ τ ε) :
    match failure db.faults
      (writeCalls db.watch (flushMutations H txn) + if txn.catalogDirty then 1 else 0) with
    | none => ∃ db', (flush H txn).exec db = (.ok (), db')
    | some e => ∃ faults, (flush H txn).exec db = (.error e, { db with
        storage :=
          Mutation.applyAll (landed db.watch db.faults (flushMutations H txn)) db.storage
        faults := faults }) := by
  have hrows := exec_forM_applyMutation db.watch (flushMutations H txn) db
  rw [failure_add, exec_flush, exec_bind]
  cases hfail : failure db.faults (writeCalls db.watch (flushMutations H txn)) with
  | some e => grind
  | none =>
    rw [hfail] at hrows
    rw [hrows, Option.none_or, landed_of_failure_none hfail]
    have hsave := exec_flushCatalog txn { db with
      storage := Mutation.applyAll (flushMutations H txn) db.storage
      faults := db.faults.drop (writeCalls db.watch (flushMutations H txn)) }
    dsimp only at hsave ⊢
    cases hcat : failure (db.faults.drop (writeCalls db.watch (flushMutations H txn)))
      (if txn.catalogDirty then 1 else 0) with
    | none => grind
    | some e => simp_all

variable {db db' : Database δ κ τ ε}

/-- Landed mutations leave what is stored alone exactly when each row they touch
was as they leave it. -/
theorem stored_applyAll_iff {s : MemoryStorage δ κ} (hs : s = db.storage) (ms : List (Mutation δ))
    (h : db'.storage = Mutation.applyAll ms s) :
    db'.stored = db.stored ↔
      ∀ i v, Mutation.patchAll ms i = some v → db.storage.contents i = v := by
  subst hs
  rw [← Patch.apply_eq_self_iff, ← contents_applyAll, ← h, Database.stored,
    Database.stored, Prod.mk.injEq, and_iff_left_iff_imp, h, catalog_applyAll]
  exact fun _ => rfl

theorem not_holdsTransaction_release (sid : SessionId) (db : Database δ κ τ ε) :
    ¬ (db.release sid).locks.HoldsTransaction sid :=
  Inner.not_holdsTransaction_releaseTransaction db.locks sid

theorem allOrNothing_ok {sid : SessionId} {tag : String} :
    AllOrNothing sid db (.ok tag, db'.release sid) := by
  refine ⟨fun e h => ?_, not_holdsTransaction_release sid db'⟩
  cases h

theorem allOrNothing_error_iff {sid : SessionId} {e : ε} :
    AllOrNothing sid db (.error e, db') ↔
      db'.stored = db.stored ∧ ¬ db'.locks.HoldsTransaction sid :=
  and_congr_left fun _ => ⟨fun h => h e rfl, fun h _ _ => h⟩

variable {db₁ : Database δ κ τ ε}

/-- The writes of a commit, once there is nothing more to check or run. -/
theorem writes_allOrNothing_iff (H : HashOrder) (sid : SessionId) (txn : Transaction δ κ χ φ)
    (hstorage : db₁.storage = db.storage) (hrest : db₁.rest = db.rest) (ms : List (Mutation δ)) :
    AllOrNothing sid db
      (match (applyMutations ms).exec db₁ with
      | (.error e, db₂) => (.error e, db₂.release sid)
      | (.ok _, db₂) =>
        match (flush H txn).exec db₂ with
        | (.error e, db₃) => (.error e, db₃)
        | (.ok _, db₃) => (.ok "COMMIT", db₃.release sid)) ↔
      HarmlessWrites H sid txn db ms db₁.faults := by
  have hwatch : db₁.watch = db.watch := congrArg (·.2.2.1) hrest
  have hlocks : db₁.locks = db.locks := congrArg (·.2.2.2) hrest
  have htrig := exec_forM_applyMutation db₁.watch ms db₁
  rw [hwatch] at htrig
  rw [exec_applyMutations, hwatch]
  unfold HarmlessWrites commitWrites
  dsimp only
  rw [landed_append, writeCalls_append, Nat.add_assoc, failure_add]
  cases hms : failure db₁.faults (writeCalls db.watch ms) with
  | some e =>
    -- a write of a trigger fails
    rw [hms] at htrig
    obtain ⟨faults, htrig⟩ := htrig
    rw [htrig]
    simp only [Option.some_or, Option.isSome_some, true_implies, if_true, true_or, and_true]
    refine allOrNothing_error_iff.trans ?_
    rw [and_iff_left (not_holdsTransaction_release sid _)]
    exact stored_applyAll_iff hstorage (landed db.watch db₁.faults ms) rfl
  | none =>
    rw [hms] at htrig
    rw [htrig]
    simp only [Option.none_or, Option.isSome_none, Bool.false_eq_true, if_false,
      false_or]
    have hflush := exec_flush_cases H txn { db₁ with
      storage := Mutation.applyAll ms db₁.storage
      faults := db₁.faults.drop (writeCalls db.watch ms)
      watch := db.watch }
    dsimp only at hflush ⊢
    split at hflush
    · rename_i hnone
      obtain ⟨db', hflush⟩ := hflush
      rw [hflush, hnone]
      exact iff_of_true allOrNothing_ok fun h => absurd h (by simp)
    · -- a write of the flush fails
      rename_i e hsome
      obtain ⟨faults, hflush⟩ := hflush
      rw [hflush, hsome]
      refine allOrNothing_error_iff.trans ?_
      rw [stored_applyAll_iff hstorage (ms ++ landed db.watch (db₁.faults.drop
        (writeCalls db.watch ms)) (flushMutations H txn)) List.foldl_append.symm, hlocks]
      exact ⟨fun h _ => h, fun h => h rfl⟩

variable {txn : Transaction δ κ χ φ}

theorem live_allOrNothing_iff (R : Relations δ κ τ ε) (D : Deferred δ κ τ ε χ φ)
    (H : HashOrder) (sid : SessionId) (hlive : txn.aborted = false)
    (db : Database δ κ τ ε) :
    AllOrNothing sid db ((commit R D H sid (some txn)).exec db) ↔
      HarmlessFailure R D H sid txn db := by
  rw [exec_commit R D H sid hlive]
  unfold HarmlessFailure
  have hkeep := keeps_prepare R D txn db
  rcases hprep : (prepare R D txn).exec db with ⟨e | ms, db₁⟩ <;> rw [hprep] at hkeep
  · -- nothing was written yet
    have hstored : (db₁.release sid).stored = db.stored :=
      congrArg (fun p => (p.1.contents, p.1.catalog)) hkeep
    refine iff_of_true (allOrNothing_error_iff.mpr ⟨hstored, not_holdsTransaction_release sid _⟩) ?_
    intro ms db' h
    cases h
  · have hstorage : db₁.storage = db.storage := congrArg Prod.fst hkeep
    have hrest : db₁.rest = db.rest := congrArg Prod.snd hkeep
    refine (writes_allOrNothing_iff H sid txn hstorage hrest ms).trans
      ⟨fun h ms' db' heq => ?_, fun h => h ms db₁ rfl⟩
    cases heq
    exact h

/-- **When a commit is all or nothing**: exactly when a failing write is
harmless. -/
theorem commit_allOrNothing_iff (R : Relations δ κ τ ε) (D : Deferred δ κ τ ε χ φ)
    (H : HashOrder) (sid : SessionId) (txn : Option (Transaction δ κ χ φ))
    (db : Database δ κ τ ε) :
    AllOrNothing sid db ((commit R D H sid txn).exec db) ↔
      ∀ t, txn = some t → t.aborted = false → HarmlessFailure R D H sid t db := by
  cases txn with
  | none => exact iff_of_true allOrNothing_ok (by simp)
  | some t =>
    cases hlive : t.aborted with
    | false => simp_all [live_allOrNothing_iff]
    | true =>
      rw [commit, hlive]
      exact iff_of_true allOrNothing_ok fun t' ht' hlive' =>
        absurd (hlive'.symm.trans (Option.some.inj ht' ▸ hlive)) (by decide)

/-- A session that holds a table lock, before a commit whose second storage call
fails. -/
def interrupted : PlainDatabase :=
  { emptyDatabase with
    faults := [none, some "disk full"]
    locks := Inner.grant ⟨∅, ∅⟩ (.table 1) .rowExclusive 1 .transaction }

/-- Two rows of `t`, staged. -/
def twoRows : PlainTransaction :=
  (beginTxn plainRelations interrupted).stageMutations [.put "t" "1" 7, .put "t" "2" 8]

/-- The commit fails, one of its rows is stored and the lock stays. -/
theorem commit_interrupted :
    let out := (commit plainRelations plainDeferred plainOrder 1 (some twoRows)).exec interrupted
    out.1 = .error "disk full" ∧ out.2.storage.contents ("t", "1") = some 7 ∧
      (∃ h ∈ out.2.locks.holders (.table 1), h.holder = 1 ∧ h.scope = .transaction) ∧
      ¬ AllOrNothing 1 interrupted out := by
  intro out
  have herr : out.1 = .error "disk full" := by decide +kernel
  have hrow : out.2.storage.contents ("t", "1") = some 7 := by decide +kernel
  have hlock : ∃ h ∈ out.2.locks.holders (.table 1), h.holder = 1 ∧ h.scope = .transaction := by
    decide +kernel
  exact ⟨herr, hrow, hlock, fun h => h.2 ⟨.table 1, hlock⟩⟩

/-! ### Deferred triggers -/

/-- Storage after the transaction's own writes. -/
def afterOwn (H : HashOrder) (txn : Transaction δ κ χ φ) (s : MemoryStorage δ κ) :
    MemoryStorage δ κ :=
  let s := Mutation.applyAll (flushMutations H txn) s
  if txn.catalogDirty then s.saveCatalog txn.catalog else s

def tableViews (R : Relations δ κ τ ε) (catalog : κ) (s : MemoryStorage δ κ) :
    List QualifiedName → Except ε (List (QualifiedName × τ))
  | [] => .ok []
  | q :: qs => do
      match ← tableView R catalog s q with
      | some table => return (q, table) :: (← tableViews R catalog s qs)
      | none => tableViews R catalog s qs

/-- The trigger bodies run in firing order on the tables of a storage. -/
def runBodies (R : Relations δ κ τ ε) (D : Deferred δ κ τ ε χ φ) (txn : Transaction δ κ χ φ)
    (s : MemoryStorage δ κ) : Except ε (Exec δ κ τ) := do
  let tables ← tableViews R txn.catalog s (R.tables txn.catalog)
  fireDeferred D ⟨txn.catalog, false, tables, []⟩ txn.deferredTriggers

/-- Storage after what the trigger bodies did to rows and catalog. -/
def afterTriggers (exec : Exec δ κ τ) (s : MemoryStorage δ κ) : MemoryStorage δ κ :=
  let s := Mutation.applyAll exec.mutations s
  if exec.catalogDirty then s.saveCatalog exec.catalog else s

/-- The trigger bodies leave alone, or agree with, what the transaction wrote, and
leave the catalog as the transaction's commit does. -/
def TriggersApart (txn : Transaction δ κ χ φ) (s : MemoryStorage δ κ) (exec : Exec δ κ τ) : Prop :=
  (∀ i a b, txn.patch i = some a → Mutation.patchAll exec.mutations i = some b → a = b) ∧
  (exec.catalogDirty = true →
    (if txn.catalogDirty then some txn.catalog else s.catalog) = some exec.catalog)

theorem contents_afterOwn (H : HashOrder) (txn : Transaction δ κ χ φ) (s : MemoryStorage δ κ) :
    (afterOwn H txn s).contents = txn.over s := by
  have hrows : (Mutation.applyAll (flushMutations H txn) s).contents = txn.over s := by
    rw [contents_applyAll, patchAll_flushMutations, Transaction.over]
  unfold afterOwn
  split <;> exact hrows

theorem catalog_afterOwn (H : HashOrder) (txn : Transaction δ κ χ φ) (s : MemoryStorage δ κ) :
    (afterOwn H txn s).catalog = if txn.catalogDirty then some txn.catalog else s.catalog := by
  unfold afterOwn
  split
  · rfl
  · exact catalog_applyAll _ s

theorem contents_afterTriggers (exec : Exec δ κ τ) (s : MemoryStorage δ κ) :
    (afterTriggers exec s).contents = (Mutation.patchAll exec.mutations).apply s.contents := by
  rw [← contents_applyAll]
  unfold afterTriggers
  split <;> rfl

theorem catalog_afterTriggers (exec : Exec δ κ τ) (s : MemoryStorage δ κ) :
    (afterTriggers exec s).catalog = if exec.catalogDirty then some exec.catalog else s.catalog := by
  unfold afterTriggers
  split
  · rfl
  · exact catalog_applyAll _ s

theorem ensures_read {α : Type} (f : MemoryStorage δ κ → α) :
    (read f : Db δ κ τ ε α).Ensures fun db a db' =>
      a = f db.storage ∧ db'.storage = db.storage := by
  rintro ⟨storage, faults, _⟩ a db' h
  rcases faults with _ | ⟨_ | e, rest⟩ <;> cases h <;> exact ⟨rfl, rfl⟩

/-- A table loaded under the staged writes is the table after them. -/
theorem ensures_loadTableWithOverlay (R : Relations δ κ τ ε) (k : κ) (txn : Transaction δ κ χ φ)
    (q : QualifiedName) :
    (loadTableWithOverlay R k txn q).Ensures fun db table db' => db'.storage = db.storage ∧
      ∀ t : MemoryStorage δ κ, t.contents = txn.over db.storage → tableView R k t q = .ok table := by
  unfold loadTableWithOverlay tableView
  cases R.collectionOf k q with
  | none =>
    intro db table db' h
    cases h
    exact ⟨rfl, fun t ht => rfl⟩
  | some c =>
    refine (ensures_read _).bind fun docs => ?_
    intro db table db' h db₀ ⟨hdocs, hsame⟩
    rw [exec_map, exec_ofExcept] at h
    obtain ⟨hbuild, rfl⟩ := Prod.mk.inj h
    refine ⟨hsame, fun t ht => ?_⟩
    rw [← hbuild, hdocs]
    have hmerged := merged_eq_scan ht c
    by_cases htrunc : c ∈ txn.truncated
    · simp_all
    · have hno : txn.truncated.contains c = false :=
        Bool.eq_false_iff.mpr fun h => htrunc (ExtTreeSet.contains_iff_mem.mp h)
      rw [if_neg htrunc] at hmerged
      cases hov : txn.overlay[c]? with
      | none => simp [hno, scan_of_untouched ht htrunc hov]
      | some rows => simp [hno, hmerged]

theorem ensures_loadTables (R : Relations δ κ τ ε) (txn : Transaction δ κ χ φ) :
    ∀ qs, (loadTables R txn qs).Ensures fun db tables db' => db'.storage = db.storage ∧
      ∀ t : MemoryStorage δ κ, t.contents = txn.over db.storage →
        tableViews R txn.catalog t qs = .ok tables
  | [] => by
      intro db tables db' h
      cases h
      exact ⟨rfl, fun t ht => rfl⟩
  | q :: qs => by
      rw [loadTables]
      refine (ensures_loadTableWithOverlay R txn.catalog txn q).bind fun table => ?_
      rintro db tables db' h db₀ ⟨hsame, hview⟩
      cases table with
      | none =>
        obtain ⟨hsame', hviews⟩ := ensures_loadTables R txn qs db tables db' h
        refine ⟨hsame'.trans hsame, fun t ht => ?_⟩
        rw [tableViews, hview t ht]
        exact hviews t (hsame ▸ ht)
      | some table =>
        obtain ⟨rest, db₁, hrest, hret⟩ := bind_ok.mp h
        cases hret
        obtain ⟨hsame', hviews⟩ := ensures_loadTables R txn qs db rest _ hrest
        refine ⟨hsame'.trans hsame, fun t ht => ?_⟩
        rw [tableViews, hview t ht]
        dsimp only [bind, Except.bind]
        rw [hviews t (hsame ▸ ht)]
        rfl

/-- **The trigger bodies see the transaction's own writes.** -/
theorem prepare_runBodies {R : Relations δ κ τ ε} {D : Deferred δ κ τ ε χ φ}
    {ms : List (Mutation δ)} (hqueued : txn.deferredTriggers ≠ [])
    (h : (prepare R D txn).exec db = (.ok ms, db₁)) {t : MemoryStorage δ κ}
    (ht : t.contents = txn.over db.storage) :
    ∃ exec, runBodies R D txn t = .ok exec ∧ ms = exec.mutations := by
  obtain ⟨_, db₀, hchecks, hwrites⟩ := bind_ok.mp h
  have hsame : db₀.storage = db.storage :=
    congrArg Prod.fst ((keeps_dueChecks R D txn).ensures _ _ _ hchecks)
  rw [triggerWrites, if_neg (by simpa using hqueued), exec_map] at hwrites
  rcases hrun : (runTriggers R D txn).exec db₀ with ⟨e | exec, db₂⟩
  · simp [hrun, Except.map] at hwrites
  · obtain ⟨tables, db₃, hload, hfire⟩ := bind_ok.mp hrun
    have hviews := (ensures_loadTables R txn _ _ _ _ hload).2 t (hsame ▸ ht)
    refine ⟨exec, ?_, ?_⟩
    · rw [runBodies, hviews]
      exact (Prod.mk.inj hfire).1
    · rw [hrun] at hwrites
      exact (Except.ok.inj (Prod.mk.inj hwrites).1).symm

/-- **When deferred triggers take effect.** -/
theorem deferred_triggers_iff (R : Relations δ κ τ ε) (D : Deferred δ κ τ ε χ φ) (H : HashOrder)
    (sid : SessionId) (txn : Transaction δ κ χ φ) (hqueued : txn.deferredTriggers ≠ [])
    (db db' : Database δ κ τ ε)
    (hcommit : (commit R D H sid (some txn)).exec db = (.ok "COMMIT", db')) :
    ∃ exec, runBodies R D txn (afterOwn H txn db.storage) = .ok exec ∧
      (let s' := afterTriggers exec (afterOwn H txn db.storage)
      db'.stored = (s'.contents, s'.catalog) ↔ TriggersApart txn db.storage exec) := by
  obtain ⟨ms, db₁, db₂, db₃, hprep, happly, hflush, rfl⟩ := commit_ok hcommit
  obtain ⟨exec, hbodies, rfl⟩ := prepare_runBodies hqueued hprep (contents_afterOwn H txn db.storage)
  refine ⟨exec, hbodies, ?_⟩
  have hsame : db₁.storage = db.storage :=
    congrArg Prod.fst ((keeps_prepare R D txn).ensures _ _ _ hprep)
  have hwritten : db₂.storage = Mutation.applyAll exec.mutations db₁.storage :=
    ensures_forM_applyMutation _ _ _ _ _ happly
  have hstored : db₃.stored = (txn.over db₂.storage,
      if txn.catalogDirty then some txn.catalog else db₂.storage.catalog) :=
    ensures_flush H txn _ _ _ hflush
  have hrelease : (db₃.release sid).stored = db₃.stored := rfl
  dsimp only
  rw [hrelease, hstored, hwritten, hsame, Transaction.over, contents_applyAll,
    catalog_applyAll, contents_afterTriggers, contents_afterOwn, catalog_afterTriggers,
    catalog_afterOwn, Prod.mk.injEq, Transaction.over, Patch.apply_comm_iff]
  refine and_congr_right fun _ => ?_
  cases exec.catalogDirty <;> simp

/-- A transaction that wrote row `1` of `t` and queued firings. -/
def queued (firings : List (String × Nat × Bool)) : PlainTransaction :=
  let txn : PlainTransaction :=
    (beginTxn plainRelations emptyDatabase).stageMutations [.put "t" "1" 7]
  { txn with deferredTriggers := firings }

theorem deferred_triggers_iff_other_row :
    let out := (commit plainRelations plainDeferred plainOrder 1
      (some (queued [("2", 8, false)]))).exec emptyDatabase
    out.1 = .ok "COMMIT" ∧
      ∃ exec, runBodies plainRelations plainDeferred (queued [("2", 8, false)])
          (afterOwn plainOrder (queued [("2", 8, false)]) emptyDatabase.storage) = .ok exec ∧
        (let s' := afterTriggers exec (afterOwn plainOrder (queued [("2", 8, false)]) emptyDatabase.storage)
        out.2.stored = (s'.contents, s'.catalog) ↔
          TriggersApart (queued [("2", 8, false)]) emptyDatabase.storage exec) := by
  intro out
  have hok : out.1 = .ok "COMMIT" := by decide +kernel
  exact ⟨hok, deferred_triggers_iff plainRelations plainDeferred plainOrder 1
    (queued [("2", 8, false)]) (by decide) emptyDatabase out.2 (Prod.ext hok rfl)⟩

/-- The trigger sets row `1` to 8 and draws from the counter; the commit stores 7
and forgets the counter. -/
theorem deferred_trigger_undone :
    let out := (commit plainRelations plainDeferred plainOrder 1
      (some (queued [("1", 8, true)]))).exec emptyDatabase
    out.1 = .ok "COMMIT" ∧ out.2.storage.contents ("t", "1") = some 7 ∧
      out.2.storage.catalog = none ∧
      ∃ exec ∈ (runBodies plainRelations plainDeferred (queued [("1", 8, true)])
          (afterOwn plainOrder (queued [("1", 8, true)]) emptyDatabase.storage)).toOption,
        let s' := afterTriggers exec (afterOwn plainOrder (queued [("1", 8, true)]) emptyDatabase.storage)
        s'.contents ("t", "1") = some 8 ∧ s'.catalog = some 1 := by
  decide +kernel

end

end GuardianDb.Sql
