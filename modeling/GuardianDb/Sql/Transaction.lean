/-
Explicit transactions of the SQL engine (`sql/engine.rs`): staged writes and the
table views statements load.

A statement inside a transaction does not write to storage. Its mutations are
collapsed into a set of truncated collections and a last-writer overlay, and
later statements see storage through them. The decoded views of untouched
collections are shared through a cache tagged with the storage change counter.

Documents (`δ`), catalogs (`κ`), decoded tables (`τ`), errors (`ε`), deferred
foreign-key checks (`χ`) and deferred trigger firings (`φ`) are arbitrary; what
the engine takes from them is `Relations`. The change events handed to listeners
are left out.

  * `patch_stageMutations` — overlay and truncated set are the staged history.
  * `merged_eq_scan` — merging the overlay into a scan is scanning afterwards.
  * `loadTable_eq` — what a statement loads is storage after the staged history.
-/
import GuardianDb.Lib.Fallible
import GuardianDb.Lib.Patch
import GuardianDb.Relational.Catalog
import GuardianDb.Relational.Storage
import GuardianDb.Sql.Lock

namespace GuardianDb.Sql

open Std Relational Fallible ExtTreeMap MemoryStorage

/-! ### Mutations -/

/-- `Mutation`: a pending storage write of a statement. -/
inductive Mutation (δ : Type) where
  | put (collection rowId : String) (doc : δ)
  | delete (collection rowId : String)
  | truncate (collection : String)
  deriving DecidableEq, Repr

namespace Mutation

variable {δ κ : Type}

/-- The write itself. -/
def apply (s : MemoryStorage δ κ) : Mutation δ → MemoryStorage δ κ
  | .put c r doc => s.put c r doc
  | .delete c r => s.delete c r
  | .truncate c => s.truncate c

/-- What a mutation does to each row. -/
def patch : Mutation δ → Patch (String × String) δ
  | .put c r doc => .single (c, r) (some doc)
  | .delete c r => .single (c, r) none
  | .truncate c => fun i => if i.1 = c then some none else none

/-- Mutations applied to storage in order. -/
def applyAll (ms : List (Mutation δ)) (s : MemoryStorage δ κ) : MemoryStorage δ κ :=
  ms.foldl apply s

/-- What mutations applied in order do to each row. -/
def patchAll : List (Mutation δ) → Patch (String × String) δ
  | [] => .nop
  | m :: ms => m.patch.andThen (patchAll ms)

variable (s : MemoryStorage δ κ)

theorem contents_apply (m : Mutation δ) :
    (m.apply s).contents = m.patch.apply s.contents := by
  funext ⟨c', r'⟩
  cases m with
  | put c r doc =>
    simp only [apply, MemoryStorage.contents, MemoryStorage.get, rows_put, patch,
      Patch.apply, Patch.single, Prod.mk.injEq]
    by_cases hc : c' = c
    · grind
    · simp [hc]
  | delete c r =>
    simp only [apply, MemoryStorage.contents, MemoryStorage.get, rows_delete, patch,
      Patch.apply, Patch.single, Prod.mk.injEq]
    by_cases hc : c' = c
    · grind
    · simp [hc]
  | truncate c =>
    simp only [apply, MemoryStorage.contents, MemoryStorage.get, rows_truncate,
      patch, Patch.apply]
    by_cases hc : c' = c <;> simp [hc]

variable (ms : List (Mutation δ))

theorem contents_applyAll (s : MemoryStorage δ κ) :
    (applyAll ms s).contents = (patchAll ms).apply s.contents := by
  induction ms generalizing s with
  | nil => rfl
  | cons m ms ih => rw [applyAll, List.foldl_cons, patchAll, Patch.apply_andThen,
      ← contents_apply, ← ih, applyAll]

theorem patchAll_append (ms ns : List (Mutation δ)) :
    patchAll (ms ++ ns) = (patchAll ms).andThen (patchAll ns) := by
  induction ms with
  | nil => simp [patchAll]
  | cons m ms ih => simp [patchAll, ih, Patch.andThen_assoc]

@[simp] theorem catalog_apply (m : Mutation δ) :
    (m.apply s).catalog = s.catalog := by
  cases m <;> rfl

theorem catalog_applyAll (s : MemoryStorage δ κ) :
    (applyAll ms s).catalog = s.catalog := by
  induction ms generalizing s with
  | nil => rfl
  | cons m ms ih => exact (ih (m.apply s)).trans (catalog_apply s m)

/-- A write advances the counter of the collections it touches. -/
theorem generation_apply (m : Mutation δ) (c : String) :
    s.generation c ≤ (m.apply s).generation c ∧
      ((m.apply s).generation c = s.generation c → (m.apply s).rows c = s.rows c) := by
  cases m <;>
    simp only [apply, generation_put, generation_delete,
      generation_truncate, rows_put, rows_delete,
      rows_truncate] <;>
    split <;> simp_all

theorem generation_applyAll (s : MemoryStorage δ κ) (c : String) :
    s.generation c ≤ (applyAll ms s).generation c ∧
      ((applyAll ms s).generation c = s.generation c → (applyAll ms s).rows c = s.rows c) := by
  induction ms generalizing s with
  | nil => exact ⟨le_rfl, fun _ => rfl⟩
  | cons m ms ih =>
    obtain ⟨hle, hsame⟩ := generation_apply s m c
    obtain ⟨hle', hsame'⟩ := ih (m.apply s)
    refine ⟨hle.trans hle', fun heq => ?_⟩
    have hfirst : (m.apply s).generation c = s.generation c := Nat.le_antisymm (heq ▸ hle') hle
    exact (hsame' (heq.trans hfirst.symm)).trans (hsame hfirst)

end Mutation

/-! ### Transactions -/

/-- `Transaction`. The overlay gives, for a collection and a row id, the document
to write or `none` to delete it. -/
structure Transaction (δ κ χ φ : Type) where
  catalog : κ
  catalogDirty : Bool
  overlay : ExtTreeMap String (ExtTreeMap String (Option δ))
  truncated : ExtTreeSet String
  aborted : Bool
  pendingDeferred : List χ
  deferredTriggers : List φ

namespace Transaction

variable {δ κ χ φ : Type}

def rows (txn : Transaction δ κ χ φ) (c : String) : ExtTreeMap String (Option δ) :=
  txn.overlay[c]?.getD ∅

/-- One round of the loop of `stage_mutations`. -/
def stage (txn : Transaction δ κ χ φ) : Mutation δ → Transaction δ κ χ φ
  | .put c r doc =>
      { txn with overlay := txn.overlay.insert c ((txn.rows c).insert r (some doc)) }
  | .delete c r => { txn with overlay := txn.overlay.insert c ((txn.rows c).insert r none) }
  | .truncate c =>
      { txn with truncated := txn.truncated.insert c, overlay := txn.overlay.erase c }

def stageMutations (txn : Transaction δ κ χ φ) (ms : List (Mutation δ)) : Transaction δ κ χ φ :=
  ms.foldl stage txn

/-- What the staged writes do to each row. -/
def patch (txn : Transaction δ κ χ φ) : Patch (String × String) δ := fun i =>
  ((txn.rows i.1)[i.2]?).or (if i.1 ∈ txn.truncated then some none else none)

section
variable (txn : Transaction δ κ χ φ)

theorem rows_stage_write (c r : String) (v : Option δ) (c' : String) :
    rows { txn with overlay := txn.overlay.insert c ((txn.rows c).insert r v) } c' =
      if c' = c then (txn.rows c).insert r v else txn.rows c' := by
  unfold rows
  rw [OrderedMap.get_insert]
  split <;> rfl

theorem patch_write (c r : String) (v : Option δ) :
    patch { txn with overlay := txn.overlay.insert c ((txn.rows c).insert r v) } =
      txn.patch.andThen (.single (c, r) v) := by
  funext ⟨c', r'⟩
  simp only [patch, rows_stage_write, Patch.andThen, Patch.single, Prod.mk.injEq]
  by_cases hc : c' = c
  · grind
  · simp [hc]

theorem patch_stage (m : Mutation δ) :
    (txn.stage m).patch = txn.patch.andThen m.patch := by
  cases m with
  | put c r doc => exact txn.patch_write c r (some doc)
  | delete c r => exact txn.patch_write c r none
  | truncate c =>
    funext ⟨c', r'⟩
    simp only [patch, stage, rows, Mutation.patch, Patch.andThen, getElem?_erase,
      ExtTreeSet.mem_insert, LawfulEqCmp.compare_eq_iff_eq]
    by_cases hc : c' = c
    · subst hc
      simp
    · grind

/-- **The overlay and the truncated set are the staged history**, as far as any
row can tell. -/
theorem patch_stageMutations (ms : List (Mutation δ)) :
    (txn.stageMutations ms).patch = txn.patch.andThen (Mutation.patchAll ms) := by
  induction ms generalizing txn with
  | nil =>
    funext i
    simp [stageMutations, Mutation.patchAll, Patch.andThen, Patch.nop]
  | cons m ms ih =>
    rw [stageMutations, List.foldl_cons, ← stageMutations, ih, patch_stage, Mutation.patchAll,
      Patch.andThen_assoc]

/-- Staging touches nothing but the staged writes. -/
theorem frame_stageMutations (ms : List (Mutation δ)) :
    (txn.stageMutations ms).catalog = txn.catalog ∧
      (txn.stageMutations ms).catalogDirty = txn.catalogDirty ∧
      (txn.stageMutations ms).deferredTriggers = txn.deferredTriggers := by
  induction ms generalizing txn with
  | nil => exact ⟨rfl, rfl, rfl⟩
  | cons m ms ih =>
    cases m <;> exact ih _

end

end Transaction

/-! ### The database and its storage calls -/

/-- What the engine takes from catalogs and decoded tables. -/
structure Relations (δ κ τ ε : Type) where
  /-- `Catalog::new`. -/
  newCatalog : κ
  /-- The storage collection of a table of the catalog. -/
  collectionOf : κ → QualifiedName → Option String
  /-- `LoadedTable::build` with the columns and index definitions of a table. -/
  build : κ → QualifiedName → List (String × δ) → Except ε τ
  tables : κ → List QualifiedName
  /-- Collections are named after the table's OID. -/
  collectionOf_inj : ∀ k q q' c, collectionOf k q = some c → collectionOf k q' = some c → q = q'

/-- `Database`, with what its storage calls will come to. -/
structure Database (δ κ τ ε : Type) where
  storage : MemoryStorage δ κ
  /-- The errors of the following storage calls; past the end of the list no call
  fails. -/
  faults : List (Option ε)
  /-- `table_cache`: decoded views, each with the change counter it was built at. -/
  tableCache : ExtTreeMap String (Nat × τ)
  /-- The backend reports change counters. -/
  counted : Bool
  /-- `has_change_listeners`. -/
  watch : Bool
  locks : Inner

abbrev Db (δ κ τ ε : Type) := Fallible (Database δ κ τ ε) ε

section
variable {δ κ τ ε α χ φ : Type}

/-- A storage call. One that fails has no effect. -/
def call (f : MemoryStorage δ κ → α × MemoryStorage δ κ) : Db δ κ τ ε α := fun db =>
  match db.faults with
  | some e :: rest => (.error e, { db with faults := rest })
  | none :: rest => (.ok (f db.storage).1, { db with storage := (f db.storage).2, faults := rest })
  | [] => (.ok (f db.storage).1, { db with storage := (f db.storage).2 })

def write (f : MemoryStorage δ κ → MemoryStorage δ κ) : Db δ κ τ ε Unit := call fun s => ((), f s)

def read (f : MemoryStorage δ κ → α) : Db δ κ τ ε α := call fun s => (f s, s)

def loadCatalog (R : Relations δ κ τ ε) : Db δ κ τ ε κ := do
  return (← read (·.catalog)).getD R.newCatalog

/-! ### Loading a table -/

/-- Rows set or removed one by one. -/
def merge (m : ExtTreeMap String δ) (ws : List (String × Option δ)) : ExtTreeMap String δ :=
  ws.foldl (fun m w => match w.2 with
    | some doc => m.insert w.1 doc
    | none => m.erase w.1) m

/-- The documents of a collection with staged writes: the scan collected into a
map, or nothing after a truncation, then the overlay. Each row occurs once in the
overlay, so the order of its hash map does not matter. -/
def merged (docs : List (String × δ)) (ov : ExtTreeMap String (Option δ)) : List (String × δ) :=
  (merge (merge ∅ (docs.map fun d => (d.1, some d.2))) ov.toList).toList

/-- The part of `cached_table` after a miss. A view built by another session while
this one scanned is kept if it is not older. -/
def buildCached (collection : String) (generation : Nat)
    (build : List (String × δ) → Except ε τ) : Db δ κ τ ε τ := do
  let built ← Fallible.ofExcept (build (← read (·.scan collection)))
  let install : Db δ κ τ ε τ := do
    modify fun db =>
      { db with tableCache := db.tableCache.insert collection (generation, built) }
    return built
  match (← get).tableCache[collection]? with
  | some (g, table) => if g ≥ generation then return table else install
  | none => install

def cachedTable (collection : String) (generation : Nat)
    (build : List (String × δ) → Except ε τ) : Db δ κ τ ε τ := do
  match (← get).tableCache[collection]? with
  | some (g, table) =>
      if g = generation then return table else buildCached collection generation build
  | none => buildCached collection generation build

/-- The part of `load_table` for a collection without staged writes. -/
def loadCommitted (R : Relations δ κ τ ε) (catalog : κ) (q : QualifiedName)
    (collection : String) : Db δ κ τ ε τ := do
  let db ← get
  if db.counted then
    cachedTable collection (db.storage.generation collection) (R.build catalog q)
  else
    Fallible.ofExcept (R.build catalog q (← read (·.scan collection)))

/-- `load_table`, with the catalog the statement runs under. -/
def loadTable (R : Relations δ κ τ ε) (txn : Option (Transaction δ κ χ φ)) (catalog : κ)
    (q : QualifiedName) : Db δ κ τ ε (Option τ) :=
  match R.collectionOf catalog q with
  | none => return none
  | some collection => do
      let truncated := txn.any fun t => t.truncated.contains collection
      let overlay := txn.bind fun t => t.overlay[collection]?
      let schemaDirty := txn.any (·.catalogDirty)
      if !truncated && overlay.isNone && !schemaDirty then
        some <$> loadCommitted R catalog q collection
      else
        let docs ← if truncated then pure [] else read (·.scan collection)
        some <$> Fallible.ofExcept (R.build catalog q (merged docs (overlay.getD ∅)))

/-- `load_table_with_overlay`: the same merge for a transaction that was already
taken out of the session. -/
def loadTableWithOverlay (R : Relations δ κ τ ε) (catalog : κ) (txn : Transaction δ κ χ φ)
    (q : QualifiedName) : Db δ κ τ ε (Option τ) :=
  match R.collectionOf catalog q with
  | none => return none
  | some collection => do
      let docs ← read (·.scan collection)
      let docs :=
        if txn.truncated.contains collection || (txn.overlay[collection]?).isSome then
          merged (if txn.truncated.contains collection then [] else docs) (txn.rows collection)
        else docs
      some <$> Fallible.ofExcept (R.build catalog q docs)

/-- The view of a table that a storage holds. -/
def tableView (R : Relations δ κ τ ε) (catalog : κ) (s : MemoryStorage δ κ) (q : QualifiedName) :
    Except ε (Option τ) :=
  match R.collectionOf catalog q with
  | none => .ok none
  | some collection => (R.build catalog q (s.scan collection)).map some

/-! ### Staged writes over a scan -/

theorem getElem?_merge (m : ExtTreeMap String δ) (ws : List (String × Option δ)) :
    (fun r => (merge m ws)[r]?) = (Patch.ofWrites ws).apply fun r => m[r]? := by
  induction ws generalizing m with
  | nil => rfl
  | cons w ws ih =>
    rw [merge, List.foldl_cons, ← merge, ih, Patch.ofWrites, Patch.apply_andThen]
    congr 1
    funext r
    obtain ⟨r', v⟩ := w
    by_cases hr : r = r'
    · subst hr
      cases v <;> simp [Patch.apply, Patch.single]
    · grind [Patch.apply, Patch.single]

/-- The writes a map lists are its lookups. -/
theorem ofWrites_toList (m : ExtTreeMap String (Option δ)) (r : String) :
    Patch.ofWrites m.toList r = m[r]? := by
  refine Option.ext fun v => ?_
  rw [Patch.ofWrites_eq_some, mem_toList_iff_getElem?_eq_some]
  intro i v v' hv hv'
  rw [mem_toList_iff_getElem?_eq_some] at hv hv'
  exact Option.some.inj (hv.symm.trans hv')

/-- Collecting a scan gives the rows back. -/
theorem merge_toList (m : ExtTreeMap String δ) :
    merge ∅ (m.toList.map fun d => (d.1, some d.2)) = m := by
  refine ext_getElem? fun r => ?_
  have hmem : ∀ i v, (i, v) ∈ m.toList.map (fun d => (d.1, some d.2)) ↔ (m[i]?).map some = some v := by
    simp_all
  have hwrites : Patch.ofWrites (m.toList.map fun d => (d.1, some d.2)) r = (m[r]?).map some := by
    refine Option.ext fun v => ?_
    rw [Patch.ofWrites_eq_some, hmem]
    intro i v v' hv hv'
    rw [hmem] at hv hv'
    exact Option.some.inj (hv.symm.trans hv')
  refine (congrFun (getElem?_merge ∅ _) r).trans ?_
  rw [Patch.apply, hwrites]
  cases m[r]? <;> simp

/-- What a transaction's statements see of a row: storage under its staged writes. -/
def Transaction.over (txn : Transaction δ κ χ φ) (s : MemoryStorage δ κ) :
    String × String → Option δ := txn.patch.apply s.contents

variable {t : MemoryStorage δ κ} {s : MemoryStorage δ κ} {txn : Transaction δ κ χ φ}

/-- **Merging the overlay into a scan is scanning after the writes.** -/
theorem merged_eq_scan (h : t.contents = txn.over s) (c : String) :
    merged (if c ∈ txn.truncated then [] else s.scan c) (txn.rows c) = t.scan c := by
  unfold merged MemoryStorage.scan
  refine congrArg _ (ext_getElem? fun r => ?_)
  have hrow : (t.rows c)[r]? = txn.over s (c, r) := congrFun h (c, r)
  refine (congrFun (getElem?_merge _ _) r).trans ?_
  rw [hrow, Patch.apply, ofWrites_toList, Transaction.over, Patch.apply, Transaction.patch]
  cases (txn.rows c)[r]? with
  | some v => rfl
  | none => grind [merge, merge_toList, MemoryStorage.contents, MemoryStorage.get]

variable {c : String}

/-- A collection without staged writes is scanned as it is. -/
theorem scan_of_untouched (h : t.contents = txn.over s)
    (htrunc : c ∉ txn.truncated) (hov : txn.overlay[c]? = none) : s.scan c = t.scan c := by
  refine scan_eq_of_get fun r => ?_
  have hrow := congrFun h (c, r)
  have hpatch : txn.patch (c, r) = none := by
    simp [Transaction.patch, Transaction.rows, htrunc, hov]
  rw [Transaction.over, Patch.apply, hpatch] at hrow
  exact hrow.symm

/-! ### The view a statement loads -/

/-- Cached views are those of the catalog `k`, as far as their counters are
current. -/
def CacheSound (R : Relations δ κ τ ε) (k : κ) (db : Database δ κ τ ε) : Prop :=
  ∀ c g table, db.tableCache[c]? = some (g, table) → g ≤ db.storage.generation c ∧
    (g = db.storage.generation c → ∀ q, R.collectionOf k q = some c →
      R.build k q (db.storage.scan c) = .ok table)

variable {db : Database δ κ τ ε}

theorem exec_read (hf : db.faults = []) (f : MemoryStorage δ κ → α) :
    (read f : Db δ κ τ ε α).exec db = (.ok (f db.storage), db) := by
  obtain ⟨storage, faults, _⟩ := db
  obtain rfl : faults = [] := hf
  rfl

variable {R : Relations δ κ τ ε} {k : κ} {q : QualifiedName}

section
variable (hf : db.faults = []) (hs : CacheSound R k db) (hq : R.collectionOf k q = some c)
include hf hs hq

/-- After a miss the view is built from the scan and installed. -/
theorem buildCached_eq
    (hold : ∀ g table, db.tableCache[c]? = some (g, table) → g < db.storage.generation c) :
    ∃ cache, (buildCached c (db.storage.generation c) (R.build k q)).exec db =
        (R.build k q (db.storage.scan c), { db with tableCache := cache }) ∧
      CacheSound R k { db with tableCache := cache } := by
  cases hbuild : R.build k q (db.storage.scan c) with
  | error e =>
    refine ⟨db.tableCache, ?_, hs⟩
    simp [buildCached, exec_bind, exec_read hf, hbuild]
  | ok built =>
    refine ⟨db.tableCache.insert c (db.storage.generation c, built), ?_, ?_⟩
    · simp only [buildCached, exec_bind, exec_read hf, hbuild, exec_ofExcept,
        exec_get]
      cases hc : db.tableCache[c]? with
      | none => simp [exec_map, Except.map]
      | some entry =>
        obtain ⟨g, table⟩ := entry
        have hlt : ¬ g ≥ db.storage.generation c := Nat.not_le.mpr (hold g table hc)
        simp [exec_map, Except.map, hlt]
    · intro c' g table hentry
      rw [getElem?_insert] at hentry
      split at hentry
      · rename_i hc
        obtain rfl := LawfulEqCmp.eq_of_compare hc
        cases hentry
        refine ⟨le_rfl, fun _ q' hq' => ?_⟩
        obtain rfl := R.collectionOf_inj k q q' c hq hq'
        exact hbuild
      · exact hs c' g table hentry

/-- **A cached view is the view of the scan.** -/
theorem cachedTable_eq :
    ∃ cache, (cachedTable c (db.storage.generation c) (R.build k q)).exec db =
        (R.build k q (db.storage.scan c), { db with tableCache := cache }) ∧
      CacheSound R k { db with tableCache := cache } := by
  simp only [cachedTable, exec_bind, exec_get]
  cases hc : db.tableCache[c]? with
  | none => exact buildCached_eq hf hs hq (by simp [hc])
  | some entry =>
    obtain ⟨g, table⟩ := entry
    obtain ⟨hle, hcur⟩ := hs c g table hc
    by_cases hg : g = db.storage.generation c
    · simp only [if_pos hg, hcur hg q hq]
      exact ⟨db.tableCache, rfl, hs⟩
    · simp only [if_neg hg]
      refine buildCached_eq hf hs hq fun g' table' hc' => ?_
      cases hc.symm.trans hc'
      omega

theorem loadCommitted_eq :
    ∃ cache, (loadCommitted R k q c).exec db =
        (R.build k q (db.storage.scan c), { db with tableCache := cache }) ∧
      CacheSound R k { db with tableCache := cache } := by
  simp only [loadCommitted, exec_bind, exec_get]
  split
  · exact cachedTable_eq hf hs hq
  · simp only [exec_bind, exec_read hf, exec_ofExcept]
    exact ⟨db.tableCache, rfl, hs⟩

end

/-- What the statements of a session see of each row: storage, under the staged
writes of its transaction if there is one. -/
def sees (txn : Option (Transaction δ κ χ φ)) (s : MemoryStorage δ κ) :
    String × String → Option δ := txn.elim s.contents (·.over s)

/-- **What a statement loads is the table after its transaction's writes.** Here
`t` is any storage with those contents. -/
theorem loadTable_eq (txn : Option (Transaction δ κ χ φ)) (hf : db.faults = [])
    (hs : txn.any (·.catalogDirty) = false → CacheSound R k db)
    (ht : t.contents = sees txn db.storage) (q : QualifiedName) :
    ∃ cache, (loadTable R txn k q).exec db = (tableView R k t q, { db with tableCache := cache }) ∧
      (txn.any (·.catalogDirty) = false → CacheSound R k { db with tableCache := cache }) := by
  unfold loadTable tableView
  cases hq : R.collectionOf k q with
  | none => exact ⟨db.tableCache, rfl, hs⟩
  | some c =>
    have hcommitted : txn.any (·.catalogDirty) = false → db.storage.scan c = t.scan c →
        ∃ cache, (some <$> loadCommitted R k q c).exec db =
            ((R.build k q (t.scan c)).map some, { db with tableCache := cache }) ∧
          (txn.any (·.catalogDirty) = false →
            CacheSound R k { db with tableCache := cache }) := by
      intro hclean hscan
      obtain ⟨cache, hexec, hsound⟩ := loadCommitted_eq hf (hs hclean) hq
      refine ⟨cache, ?_, fun _ => hsound⟩
      rw [exec_map, hexec, hscan]
    cases txn with
    | none => exact hcommitted rfl (scan_eq_of_get fun r => (congrFun ht (c, r)).symm)
    | some txn =>
      have hmerged := merged_eq_scan ht c
      simp only [Option.any_some, Option.bind_some] at hcommitted hs ⊢
      have hrows : (txn.overlay[c]?).getD ∅ = txn.rows c := rfl
      by_cases htrunc : c ∈ txn.truncated
      · rw [if_pos htrunc] at hmerged
        refine ⟨db.tableCache, ?_, hs⟩
        simp [ExtTreeSet.contains_iff_mem.mpr htrunc, exec_map, hrows, hmerged]
      · have hno : txn.truncated.contains c = false :=
          Bool.eq_false_iff.mpr fun h => htrunc (ExtTreeSet.contains_iff_mem.mp h)
        rw [if_neg htrunc] at hmerged
        by_cases hclean : txn.overlay[c]? = none ∧ txn.catalogDirty = false
        · simp only [hno, hclean.1, hclean.2, Option.isNone_none, Bool.not_false,
            Bool.and_self, if_true] at hcommitted ⊢
          exact hcommitted trivial (scan_of_untouched ht htrunc hclean.1)
        · refine ⟨db.tableCache, ?_, hs⟩
          have hdirty : (!false && (txn.overlay[c]?).isNone && !txn.catalogDirty) = false := by
            cases hov : txn.overlay[c]? <;> simp_all
          simp only [hno, hdirty, Bool.false_eq_true, if_false, exec_bind,
            exec_read hf, exec_map, exec_ofExcept, hrows, hmerged]

end

end GuardianDb.Sql
