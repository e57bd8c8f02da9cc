/-
Change events (`apply_mutations`, `commit` and `push_change` of `sql/engine.rs`).

While a listener is attached, every row write reads the stored document before it and is
reported with the live images before and after it. The events are replayed on the live
rows, as a multiset of documents: each replaces its old image, which has to be there, by
its new one. `push_change` reports a write only if the image that is left has a text in
`__table`, which a column of that name may have overwritten, and it does not see the rows
that a dropped table takes along.

  * `pushMutations_ok`, `commitEvents_ok` — the events that the writes push on their way are
    those of the mutations one after another.
  * `change_events_describe` — the events of a commit or of an autocommit statement lead
    from the live rows before it to those after it, write by write, if and only if each
    write that changes a live row has such an image.
  * `rows_change_silently` — with a column `__table`, and with a dropped table.
-/
import GuardianDb.Lib.OrderedMap
import GuardianDb.Sql.Commit
import GuardianDb.Sql.RowRoundTrip
import Mathlib.Data.Multiset.AddSub

namespace GuardianDb.Sql.Changes

open Std Relational ExtTreeMap OrderedMap

/-! ### Events -/

/-- `as_str` of a field of an object. -/
def textField (doc : Json) (name : String) : Option String :=
  match doc with
  | .object fields => (fields.lookup name).bind jsonAsStr
  | _ => none

/-- `live` of `push_change`. -/
def liveDoc (doc : Option Json) : Option Json :=
  doc.filter fun doc =>
    match doc with
    | .object fields => (textField doc "_id").isSome && !isDeleted fields
    | _ => false

inductive ChangeOp where
  | insert
  | update
  | delete

structure ChangeEvent where
  schema : String
  table : String
  op : ChangeOp
  old : Option Json
  new : Option Json

/-- The operation of a write, and the image that names its table. -/
def changeSource (old new : Option Json) : Option (ChangeOp × Json) :=
  match liveDoc old, liveDoc new with
  | none, some n => some (.insert, n)
  | some _, some n => some (.update, n)
  | some o, none => some (.delete, o)
  | none, none => none

/-- `push_change`: the event of a write, if there is one. -/
def pushChange (old new : Option Json) : List ChangeEvent :=
  match changeSource old new with
  | none => []
  | some (op, source) =>
      match textField source "__table" with
      | none => []
      | some table => [⟨(textField source "__schema").getD "public", table, op, liveDoc old,
          liveDoc new⟩]

section
variable {κ : Type}

/-- The events of one mutation, on the storage that it meets. -/
def events (s : MemoryStorage Json κ) : Mutation Json → List ChangeEvent
  | .put c r doc => pushChange (s.get c r) (some doc)
  | .delete c r => pushChange (s.get c r) none
  | .truncate _ => []

/-- The events of mutations that are applied one after another. -/
def changes : MemoryStorage Json κ → List (Mutation Json) → List ChangeEvent
  | _, [] => []
  | s, m :: ms => events s m ++ changes (m.apply s) ms

def liveIn (rows : ExtTreeMap String Json) : List Json :=
  rows.toList.flatMap fun row => (liveDoc row.2).toList

def liveRows (s : MemoryStorage Json κ) : Multiset Json :=
  ↑(s.collections.toList.flatMap fun c => liveIn c.2)

/-! ### Replay -/

def image (doc : Option Json) : Multiset Json := ↑doc.toList

/-- Events that are replayed on live rows: each one takes its old image away, which is
among them, and adds its new one. -/
inductive Replays : Multiset Json → List ChangeEvent → Multiset Json → Prop
  | nil (rows : Multiset Json) : Replays rows [] rows
  | cons {rest rows : Multiset Json} {e : ChangeEvent} {es : List ChangeEvent}
      (h : Replays (image e.new + rest) es rows) : Replays (image e.old + rest) (e :: es) rows

/-- A write whose images are the same, or are reported. -/
def Reported (old new : Option Json) : Prop :=
  liveDoc old = liveDoc new ∨
    ∃ op source, changeSource old new = some (op, source) ∧ (textField source "__table").isSome

/-- A mutation that is reported in full; a truncation never is, so it has to find nothing. -/
def MutationReported (s : MemoryStorage Json κ) : Mutation Json → Prop
  | .put c r doc => Reported (s.get c r) (some doc)
  | .delete c r => Reported (s.get c r) none
  | .truncate c => ∀ r, liveDoc (s.get c r) = none

/-- Each of the mutations is reported, on the storage that it meets. -/
def AllReported : MemoryStorage Json κ → List (Mutation Json) → Prop
  | _, [] => True
  | s, m :: ms => MutationReported s m ∧ AllReported (m.apply s) ms

/-! ### What a write does to the live rows -/

/-- What the entries of a map give, taken apart at a key. -/
theorem flatMap_toList {α β : Type} (f : String × β → List α) (m : ExtTreeMap String β)
    (k : String) : (↑(m.toList.flatMap f) : Multiset α) =
      ↑(m[k]?.toList.flatMap fun v => f (k, v)) + ↑((m.erase k).toList.flatMap f) := by
  cases h : m[k]? with
  | none =>
    have hnone : k ∉ m := isSome_getElem?_iff_mem.not.mp (by simp [h])
    simp [erase_of_notMem hnone]
  | some v =>
    exact Multiset.coe_eq_coe.mpr (by simpa using (toList_perm_erase h).flatMap_right f)

variable (s : MemoryStorage Json κ) (c r : String)

def others : Multiset Json := ↑((s.collections.erase c).toList.flatMap fun c => liveIn c.2)

/-- The live rows of a collection and of the others. -/
theorem liveRows_at : liveRows s = ↑(liveIn (s.rows c)) + others s c := by
  have hempty : liveIn ∅ = [] := rfl
  rw [liveRows, flatMap_toList _ _ c, MemoryStorage.rows, others]
  cases s.collections[c]? <;> simp [hempty]

/-- The live rows of a collection, with the one under a row id. -/
theorem liveIn_at (rows : ExtTreeMap String Json) :
    (↑(liveIn rows) : Multiset Json) = image (liveDoc rows[r]?) + ↑(liveIn (rows.erase r)) := by
  rw [liveIn, flatMap_toList _ _ r, image]
  cases rows[r]? <;> simp [liveIn, liveDoc]

theorem others_put (doc : Json) : others (s.put c r doc) c = others s c := by
  simp only [others, MemoryStorage.put, MemoryStorage.bump, erase_insert]

theorem others_delete : others (s.delete c r) c = others s c := by
  cases h : s.collections[c]? <;>
    simp only [others, MemoryStorage.delete, MemoryStorage.bump, h, erase_insert]

theorem others_truncate : others (s.truncate c) c = others s c := by
  cases h : s.collections[c]? <;>
    simp only [others, MemoryStorage.truncate, MemoryStorage.bump, h, erase_insert]

/-- **A row write takes the old image away and adds the new one.** -/
theorem liveRows_write (doc : Option Json) :
    ∃ rest, liveRows s = image (liveDoc (s.get c r)) + rest ∧
      liveRows ((Mutation.ofEntry c r doc).apply s) = image (liveDoc doc) + rest := by
  refine ⟨↑(liveIn ((s.rows c).erase r)) + others s c, ?_, ?_⟩
  · rw [liveRows_at s c, liveIn_at r, Multiset.add_assoc]
    rfl
  · cases doc with
    | none =>
      simp only [Mutation.ofEntry, Mutation.apply]
      rw [liveRows_at _ c, MemoryStorage.rows_delete, if_pos rfl, others_delete]
      exact (Multiset.zero_add _).symm
    | some doc =>
      simp only [Mutation.ofEntry, Mutation.apply]
      rw [liveRows_at _ c, MemoryStorage.rows_put, if_pos rfl, others_put, liveIn_at r,
        getElem?_insert_self, erase_insert, Multiset.add_assoc]

/-- A truncation takes all live rows of its collection away. -/
theorem liveRows_truncate :
    liveRows s = ↑(liveIn (s.rows c)) + liveRows (s.truncate c) := by
  rw [liveRows_at s c, liveRows_at (s.truncate c) c, MemoryStorage.rows_truncate, if_pos rfl,
    others_truncate]
  exact congrArg _ (Multiset.zero_add _).symm

variable {s c r}

theorem liveIn_eq_nil_iff {rows : ExtTreeMap String Json} :
    liveIn rows = [] ↔ ∀ r : String, liveDoc rows[r]? = none := by
  simp only [liveIn, List.flatMap_eq_nil_iff, Prod.forall, Option.toList_eq_nil_iff,
    mem_toList_iff_getElem?_eq_some]
  refine ⟨fun h r => ?_, fun h r doc hdoc => ?_⟩
  · cases hdoc : rows[r]? with
    | none => rfl
    | some doc => exact h r doc hdoc
  · rw [← hdoc]
    exact h r

/-! ### Events and writes -/

namespace Replays

variable {rows rows' rows'' : Multiset Json} {e : ChangeEvent} {es es' : List ChangeEvent}

theorem nil_iff : Replays rows [] rows' ↔ rows = rows' := by
  refine ⟨fun h => ?_, fun h => h ▸ .nil _⟩
  cases h
  rfl

theorem cons_iff : Replays rows (e :: es) rows' ↔
    ∃ rest, rows = image e.old + rest ∧ Replays (image e.new + rest) es rows' := by
  refine ⟨fun h => ?_, fun ⟨rest, hrows, h⟩ => hrows ▸ .cons h⟩
  cases h with
  | cons h => exact ⟨_, rfl, h⟩

theorem append (h : Replays rows es rows') (h' : Replays rows' es' rows'') :
    Replays rows (es ++ es') rows'' := by
  induction h with
  | nil => exact h'
  | cons _ ih => exact .cons (ih h')

/-- The rows after the first events are determined. -/
theorem rest (h : Replays rows es rows') (h' : Replays rows (es ++ es') rows'') :
    Replays rows' es' rows'' := by
  induction h with
  | nil => exact h'
  | cons _ ih =>
    obtain ⟨rest, hrows, h'⟩ := cons_iff.mp h'
    rw [Multiset.add_right_inj.mp hrows] at ih
    exact ih h'

end Replays

/-- The event of a row write leads from the rows before it to those after it if and only
if the write is reported. -/
theorem replays_pushChange (old new : Option Json) (rest : Multiset Json) :
    Replays (image (liveDoc old) + rest) (pushChange old new) (image (liveDoc new) + rest) ↔
      Reported old new := by
  have hsame : image (liveDoc old) + rest = image (liveDoc new) + rest ↔
      liveDoc old = liveDoc new := by
    rw [Multiset.add_left_inj]
    cases liveDoc old <;> cases liveDoc new <;> simp [image]
  unfold pushChange Reported
  cases hsource : changeSource old new with
  | none => simp [Replays.nil_iff, hsame]
  | some p =>
    obtain ⟨op, source⟩ := p
    cases htable : textField source "__table" with
    | none => simp [Replays.nil_iff, hsame, htable]
    | some table =>
      refine ⟨fun _ => .inr ⟨op, source, rfl, by simp [htable]⟩, fun _ => ?_⟩
      simp only [htable]
      exact Replays.cons_iff.mpr ⟨rest, rfl, .nil _⟩

theorem replays_events (s : MemoryStorage Json κ) (m : Mutation Json) :
    Replays (liveRows s) (events s m) (liveRows (m.apply s)) ↔ MutationReported s m := by
  cases m with
  | put c r doc =>
    obtain ⟨rest, hs, ht⟩ := liveRows_write s c r (some doc)
    rw [hs, show liveRows ((Mutation.put c r doc).apply s) = _ from ht]
    exact replays_pushChange _ _ _
  | delete c r =>
    obtain ⟨rest, hs, ht⟩ := liveRows_write s c r none
    rw [hs, show liveRows ((Mutation.delete c r).apply s) = _ from ht]
    exact replays_pushChange _ _ _
  | truncate c =>
    rw [events, Replays.nil_iff, liveRows_truncate s c]
    change _ + liveRows (s.truncate c) = liveRows (s.truncate c) ↔
      ∀ r : String, liveDoc (s.rows c)[r]? = none
    rw [← liveIn_eq_nil_iff, ← Multiset.coe_eq_zero]
    refine ⟨fun h => Multiset.add_left_inj.mp (h.trans (Multiset.zero_add _).symm), fun h => ?_⟩
    rw [h, Multiset.zero_add]

/-- Mutations are described write by write if and only if each of them is reported. -/
theorem allReported_iff (s : MemoryStorage Json κ) (ms : List (Mutation Json)) :
    AllReported s ms ↔ ∀ n, Replays (liveRows s) (changes s (ms.take n))
      (liveRows (Mutation.applyAll (ms.take n) s)) := by
  induction ms generalizing s with
  | nil => simpa [AllReported, changes, Mutation.applyAll] using Replays.nil _
  | cons m ms ih =>
    have hstep := replays_events s m
    refine ⟨fun h n => ?_, fun h => ?_⟩
    · cases n with
      | zero => exact .nil _
      | succ n => exact (hstep.mpr h.1).append ((ih _).mp h.2 n)
    · have hone : Replays (liveRows s) (events s m) (liveRows (m.apply s)) := by
        simpa [changes, Mutation.applyAll] using h 1
      exact ⟨hstep.mp hone, (ih _).mpr fun n => hone.rest (h (n + 1))⟩

end

/-! ### Statements and transactions -/

section
variable {κ τ ε χ φ : Type} (R : Relations Json κ τ ε) (D : Deferred Json κ τ ε χ φ)
  (H : HashOrder) (sid : SessionId)

/-- The database before and after an autocommit statement or a transaction that commits,
and the mutations that it has written: those of the deferred triggers first, then the
truncations and the staged rows. -/
inductive Committed (db db' : Database Json κ τ ε) : List (Mutation Json) → Prop
  | autocommit {ms} (h : (applyMutations ms).exec db = (.ok (), db')) : Committed db db' ms
  | transaction {txn db₁ ms} (hprepare : (prepare R D txn).exec db = (.ok ms, db₁))
      (h : (commit R D H sid (some txn)).exec db = (.ok "COMMIT", db')) :
      Committed db db' (ms ++ flushMutations H txn)

variable {R D H sid} {db db' : Database Json κ τ ε} {ms : List (Mutation Json)}

theorem liveRows_congr {s t : MemoryStorage Json κ} (h : s.collections = t.collections) :
    liveRows s = liveRows t := by
  rw [liveRows, liveRows, h]

theorem Committed.live (h : Committed R D H sid db db' ms) :
    liveRows db'.storage = liveRows (Mutation.applyAll ms db.storage) := by
  cases h with
  | autocommit h => rw [ensures_forM_applyMutation _ _ _ _ _ h]
  | @transaction txn db₁ ms hprepare h =>
    obtain ⟨ms', db₁', db₂, db₃, hprepare', hfirst, hflush, rfl⟩ := commit_ok h
    cases hprepare.symm.trans hprepare'
    have hkept : db₁.storage = db.storage := by
      simpa [hprepare] using congrArg Prod.fst (keeps_prepare R D txn db)
    have htriggers := ensures_forM_applyMutation _ _ _ _ _ hfirst
    rw [exec_flush] at hflush
    obtain ⟨_, db₄, hrows, hcatalog⟩ := Fallible.bind_ok.mp hflush
    have hstaged := ensures_forM_applyMutation _ _ _ _ _ hrows
    have hsaved := exec_flushCatalog txn db₄
    split at hsaved
    · obtain ⟨db₅, hexec, -, hsaved⟩ := hsaved
      cases hexec.symm.trans hcatalog
      have hcollections : db₃.storage.collections = db₄.storage.collections := by
        rw [hsaved]
        split <;> rfl
      rw [show (db₃.release sid).storage = db₃.storage from rfl, liveRows_congr hcollections,
        hstaged, htriggers, hkept, Mutation.applyAll, Mutation.applyAll, Mutation.applyAll,
        List.foldl_append]
    · simp_all

/-- What listeners are told: nothing if there are none. -/
def emitted (db : Database Json κ τ ε) (ms : List (Mutation Json)) : List ChangeEvent :=
  if db.watch then changes db.storage ms else []

/-- One mutation of `apply_mutations` and the event that is pushed before it. -/
def pushMutation (watch : Bool) (m : Mutation Json) : Db Json κ τ ε (List ChangeEvent) := do
  let events ← match m with
    | .put c r doc => if watch then (pushChange · (some doc)) <$> read (·.get c r) else pure []
    | .delete c r => if watch then (pushChange · none) <$> read (·.get c r) else pure []
    | .truncate _ => pure []
  write m.apply
  return events

/-- The loop of `apply_mutations`, and that of `commit`, with the events they collect. -/
def pushMutations (watch : Bool) : List (Mutation Json) → Db Json κ τ ε (List ChangeEvent)
  | [] => return []
  | m :: ms => return (← pushMutation watch m) ++ (← pushMutations watch ms)

/-- `commit` with the events that it emits: those of the deferred triggers, then its own. -/
def commitEvents (R : Relations Json κ τ ε) (D : Deferred Json κ τ ε χ φ) (H : HashOrder)
    (sid : SessionId) (txn : Transaction Json κ χ φ) : Db Json κ τ ε (List ChangeEvent) := do
  let ms ← prepare R D txn
  let triggered ← pushMutations (← get).watch ms
  let staged ← pushMutations (← get).watch (flushMutations H txn)
  flushCatalog txn
  modify (·.release sid)
  return triggered ++ staged

theorem pushMutation_ok {watch : Bool} {m : Mutation Json}
    (h : (applyMutation watch m).exec db = (.ok (), db')) :
    (pushMutation watch m).exec db = (.ok (if watch then events db.storage m else []), db') := by
  obtain ⟨storage, faults, rest⟩ := db
  -- the read and the write each take one of the coming failures
  cases m <;> cases watch <;> rcases faults with _ | ⟨_ | e, _ | ⟨_ | e', faults⟩⟩ <;> cases h <;>
    rfl

theorem watch_forM {watch : Bool} (h : (ms.forM (applyMutation watch)).exec db = (.ok (), db')) :
    db'.watch = db.watch := by
  have hexec := exec_forM_applyMutation watch ms db
  cases hfail : failure db.faults (writeCalls watch ms) with
  | none | some => simp_all

/-- **The events come out of the writes.** -/
theorem pushMutations_ok {watch : Bool}
    (h : (ms.forM (applyMutation watch)).exec db = (.ok (), db')) :
    (pushMutations watch ms).exec db =
      (.ok (if watch then changes db.storage ms else []), db') := by
  induction ms generalizing db with
  | nil =>
    cases h
    cases watch <;> rfl
  | cons m ms ih =>
    obtain ⟨_, db₁, hone, hrest⟩ := Fallible.bind_ok.mp h
    have hnext : db₁.storage = m.apply db.storage :=
      ensures_forM_applyMutation watch [m] db () db₁ (Fallible.bind_ok.mpr ⟨_, _, hone, rfl⟩)
    have hrest := ih hrest
    rw [hnext] at hrest
    rw [pushMutations, Fallible.exec_bind, pushMutation_ok hone]
    dsimp only
    rw [Fallible.exec_bind, hrest]
    cases watch <;> rfl

theorem changes_append (s : MemoryStorage Json κ) (ms ms' : List (Mutation Json)) :
    changes s (ms ++ ms') = changes s ms ++ changes (Mutation.applyAll ms s) ms' := by
  induction ms generalizing s with
  | nil => rfl
  | cons m ms ih =>
    rw [List.cons_append, changes, ih, changes, List.append_assoc]
    rfl

/-- So do those of a commit. -/
theorem commitEvents_ok {txn : Transaction Json κ χ φ} {db₁ : Database Json κ τ ε}
    (hprepare : (prepare R D txn).exec db = (.ok ms, db₁))
    (h : (commit R D H sid (some txn)).exec db = (.ok "COMMIT", db')) :
    (commitEvents R D H sid txn).exec db =
      (.ok (emitted db (ms ++ flushMutations H txn)), db') := by
  obtain ⟨ms', db₁', db₂, db₃, hprepare', hfirst, hflush, rfl⟩ := commit_ok h
  cases hprepare.symm.trans hprepare'
  have hkept := keeps_prepare R D txn db
  rw [hprepare] at hkept
  have hwatch : db₁.watch = db.watch := congrArg (·.2.2.2.1) hkept
  have hstorage : db₁.storage = db.storage := congrArg Prod.fst hkept
  rw [exec_applyMutations] at hfirst
  rw [exec_flush] at hflush
  obtain ⟨_, db₄, hrows, hcatalog⟩ := Fallible.bind_ok.mp hflush
  have htriggers : db₂.storage = Mutation.applyAll ms db₁.storage :=
    ensures_forM_applyMutation _ _ _ _ _ hfirst
  have hwatch₂ := (watch_forM hfirst).trans hwatch
  have hfirst := pushMutations_ok hfirst
  have hrows := pushMutations_ok hrows
  simp only [commitEvents, Fallible.exec_bind, Fallible.exec_get, Fallible.exec_pure,
    Fallible.exec_modify, hprepare, hfirst, hrows, hcatalog]
  rw [hwatch₂, hwatch, htriggers, hstorage, emitted, changes_append]
  cases db.watch <;> rfl

/-- **The events describe the change** from the live rows before a commit to those after it,
write by write, if and only if every write that changes a live row is reported. -/
theorem change_events_describe (hwatch : db.watch = true) (h : Committed R D H sid db db' ms) :
    (AllReported db.storage ms →
      Replays (liveRows db.storage) (emitted db ms) (liveRows db'.storage)) ∧
    (AllReported db.storage ms ↔ ∀ n, Replays (liveRows db.storage)
      (emitted db (ms.take n)) (liveRows (Mutation.applyAll (ms.take n) db.storage))) := by
  have hiff := allReported_iff db.storage ms
  simp only [emitted, hwatch, if_true]
  refine ⟨fun hall => ?_, hiff⟩
  have hend := hiff.mp hall ms.length
  rwa [List.take_length, ← h.live] at hend

end

/-! ### Rows of one table -/

def listening (storage : MemoryStorage Json Unit) : Database Json Unit Unit String :=
  Database.new storage true true

def noRows : MemoryStorage Json Unit := ⟨∅, none, ∅⟩

/-- A row of a table with an integer column `__table`. -/
def markedRow : Json :=
  encodeRow plainCodec
    (tableOf 1 "public" "items" ⟨[⟨"__table", .integer, true, none, none⟩], [], [], [], [], []⟩) "1"
    (ExtTreeMap.ofList [("__table", SqlValue.int4 7)]) 1

/-- A row of a table with a column `b`. -/
def itemRow (rowId : String) (b : Int32) (version : Int) : Json :=
  encodeRow plainCodec plainItems rowId (ExtTreeMap.ofList [("b", SqlValue.int4 b)]) version

def plainRow : Json := encodeRow plainCodec plainItems "1" sevenRow 1

/-- An INSERT with a column `__table` and a DROP TABLE change the live rows without an
event. -/
theorem rows_change_silently :
    (∃ db', (applyMutations [.put "rows_1" "1" markedRow]).exec (listening noRows) = (.ok (), db') ∧
      emitted (listening noRows) [.put "rows_1" "1" markedRow] = [] ∧
      ¬ Replays (liveRows noRows) [] (liveRows db'.storage)) ∧
    (∃ db', (applyMutations [.truncate "rows_1"]).exec
        (listening (noRows.put "rows_1" "1" plainRow)) = (.ok (), db') ∧
      emitted (listening (noRows.put "rows_1" "1" plainRow)) [.truncate "rows_1"] = [] ∧
      ¬ Replays (liveRows (noRows.put "rows_1" "1" plainRow)) [] (liveRows db'.storage)) := by
  have hput : Multiset.card (liveRows (noRows.put "rows_1" "1" markedRow)) = 1 ∧
      Multiset.card (liveRows noRows) = 0 ∧
      (emitted (listening noRows) [.put "rows_1" "1" markedRow]).length = 0 := by decide +kernel
  have hdrop : Multiset.card (liveRows (noRows.put "rows_1" "1" plainRow)) = 1 ∧
      Multiset.card (liveRows ((noRows.put "rows_1" "1" plainRow).truncate "rows_1")) = 0 := by
    decide +kernel
  refine ⟨⟨_, rfl, List.length_eq_zero_iff.mp hput.2.2, fun h => ?_⟩,
    ⟨_, rfl, rfl, fun h => ?_⟩⟩
  · have hcard := congrArg Multiset.card (Replays.nil_iff.mp h)
    exact absurd (hcard.trans hput.1) (by decide)
  · have hcard := congrArg Multiset.card (Replays.nil_iff.mp h)
    exact absurd (hcard.trans hdrop.2) (by decide)

/-- No tables to check and no triggers to run. -/
def noTables : Relations Json Unit Unit String where
  newCatalog := ()
  collectionOf _ _ := none
  build _ _ _ := .ok ()
  tables _ := []
  collectionOf_inj := fun _ _ _ _ h => nomatch h

def noChecks : Deferred Json Unit Unit String Unit Unit :=
  ⟨fun _ _ => [], fun _ _ => .ok (), fun _ exec => .ok exec⟩

/-- An UPDATE of the row `1`, a DELETE of the row `2` and an INSERT of the row `3`. -/
def threeWrites : Transaction Json Unit Unit Unit :=
  ⟨(), false, (∅ : ExtTreeMap String _).insert "rows_1" (ExtTreeMap.ofList
    [("1", some (itemRow "1" 8 2)), ("2", none), ("3", some (itemRow "3" 9 1))]),
    ∅, false, [], []⟩

/-- The rows `1` and `2`. -/
def twoRows : MemoryStorage Json Unit :=
  (noRows.put "rows_1" "1" (itemRow "1" 7 1)).put "rows_1" "2" (itemRow "2" 7 1)

theorem reported_of_named {old new : Option Json} (h : (changeSource old new).any
    (fun p => (textField p.2 "__table").isSome) = true) : Reported old new := by
  obtain ⟨⟨op, source⟩, hsource, hnamed⟩ := (Option.any_eq_true _ _).mp h
  exact .inr ⟨op, source, hsource, hnamed⟩

/-- The events of rows that a transaction updates, deletes and inserts describe it. -/
theorem written_rows_described :
    Replays (liveRows (listening twoRows).storage)
      (emitted (listening twoRows) (flushMutations plainOrder threeWrites))
      (liveRows ((commit noTables noChecks plainOrder 1 (some threeWrites)).exec
        (listening twoRows)).2.storage) := by
  have hthree : flushMutations plainOrder threeWrites = [.put "rows_1" "1" (itemRow "1" 8 2),
    .delete "rows_1" "2", .put "rows_1" "3" (itemRow "3" 9 1)] := rfl
  have hall : AllReported (listening twoRows).storage (flushMutations plainOrder threeWrites) := by
    rw [hthree]
    exact ⟨reported_of_named (by decide +kernel), reported_of_named (by decide +kernel),
      reported_of_named (by decide +kernel), trivial⟩
  have hdone : ((commit noTables noChecks plainOrder 1 (some threeWrites)).exec
      (listening twoRows)).1.toOption = some "COMMIT" := by decide +kernel
  have hcommitted : Committed noTables noChecks plainOrder 1 (listening twoRows)
      ((commit noTables noChecks plainOrder 1 (some threeWrites)).exec (listening twoRows)).2
      ([] ++ flushMutations plainOrder threeWrites) :=
    .transaction rfl (Prod.ext (Fallible.except_toOption_eq_some.mp hdone) rfl)
  rw [List.nil_append] at hcommitted
  exact (change_events_describe rfl hcommitted).1 hall

end GuardianDb.Sql.Changes
