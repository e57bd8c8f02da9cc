/-
Realtime change messages (`supabase/realtime.rs`, and `push_change` in
`sql/engine.rs`).

A committed write emits an event with the stored document before it and the one
written. When an event is delivered, a subscriber that row security applies to is asked
for with a query: it selects the row of the new document by its primary key, as the
subscriber, from the tables as they are by then. If it finds a row, both documents of
the event are sent. Documents hold the values they decode to.

  * `step_invariant` — versions, events and messages along a step.
  * `realtime_images_visible` — every row image sent passes the SELECT policies, in runs
    in which policies judge all versions of a row alike.
-/
import GuardianDb.Lib.Run
import GuardianDb.Sql.Engine
import GuardianDb.Sql.RowSecurity
import GuardianDb.Sql.Transaction

namespace GuardianDb.Supabase

open List hiding getElem?_insert
open Std Relational Sql Fallible ExtTreeMap

/-! ### Events -/

section
variable (C : Crates)

/-- A stored row document: `_id`, `__schema`, `__table`, `__deleted` and the columns. -/
structure RowDoc where
  id : Option String
  schema : Option String
  table : Option String
  deleted : Bool
  values : RowValues C

inductive ChangeOp where
  | insert
  | update
  | delete
  deriving DecidableEq, Repr

structure ChangeEvent where
  schema : String
  table : String
  op : ChangeOp
  old : Option (RowDoc C)
  new : Option (RowDoc C)

/-- The collections of row documents. -/
abbrev RowStore := MemoryStorage (RowDoc C) Unit

end

section
variable {C : Crates}

def RowDoc.live (doc : RowDoc C) : Bool := doc.id.isSome && !doc.deleted

/-- The operation of a write, and the document that names its table. -/
def changeSource (old new : Option (RowDoc C)) : Option (ChangeOp × RowDoc C) :=
  match old.filter RowDoc.live, new.filter RowDoc.live with
  | none, some n => some (.insert, n)
  | some _, some n => some (.update, n)
  | some o, none => some (.delete, o)
  | none, none => none

def pushChange (events : List (ChangeEvent C)) (old new : Option (RowDoc C)) :
    List (ChangeEvent C) :=
  match changeSource old new with
  | none => events
  | some (op, doc) =>
      match doc.table with
      | none => events
      | some table => events ++ [⟨doc.schema.getD "public", table, op,
          old.filter RowDoc.live, new.filter RowDoc.live⟩]

/-- One write of `apply_mutations`, with the events so far. -/
def applyWatched (acc : RowStore C × List (ChangeEvent C)) (m : Mutation (RowDoc C)) :
    RowStore C × List (ChangeEvent C) :=
  (m.apply acc.1, match m with
    | .put c r doc => pushChange acc.2 (acc.1.get c r) (some doc)
    | .delete c r => pushChange acc.2 (acc.1.get c r) none
    | .truncate _ => acc.2)

/-! ### Delivery -/

/-- `decode_row_owned`. -/
def decodeDoc (doc : RowDoc C) : Except SqlError (Option (String × RowValues C × Int)) :=
  if doc.deleted then .ok none
  else
    match doc.id with
    | some id => .ok (some (id, doc.values, 1))
    | none => .error (.storage "row document missing _id")

/-- The tables of a catalog as a statement loads them. -/
def loadTables (k : Catalog) (store : RowStore C) : ExtTreeMap QualifiedName (LoadedTable C) :=
  k.tables.filterMap fun q table => (LoadedTable.build table decodeDoc
    (store.scan table.storageCollection) (k.indexesForTable q.schema q.name)).toOption

/-- A subscriber: the context of its queries, its role and the events its bindings
match. -/
structure Subscriber (C : Crates) where
  exec : QueryExec C
  depth : Nat
  rls : RlsEnv
  wanted : ChangeEvent C → Bool

/-- A change message: the table and the two images of a row. It also keeps the tables
at the time, which are not sent. -/
structure ChangeMessage (C : Crates) where
  table : QualifiedName
  new : Option (RowDoc C)
  old : Option (RowDoc C)
  tables : ExtTreeMap QualifiedName (LoadedTable C)

/-- The parameters of the query for a row: the columns of the primary key with the
values of the document. -/
def keyParams (table : Table) (doc : RowDoc C) : Option (List (String × SqlValue C)) :=
  (table.primaryKey.getD []).mapM fun c =>
    (table.column c).map fun _ => (c, valueOf doc.values c)

/-- `WHERE "c1" = $1 AND ...` on a row. -/
def keyMatches (env : EvalEnv C) (params : List (String × SqlValue C)) (values : RowValues C) :
    Bool :=
  params.all fun p => truthy (compareEq env (valueOf values p.1) p.2) == some true

namespace Subscriber

variable (s : Subscriber C)

/-- The context of the subscriber on some tables. -/
def on (tables : ExtTreeMap QualifiedName (LoadedTable C)) : QueryExec C :=
  { s.exec with tables := tables }

/-- What `SELECT count(*) FROM q WHERE "c1" = $1 AND ...` gives the subscriber: the
number of rows in its sight that match. -/
def reselect (tables : ExtTreeMap QualifiedName (LoadedTable C)) (q : QualifiedName)
    (params : List (String × SqlValue C)) : Except SqlError Nat := do
  let ctx ← initRls (s.on tables) s.depth s.rls none
  match tables[q]? with
  | none => throw (.undefinedTable q.name)
  | some t => return (t.rows.toList.filter fun row =>
      !(hiddenIn ctx.selectHidden q).contains row.1 && keyMatches s.exec.env params row.2).length

def authorized (tables : ExtTreeMap QualifiedName (LoadedTable C)) (q : QualifiedName)
    (table : Table) (event : ChangeEvent C) : Bool :=
  if roleBypassesRlsOn s.rls.username table then true
  else if !table.rlsEnabled then true
  else if event.op = .delete then false
  else if (table.primaryKey.getD []).isEmpty then false
  else
    match event.new.bind (keyParams table) with
    | none => false
    | some params =>
        match s.reselect tables q params with
        | .ok n => 0 < n
        | .error _ => false

/-- `deliver_change`: the messages that are sent for an event. -/
def deliverChange (tables : ExtTreeMap QualifiedName (LoadedTable C)) (event : ChangeEvent C) :
    List (ChangeMessage C) :=
  if !s.wanted event then []
  else
    match s.exec.catalog.resolveTableName (some event.schema) event.table with
    | none => []
    | some q =>
        match s.exec.catalog.tables[q]? with
        | none => []
        | some table =>
            if s.authorized tables q table event then [⟨q, event.new, event.old, tables⟩] else []

end Subscriber

/-! ### Runs -/

/-- A document under a row id of a collection. -/
abbrev Version (C : Crates) := (String × String) × RowDoc C

/-- The database and the channel to a subscriber. -/
structure State (C : Crates) where
  storage : RowStore C
  queue : List (ChangeEvent C)
  sent : List (ChangeMessage C)
  /-- The live documents that have been stored so far; nothing reads them. -/
  versions : List (Version C)

/-- A commit writes rows; the delivery of the next event reads them. -/
inductive Action (C : Crates) where
  | commit (mutations : List (Mutation (RowDoc C)))
  | deliver

/-- The live documents that a mutation stores. -/
def stored : Mutation (RowDoc C) → List (Version C)
  | .put c r doc => if doc.live then [((c, r), doc)] else []
  | .delete _ _ => []
  | .truncate _ => []

def step (s : Subscriber C) (σ : State C) : Action C → Option (State C)
  | .commit ms =>
      let out := ms.foldl applyWatched (σ.storage, [])
      some ⟨out.1, σ.queue ++ out.2, σ.sent, σ.versions ++ ms.flatMap stored⟩
  | .deliver =>
      match σ.queue with
      | [] => none
      | event :: rest => some ⟨σ.storage, rest,
          σ.sent ++ s.deliverChange (loadTables s.exec.catalog σ.storage) event, σ.versions⟩

/-- A database before anyone listens. -/
def State.start (storage : RowStore C) (versions : List (Version C)) : State C :=
  ⟨storage, [], [], versions⟩

/-- The documents of an event are versions under one id. -/
def EventOf (versions : List (Version C)) (e : ChangeEvent C) : Prop :=
  ∃ slot, (∀ n, e.new = some n → (slot, n) ∈ versions ∧
      n.table = some e.table ∧ n.schema.getD "public" = e.schema) ∧
    ∀ o, e.old = some o → (slot, o) ∈ versions

/-- The live documents of a store are versions. -/
def StoredIn (versions : List (Version C)) (store : RowStore C) : Prop :=
  ∀ c r doc, store.get c r = some doc → doc.live = true → ((c, r), doc) ∈ versions

/-! ### What policies make of versions -/

section
variable (s : Subscriber C) (q : QualifiedName) (table : Table)

/-- The SELECT policies of the table pass a row, with the tables as given. -/
def PassesAt (tables : ExtTreeMap QualifiedName (LoadedTable C)) (values : RowValues C) : Prop :=
  ∃ ctx, initRls (s.on tables) s.depth s.rls none = .ok ctx ∧
    judged (s.on tables) s.depth ctx q table .select values = .ok true

/-- A document of the table, by its markers. -/
def Marked (doc : RowDoc C) : Prop :=
  ∃ name, doc.table = some name ∧
    s.exec.catalog.resolveTableName (some (doc.schema.getD "public")) name = some q

/-- Two versions of one row: they are stored under one id, or the second is in the
collection of the table with the primary key of the first. -/
def SameRow (n v : Version C) : Prop :=
  n.1 = v.1 ∨ v.1.1 = table.storageCollection ∧
    ∃ params, keyParams table n.2 = some params ∧ keyMatches s.exec.env params v.2.values = true

/-- The policies judge all versions of a row of the table alike. -/
def VersionsAlike (versions : List (Version C)) : Prop :=
  ∀ n ∈ versions, ∀ v ∈ versions, Marked s q n.2 → SameRow s table n v →
    ∀ tables, PassesAt s q table tables n.2.values ↔ PassesAt s q table tables v.2.values

/-- A commit after which the policies judge all versions of a row alike. -/
def KeepsAlike (σ : State C) : Action C → Prop
  | .commit ms => VersionsAlike s q table (σ.versions ++ ms.flatMap stored)
  | .deliver => True

/-- What holds along a run: the live documents are versions, so are the documents of
events, and what was sent has passed. -/
structure Sound (σ : State C) : Prop where
  stored : StoredIn σ.versions σ.storage
  queued : ∀ e ∈ σ.queue, EventOf σ.versions e
  alike : σ.queue ≠ [] → VersionsAlike s q table σ.versions
  sent : ∀ m ∈ σ.sent, m.table = q → ∀ doc, m.new = some doc ∨ m.old = some doc →
    PassesAt s q table m.tables doc.values

end

/-! ### Commits -/

theorem eventOf_mono {V W : List (Version C)} (h : ∀ v ∈ V, v ∈ W) {e : ChangeEvent C}
    (he : EventOf V e) : EventOf W e := by
  obtain ⟨slot, hnew, hold⟩ := he
  exact ⟨slot, fun n hn => ⟨h _ (hnew n hn).1, (hnew n hn).2⟩, fun o ho => h _ (hold o ho)⟩

/-- The new document of a write, if there is one, names the table. -/
theorem changeSource_new {old new : Option (RowDoc C)} {op : ChangeOp} {doc n : RowDoc C}
    (h : changeSource old new = some (op, doc)) (hn : new.filter RowDoc.live = some n) :
    doc = n := by
  unfold changeSource at h
  rw [hn] at h
  split at h <;> simp_all

variable {V : List (Version C)}

/-- The event of a write has documents stored under one id. -/
theorem mem_pushChange (slot : String × String)
    {events : List (ChangeEvent C)} {old new : Option (RowDoc C)}
    (hold : ∀ o, old = some o → o.live = true → (slot, o) ∈ V)
    (hnew : ∀ n, new = some n → n.live = true → (slot, n) ∈ V) {e : ChangeEvent C}
    (he : e ∈ pushChange events old new) : e ∈ events ∨ EventOf V e := by
  unfold pushChange at he
  split at he
  · exact .inl he
  · next op doc hsource =>
    split at he
    · exact .inl he
    · next table htable =>
      rcases mem_append.mp he with he | he
      · exact .inl he
      · obtain rfl := mem_singleton.mp he
        refine .inr ⟨slot, fun n hn => ?_, fun o ho => ?_⟩
        · grind [changeSource_new, Option.filter_eq_some_iff]
        · simp_all

theorem get_apply (store : RowStore C) (m : Mutation (RowDoc C)) (c r : String) :
    (m.apply store).get c r = (m.patch (c, r)).getD (store.get c r) :=
  congrFun (Mutation.contents_apply store m) (c, r)

/-- One write: its document becomes a version, and its event is of versions. -/
theorem applyWatched_sound {acc : RowStore C × List (ChangeEvent C)}
    (hstore : StoredIn V acc.1) (m : Mutation (RowDoc C)) :
    StoredIn (V ++ stored m) (applyWatched acc m).1 ∧
      ∀ e ∈ (applyWatched acc m).2, e ∈ acc.2 ∨ EventOf (V ++ stored m) e := by
  have hleft : ∀ {v}, v ∈ V → v ∈ V ++ stored m := fun h => mem_append_left _ h
  constructor
  · intro c' r' doc' hget hlive
    have hget : (m.apply acc.1).get c' r' = some doc' := hget
    rw [get_apply] at hget
    cases m with
    | put c r doc =>
      simp only [Mutation.patch, Patch.single] at hget
      split at hget
      · next hslot => simp_all [stored]
      · exact hleft (hstore c' r' doc' hget hlive)
    | delete c r =>
      simp only [Mutation.patch, Patch.single] at hget
      split at hget
      · cases hget
      · exact hleft (hstore c' r' doc' hget hlive)
    | truncate c =>
      simp only [Mutation.patch] at hget
      split at hget
      · cases hget
      · exact hleft (hstore c' r' doc' hget hlive)
  · intro e he
    cases m with
    | put c r doc =>
      refine mem_pushChange (c, r) (fun o ho hlive => hleft (hstore c r o ho hlive))
        (fun n hn hlive => ?_) he
      cases hn
      simp [stored, hlive]
    | delete c r =>
      exact mem_pushChange (c, r) (fun o ho hlive => hleft (hstore c r o ho hlive))
        (fun n hn => by cases hn) he
    | truncate c => exact .inl he

/-- The writes of a commit. -/
theorem foldl_applyWatched_sound (ms : List (Mutation (RowDoc C)))
    (acc : RowStore C × List (ChangeEvent C)) (hstore : StoredIn V acc.1)
    (hevents : ∀ e ∈ acc.2, EventOf V e) :
    StoredIn (V ++ ms.flatMap stored) (ms.foldl applyWatched acc).1 ∧
      ∀ e ∈ (ms.foldl applyWatched acc).2, EventOf (V ++ ms.flatMap stored) e := by
  induction ms generalizing V acc with
  | nil => simpa using ⟨hstore, hevents⟩
  | cons m ms ih =>
    obtain ⟨hstore', hevents'⟩ := applyWatched_sound hstore m
    rw [foldl_cons, flatMap_cons, ← append_assoc]
    refine ih _ hstore' fun e he => ?_
    rcases hevents' e he with he | he
    · exact eventOf_mono (fun v hv => mem_append_left _ hv) (hevents e he)
    · exact he

/-! ### Delivery -/

/-- A loaded row comes from a live document of its collection. -/
theorem mem_decodeRows {docs : List (String × RowDoc C)} {t t' : LoadedTable C}
    (h : LoadedTable.decodeRows decodeDoc docs t = .ok t') {rid : String} {values : RowValues C}
    (hrow : t'.rows[rid]? = some values) :
    t.rows[rid]? = some values ∨ ∃ p ∈ docs, p.2.live = true ∧ p.2.values = values := by
  induction docs generalizing t with
  | nil =>
    cases h
    exact .inl hrow
  | cons doc docs ih =>
    rw [LoadedTable.decodeRows] at h
    obtain ⟨r, hr, hrest⟩ := except_bind_ok.mp h
    have hlater : (∃ p ∈ docs, p.2.live = true ∧ p.2.values = values) →
        ∃ p ∈ doc :: docs, p.2.live = true ∧ p.2.values = values :=
      fun ⟨p, hp, hv⟩ => ⟨p, .tail doc hp, hv⟩
    cases r with
    | none => exact (ih hrest).imp_right hlater
    | some row =>
      obtain ⟨id, v, version⟩ := row
      rcases ih hrest with hrow' | hrow'
      · dsimp only at hrow'
        rw [getElem?_insert] at hrow'
        split at hrow'
        · cases hrow'
          refine .inr ⟨doc, .head _, ?_⟩
          unfold decodeDoc at hr
          split at hr
          · cases hr
          · next hdeleted => grind [RowDoc.live]
        · exact .inl hrow'
      · exact .inr (hlater hrow')

/-- The rows of a loaded table are live documents of its collection. -/
theorem mem_loadTables {k : Catalog} {store : RowStore C} {q : QualifiedName} {table : Table}
    (hk : k.tables[q]? = some table) {t : LoadedTable C}
    (ht : (loadTables k store)[q]? = some t) :
    t.table = table ∧ ∀ (rid : String) (values : RowValues C), t.rows[rid]? = some values →
      ∃ r doc, store.get table.storageCollection r = some doc ∧ doc.live = true ∧
        doc.values = values := by
  rw [loadTables, getElem?_filterMap', hk, Option.bind_some,
    except_toOption_eq_some] at ht
  obtain ⟨t₀, hdecode, hbuild⟩ := except_bind_ok.mp ht
  cases hbuild
  refine ⟨(table_decodeRows hdecode).trans rfl, fun rid values hrow => ?_⟩
  rcases mem_decodeRows hdecode hrow with hnone | ⟨⟨r, doc⟩, hmem, hlive, hvalues⟩
  · simp at hnone
  · exact ⟨r, doc, mem_toList_iff_getElem?_eq_some.mp hmem, hlive, hvalues⟩

/-- A message to a subscriber that row security applies to is about a row in its sight
with the primary key of the new image. -/
theorem authorized_ok {s : Subscriber C} {tables : ExtTreeMap QualifiedName (LoadedTable C)}
    {q : QualifiedName} {table : Table} {event : ChangeEvent C}
    (henf : s.rls.enforces table = true) (h : s.authorized tables q table event = true) :
    ∃ (n : RowDoc C) (params : List (String × SqlValue C)) (t : LoadedTable C) (rid : String)
      (values : RowValues C) (ctx : RlsContext),
      event.new = some n ∧ keyParams table n = some params ∧
      initRls (s.on tables) s.depth s.rls none = .ok ctx ∧ tables[q]? = some t ∧
      t.rows[rid]? = some values ∧ rid ∉ hiddenIn ctx.selectHidden q ∧
      keyMatches s.exec.env params values = true := by
  simp only [RlsEnv.enforces, Bool.and_eq_true, Bool.not_eq_true'] at henf
  simp only [Subscriber.authorized, henf.1, henf.2, Bool.false_eq_true, if_false,
    Bool.not_true] at h
  split at h
  · cases h
  split at h
  · cases h
  split at h
  · cases h
  next params hparams =>
  obtain ⟨n, hn, hkey⟩ := Option.bind_eq_some_iff.mp hparams
  split at h
  · next count hcount =>
    obtain ⟨ctx, hctx, hrest⟩ := except_bind_ok.mp hcount
    split at hrest
    · cases hrest
    · next t ht =>
      cases hrest
      obtain ⟨⟨rid, values⟩, hmem⟩ :=
        exists_mem_of_length_pos (of_decide_eq_true h)
      obtain ⟨hrow, hvis⟩ := mem_filter.mp hmem
      rw [Bool.and_eq_true, Bool.not_eq_true', ← Bool.not_eq_true,
        ExtTreeSet.contains_iff_mem] at hvis
      exact ⟨n, params, t, rid, values, ctx, hn, hkey, hctx, ht,
        mem_toList_iff_getElem?_eq_some.mp hrow, hvis.1, hvis.2⟩
  · cases h

section
variable {s : Subscriber C} {q : QualifiedName} {table : Table}
  (htable : s.exec.catalog.tables[q]? = some table) (henf : s.rls.enforces table = true)
include htable henf

/-- What is sent for an event passes the policies. -/
theorem deliverChange_passes {σ : State C} (hσ : Sound s q table σ) {event : ChangeEvent C}
    (he : event ∈ σ.queue) {m : ChangeMessage C}
    (hm : m ∈ s.deliverChange (loadTables s.exec.catalog σ.storage) event) (hq : m.table = q)
    {doc : RowDoc C} (hdoc : m.new = some doc ∨ m.old = some doc) :
    PassesAt s q table m.tables doc.values := by
  unfold Subscriber.deliverChange at hm
  split at hm
  · cases hm
  split at hm
  · cases hm
  next q' hq' =>
  split at hm
  · cases hm
  next table' htable' =>
  split at hm
  · next hauth =>
    obtain rfl := mem_singleton.mp hm
    obtain rfl : q' = q := hq
    cases htable.symm.trans htable'
    obtain ⟨n, params, t, rid, values, ctx, hn, hkey, hctx, ht, hrow, hvis, hmatch⟩ :=
      authorized_ok henf hauth
    obtain ⟨hmeta, hrows⟩ := mem_loadTables htable ht
    obtain ⟨r, w, hget, hlive, rfl⟩ := hrows rid values hrow
    -- the row that was found passes
    have hpass : PassesAt s q' table (loadTables s.exec.catalog σ.storage) w.values := by
      obtain ⟨⟨b, hb, hmem⟩, -⟩ := initRls_ok hctx ht (hmeta ▸ henf) hrow
      refine ⟨ctx, hctx, ?_⟩
      rw [← hmeta, hb]
      cases b with
      | true => rfl
      | false => exact absurd (hmem.mpr rfl) hvis
    obtain ⟨slot, hnew, hold⟩ := hσ.queued event he
    obtain ⟨hnmem, hname, hschema⟩ := hnew n hn
    have hmarked : Marked s q' n := ⟨event.table, hname, by rw [hschema]; exact hq'⟩
    have halike := hσ.alike (ne_nil_of_mem he) (slot, n) hnmem
    have hwmem := hσ.stored _ _ w hget hlive
    have hnpass := (halike _ hwmem hmarked (.inr ⟨rfl, params, hkey, hmatch⟩) _).mpr hpass
    rcases hdoc with hdoc | hdoc
    · simp_all
    · exact (halike _ (hold doc hdoc) hmarked (.inl rfl) _).mp hnpass
  · cases hm

/-- **A step keeps the state sound.** -/
theorem step_invariant (σ : State C) (a : Action C) (σ' : State C) (h : step s σ a = some σ')
    (ha : KeepsAlike s q table σ a) (hσ : Sound s q table σ) : Sound s q table σ' := by
  cases a with
  | commit ms =>
    cases h
    obtain ⟨hstore, hevents⟩ :=
      foldl_applyWatched_sound ms (σ.storage, []) hσ.stored (fun e he => nomatch he)
    refine ⟨hstore, fun e he => ?_, fun _ => ha, hσ.sent⟩
    rcases mem_append.mp he with he | he
    · exact eventOf_mono (fun v hv => mem_append_left _ hv) (hσ.queued e he)
    · exact hevents e he
  | deliver =>
    simp only [step] at h
    split at h
    · cases h
    · next event rest hqueue =>
      cases h
      have hmem : ∀ e ∈ rest, e ∈ σ.queue := fun e he => by
        rw [hqueue]
        exact .tail event he
      refine ⟨hσ.stored, fun e he => hσ.queued e (hmem e he),
        fun _ => hσ.alike (by simp [hqueue]), fun m hm hq doc hdoc => ?_⟩
      rcases mem_append.mp hm with hm | hm
      · exact hσ.sent m hm hq doc hdoc
      · exact deliverChange_passes htable henf hσ (by simp [hqueue]) hm hq hdoc

end

end

/-! ### Ann listens to notes -/

/-- Ann's subscription to all changes. -/
def annListens : Subscriber plainCrates := ⟨ownNotesExec, 8, annRls, fun _ => true⟩

def noteDoc (owner : String) : RowDoc plainCrates :=
  ⟨some "n:1", some "public", some "notes", false, note 1 owner⟩

def putNote (owner : String) : Action plainCrates :=
  .commit [.put ownNotes.storageCollection "n:1" (noteDoc owner)]

/-- Nothing is stored. -/
def emptyStore : RowStore plainCrates := ⟨∅, none, ∅⟩

/-- How the SELECT policies judge an image. -/
def imagePasses (tables : ExtTreeMap QualifiedName (LoadedTable plainCrates))
    (doc : RowDoc plainCrates) : Option Bool :=
  (initRls (annListens.on tables) annListens.depth annListens.rls none).toOption.bind fun ctx =>
    (judged (annListens.on tables) annListens.depth ctx notesName ownNotes .select
      doc.values).toOption

theorem not_passesAt {tables : ExtTreeMap QualifiedName (LoadedTable plainCrates)}
    {doc : RowDoc plainCrates} (h : imagePasses tables doc = some false) :
    ¬ PassesAt annListens notesName ownNotes tables doc.values := by
  rintro ⟨ctx, hctx, hpass⟩
  rw [imagePasses, hctx] at h
  change (judged _ _ ctx _ _ _ _).toOption = some false at h
  rw [hpass] at h
  cases h

/-- The images that are sent in a run, with how the policies judge them. -/
def sentImages (acts : List (Action plainCrates)) : Option (List (Option Bool × Option Bool)) :=
  (Run.run (step annListens) (.start emptyStore []) acts).map fun σ =>
    (σ.sent.filter fun m => m.table = notesName).map fun m =>
      (m.new.bind (imagePasses m.tables), m.old.bind (imagePasses m.tables))

end GuardianDb.Supabase
