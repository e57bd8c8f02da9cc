/-
`SELECT ... FOR UPDATE / FOR SHARE [NOWAIT | SKIP LOCKED]` (`prepare_for_update`).

Before the query runs, a pass over the table locks the rows that WHERE selects.
SKIP LOCKED leaves the rows it locked in a filter, which the full scan applies.
The index scan and the ANN scan do not, so they hand out rows that another
session has locked.

  * `LooksUp.bucket` — an index scan takes the rows under the key of the value that an
    equality of WHERE is compared with.
  * `skip_locked_iff` — when every row returned is locked by the session: if WHERE has no
    such equality, or no row under the key is locked by another session.
  * `index_scan_returns_locked` — one that is not.
-/
import GuardianDb.Lib.Fallible
import GuardianDb.Sql.Scan

namespace GuardianDb.Sql

open Std Relational Fallible ExtTreeMap List

section
variable {C : Crates}

structure LockClause where
  /-- `FOR UPDATE`, otherwise `FOR SHARE`. -/
  update : Bool
  policy : WaitPolicy

def LockClause.mode (c : LockClause) : LockMode := if c.update then .forUpdate else .forShare

/-- A statement on the state of an execution. -/
abbrev SelectM (C : Crates) := Fallible (SelectExec C) SqlError

def tryLock (object : LockObject) (mode : LockMode) (scope : LockScope) : SelectM C Bool := do
  let x ← get
  let (granted, locks) := x.locks.tryAcquire x.sessionId object mode scope
  set { x with locks := locks }
  return granted

def recordPending (object : LockObject) (mode : LockMode) (scope : LockScope) : SelectM C Unit :=
  modify fun x => { x with pendingLocks := x.pendingLocks ++ [(object, mode, scope)] }

/-- WHERE on one row of the preparation pass. -/
def matchesRow (x : SelectExec C) (sel : Select C) (table : Table) (values : RowValues C) :
    Except SqlError Bool :=
  match sel.selection with
  | none => .ok true
  | some e => do
      let v ← e.eval x.env x.forUpdateFilter
        [⟨tableSchema table sel.relation.aliasName, rowTuple table values⟩]
      return decide (truthy v = some true)

/-- A selected row: whether it may be returned. -/
def lockRow (clause : LockClause) (q : QualifiedName) (oid : Nat) (rid : String) :
    SelectM C Bool :=
  let object := LockObject.row oid rid
  match clause.policy with
  | .wait => do
      recordPending object clause.mode .transaction
      return true
  | .noWait => do
      if ← tryLock object clause.mode .transaction then return true
      else throw (.lockNotAvailable ("row in relation \"" ++ q.name ++ "\""))
  | .skipLocked => tryLock object clause.mode .transaction

/-- The loop of `prepare_for_update`: the row ids that may be returned. -/
def lockRows (sel : Select C) (clause : LockClause) (q : QualifiedName) (table : Table) :
    List (String × RowValues C) → SelectM C (List String)
  | [] => return []
  | row :: rows => do
      if ← Fallible.ofExcept (matchesRow (← get) sel table row.2) then
        if ← lockRow clause q table.oid row.1 then
          return row.1 :: (← lockRows sel clause q table rows)
        else lockRows sel clause q table rows
      else lockRows sel clause q table rows

/-- The rows that the preparation pass goes through. -/
def preparedRows (x : SelectExec C) (q : QualifiedName) : List (String × RowValues C) :=
  match x.tables[q]? with
  | some t => t.rows.toList.filter fun row => x.visible q row.1
  | none => []

/-- The table that a lock clause is about. -/
def lockTable (x : SelectExec C) (r : TableRef) : Except SqlError (QualifiedName × Table) :=
  match x.catalog.resolveTableName r.schema r.name with
  | none => .error (.undefinedTable r.name)
  | some q =>
      match x.catalog.tables[q]? with
      | none => .error (.undefinedTable (q.schema ++ "." ++ q.name))
      | some table => .ok (q, table)

/-- `prepare_for_update` for a single-table SELECT. -/
def prepareForUpdate (sel : Select C) : Option LockClause → SelectM C Unit
  | none => pure ()
  | some clause => do
      let x ← get
      let (q, table) ← Fallible.ofExcept (lockTable x sel.relation)
      let allow ← lockRows sel clause q table (preparedRows x q)
      if clause.policy = .skipLocked then
        modify fun x => { x with forUpdateFilter := some (q, ExtTreeSet.ofList allow) }

/-- ORDER BY, DISTINCT, OFFSET and LIMIT: rows are put in order and dropped. -/
structure Arrangement (C : Crates) where
  arrange : List (Option String × Tuple C) → List (Option String × Tuple C)
  mem_of_mem : ∀ l r, r ∈ arrange l → r ∈ l

/-- A SELECT statement with a lock clause, up to its projection. -/
def execSelectQuery (sel : Select C) (clause : Option LockClause) (arr : Arrangement C) :
    SelectM C (SelectExec.ScanKind × List (Option String × Tuple C)) := do
  prepareForUpdate sel clause
  let x ← get
  let out ← Fallible.ofExcept (x.filteredRows sel [])
  return (out.1, arr.arrange out.2)

/-! ### What the preparation pass locks -/

def Locked (locks : Inner) (sid : SessionId) (oid : Nat) (mode : LockMode) (rid : String) : Prop :=
  ∃ h ∈ locks.holders (.row oid rid), h.holder = sid ∧ h.mode = mode

/-- The execution after the session got a row lock. -/
def withLock (x : SelectExec C) (oid : Nat) (mode : LockMode) (rid : String) : SelectExec C :=
  { x with locks := x.locks.grant (.row oid rid) mode x.sessionId .transaction }

variable {clause : LockClause}

/-- One round of the loop under SKIP LOCKED. -/
theorem exec_lockRows_cons (sel : Select C) (hskip : clause.policy = .skipLocked)
    (q : QualifiedName) (table : Table) (row : String × RowValues C)
    (rows : List (String × RowValues C)) (x : SelectExec C) :
    (lockRows sel clause q table (row :: rows)).exec x =
      match matchesRow x sel table row.2 with
      | .error e => (.error e, x)
      | .ok false => (lockRows sel clause q table rows).exec x
      | .ok true =>
        if x.locks.grantable (.row table.oid row.1) clause.mode x.sessionId then
          ((row.1 :: ·) <$> lockRows sel clause q table rows).exec
            (withLock x table.oid clause.mode row.1)
        else (lockRows sel clause q table rows).exec x := by
  have hlock : (lockRow clause q table.oid row.1 : SelectM C Bool).exec x =
      if x.locks.grantable (.row table.oid row.1) clause.mode x.sessionId then
        (.ok true, withLock x table.oid clause.mode row.1)
      else (.ok false, x) := by
    have htry : (tryLock (.row table.oid row.1) clause.mode .transaction : SelectM C Bool).exec x =
        (.ok (x.locks.tryAcquire x.sessionId (.row table.oid row.1) clause.mode .transaction).1,
          { x with locks :=
            (x.locks.tryAcquire x.sessionId (.row table.oid row.1) clause.mode .transaction).2 }) :=
      rfl
    unfold lockRow
    rw [hskip]
    refine htry.trans ?_
    unfold Inner.tryAcquire
    split <;> rfl
  simp only [lockRows, exec_bind, exec_get, exec_ofExcept]
  cases matchesRow x sel table row.2 with
  | error e => rfl
  | ok b =>
    cases b with
    | false => rfl
    | true =>
      simp only [if_true, exec_bind, hlock]
      by_cases hg : x.locks.grantable (.row table.oid row.1) clause.mode x.sessionId
      · simp [hg, exec_map]
      · simp [hg]

/-- What the loop leaves under SKIP LOCKED, for rows with distinct ids: only the
lock table changes, by one lock for every row that may be returned; and these are
the selected rows on which nobody held a conflicting lock. -/
structure PreparedFrom (sel : Select C) (clause : LockClause) (table : Table)
    (rows : List (String × RowValues C)) (x : SelectExec C) (allow : List String)
    (x' : SelectExec C) : Prop where
  frame : x' = { x with locks := x'.locks }
  mem_holders : ∀ o h, h ∈ x'.locks.holders o ↔ h ∈ x.locks.holders o ∨
    ∃ rid ∈ allow, o = .row table.oid rid ∧ h = ⟨x.sessionId, clause.mode, .transaction⟩
  mem_allow : ∀ rid, rid ∈ allow ↔ ∃ values, (rid, values) ∈ rows ∧
    matchesRow x sel table values = .ok true ∧
    x.locks.grantable (.row table.oid rid) clause.mode x.sessionId = true
  compatible : x.locks.Compatible → x'.locks.Compatible

variable {sel : Select C} {q : QualifiedName} {table : Table} {x : SelectExec C} {x' : SelectExec C}

/-- A round that locks its row, given what the rest of the loop does. -/
theorem lockRows_granted {row : String × RowValues C} {rows : List (String × RowValues C)}
    {allow : List String} (ih : ∀ allow', (lockRows sel clause q table rows).exec
        (withLock x table.oid clause.mode row.1) = (.ok allow', x') →
      PreparedFrom sel clause table rows (withLock x table.oid clause.mode row.1) allow' x')
    (hother : ∀ rid values, (rid, values) ∈ rows → rid ≠ row.1)
    (hmatch : matchesRow x sel table row.2 = .ok true)
    (hg : x.locks.grantable (.row table.oid row.1) clause.mode x.sessionId = true)
    (h : ((row.1 :: ·) <$> lockRows sel clause q table rows).exec
      (withLock x table.oid clause.mode row.1) = (.ok allow, x')) :
    PreparedFrom sel clause table (row :: rows) x allow x' := by
  rw [exec_map] at h
  rcases hrest : (lockRows sel clause q table rows).exec
    (withLock x table.oid clause.mode row.1) with ⟨e | allow', x''⟩
  · rw [hrest] at h
    cases h
  rw [hrest] at h
  obtain ⟨hallow, rfl⟩ := Prod.mk.inj h
  cases hallow
  have ih := ih allow' hrest
  have hgrant : ∀ o l, l ∈ (withLock x table.oid clause.mode row.1).locks.holders o ↔
      l ∈ x.locks.holders o ∨
        (o = .row table.oid row.1 ∧ l = ⟨x.sessionId, clause.mode, .transaction⟩) :=
    fun o l => Inner.mem_holders_grant
  refine ⟨ih.frame, fun o l => ?_, fun rid => ?_, fun hc => ih.compatible (hc.grant _ hg)⟩
  · rw [ih.mem_holders, hgrant]
    simp only [mem_cons, exists_eq_or_imp, or_assoc]
    rfl
  · rw [mem_cons, ih.mem_allow]
    -- the lock on this row does not touch those on the others
    have hsame : ∀ rid, rid ≠ row.1 →
        ((withLock x table.oid clause.mode row.1).locks.grantable (.row table.oid rid) clause.mode
            x.sessionId = true ↔
          x.locks.grantable (.row table.oid rid) clause.mode x.sessionId = true) := by
      intro rid hne
      have hheld : ∀ l, _ ↔ l ∈ x.locks.holders (.row table.oid rid) :=
        fun l => (hgrant _ l).trans (or_iff_left fun ⟨ho, _⟩ => hne (LockObject.row.inj ho).2)
      simp only [Inner.grantable_iff, hheld]
    constructor
    · rintro (rfl | ⟨values, hmem, hsel, hgr⟩)
      · exact ⟨row.2, .head _, hmatch, hg⟩
      · exact ⟨values, .tail _ hmem, hsel, (hsame rid (hother rid values hmem)).mp hgr⟩
    · rintro ⟨values, hmem, hsel, hgr⟩
      rcases mem_cons.mp hmem with heq | hmem
      · exact .inl (congrArg Prod.fst heq)
      · exact .inr ⟨values, hmem, hsel, (hsame rid (hother rid values hmem)).mpr hgr⟩

/-- **The loop, by induction over its rows.** -/
theorem lockRows_prepared (sel : Select C) (hskip : clause.policy = .skipLocked) (q : QualifiedName)
    (table : Table) :
    ∀ (rows : List (String × RowValues C)), (rows.map Prod.fst).Nodup →
      ∀ x allow x', (lockRows sel clause q table rows).exec x = (.ok allow, x') →
        PreparedFrom sel clause table rows x allow x'
  | [], _, x, allow, x', h => by
      obtain ⟨hallow, rfl⟩ := Prod.mk.inj h
      cases hallow
      exact ⟨rfl, by simp, by simp, id⟩
  | row :: rows, hnodup, x, allow, x', h => by
      obtain ⟨hfresh, hnodup⟩ := nodup_cons.mp hnodup
      rw [exec_lockRows_cons sel hskip] at h
      have hother : ∀ rid values, (rid, values) ∈ rows → rid ≠ row.1 := by grind
      -- a round that locks nothing passes the rest through
      have hskipped : (lockRows sel clause q table rows).exec x = (.ok allow, x') →
          ¬ (matchesRow x sel table row.2 = .ok true ∧
            x.locks.grantable (.row table.oid row.1) clause.mode x.sessionId = true) →
          PreparedFrom sel clause table (row :: rows) x allow x' := by
        intro hrest hnot
        have ih := lockRows_prepared sel hskip q table rows hnodup x allow x' hrest
        refine ⟨ih.frame, ih.mem_holders, fun rid => ?_, ih.compatible⟩
        rw [ih.mem_allow]
        constructor
        · grind
        · grind
      cases hmatch : matchesRow x sel table row.2 with
      | error e =>
        rw [hmatch] at h
        cases h
      | ok b =>
        rw [hmatch] at h
        cases b with
        | false => exact hskipped h (by simp [hmatch])
        | true =>
          by_cases hg : x.locks.grantable (.row table.oid row.1) clause.mode x.sessionId = true
          · rw [if_pos hg] at h
            exact lockRows_granted (fun allow' => lockRows_prepared sel hskip q table rows
              hnodup (withLock x table.oid clause.mode row.1) allow' x') hother hmatch hg h
          · simp_all

/-! ### What WHERE keeps -/

namespace SelectExec

variable (x : SelectExec C)

def whereValue (e : Expr C) (outer : List (Frame C)) (schema : RowSchema)
    (row : Option String × Tuple C) : Except SqlError (SqlValue C) :=
  e.eval x.env x.forUpdateFilter (outer ++ [⟨schema, row.2⟩])

def passes (e : Expr C) (outer : List (Frame C)) (schema : RowSchema)
    (row : Option String × Tuple C) : Bool :=
  match x.whereValue e outer schema row with
  | .ok v => truthy v == some true
  | .error _ => false

/-- WHERE cannot be evaluated. -/
def fails (e : Expr C) (outer : List (Frame C)) (schema : RowSchema)
    (row : Option String × Tuple C) : Bool :=
  match x.whereValue e outer schema row with
  | .ok _ => false
  | .error _ => true

/-- **`apply_where`** keeps the rows that pass, unless WHERE fails on a row. -/
theorem applyWhere_eq (e : Expr C) (outer : List (Frame C)) (schema : RowSchema)
    (rows : List (Option String × Tuple C)) :
    (rows.any (x.fails e outer schema) = false ∧
      x.applyWhere (some e) outer schema rows = .ok (rows.filter (x.passes e outer schema))) ∨
    (rows.any (x.fails e outer schema) = true ∧
      ∃ err, x.applyWhere (some e) outer schema rows = .error err) := by
  induction rows with
  | nil => exact .inl ⟨rfl, rfl⟩
  | cons row rows ih =>
    rw [applyWhere, any_cons, filter_cons]
    cases heval : x.whereValue e outer schema row with
    | error err =>
      have heval' : e.eval x.env x.forUpdateFilter (outer ++ [⟨schema, row.2⟩]) = .error err :=
        heval
      refine .inr ⟨by simp [fails, heval], err, ?_⟩
      rw [heval']
      rfl
    | ok v =>
      have heval' : e.eval x.env x.forUpdateFilter (outer ++ [⟨schema, row.2⟩]) = .ok v := heval
      have hfails : x.fails e outer schema row = false := by simp [fails, heval]
      have hpasses : x.passes e outer schema row = (truthy v == some true) := by
        simp [passes, heval]
      rw [heval', hfails, hpasses, Bool.false_or]
      rcases ih with ⟨hnone, hrest⟩ | ⟨hsome, err, hrest⟩
      · refine .inl ⟨hnone, ?_⟩
        simp [bind, Except.bind, hrest, pure, Except.pure]
      · exact .inr ⟨hsome, err, by simp [bind, Except.bind, hrest]⟩

variable {x}

/-- The rows that WHERE keeps. -/
theorem mem_applyWhere {selection : Option (Expr C)} {outer : List (Frame C)} {schema : RowSchema}
    {rows out : List (Option String × Tuple C)}
    (h : x.applyWhere selection outer schema rows = .ok out) (r : Option String × Tuple C) :
    r ∈ out ↔ r ∈ rows ∧ ∀ e, selection = some e → x.passes e outer schema r = true := by
  cases selection with
  | none =>
    have hall : x.applyWhere none outer schema rows = .ok rows := by cases rows <;> rfl
    cases hall.symm.trans h
    simp
  | some e =>
    rcases x.applyWhere_eq e outer schema rows with ⟨-, hrows⟩ | ⟨-, err, hrows⟩
    · cases hrows.symm.trans h
      simp
    · cases hrows.symm.trans h

/-! ### What an index scan looks up -/

/-- The equality that an index scan takes from WHERE: its column, the value it is compared
with in the scope around the table, and that value as one of the column's type. -/
structure LooksUp (x : SelectExec C) (t : LoadedTable C) (e : Expr C) (outer : List (Frame C))
    (column : String) (value : Expr C) (v coerced : SqlValue C) : Prop where
  found : findIndexedEquality t e = some (column, value)
  evaluated : value.eval x.env x.forUpdateFilter outer = .ok v
  cast : ∃ c, t.table.column column = some c ∧
    Relational.cast x.env.castOther v c.ty = .ok coerced

/-- The row has the key of the value. -/
def UnderKey (column : String) (coerced : SqlValue C) (values : RowValues C) : Prop :=
  coerced.isNull = false ∧ orderedKey [valueOf values column] = orderedKey [coerced]

variable {t : LoadedTable C} {e value : Expr C} {outer : List (Frame C)} {column : String}
  {v coerced : SqlValue C}

theorem exists_looksUp {ids : List String} (h : x.indexedIds t e outer = some ids) :
    ∃ column value v coerced, x.LooksUp t e outer column value v coerced := by
  unfold indexedIds at h
  simp only [Option.bind_eq_bind, Option.bind_eq_some_iff] at h
  obtain ⟨⟨column, value⟩, hfind, v, hv, c, hc, coerced, hcast, -⟩ := h
  exact ⟨column, value, v, coerced, hfind, except_toOption_eq_some.mp hv, c, hc,
    except_toOption_eq_some.mp hcast⟩

theorem tryIndexScan_eq {sel : Select C} {q : QualifiedName}
    (hbase : x.baseTable sel.relation = some (q, t)) (hsel : sel.selection = some e) :
    x.tryIndexScan sel outer = (x.indexedIds t e outer).map fun ids =>
      ⟨tableSchema t.table sel.relation.aliasName, tupleRows t (ids.filter (x.visible q))⟩ := by
  rw [tryIndexScan, hbase, hsel]
  change (x.indexedIds t e outer).bind _ = _
  cases x.indexedIds t e outer <;> rfl

/-- The column of an indexed equality has an index of its own. -/
theorem isSingleIndexed_of_find (h : findIndexedEquality t e = some (column, value)) :
    isSingleIndexed t column = true := by
  have hside : ∀ {a b : Expr C}, indexedSide t a b = some (column, value) →
      isSingleIndexed t column = true := by
    intro a b hab
    grind [indexedSide]
  fun_induction findIndexedEquality t e with
  | case1 left right ihl ihr => exact (Option.or_eq_some_iff.mp h).elim ihl fun hr => ihr hr.2
  | case2 left right => exact (Option.or_eq_some_iff.mp h).elim hside fun hr => hside hr.2
  | case3 e ih => exact ih h
  | case4 e => cases h

/-- **The bucket of a lookup**: the rows under the key, each once. -/
theorem LooksUp.bucket (h : x.LooksUp t e outer column value v coerced) (ht : t.Indexed) :
    ∃ ids, x.indexedIds t e outer = some ids ∧ ids.Nodup ∧
      ∀ rid, rid ∈ ids ↔ ∃ values, t.rows[rid]? = some values ∧ UnderKey column coerced values := by
  obtain ⟨c, hc, hcast⟩ := h.cast
  obtain ⟨idx, hidx, hcolumns⟩ := any_eq_true.mp (isSingleIndexed_of_find h.found)
  obtain ⟨idx, hfirst⟩ : ∃ idx, t.indexes.find? (fun idx => idx.index.columns == [column]) =
      some idx := Option.isSome_iff_exists.mp (find?_isSome.mpr ⟨idx, hidx, hcolumns⟩)
  have hcolumns : idx.index.columns = [column] := by simpa using List.find?_some hfirst
  refine ⟨if coerced.isNull then [] else (idx.data.get (orderedKey [coerced])).toList, ?_, ?_, ?_⟩
  · simp [indexedIds, h.found, h.evaluated, hc, hcast, LoadedTable.indexLookupEq, hfirst,
      Except.toOption]
  · split
    · exact nodup_nil
    · refine ExtTreeSet.distinct_toList.imp ?_
      simp_all
  · intro rid
    unfold UnderKey
    cases coerced.isNull with
    | true => simp
    | false =>
      simp only [Bool.false_eq_true, if_false, ExtTreeSet.mem_toList, true_and]
      rw [ht idx (mem_of_find?_eq_some hfirst)]
      simp [LoadedIndex.keyOf, indexValues, hcolumns]

end SelectExec

/-! ### What a full scan returns -/

/-- A relation that is the table of its name: no WITH item and no system relation. -/
structure NamesTable (x : SelectExec C) (r : TableRef) : Prop where
  cte : r.schema = none → x.cte.contains r.name = false
  system : ¬ (r.name = "pg_locks" ∧ (r.schema = some "pg_catalog" ∨ r.schema = none))

theorem execTableFactor_of_namesTable {r : TableRef} {t : LoadedTable C} (h : NamesTable x r)
    (hbase : x.baseTable r = some (q, t)) :
    x.execTableFactor r = .ok (.full, relabel r (x.loadedToRowset r q t)) := by
  have hcte : (if r.schema.isNone then x.cte[r.name]? else none) = none := by
    split
    · exact getElem?_eq_none_of_contains_eq_false (h.cte (Option.isNone_iff_eq_none.mp ‹_›))
    · rfl
  rw [SelectExec.execTableFactor, hcte, if_neg h.system, hbase]

/-- Under a SKIP LOCKED filter on the table, its full scan gives rows of the filter. -/
theorem mem_loadedToRowset {r : TableRef} {t : LoadedTable C} {ids : ExtTreeSet String}
    (hfilter : x.forUpdateFilter = some (q, ids)) {row : Option String × Tuple C}
    (h : row ∈ (x.loadedToRowset r q t).rows) : ∃ rid ∈ ids, row.1 = some rid := by
  simp only [SelectExec.loadedToRowset, tupleRows, hfilter, if_true, mem_filterMap, mem_filter,
    Option.map_eq_some_iff] at h
  obtain ⟨rid, ⟨⟨-, hid⟩, -⟩, values, -, rfl⟩ := h
  exact ⟨rid, ExtTreeSet.contains_iff_mem.mp hid, rfl⟩

/-! ### SKIP LOCKED -/

/-- The session has the row lock already, or the row is visible and selected by
WHERE, and nobody holds a conflicting lock on it. -/
def Lockable (x : SelectExec C) (sel : Select C) (q : QualifiedName) (table : Table)
    (mode : LockMode) (rid : String) : Prop :=
  Locked x.locks x.sessionId table.oid mode rid ∨
    ∃ values, (rid, values) ∈ preparedRows x q ∧ matchesRow x sel table values = .ok true ∧
      x.locks.grantable (.row table.oid rid) mode x.sessionId = true

theorem nodup_preparedRows (x : SelectExec C) (q : QualifiedName) :
    ((preparedRows x q).map Prod.fst).Nodup := by
  unfold preparedRows
  split
  · rename_i t _
    have hsub : ((t.rows.toList.filter fun row => x.visible q row.1).map Prod.fst).Sublist
        (t.rows.toList.map Prod.fst) := filter_sublist.map Prod.fst
    refine hsub.nodup ?_
    rw [map_fst_toList_eq_keys]
    exact nodup_keys
  · exact nodup_nil

/-- The parts of a query under SKIP LOCKED. -/
theorem execSelectQuery_skipLocked (hskip : clause.policy = .skipLocked) {arr : Arrangement C}
    {kind : SelectExec.ScanKind} {rows : List (Option String × Tuple C)}
    (htable : lockTable x sel.relation = .ok (q, table))
    (hrun : (execSelectQuery sel (some clause) arr).exec x = (.ok (kind, rows), x')) :
    ∃ allow x₁ filtered, PreparedFrom sel clause table (preparedRows x q) x allow x₁ ∧
      x' = { x₁ with forUpdateFilter := some (q, ExtTreeSet.ofList allow) } ∧
      x'.filteredRows sel [] = .ok (kind, filtered) ∧ rows = arr.arrange filtered := by
  obtain ⟨_, x₂, hprep, hquery⟩ := bind_ok.mp hrun
  obtain ⟨_, _, hget, hprep⟩ := bind_ok.mp hprep
  cases hget
  obtain ⟨_, _, hresolve, hprep⟩ := bind_ok.mp hprep
  rw [htable] at hresolve
  cases hresolve
  obtain ⟨allow, x₁, hlock, hprep⟩ := bind_ok.mp hprep
  rw [if_pos hskip] at hprep
  cases hprep
  obtain ⟨_, _, hget, hquery⟩ := bind_ok.mp hquery
  cases hget
  obtain ⟨out, _, hrows, hret⟩ := bind_ok.mp hquery
  obtain ⟨hfiltered, rfl⟩ := Prod.mk.inj hrows
  cases hret
  exact ⟨allow, x₁, out.2, lockRows_prepared sel hskip q table _ (nodup_preparedRows x q) x allow
    x₁ hlock, rfl, hfiltered, rfl⟩

theorem lockTable_resolves {r : TableRef} (h : lockTable x r = .ok (q, table)) :
    x.catalog.resolveTableName r.schema r.name = some q := by
  unfold lockTable at h
  split at h
  · cases h
  · grind

/-- **A row is locked afterwards exactly if it was lockable.** -/
theorem locked_iff_lockable {x₁ : SelectExec C} {allow : List String}
    (h : PreparedFrom sel clause table (preparedRows x q) x allow x₁) (rid : String) :
    Locked x₁.locks x.sessionId table.oid clause.mode rid ↔
      Lockable x sel q table clause.mode rid := by
  unfold Lockable
  rw [← h.mem_allow rid]
  constructor
  · rintro ⟨l, hl, hsid, hmode⟩
    rcases (h.mem_holders _ _).mp hl with hold | ⟨rid', hrid', ho, -⟩
    · exact .inl ⟨l, hold, hsid, hmode⟩
    · exact .inr ((LockObject.row.inj ho).2 ▸ hrid')
  · rintro (⟨l, hold, hsid, hmode⟩ | hallow)
    · exact ⟨l, (h.mem_holders _ _).mpr (.inl hold), hsid, hmode⟩
    · exact ⟨_, (h.mem_holders _ _).mpr (.inr ⟨rid, hallow, rfl, rfl⟩), rfl, rfl⟩

/-- The expression does not see the SKIP LOCKED filter: it has no subquery. -/
def Expr.Blind : Expr C → Prop
  | .nested e => e.Blind
  | .and left right => left.Blind ∧ right.Blind
  | .eq left right => left.Blind ∧ right.Blind
  | .other f => ∀ filter filter', f filter = f filter'
  | _ => True

theorem Expr.Blind.eval_eq {e : Expr C} (h : e.Blind) (env : EvalEnv C)
    (filter filter' : ScanFilter) (frames : List (Frame C)) :
    e.eval env filter frames = e.eval env filter' frames := by
  induction e with
  | ident | compound => rfl
  | nested e ih => exact ih h
  | and left right ihl ihr | eq left right ihl ihr => simp only [eval, ihl h.1, ihr h.2]
  | other f => exact congrFun (h filter filter') frames

theorem Expr.Blind.of_find {t : LoadedTable C} {e value : Expr C} {column : String} (h : e.Blind)
    (hfind : SelectExec.findIndexedEquality t e = some (column, value)) : value.Blind := by
  have hside : ∀ {a b : Expr C}, SelectExec.indexedSide t a b = some (column, value) →
      value = b := by
    intro a b hab
    grind [SelectExec.indexedSide]
  fun_induction SelectExec.findIndexedEquality t e with
  | case1 left right ihl ihr =>
    exact (Option.or_eq_some_iff.mp hfind).elim (ihl h.1) fun hr => ihr h.2 hr.2
  | case2 left right =>
    exact (Option.or_eq_some_iff.mp hfind).elim (fun hl => hside hl ▸ h.2)
      fun hr => hside hr.2 ▸ h.1
  | case3 e ih => exact ih h hfind
  | case4 e => cases hfind

/-- A visible row that WHERE selects, under the key of an indexed equality of WHERE. -/
structure KeyRow (x : SelectExec C) (sel : Select C) (q : QualifiedName) (t : LoadedTable C)
    (rid : String) (values : RowValues C) : Prop where
  row : t.rows[rid]? = some values
  visible : x.visible q rid = true
  selected : matchesRow x sel t.table values = .ok true
  key : ∃ e column value v coerced, sel.selection = some e ∧
    x.LooksUp t e [] column value v coerced ∧ SelectExec.UnderKey column coerced values

/-- No other session has a conflicting lock on such a row. -/
def KeyFree (x : SelectExec C) (sel : Select C) (q : QualifiedName) (t : LoadedTable C)
    (mode : LockMode) : Prop :=
  ∀ rid values, KeyRow x sel q t rid values →
    Locked x.locks x.sessionId t.table.oid mode rid ∨
      x.locks.grantable (.row t.table.oid rid) mode x.sessionId = true

section
variable {t : LoadedTable C} {mode : LockMode} {e : Expr C}

/-- The context in which the query runs after the preparation pass. -/
def prepared (x : SelectExec C) (locks : Inner) (filter : ScanFilter) : SelectExec C :=
  { x with locks := locks, forUpdateFilter := filter }

variable {locks : Inner} {filter : ScanFilter}

theorem baseTable_prepared (hbase : x.baseTable sel.relation = some (q, t)) :
    (prepared x locks filter).baseTable sel.relation = some (q, t) := hbase

/-- The rows that the query starts from: those of the index, or those of the table. -/
theorem chooseScan_prepared (hann : x.annPlan sel [] = none) (h : NamesTable x sel.relation)
    (hbase : x.baseTable sel.relation = some (q, t)) :
    (prepared x locks filter).chooseScan sel [] =
      match (prepared x locks filter).tryIndexScan sel [] with
      | some rs => .ok (.index, rs)
      | none => .ok (.full,
          relabel sel.relation ((prepared x locks filter).loadedToRowset sel.relation q t)) := by
  have hann' : (prepared x locks filter).annPlan sel [] = none := hann
  have hnames : NamesTable (prepared x locks filter) sel.relation := ⟨h.cte, h.system⟩
  rw [SelectExec.chooseScan, SelectExec.tryAnnScan, hann',
    execTableFactor_of_namesTable hnames (baseTable_prepared hbase)]
  cases (prepared x locks filter).tryIndexScan sel [] <;> rfl

theorem looksUp_prepared (hblind : e.Blind) {column : String} {value : Expr C}
    {v coerced : SqlValue C} : (prepared x locks filter).LooksUp t e [] column value v coerced ↔
      x.LooksUp t e [] column value v coerced := by
  constructor
  · rintro ⟨hfound, hv, hcast⟩
    exact ⟨hfound, ((hblind.of_find hfound).eval_eq _ _ _ _).trans hv, hcast⟩
  · rintro ⟨hfound, hv, hcast⟩
    exact ⟨hfound, ((hblind.of_find hfound).eval_eq _ _ _ _).trans hv, hcast⟩

theorem passes_prepared (hsel : sel.selection = some e) (hblind : e.Blind) (rid : Option String)
    (values : RowValues C) :
    (prepared x locks filter).passes e [] (tableSchema t.table sel.relation.aliasName)
      (rid, rowTuple t.table values) = true ↔ matchesRow x sel t.table values = .ok true := by
  unfold SelectExec.passes SelectExec.whereValue matchesRow
  rw [hsel, hblind.eval_eq _ _ x.forUpdateFilter]
  simp only [prepared, nil_append]
  cases e.eval x.env x.forUpdateFilter _ with
  | error err => simp [bind, Except.bind]
  | ok v => simp [bind, Except.bind, pure, Except.pure]

/-- Without an indexed equality there is no index scan. -/
theorem tryIndexScan_prepared_none (hbase : x.baseTable sel.relation = some (q, t))
    (hnone : ∀ e, sel.selection = some e → SelectExec.findIndexedEquality t e = none) :
    (prepared x locks filter).tryIndexScan sel [] = none := by
  cases hsel : sel.selection with
  | none => grind [SelectExec.tryIndexScan, Option.bind_eq_none_iff]
  | some e =>
    rw [SelectExec.tryIndexScan_eq (baseTable_prepared hbase) hsel, SelectExec.indexedIds,
      hnone e hsel]
    rfl

/-- Where no index scan is taken, no row is under a key. -/
theorem not_keyRow_of_none (ht : t.Indexed) (hbase : x.baseTable sel.relation = some (q, t))
    (hblind : ∀ e, sel.selection = some e → e.Blind)
    (hindex : (prepared x locks filter).tryIndexScan sel [] = none) {rid : String}
    {values : RowValues C} : ¬ KeyRow x sel q t rid values := by
  intro hrow
  obtain ⟨e, column, value, v, coerced, hsel, hlook, -⟩ := hrow.key
  obtain ⟨ids, hids, -⟩ := ((looksUp_prepared (hblind e hsel)).mpr hlook).bucket ht
  rw [SelectExec.tryIndexScan_eq (baseTable_prepared hbase) hsel, hids] at hindex
  cases hindex

/-- The rows of an index scan, for a WHERE that does not see the filter. -/
theorem mem_indexRows (ht : t.Indexed) (hsel : sel.selection = some e) (hblind : e.Blind)
    (hbase : x.baseTable sel.relation = some (q, t)) {rs : Candidates C}
    {out : List (Option String × Tuple C)}
    (hscan : (prepared x locks filter).tryIndexScan sel [] = some rs)
    (hwhere : (prepared x locks filter).applyWhere sel.selection [] rs.schema rs.rows = .ok out)
    (r : Option String × Tuple C) : r ∈ out ↔ ∃ rid values,
      r = (some rid, rowTuple t.table values) ∧ KeyRow x sel q t rid values := by
  rw [SelectExec.tryIndexScan_eq (baseTable_prepared hbase) hsel] at hscan
  obtain ⟨ids, hids, rfl⟩ := Option.map_eq_some_iff.mp hscan
  have hbucket : ∀ {column value v coerced}, x.LooksUp t e [] column value v coerced →
      ∀ rid, rid ∈ ids ↔ ∃ values, t.rows[rid]? = some values ∧
        SelectExec.UnderKey column coerced values := by
    intro column value v coerced hlook
    obtain ⟨ids', hids', -, hmem⟩ :=
      ((looksUp_prepared hblind).mpr hlook : (prepared x locks filter).LooksUp ..).bucket ht
    cases hids.symm.trans hids'
    exact hmem
  simp only [SelectExec.mem_applyWhere hwhere, tupleRows, List.mem_filterMap, List.mem_filter,
    Option.map_eq_some_iff]
  constructor
  · rintro ⟨⟨rid, ⟨hid, hvis⟩, values, hrow, rfl⟩, hpass⟩
    obtain ⟨column, value, v, coerced, hlook⟩ := SelectExec.exists_looksUp hids
    have hlook := (looksUp_prepared hblind).mp hlook
    obtain ⟨values', hrow', hkey⟩ := (hbucket hlook rid).mp hid
    cases hrow.symm.trans hrow'
    exact ⟨rid, values, rfl, hrow, hvis, (passes_prepared hsel hblind _ _).mp (hpass e hsel), e,
      column, value, v, coerced, hsel, hlook, hkey⟩
  · rintro ⟨rid, values, rfl, hrow, hvis, hmatch, e', column, value, v, coerced, he', hlook, hkey⟩
    cases hsel.symm.trans he'
    refine ⟨⟨rid, ⟨(hbucket hlook rid).mpr ⟨values, hrow, hkey⟩, hvis⟩, values, hrow, rfl⟩, ?_⟩
    intro e' he'
    cases hsel.symm.trans he'
    exact (passes_prepared hsel hblind _ _).mpr hmatch

end

/-- **When SKIP LOCKED hands out only rows it locked.** For a query that reads the table
itself and takes no ANN scan: if WHERE has no indexed equality; and for a WHERE without
subqueries, if no other session has a conflicting lock on a row under the key, which is also
necessary unless rows are dropped afterwards. No other session holds a conflicting lock on a
row that the session has locked. -/
theorem skip_locked_iff (x x' : SelectExec C) (sel : Select C) (update : Bool)
    (arr : Arrangement C) (kind : SelectExec.ScanKind) (rows : List (Option String × Tuple C))
    (q : QualifiedName) (t : LoadedTable C) (htable : lockTable x sel.relation = .ok (q, t.table))
    (ht : x.tables[q]? = some t) (hindexed : t.Indexed) (hann : x.annPlan sel [] = none)
    (hnames : NamesTable x sel.relation)
    (hrun : (execSelectQuery sel (some ⟨update, .skipLocked⟩) arr).exec x =
      (.ok (kind, rows), x')) :
    let mode := LockClause.mode ⟨update, .skipLocked⟩
    let allLocked := ∀ r ∈ rows, ∃ rid, r.1 = some rid ∧
      Locked x'.locks x.sessionId t.table.oid mode rid
    ((∀ e, sel.selection = some e → SelectExec.findIndexedEquality t e = none) → allLocked) ∧
    ((∀ e, sel.selection = some e → e.Blind) → (KeyFree x sel q t mode → allLocked) ∧
      ((∀ l, ∀ r ∈ l, r ∈ arr.arrange l) → allLocked → KeyFree x sel q t mode)) ∧
    (x.locks.Compatible → ∀ rid, Locked x'.locks x.sessionId t.table.oid mode rid →
      ∀ h ∈ x'.locks.holders (.row t.table.oid rid), h.holder ≠ x.sessionId →
        mode.conflicts h.mode = false) := by
  intro mode allLocked
  obtain ⟨allow, x₁, filtered, hprep, rfl, hfiltered, rfl⟩ :=
    execSelectQuery_skipLocked rfl htable hrun
  have hlocked : ∀ rid, Locked x₁.locks x.sessionId t.table.oid mode rid ↔
      Lockable x sel q t.table mode rid := locked_iff_lockable hprep
  have hq := lockTable_resolves htable
  have hbase : x.baseTable sel.relation = some (q, t) := by
    simp [SelectExec.baseTable, hq, ht]
  have hx' : { x₁ with forUpdateFilter := some (q, ExtTreeSet.ofList allow) } =
      prepared x x₁.locks (some (q, ExtTreeSet.ofList allow)) := by
    rw [hprep.frame]
    rfl
  rw [hx'] at hfiltered
  obtain ⟨⟨kind, rs⟩, hscan, h⟩ := except_bind_ok.mp hfiltered
  obtain ⟨kept, hwhere, h⟩ := except_bind_ok.mp h
  cases h
  rw [chooseScan_prepared hann hnames hbase] at hscan
  -- a full scan returns rows of the filter
  have hfull : (prepared x x₁.locks (some (q, ExtTreeSet.ofList allow))).tryIndexScan sel [] =
      none → allLocked := by
    intro hindex r hr
    rw [hindex] at hscan
    cases hscan
    have hmem := ((SelectExec.mem_applyWhere hwhere r).mp (arr.mem_of_mem _ r hr)).1
    obtain ⟨rid, hrid, hsource⟩ := mem_loadedToRowset (r := sel.relation) rfl hmem
    exact ⟨rid, hsource, (hlocked rid).mpr (.inr ((hprep.mem_allow rid).mp (by simpa using hrid)))⟩
  refine ⟨fun hnone => hfull ?_, fun hblind => ?_, ?_⟩
  · exact tryIndexScan_prepared_none hbase hnone
  · cases hindex : (prepared x x₁.locks (some (q, ExtTreeSet.ofList allow))).tryIndexScan sel []
      with
    | none =>
      exact ⟨fun _ => hfull hindex, fun _ _ rid values hrow =>
        (not_keyRow_of_none hindexed hbase hblind hindex hrow).elim⟩
    | some rs' =>
      rw [hindex] at hscan
      cases hscan
      cases hsel : sel.selection with
      | none => grind [SelectExec.tryIndexScan, Option.bind_eq_none_iff]
      | some e =>
        have hrows := mem_indexRows hindexed hsel (hblind e hsel) hbase hindex hwhere
        refine ⟨fun hfree r hr => ?_, fun hkeeps hall rid values hrow => ?_⟩
        · obtain ⟨rid, values, rfl, hrow⟩ := (hrows r).mp (arr.mem_of_mem _ r hr)
          refine ⟨rid, rfl, (hlocked rid).mpr ?_⟩
          refine (hfree rid values hrow).imp id fun hgrant => ⟨values, ?_, hrow.selected, hgrant⟩
          simp [preparedRows, ht, hrow.visible, mem_toList_iff_getElem?_eq_some, hrow.row]
        · obtain ⟨rid', hrid', hheld⟩ :=
            hall _ (hkeeps _ _ ((hrows _).mpr ⟨rid, values, rfl, hrow⟩))
          cases hrid'
          exact ((hlocked rid).mp hheld).imp id fun ⟨_, _, _, hgrant⟩ => hgrant
  · rintro hcompat rid ⟨l, hl, hsid, hmode⟩ h hh hne
    rw [← hmode]
    exact hprep.compatible hcompat _ l hl h hh (by rw [hsid]; exact hne.symm)

end

/-! ### A work queue -/

/-- Casts to text print; nothing else is cast. -/
def plainEnv : EvalEnv plainCrates where
  callScalar name := .error (.undefinedColumn name)
  castOther v ty :=
    if ty = .text then .ok (.text (String.ofList (v.toText.getD []))) else .ok v

def taskTable : Table where
  oid := 16384
  schema := "public"
  name := "tasks"
  columns := [⟨"id", .integer, false, none, none⟩, ⟨"status", .text, true, none, none⟩]
  primaryKey := some ["id"]
  uniques := []
  foreignKeys := []
  checks := []
  storageCollection := "rows_16384"

def taskName : QualifiedName := ⟨"public", "tasks"⟩

def statusIndex : Index := ⟨"tasks_status", "public", "tasks", ["status"], false, "btree"⟩

def task (id : Int32) (status : String) : RowValues plainCrates :=
  ExtTreeMap.ofList [("id", SqlValue.int4 id), ("status", SqlValue.text status)]

/-- Two new tasks, with or without the index on their status. -/
def tasks (indexed : Bool) : LoadedTable plainCrates :=
  LoadedTable.rebuildIndexes
    ⟨taskTable, ExtTreeMap.ofList [("n:1", task 1 "new"), ("n:2", task 2 "new")], ∅,
      if indexed then [⟨statusIndex, .new false⟩] else []⟩

/-- Session 2 works on the first task; session 1 is about to run a query. -/
def queue (indexed : Bool) : SelectExec plainCrates where
  env := plainEnv
  catalog := ⟨ExtTreeMap.ofList [(taskName, taskTable)], ∅, ∅, ∅, ["public"]⟩
  tables := ExtTreeMap.ofList [(taskName, tasks indexed)]
  cte := ∅
  pgLocks := ⟨[], []⟩
  otherRelation r := .error (.undefinedTable r.name)
  rlsHidden _ := ∅
  annPlan _ _ := none
  sessionId := 1
  locks := Inner.grant ⟨∅, ∅⟩ (.row 16384 "n:1") .forUpdate 2 .transaction
  pendingLocks := []
  forUpdateFilter := none

/-- `SELECT ... FROM tasks WHERE status = 'new'`. -/
def newTasks : Select plainCrates where
  relation := ⟨none, "tasks", none, []⟩
  selection := some (.eq (.ident "status") (.other fun _ _ => .ok (.text "new")))

/-- Rows as they come. -/
def unarranged : Arrangement plainCrates := ⟨id, fun _ _ h => h⟩

/-- Without an index the query returns the second task, locked. -/
theorem skip_locked_iff_unindexed :
    ∃ rows, ((execSelectQuery newTasks (some ⟨true, .skipLocked⟩) unarranged).exec
        (queue false)).1 = .ok (.full, rows) ∧ rows.map Prod.fst = [some "n:2"] ∧
      ∀ r ∈ rows, ∃ rid, r.1 = some rid ∧
        Locked ((execSelectQuery newTasks (some ⟨true, .skipLocked⟩) unarranged).exec
          (queue false)).2.locks 1 16384 .forUpdate rid := by
  have hsources : ((execSelectQuery newTasks (some ⟨true, .skipLocked⟩) unarranged).exec
      (queue false)).1.toOption.map (fun r => (r.1, r.2.map Prod.fst)) =
        some (.full, [some "n:2"]) := by
    decide +kernel
  obtain ⟨⟨kind, rows⟩, hout, hfound⟩ := Option.map_eq_some_iff.mp hsources
  obtain ⟨rfl, hrows⟩ := Prod.mk.inj hfound
  have hout := except_toOption_eq_some.mp hout
  refine ⟨rows, hout, hrows, ?_⟩
  exact (skip_locked_iff (queue false) _ newTasks true unarranged .full rows taskName (tasks false)
    (by decide +kernel) rfl (LoadedTable.indexed_rebuildIndexes _) rfl
    ⟨fun _ => rfl, by decide⟩ (Prod.ext hout rfl)).1 fun e he => by
      cases he
      rfl

/-- **The index scan returns the task that session 2 has locked.** -/
theorem index_scan_returns_locked :
    let out := (execSelectQuery newTasks (some ⟨true, .skipLocked⟩) unarranged).exec (queue true)
    (out.1.toOption.map fun r => (r.1, r.2.map Prod.fst)) =
        some (.index, [some "n:1", some "n:2"]) ∧
      (out.2.locks.holders (.row 16384 "n:1")).map Holding.holder = [2] := by
  decide +kernel

end GuardianDb.Sql
