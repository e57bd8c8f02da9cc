/-
Index scans against full scans (`try_index_scan`).

An index scan is taken for a WHERE clause with a conjunct `column = value` on an
indexed column. The column is found by its name alone, the value is computed in
the outer scope and cast to the column's type, and the rows under its key are
filtered by WHERE. What makes this the full scan is said of the relation, of the two
sides of the equality, and of the key.

  * `conjunct_true` — WHERE is true only where each of its conjuncts is.
  * `index_scan_iff` — an index scan gives the rows of the full scan if the values that
    equal the one looked up are under its key, and for the equality alone only then.
  * `index_scan_visible` — a constant of another type, a qualified outer column
    and a CTE that make the scans differ.
-/
import GuardianDb.Sql.ForUpdate

namespace GuardianDb.Sql

open List hiding getElem?_insert map_map
open Std Relational ExtTreeMap

section
variable {C : Crates}

/-! ### Outcomes -/

/-- Both fail, or both give the same tuples in some order. -/
def SameRows : Except SqlError (List (Option String × Tuple C)) →
    Except SqlError (List (Option String × Tuple C)) → Prop
  | .ok rows, .ok rows' => (rows.map Prod.snd).Perm (rows'.map Prod.snd)
  | .error _, .error _ => True
  | _, _ => False

theorem SameRows.length_eq {r r' : Except SqlError (List (Option String × Tuple C))}
    (h : SameRows r r') : r.toOption.map List.length = r'.toOption.map List.length := by
  cases r <;> cases r'
  · rfl
  · exact h.elim
  · exact h.elim
  · have hlen := List.Perm.length_eq h
    rw [length_map, length_map] at hlen
    exact congrArg some hlen

variable {row : Option String × Tuple C}

namespace SelectExec

variable (x : SelectExec C)

/-- The rows of a SELECT by its index scan, if one is taken. -/
def indexResult (sel : Select C) (outer : List (Frame C)) :
    Option (Except SqlError (List (Option String × Tuple C))) :=
  (x.tryIndexScan sel outer).map fun rs => x.applyWhere sel.selection outer rs.schema rs.rows

def scanResult (sel : Select C) (outer : List (Frame C)) :
    Except SqlError (List (Option String × Tuple C)) := do
  let (_, rs) ← x.execTableFactor sel.relation
  x.applyWhere sel.selection outer rs.schema rs.rows

/-- **A part of the rows gives the same result as all of them** exactly if WHERE
fails on the part already, or neither fails nor is true on the others. -/
theorem sameRows_part_iff (e : Expr C) (outer : List (Frame C)) (schema : RowSchema)
    {part rest all : List (Option String × Tuple C)} (hall : all.Perm (part ++ rest)) :
    SameRows (x.applyWhere (some e) outer schema part) (x.applyWhere (some e) outer schema all) ↔
      (∃ row ∈ part, x.fails e outer schema row = true) ∨
        ∀ row ∈ rest, x.fails e outer schema row = false ∧ x.passes e outer schema row = false := by
  have hany : all.any (x.fails e outer schema) =
      (part.any (x.fails e outer schema) || rest.any (x.fails e outer schema)) := by
    rw [hall.any_eq, any_append]
  rcases x.applyWhere_eq e outer schema part with ⟨hpart, hpartRows⟩ | ⟨hpart, err, hpartRows⟩
  · have hnone : ¬ ∃ row ∈ part, x.fails e outer schema row = true := by
      simpa using any_eq_false.mp hpart
    rw [hpart, Bool.false_or] at hany
    rw [hpartRows, or_iff_right hnone]
    rcases x.applyWhere_eq e outer schema all with ⟨hok, hallRows⟩ | ⟨hfails, err, hallRows⟩
    · rw [hok] at hany
      have hrest : ∀ row ∈ rest, x.fails e outer schema row = false := by
        simpa using any_eq_false.mp hany.symm
      have hfilter := hall.filter (x.passes e outer schema)
      rw [filter_append] at hfilter
      rw [hallRows]
      refine Iff.trans (b := rest.filter (x.passes e outer schema) = []) ⟨fun h => ?_, fun h => ?_⟩
        ⟨fun h row hrow => ⟨hrest row hrow, ?_⟩, fun h => ?_⟩
      · -- the rows that pass are as many
        have hlen : (part.filter (x.passes e outer schema)).length =
            (all.filter (x.passes e outer schema)).length := by
          simpa using List.Perm.length_eq h
        rw [hfilter.length_eq, length_append] at hlen
        exact eq_nil_of_length_eq_zero (by omega)
      · rw [h, append_nil] at hfilter
        exact (hfilter.map Prod.snd).symm
      · simpa using filter_eq_nil_iff.mp h row hrow
      · exact filter_eq_nil_iff.mpr fun row hrow => by simp [(h row hrow).2]
    · rw [hfails] at hany
      obtain ⟨row, hrow, hfail⟩ := any_eq_true.mp hany.symm
      rw [hallRows]
      refine iff_of_false id fun h => ?_
      rw [(h row hrow).1] at hfail
      cases hfail
  · rw [hpart, Bool.true_or] at hany
    obtain ⟨err', hallRows⟩ : ∃ err', x.applyWhere (some e) outer schema all = .error err' := by
      rcases x.applyWhere_eq e outer schema all with ⟨hok, -⟩ | ⟨-, h⟩
      · rw [hany] at hok
        cases hok
      · exact h
    rw [hpartRows, hallRows]
    exact iff_of_true trivial (.inl (any_eq_true.mp hpart))

/-! ### The bucket and the table -/

def outside (q : QualifiedName) (t : LoadedTable C) (ids : List String) : List String :=
  t.rows.keys.filter fun rid => x.visible q rid && !ids.contains rid

variable {t : LoadedTable C} {ids : List String}

/-- Visible rows in the bucket and visible rows outside make up the table. -/
theorem tupleRows_perm {q : QualifiedName} (hnodup : ids.Nodup) (hmem : ∀ rid ∈ ids, rid ∈ t.rows) :
    (tupleRows t (t.rows.keys.filter (x.visible q))).Perm
      (tupleRows t (ids.filter (x.visible q)) ++ tupleRows t (x.outside q t ids)) := by
  unfold tupleRows
  rw [← filterMap_append]
  refine List.Perm.filterMap _ ?_
  refine (perm_ext_iff_of_nodup ?_ ?_).mpr fun rid => ?_
  · exact nodup_keys.filter _
  · refine List.Nodup.append (hnodup.filter _) (nodup_keys.filter _) ?_
    intro rid hin hout
    simp only [outside, mem_filter, Bool.and_eq_true, Bool.not_eq_true',
      contains_eq_mem, decide_eq_false_iff_not] at hin hout
    exact hout.2.2 hin.1
  · simp only [outside, mem_append, mem_filter, Bool.and_eq_true, Bool.not_eq_true',
      contains_eq_mem, decide_eq_false_iff_not, ExtTreeMap.mem_keys]
    constructor
    · grind
    · grind

/-! ### Conjuncts -/

/-- A part of WHERE that has to be true where WHERE is. -/
inductive Conjunct (c : Expr C) : Expr C → Prop where
  | self : Conjunct c c
  | left {l r : Expr C} (h : Conjunct c l) : Conjunct c (.and l r)
  | right {l r : Expr C} (h : Conjunct c r) : Conjunct c (.and l r)
  | nested {e : Expr C} (h : Conjunct c e) : Conjunct c (.nested e)

/-- AND is true only if both of its sides are. -/
theorem eval_and_true {env : EvalEnv C} {filter : ScanFilter} {frames : List (Frame C)}
    {l r : Expr C} {v : SqlValue C} (h : (Expr.and l r).eval env filter frames = .ok v)
    (hv : truthy v = some true) :
    (∃ a, l.eval env filter frames = .ok a ∧ truthy a = some true) ∧
      ∃ b, r.eval env filter frames = .ok b ∧ truthy b = some true := by
  obtain ⟨a, ha, h⟩ := Fallible.except_bind_ok.mp h
  dsimp only at h
  split at h
  · cases h
    cases hv
  · obtain ⟨b, hb, h⟩ := Fallible.except_bind_ok.mp h
    split at h
    · cases h
      cases hv
    · split at h
      · next hboth => exact ⟨⟨a, ha, hboth.1⟩, b, hb, hboth.2⟩
      · cases h
        cases hv

/-- **WHERE is true only where each of its conjuncts is.** -/
theorem conjunct_true {env : EvalEnv C} {filter : ScanFilter} {frames : List (Frame C)}
    {c e : Expr C} {v : SqlValue C} (hc : Conjunct c e) (h : e.eval env filter frames = .ok v)
    (hv : truthy v = some true) : ∃ u, c.eval env filter frames = .ok u ∧ truthy u = some true := by
  induction hc generalizing v with
  | self => exact ⟨v, h, hv⟩
  | left _ ih =>
    obtain ⟨⟨a, ha, hta⟩, -⟩ := eval_and_true h hv
    exact ih ha hta
  | right _ ih =>
    obtain ⟨-, b, hb, htb⟩ := eval_and_true h hv
    exact ih hb htb
  | nested _ ih => exact ih h hv

/-- `ref = value`, or the other way round. -/
def equation (swapped : Bool) (ref value : Expr C) : Expr C :=
  if swapped then .eq value ref else .eq ref value

/-- What the equation says of a stored value and the one it is compared with. -/
def equals (env : EvalEnv C) (swapped : Bool) (stored v : SqlValue C) : Bool :=
  truthy (if swapped then compareEq env v stored else compareEq env stored v) == some true

theorem eval_equation {env : EvalEnv C} {filter : ScanFilter} {frames : List (Frame C)}
    {ref value : Expr C} {stored v : SqlValue C} (swapped : Bool)
    (href : ref.eval env filter frames = .ok stored)
    (hvalue : value.eval env filter frames = .ok v) :
    ∃ u, (equation swapped ref value).eval env filter frames = .ok u ∧
      (truthy u == some true) = equals env swapped stored v := by
  cases swapped
  all_goals
    simp only [equation, Expr.eval, href, hvalue, equals, if_true, Bool.false_eq_true, if_false]
    exact ⟨_, rfl, rfl⟩

/-! ### Index scan and full scan -/

/-- The relation of a SELECT is the table under its own column names, and SKIP LOCKED holds no
row of it back. -/
structure ScansTable (r : TableRef) (q : QualifiedName) (t : LoadedTable C) : Prop
    extends NamesTable x r where
  names : ∀ (i : Nat) (a : String) (c : Column), r.columnAliases[i]? = some a → t.table.columns[i]? = some c →
    a = c.name
  unfiltered : ∀ ids, x.forUpdateFilter = some (q, ids) → ∀ rid ∈ t.rows,
    x.visible q rid = true → rid ∈ ids

/-- Something holds of the visible rows of the table, as the frames of WHERE. -/
def ForRows (q : QualifiedName) (t : LoadedTable C) (r : TableRef)
    (P : RowValues C → Frame C → Prop) : Prop :=
  ∀ rid values, t.rows[rid]? = some values → x.visible q rid = true →
    P values ⟨tableSchema t.table r.aliasName, rowTuple t.table values⟩

variable {x} {q : QualifiedName} {sel : Select C} {e : Expr C} {outer : List (Frame C)}

/-- A full scan of the table itself. -/
theorem scanResult_eq (h : x.ScansTable sel.relation q t)
    (hbase : x.baseTable sel.relation = some (q, t)) :
    x.scanResult sel outer = x.applyWhere sel.selection outer
      (tableSchema t.table sel.relation.aliasName)
      (tupleRows t (t.rows.keys.filter (x.visible q))) := by
  have hschema : (relabel sel.relation (x.loadedToRowset sel.relation q t)).schema =
      tableSchema t.table sel.relation.aliasName := by
    refine ext_getElem? fun i => ?_
    simp only [relabel, loadedToRowset, tableSchema, List.getElem?_map, getElem?_zipIdx]
    cases hc : t.table.columns[i]? with
    | none => rfl
    | some c =>
      cases ha : sel.relation.columnAliases[i]? with
      | none => simp [ha]
      | some a => simp [ha, h.names i a c ha hc]
  have hrows : (relabel sel.relation (x.loadedToRowset sel.relation q t)).rows =
      tupleRows t (t.rows.keys.filter (x.visible q)) := by
    simp only [relabel, loadedToRowset, List.filter_filter]
    refine congrArg (tupleRows t) (filter_congr fun rid hrid => ?_)
    have hmem := ExtTreeMap.mem_keys.mp hrid
    cases hf : x.forUpdateFilter with
    | none => simp
    | some f =>
      obtain ⟨fq, ids⟩ := f
      by_cases hq : fq = q
      · subst hq
        by_cases hvis : x.visible fq rid = true
        · simp [hvis, h.unfiltered ids hf rid hmem hvis]
        · simp [hvis]
      · simp [hq]
  rw [scanResult, execTableFactor_of_namesTable h.toNamesTable hbase]
  change x.applyWhere _ _ (relabel _ _).schema (relabel _ _).rows = _
  rw [hschema, hrows]

theorem fails_iff {schema : RowSchema} : x.fails e outer schema row = true ↔
    ∃ err, e.eval x.env x.forUpdateFilter (outer ++ [⟨schema, row.2⟩]) = .error err := by
  unfold fails whereValue
  cases e.eval x.env x.forUpdateFilter (outer ++ [⟨schema, row.2⟩]) <;> simp

theorem passes_iff {schema : RowSchema} : x.passes e outer schema row = true ↔
    ∃ v, e.eval x.env x.forUpdateFilter (outer ++ [⟨schema, row.2⟩]) = .ok v ∧
      truthy v = some true := by
  unfold passes whereValue
  cases e.eval x.env x.forUpdateFilter (outer ++ [⟨schema, row.2⟩]) <;> simp

/-- WHERE is true only where the equality is. -/
theorem equals_of_passes {schema : RowSchema} {ref value : Expr C} {swapped : Bool}
    {stored v : SqlValue C} (hconjunct : Conjunct (equation swapped ref value) e)
    (href : ref.eval x.env x.forUpdateFilter (outer ++ [⟨schema, row.2⟩]) = .ok stored)
    (hvalue : value.eval x.env x.forUpdateFilter (outer ++ [⟨schema, row.2⟩]) = .ok v)
    (h : x.passes e outer schema row = true) : equals x.env swapped stored v = true := by
  obtain ⟨u, hu, htrue⟩ := passes_iff.mp h
  obtain ⟨w, hw, hwtrue⟩ := conjunct_true hconjunct hu htrue
  obtain ⟨w', hw', hequals⟩ := eval_equation swapped href hvalue
  cases hw.symm.trans hw'
  simpa [hwtrue] using hequals.symm

section
variable {column : String} {coerced : SqlValue C} (hmem : ∀ rid, rid ∈ ids ↔
  ∃ values, t.rows[rid]? = some values ∧ UnderKey column coerced values)
include hmem

/-- The rows of the bucket. -/
theorem mem_bucketRows : row ∈ tupleRows t (ids.filter (x.visible q)) ↔ ∃ rid values,
    t.rows[rid]? = some values ∧ x.visible q rid = true ∧ UnderKey column coerced values ∧
      (some rid, rowTuple t.table values) = row := by
  simp only [tupleRows, mem_filterMap, mem_filter, Option.map_eq_some_iff, hmem]
  grind

/-- The other rows. -/
theorem mem_outsideRows : row ∈ tupleRows t (x.outside q t ids) ↔ ∃ rid values,
    t.rows[rid]? = some values ∧ x.visible q rid = true ∧ ¬ UnderKey column coerced values ∧
      (some rid, rowTuple t.table values) = row := by
  simp only [tupleRows, outside, mem_filterMap, mem_filter, Option.map_eq_some_iff,
    Bool.and_eq_true, Bool.not_eq_true', contains_eq_mem, decide_eq_false_iff_not, hmem,
    ExtTreeMap.mem_keys]
  grind

end

/-- **When an index scan is invisible.** The relation is the table itself; the equality
that is looked up has the table's own column on one side, and on the other a value that does
not depend on the row. If every visible row whose value equals that one is under its key, and
WHERE fails on no row that is not (or also on one that is), the scans give the same rows. If
the equality is all of WHERE, they do so only then. -/
theorem index_scan_iff (x : SelectExec C) (sel : Select C) (outer : List (Frame C))
    (q : QualifiedName) (t : LoadedTable C) (e : Expr C)
    (hbase : x.baseTable sel.relation = some (q, t)) (hindexed : t.Indexed)
    (hsel : sel.selection = some e) (htable : x.ScansTable sel.relation q t)
    (column : String) (ref value : Expr C) (swapped : Bool) (v coerced : SqlValue C)
    (hlook : x.LooksUp t e outer column value v coerced)
    (hconjunct : Conjunct (equation swapped ref value) e)
    (hown : x.ForRows q t sel.relation fun values frame =>
      ref.eval x.env x.forUpdateFilter (outer ++ [frame]) = .ok (valueOf values column))
    (hvalue : x.ForRows q t sel.relation fun _ frame =>
      value.eval x.env x.forUpdateFilter (outer ++ [frame]) = .ok v) :
    let keyed := x.ForRows q t sel.relation fun values _ =>
      equals x.env swapped (valueOf values column) v = true → UnderKey column coerced values
    let fails := fun frame => ∃ err, e.eval x.env x.forUpdateFilter (outer ++ [frame]) = .error err
    ∃ r, x.indexResult sel outer = some r ∧
      (keyed →
        (x.ForRows q t sel.relation fun values frame =>
          fails frame → UnderKey column coerced values) ∨
        (∃ rid values, t.rows[rid]? = some values ∧ x.visible q rid = true ∧
          UnderKey column coerced values ∧
          fails ⟨tableSchema t.table sel.relation.aliasName, rowTuple t.table values⟩) →
        SameRows r (x.scanResult sel outer)) ∧
      (e = equation swapped ref value → (SameRows r (x.scanResult sel outer) ↔ keyed)) := by
  intro keyed fails
  obtain ⟨ids, hids, hnodup, hmem⟩ := hlook.bucket hindexed
  have hindexRows : x.indexResult sel outer = some (x.applyWhere (some e) outer
      (tableSchema t.table sel.relation.aliasName) (tupleRows t (ids.filter (x.visible q)))) := by
    simp [indexResult, tryIndexScan_eq hbase hsel, hids, hsel]
  refine ⟨_, hindexRows, ?_⟩
  have hrid : ∀ rid ∈ ids, rid ∈ t.rows := by
    intro rid hid
    obtain ⟨values, hrow, -⟩ := (hmem rid).mp hid
    grind
  rw [scanResult_eq htable hbase, hsel, x.sameRows_part_iff e outer _ (x.tupleRows_perm hnodup hrid)]
  refine (fun hsame => ⟨hsame, ?only⟩) ?same
  case same =>
    rintro hkeyed (hfails | ⟨rid, values, hvalues, hvis, hkey, hfail⟩)
    · refine .inr fun row hrow => ?_
      obtain ⟨rid, values, hvalues, hvis, hkey, rfl⟩ := (mem_outsideRows hmem).mp hrow
      refine ⟨Bool.eq_false_iff.mpr fun h => ?_, Bool.eq_false_iff.mpr fun h => ?_⟩
      · exact hkey (hfails rid values hvalues hvis (fails_iff.mp h))
      · exact hkey (hkeyed rid values hvalues hvis (equals_of_passes hconjunct
          (hown rid values hvalues hvis) (hvalue rid values hvalues hvis) h))
    · exact .inl ⟨_, (mem_bucketRows hmem).mpr ⟨rid, values, hvalues, hvis, hkey, rfl⟩,
        fails_iff.mpr hfail⟩
  rintro rfl
  -- the equality never fails
  have heval := fun rid values hvalues hvis => eval_equation swapped
    (hown rid values hvalues hvis) (hvalue rid values hvalues hvis)
  constructor
  · rintro (⟨row, hrow, hfail⟩ | hreject) rid values hvalues hvis hequals
    · obtain ⟨rid', values', hvalues', hvis', -, rfl⟩ := (mem_bucketRows hmem).mp hrow
      obtain ⟨u, hu, -⟩ := heval rid' values' hvalues' hvis'
      obtain ⟨err, herr⟩ := fails_iff.mp hfail
      cases hu.symm.trans herr
    · by_contra hkey
      obtain ⟨-, hpass⟩ :=
        hreject _ ((mem_outsideRows hmem).mpr ⟨rid, values, hvalues, hvis, hkey, rfl⟩)
      obtain ⟨u, hu, htrue⟩ := heval rid values hvalues hvis
      rw [hequals] at htrue
      exact Bool.eq_false_iff.mp hpass (passes_iff.mpr ⟨u, hu, by simpa using htrue⟩)
  · refine fun hkeyed => hsame hkeyed (.inl fun rid values hvalues hvis hfail => ?_)
    obtain ⟨u, hu, -⟩ := heval rid values hvalues hvis
    obtain ⟨err, herr⟩ := hfail
    cases hu.symm.trans herr

end SelectExec

end

/-! ### Two tables that tell the scans apart -/

/-- A task with the status `05` and a new one. -/
def numbered : LoadedTable plainCrates :=
  LoadedTable.rebuildIndexes
    ⟨taskTable, ExtTreeMap.ofList [("n:1", task 1 "05"), ("n:2", task 2 "new")], ∅,
      [⟨statusIndex, .new false⟩]⟩

def numberedQueue : SelectExec plainCrates :=
  { queue true with tables := ExtTreeMap.ofList [(taskName, numbered)] }

/-- `SELECT ... FROM tasks WHERE status = 5`. -/
def fifth : Select plainCrates :=
  { newTasks with selection := some (.eq (.ident "status") (.other fun _ _ => .ok (.int4 5))) }

/-- `SELECT ... FROM tasks WHERE o.status = 'new'`, in a subquery under `o`. -/
def outerNew : Select plainCrates :=
  { newTasks with
    selection := some (.eq (.compound ["o", "status"]) (.other fun _ _ => .ok (.text "new"))) }

/-- The row of `o`. -/
def outerRow : Frame plainCrates := ⟨[⟨some "o", "status"⟩], [.text "new"]⟩

/-- `WITH tasks AS (...)`, without rows. -/
def shadowed : SelectExec plainCrates :=
  { queue true with
    cte := ExtTreeMap.ofList [("tasks", RowSet.mk (tableSchema taskTable "tasks") [])] }

/-- The index finds both new tasks, as the full scan does. -/
theorem index_scan_iff_new :
    ∃ r, (queue true).indexResult newTasks [] = some r ∧
      SameRows r ((queue true).scanResult newTasks []) := by
  have hbase : (queue true).baseTable newTasks.relation = some (taskName, tasks true) := rfl
  have hnew : ∀ id, valueOf (task id "new") "status" = .text "new" := fun id => by
    simp [valueOf, task, ExtTreeMap.ofList_cons]
  have hrows : ∀ (rid : String) (values : RowValues plainCrates),
      (tasks true).rows[rid]? = some values → valueOf values "status" = .text "new" := by
    intro rid values hrow
    have hrow : (((∅ : ExtTreeMap String _).insert "n:1" (task 1 "new")).insert "n:2"
        (task 2 "new"))[rid]? = some values := hrow
    simp only [getElem?_insert] at hrow
    split at hrow
    · cases hrow
      exact hnew 2
    · split at hrow
      · cases hrow
        exact hnew 1
      · simp at hrow
  obtain ⟨r, hr, -, hsame⟩ := SelectExec.index_scan_iff (queue true) newTasks [] taskName
    (tasks true) _ hbase (LoadedTable.indexed_rebuildIndexes _) rfl
    ⟨⟨fun _ => rfl, by decide⟩, nofun, nofun⟩ "status" (.ident "status") _ false (.text "new")
    (.text "new") ⟨rfl, rfl, _, rfl, rfl⟩ .self (fun _ _ _ _ => rfl) (fun _ _ _ _ => rfl)
  refine ⟨r, hr, (hsame rfl).mpr fun rid values hrow _ _ => ⟨rfl, ?_⟩⟩
  rw [hrows rid values hrow]

/-- Scans with different numbers of rows. -/
theorem scans_differ {C : Crates} {x : SelectExec C} {sel : Select C} {outer : List (Frame C)}
    {n : Option Nat}
    (hindex : (x.indexResult sel outer).map (fun r => r.toOption.map List.length) = some n)
    (hscan : (x.scanResult sel outer).toOption.map List.length ≠ n) :
    ∃ r, x.indexResult sel outer = some r ∧ ¬ SameRows r (x.scanResult sel outer) := by
  obtain ⟨r, hr, rfl⟩ := Option.map_eq_some_iff.mp hindex
  exact ⟨r, hr, fun hsame => hscan hsame.length_eq.symm⟩

/-- **A query shows whether the index was used**: a number compared with a text
column, a column of an outer query, and a CTE with the name of a table. -/
theorem index_scan_visible :
    (∃ r, numberedQueue.indexResult fifth [] = some r ∧
      ¬ SameRows r (numberedQueue.scanResult fifth [])) ∧
    (∃ r, numberedQueue.indexResult outerNew [outerRow] = some r ∧
      ¬ SameRows r (numberedQueue.scanResult outerNew [outerRow])) ∧
    ∃ r, shadowed.indexResult newTasks [] = some r ∧
      ¬ SameRows r (shadowed.scanResult newTasks []) := by
  refine ⟨scans_differ (n := some 0) ?_ ?_, scans_differ (n := some 1) ?_ ?_,
    scans_differ (n := some 2) ?_ ?_⟩ <;> decide +kernel

end GuardianDb.Sql
