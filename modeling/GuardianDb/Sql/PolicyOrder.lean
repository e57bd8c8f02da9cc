/-
The order in which row-security policies are evaluated (`init_rls` in `sql/rls.rs`).

A policy may contain subqueries over other tables with row security. These should see
the rows that the role sees (`Intended`). `initRls` goes through the tables in the
order of their names, so a policy sees the tables before its own filtered and the
others whole.

  * `passesUnder_congr` — a policy does not depend on what is hidden in tables that it
    does not name.
  * `intended_unique` — policies without cycles leave one intended way to hide rows.
  * `initRls_intended_iff` — `initRls` hides the intended rows if and only if hiding
    those of later tables changes no judgement.
  * `hidden_rows_intended_iff` — the same under all names of the tables.
-/
import GuardianDb.Sql.RowSecurity
import Mathlib.Data.List.Induction
import Mathlib.Logic.Equiv.Basic

namespace GuardianDb.Sql

open List hiding getElem?_insert map_map
open Std Relational Fallible ExtTreeMap

section
variable {C : Crates}

/-! ### The intended rows -/

section
variable (rls : RlsEnv) (x : QueryExec C) (depth : Nat)

/-- How the SELECT policies of a table judge a row when the scans leave out some row
ids of each table. -/
def passesUnder (hidden : QualifiedName → ExtTreeSet String) (t : Table) (values : RowValues C) :
    Except SqlError Bool := do
  let policies ← compilePolicies rls t
  rowPasses { x with rlsHidden := hidden } depth policies t .select .usingClause values

/-- A table that row security filters. -/
structure Filtered (q : QualifiedName) (t : LoadedTable C) : Prop where
  found : x.tables[q]? = some t
  enforced : rls.enforces t.table = true

structure FilteredRow (q : QualifiedName) (t : LoadedTable C) (rid : String)
    (values : RowValues C) : Prop extends Filtered rls x q t where
  row : t.rows[rid]? = some values

/-- Only rows of filtered tables are hidden. -/
def OnlyFiltered (hidden : QualifiedName → ExtTreeSet String) : Prop :=
  ∀ q rid, rid ∈ hidden q → ∃ t values, FilteredRow rls x q t rid values

/-- **What should be hidden**: the rows that do not pass the policies of their table
when these see the rows in sight only. -/
structure Intended (hidden : QualifiedName → ExtTreeSet String) : Prop where
  judged : ∀ q t rid values, FilteredRow rls x q t rid values →
    passesUnder rls x depth hidden t.table values = .ok (decide (rid ∉ hidden q))
  only : OnlyFiltered rls x hidden

/-- These names are of tables that are not filtered or come before, of views over such
and of functions with such in their bodies. -/
structure NamesBefore (before : QualifiedName → Prop) (N : Mention → Prop) : Prop where
  tables : ∀ n, N (.table n) → ∀ q' t', x.catalog.resolveTableName n.1 n.2 = some q' →
    Filtered rls x q' t' → before q'
  views : ∀ n, N (.table n) → ∀ view query, x.catalog.resolveTableName n.1 n.2 = some view →
    x.queries.viewQuery view = .ok query → Within N query.names
  bodies : ∀ f ∈ x.queries.functions, N (.function f.name) → f.Within N

/-- The policies of every table name only filtered tables that come before it. -/
def PoliciesName (before : QualifiedName → QualifiedName → Prop) : Prop :=
  ∀ q t, Filtered rls x q t → ∃ N, NamesBefore rls x (before · q) N ∧
    ∀ policies, compilePolicies rls t.table = .ok policies → ∀ p ∈ policies,
      p.appliesTo .select → ∀ e, p.usingExpr = some e → Within N e.names

/-- No policy depends on its own table, also not through others. -/
def Acyclic : Prop := ∃ rank : QualifiedName → Nat, PoliciesName rls x fun q' q => rank q' < rank q

/-- What is hidden in the tables before one of them. -/
def hiddenBefore (hidden : QualifiedName → ExtTreeSet String) (q : QualifiedName) :
    QualifiedName → ExtTreeSet String :=
  fun q' => if compare q' q = .lt then hidden q' else ∅

/-- Hiding rows of the tables that do not come before it changes no judgement on a
table. -/
def LaterIrrelevant (hidden : QualifiedName → ExtTreeSet String) : Prop :=
  ∀ q t rid values, FilteredRow rls x q t rid values →
    passesUnder rls x depth hidden t.table values =
      passesUnder rls x depth (hiddenBefore hidden q) t.table values

/-- The tables of one context under other names: with the same rows, and with policies
that judge them alike when the same rows are hidden under the new names. -/
def Renamed (ρ : QualifiedName ≃ QualifiedName) (x' : QueryExec C) : Prop :=
  ∀ q : QualifiedName, match x.tables[q]?, x'.tables[ρ q]? with
    | none, none => True
    | some t, some t' =>
        t'.rows = t.rows ∧ rls.enforces t'.table = rls.enforces t.table ∧
          ∀ hidden (rid : String) values, t.rows[rid]? = some values →
            passesUnder rls x' depth hidden t'.table values =
              passesUnder rls x depth (fun q => hidden (ρ q)) t.table values
    | _, _ => False

end

section
variable {rls : RlsEnv} {x : QueryExec C} {depth : Nat}

/-! ### What `initRls` hides -/

variable {target : Option (QualifiedName × PolicyCmd)} {ctx : RlsContext} {q : QualifiedName}
  {t : LoadedTable C} {rid : String} {values : RowValues C}

theorem mem_enforced_iff : (q, t) ∈ enforcedTables x rls ↔ Filtered rls x q t :=
  mem_enforcedTables.trans ⟨fun h => ⟨h.1, h.2⟩, fun h => ⟨h.found, h.enforced⟩⟩

theorem hiddenIn_earlier (hidden : ExtTreeMap QualifiedName (ExtTreeSet String))
    (q : QualifiedName) : hiddenIn (earlier hidden q) = hiddenBefore (hiddenIn hidden) q := by
  funext q'
  rw [hiddenIn, hiddenBefore, hiddenIn, earlier, getElem?_filter']
  cases hidden[q']? with
  | none => simp
  | some ids => by_cases hlt : compare q' q = .lt <;> simp [Option.filter, hlt]

section
variable (h : initRls x depth rls target = .ok ctx)
include h

theorem initRls_policies (ht : Filtered rls x q t) :
    compilePolicies rls t.table = .ok (ctx.policies[q]?.getD []) := by
  obtain ⟨compiled, hc, hfold⟩ := except_bind_ok.mp h
  rw [initTables_policies hfold]
  refine compileAll_ok ?_ hc (mem_map.mpr ⟨(q, t), mem_enforced_iff.mpr ht, rfl⟩)
  rw [List.map_map]
  exact nodup_enforcedTables x rls

/-- A row is hidden if the policies judge it so with the tables before it filtered. -/
theorem initRls_judged (hrow : FilteredRow rls x q t rid values) :
    passesUnder rls x depth (hiddenBefore (hiddenIn ctx.selectHidden) q) t.table values =
      .ok (decide (rid ∉ hiddenIn ctx.selectHidden q)) := by
  obtain ⟨⟨b, hb, hmem⟩, -⟩ := initRls_ok h hrow.found hrow.enforced hrow.row
  rw [passesUnder, initRls_policies h hrow.toFiltered, ← hiddenIn_earlier]
  refine Eq.trans hb ?_
  cases b <;> simp [hmem]

theorem initRls_only : OnlyFiltered rls x (hiddenIn ctx.selectHidden) := by
  intro q rid hrid
  obtain ⟨compiled, -, hfold⟩ := except_bind_ok.mp h
  obtain ⟨hother, hof⟩ := initTables_ok (nodup_enforcedTables x rls) hfold
  by_cases hq : q ∈ (enforcedTables x rls).map Prod.fst
  · obtain ⟨⟨q, t⟩, hmem, rfl⟩ := mem_map.mp hq
    obtain ⟨l₁, l₂, hl⟩ := append_of_mem hmem
    obtain ⟨before, hidden, hhide, hsel, -, -⟩ := hof l₁ q t l₂ hl
    rw [hiddenIn, hsel, Option.getD_some, (hideRows_ok hhide).1] at hrid
    obtain ⟨values, hvalues, -⟩ := hrid
    exact ⟨t, values, mem_enforced_iff.mp hmem, mem_toList_iff_getElem?_eq_some.mp hvalues⟩
  · rw [hiddenIn, (hother q hq).1] at hrid
    simp at hrid

end

/-! ### What a policy depends on -/

variable {hidden hidden' : QualifiedName → ExtTreeSet String}

/-- The same rows of a table are hidden. -/
def SameHidden (hidden hidden' : QualifiedName → ExtTreeSet String) (q : QualifiedName)
    (t : LoadedTable C) : Prop := ∀ rid ∈ t.rows, rid ∈ hidden q ↔ rid ∈ hidden' q

/-- The scans of a table depend on which of its rows are hidden. -/
theorem tupleRows_visible (h : SameHidden hidden hidden' q t) (ids : List String) :
    tupleRows t (ids.filter (SelectExec.visible { x.toSelectExec with rlsHidden := hidden } q)) =
      tupleRows t
        (ids.filter (SelectExec.visible { x.toSelectExec with rlsHidden := hidden' } q)) := by
  simp only [tupleRows, filterMap_filter]
  refine filterMap_congr fun rid _ => ?_
  cases hrow : t.rows[rid]? with
  | none => simp
  | some values =>
    have hsame : (hidden q).contains rid = (hidden' q).contains rid := by
      rw [Bool.eq_iff_iff, ExtTreeSet.contains_iff_mem, ExtTreeSet.contains_iff_mem]
      exact h rid (isSome_getElem?_iff_mem.mp (by simp [hrow]))
    simp [SelectExec.visible, hsame]

/-- What is hidden in other tables does not change the scans. -/
theorem sameScans_hidden {N : Mention → Prop} {before : QualifiedName → Prop}
    (hN : NamesBefore rls x before N) (h : ∀ n, N (.table n) → ∀ q t,
      x.catalog.resolveTableName n.1 n.2 = some q → x.tables[q]? = some t →
        SameHidden hidden hidden' q t) :
    SameScans N { x with rlsHidden := hidden } { x with rlsHidden := hidden' } := by
  -- the base table that a name in `N` stands for hides the same rows
  have hbase : ∀ ref : TableRef, N (.table (ref.schema, ref.name)) →
      (∀ hidden, SelectExec.baseTable { x.toSelectExec with rlsHidden := hidden } ref = none) ∨
      ∃ p : QualifiedName × LoadedTable C, (∀ hidden,
          SelectExec.baseTable { x.toSelectExec with rlsHidden := hidden } ref = some p) ∧
        SameHidden hidden hidden' p.1 p.2 := by
    intro ref href
    cases hb : x.baseTable ref with
    | none => exact .inl fun _ => hb
    | some p =>
      refine .inr ⟨p, fun _ => hb, ?_⟩
      obtain ⟨q, hq, h₁⟩ := Option.bind_eq_some_iff.mp hb
      obtain ⟨t, ht, h₂⟩ := Option.bind_eq_some_iff.mp h₁
      cases h₂
      exact h _ href q t hq ht
  refine ⟨rfl, rfl, rfl, rfl, rfl, fun ref href e outer => ?_, fun ref href => ?_,
    fun ref href view query hv hq => hN.views _ href view query hv hq, hN.bodies,
    fun _ _ _ _ _ _ => rfl⟩
  · obtain hb | ⟨p, hb, hvisible⟩ := hbase ref href
    · simp only [SelectExec.tryIndexScan, hb]
      rfl
    · simp only [SelectExec.tryIndexScan, hb, Option.bind_eq_bind, Option.bind_some,
        tupleRows_visible hvisible]
      rfl
  · obtain hb | ⟨p, hb, hvisible⟩ := hbase ref href
    · simp only [QueryExec.tableScan, hb]
      rfl
    · simp only [QueryExec.tableScan, hb, Option.map_some, SelectExec.loadedToRowset,
        tupleRows_visible hvisible]

/-- **A policy depends on the tables that it names.** -/
theorem passesUnder_congr {before : QualifiedName → QualifiedName → Prop}
    (hnames : PoliciesName rls x before) (ht : Filtered rls x q t)
    (hsame : ∀ q' t', x.tables[q']? = some t' → (Filtered rls x q' t' → before q' q) →
      SameHidden hidden hidden' q' t') (values : RowValues C) :
    passesUnder rls x depth hidden t.table values =
      passesUnder rls x depth hidden' t.table values := by
  obtain ⟨N, hN, hpolicies⟩ := hnames q t ht
  refine except_bind_congr fun policies hp => ?_
  refine policiesPass_congr (fun p hmem happ e he => ?_) false
  have hscans : SameScans N { x with rlsHidden := hidden } { x with rlsHidden := hidden' } :=
    sameScans_hidden hN fun n hn q' t' hq' ht' => hsame q' t' ht' (hN.tables n hn q' t' hq')
  rw [(evaluator_congr hscans depth).expr e (hpolicies policies hp p hmem happ e he)]

/-! ### Rows that should be hidden -/

namespace OnlyFiltered

variable (h : OnlyFiltered rls x hidden) (h' : OnlyFiltered rls x hidden')
include h

/-- Nothing is hidden in a table that is not filtered. -/
theorem eq_empty (ht : x.tables[q]? = some t) (hq : ¬ Filtered rls x q t) : hidden q = ∅ := by
  refine ExtTreeSet.ext_mem fun rid => ⟨fun hrid => ?_, fun hrid => by simp at hrid⟩
  obtain ⟨t', values, hrow⟩ := h q rid hrid
  cases ht.symm.trans hrow.found
  exact absurd hrow.toFiltered hq

include h'

/-- A table has the same rows hidden if each of its rows is judged alike. -/
theorem eq_of_rows (hrows : ∀ t rid values, FilteredRow rls x q t rid values →
    (rid ∈ hidden q ↔ rid ∈ hidden' q)) : hidden q = hidden' q := by
  refine ExtTreeSet.ext_mem fun rid => ⟨fun hrid => ?_, fun hrid => ?_⟩
  · obtain ⟨t, values, hrow⟩ := h q rid hrid
    exact (hrows t rid values hrow).mp hrid
  · obtain ⟨t, values, hrow⟩ := h' q rid hrid
    exact (hrows t rid values hrow).mpr hrid

end OnlyFiltered

/-- Equal judgements, equal answers. -/
theorem mem_iff_of_judged {a b : ExtTreeSet String} {r : Except SqlError Bool}
    (ha : r = .ok (decide (rid ∉ a))) (hb : r = .ok (decide (rid ∉ b))) : rid ∈ a ↔ rid ∈ b := by
  have hsame := Except.ok.inj (ha.symm.trans hb)
  rw [decide_eq_decide] at hsame
  exact not_iff_not.mp hsame

/-- **There is one intended way to hide rows** if policies have no cycles: the induction is
on the rank of a table. -/
theorem intended_unique (hacyclic : Acyclic rls x) (h : Intended rls x depth hidden)
    (h' : Intended rls x depth hidden') : hidden = hidden' := by
  obtain ⟨rank, hnames⟩ := hacyclic
  have hranked : ∀ n q, rank q < n → hidden q = hidden' q := by
    intro n
    induction n with
    | zero => exact fun q hq => absurd hq (Nat.not_lt_zero _)
    | succ n ih =>
      intro q hq
      refine h.only.eq_of_rows h'.only fun t rid values hrow => ?_
      have hsame : passesUnder rls x depth hidden t.table values =
          passesUnder rls x depth hidden' t.table values := by
        refine passesUnder_congr hnames hrow.toFiltered (fun q' t' ht' hbefore rid _ => ?_) values
        by_cases hfiltered : Filtered rls x q' t'
        · rw [ih q' (Nat.lt_of_lt_of_le (hbefore hfiltered) (Nat.lt_succ_iff.mp hq))]
        · rw [h.only.eq_empty ht' hfiltered, h'.only.eq_empty ht' hfiltered]
      exact mem_iff_of_judged (h.judged q t rid values hrow)
        (hsame.trans (h'.judged q t rid values hrow))
  funext q
  exact hranked _ q (Nat.lt_succ_self _)

/-- Induction over the filtered tables in the order of their names. -/
theorem enforced_induction {P : QualifiedName → Prop}
    (step : ∀ q t, (q, t) ∈ enforcedTables x rls →
      (∀ q' ∈ (enforcedTables x rls).map Prod.fst, compare q' q = .lt → P q') → P q) :
    ∀ q ∈ (enforcedTables x rls).map Prod.fst, P q := by
  have hordered : (enforcedTables x rls).Pairwise fun a b => compare a.1 b.1 = .lt :=
    ordered_keys_toList.sublist filter_sublist
  have hprefix : ∀ l₁ l₂, enforcedTables x rls = l₁ ++ l₂ → ∀ q ∈ l₁.map Prod.fst, P q := by
    intro l₁
    induction l₁ using List.reverseRecOn with
    | nil => exact fun _ _ q hq => nomatch hq
    | append_singleton l₁ p ih =>
      intro l₂ hl q hq
      rw [append_assoc, singleton_append] at hl
      have hbefore := ih (p :: l₂) hl
      rw [map_append, mem_append, map_singleton, mem_singleton] at hq
      rcases hq with hq | rfl
      · exact hbefore q hq
      · refine step p.1 p.2 (by simp [hl]) fun q' hq' hlt => hbefore q' ?_
        rw [hl] at hordered hq'
        exact (mem_before hordered hq').mpr hlt
  exact hprefix _ [] (append_nil _).symm

/-- **When `initRls` hides the intended rows**: if and only if hiding the intended rows of
later tables changes no judgement. -/
theorem initRls_intended_iff (h : initRls x depth rls target = .ok ctx)
    (hint : Intended rls x depth hidden) :
    hiddenIn ctx.selectHidden = hidden ↔ LaterIrrelevant rls x depth hidden := by
  have honly := initRls_only h
  constructor
  · rintro rfl q t rid values hrow
    rw [hint.judged q t rid values hrow, initRls_judged h hrow]
  · intro hlater
    have hall : ∀ q ∈ (enforcedTables x rls).map Prod.fst,
        hiddenIn ctx.selectHidden q = hidden q := by
      refine enforced_induction fun q t _ hbefore => ?_
      -- the tables before this one are filtered as intended
      have hsame : hiddenBefore (hiddenIn ctx.selectHidden) q = hiddenBefore hidden q := by
        funext q'
        refine ite_congr rfl (fun hlt => ?_) fun _ => rfl
        refine honly.eq_of_rows hint.only fun t' rid values hrow => ?_
        rw [hbefore q' (mem_map.mpr ⟨(q', t'), mem_enforced_iff.mpr hrow.toFiltered, rfl⟩) hlt]
      refine honly.eq_of_rows hint.only fun t' rid values hrow => ?_
      have hjudged := initRls_judged h hrow
      rw [hsame, ← hlater q t' rid values hrow] at hjudged
      exact mem_iff_of_judged hjudged (hint.judged q t' rid values hrow)
    funext q
    refine honly.eq_of_rows hint.only fun t rid values hrow => ?_
    rw [hall q (mem_map.mpr ⟨(q, t), mem_enforced_iff.mpr hrow.toFiltered, rfl⟩)]

/-- Policies that name earlier tables do not depend on what is hidden in later ones. -/
theorem PoliciesName.laterIrrelevant (hnames : PoliciesName rls x fun q' q => compare q' q = .lt)
    (honly : OnlyFiltered rls x hidden) : LaterIrrelevant rls x depth hidden := by
  intro q t rid values hrow
  refine passesUnder_congr hnames hrow.toFiltered (fun q' t' ht' hbefore rid _ => ?_) values
  by_cases hfiltered : Filtered rls x q' t'
  · rw [hiddenBefore, if_pos (hbefore hfiltered)]
  · rw [hiddenBefore, honly.eq_empty ht' hfiltered, ite_self]

/-! ### Other names -/

variable {x' : QueryExec C} {ρ : QualifiedName ≃ QualifiedName}

/-- The intended rows are the same under other names. -/
theorem Intended.rename (hρ : Renamed rls x depth ρ x') (h : Intended rls x depth hidden) :
    Intended rls x' depth fun q => hidden (ρ.symm q) where
  judged q t' rid values hrow := by
    have hq := hρ (ρ.symm q)
    rw [ρ.apply_symm_apply, hrow.found] at hq
    cases ht : x.tables[ρ.symm q]? <;> simp only [ht] at hq
    next t =>
    obtain ⟨hrows, henf, hpolicies⟩ := hq
    have hold : t.rows[rid]? = some values := hrows ▸ hrow.row
    rw [hpolicies _ rid values hold]
    simp only [ρ.symm_apply_apply]
    exact h.judged _ t rid values ⟨⟨ht, henf ▸ hrow.enforced⟩, hold⟩
  only q rid hrid := by
    obtain ⟨t, values, hrow⟩ := h.only (ρ.symm q) rid hrid
    have hq := hρ (ρ.symm q)
    rw [ρ.apply_symm_apply, hrow.found] at hq
    cases ht' : x'.tables[q]? <;> simp only [ht'] at hq
    next t' =>
    obtain ⟨hrows, henf, -⟩ := hq
    exact ⟨t', values, ⟨ht', henf.trans hrow.enforced⟩, hrows ▸ hrow.row⟩

end

/-- **The hidden rows are the intended ones**, which acyclic policies determine, if and only
if hiding the intended rows of later tables changes no judgement; so it is under all names
of the tables. It is enough that every policy names earlier tables only. -/
theorem hidden_rows_intended_iff (rls : RlsEnv) (x : QueryExec C) (depth : Nat)
    (hacyclic : Acyclic rls x) (hidden : QualifiedName → ExtTreeSet String)
    (hint : Intended rls x depth hidden) :
    (∀ hidden', Intended rls x depth hidden' → hidden' = hidden) ∧
    (∀ target ctx, initRls x depth rls target = .ok ctx →
      (hiddenIn ctx.selectHidden = hidden ↔ LaterIrrelevant rls x depth hidden)) ∧
    (∀ (ρ : QualifiedName ≃ QualifiedName) (x' : QueryExec C) target ctx,
      Renamed rls x depth ρ x' → initRls x' depth rls target = .ok ctx →
        ((∀ q, hiddenIn ctx.selectHidden (ρ q) = hidden q) ↔
          LaterIrrelevant rls x' depth fun q => hidden (ρ.symm q))) ∧
    ((PoliciesName rls x fun q' q => compare q' q = .lt) →
      LaterIrrelevant rls x depth hidden) := by
  refine ⟨fun hidden' h' => intended_unique hacyclic h' hint,
    fun target ctx h => initRls_intended_iff h hint, fun ρ x' target ctx hρ h => ?_,
    fun hnames => hnames.laterIrrelevant hint.only⟩
  rw [← initRls_intended_iff h (hint.rename hρ)]
  constructor
  · intro hall
    funext q
    rw [← hall, ρ.apply_symm_apply]
  · intro hall q
    simp only [hall, ρ.symm_apply_apply]

end

/-! ### A policy over another table -/

/-- `SELECT id FROM members`. -/
def allMembers : Query :=
  .mk false [] (.select (.mk false [.expr (.ident "id") none]
    [.mk (.table ⟨none, "members", none, []⟩) []] none [] none)) [] none none

/-- A role with a policy that asks for a row of `members`. -/
def memberRls : RlsEnv where
  username := "authenticated"
  parseExpr text :=
    if text = "EXISTS (SELECT id FROM members)" then .ok (.existsSubquery allMembers false)
    else annRls.parseExpr text

def membersName : QualifiedName := ⟨"public", "members"⟩

/-- Anyone sees their own membership. -/
def members : LoadedTable plainCrates :=
  notesOf (notesTable "members" [usingPolicy .select "owner = 'ann'"]) [("n:2", note 2 "bob")]

/-- Members see the notes in a table of some name. -/
def memberNotes (name : String) : LoadedTable plainCrates :=
  notesOf (notesTable name [usingPolicy .select "EXISTS (SELECT id FROM members)"])
    [("n:1", note 1 "ann")]

def memberExec (name : String) : QueryExec plainCrates :=
  notesExec [(membersName, members), (⟨"public", name⟩, memberNotes name)]

/-- What Ann should not see: the membership of another user, and the note. -/
def memberHidden (name : String) : QualifiedName → ExtTreeSet String := fun q =>
  if q = membersName then (∅ : ExtTreeSet String).insert "n:2"
  else if q = ⟨"public", name⟩ then (∅ : ExtTreeSet String).insert "n:1" else ∅

theorem memberExec_tables (name : String) (q : QualifiedName) :
    (memberExec name).tables[q]? = if q = membersName then some members
      else if q = ⟨"public", name⟩ then some (memberNotes name) else none := by
  simp only [memberExec, notesExec, foldr_cons, foldr_nil, getElem?_insert,
    Std.compare_eq_iff_eq, eq_comm (a := q), getElem?_empty]

theorem memberExec_cases {name : String} {q : QualifiedName} {t : LoadedTable plainCrates}
    (ht : (memberExec name).tables[q]? = some t) : (q = membersName ∧ t = members) ∨
      (q ≠ membersName ∧ q = ⟨"public", name⟩ ∧ t = memberNotes name) := by
  rw [memberExec_tables] at ht
  split at ht
  · exact .inl ⟨‹_›, (Option.some.inj ht).symm⟩
  · split at ht
    · exact .inr ⟨‹_›, ‹_›, (Option.some.inj ht).symm⟩
    · cases ht

/-- The row of a table with a single one. -/
theorem rows_notesOf {table : Table} {id rid : String} {row values : RowValues plainCrates}
    (h : (notesOf table [(id, row)]).rows[rid]? = some values) : rid = id ∧ values = row := by
  simp only [notesOf, foldr_cons, foldr_nil, getElem?_insert, Std.compare_eq_iff_eq] at h
  split at h
  · exact ⟨Eq.symm ‹_›, (Option.some.inj h).symm⟩
  · simp at h

/-- The policies name `members` at most. -/
theorem memberExec_named {name : String} {before : QualifiedName → QualifiedName → Prop}
    (hname : (memberExec name).catalog.resolveTableName none "members" = some membersName)
    (hbefore : before membersName ⟨"public", name⟩) :
    PoliciesName memberRls (memberExec name) before := by
  intro q t ht
  rcases memberExec_cases ht.found with ⟨rfl, rfl⟩ | ⟨-, rfl, rfl⟩
  · refine ⟨fun _ => False, ⟨fun n hn => hn.elim, fun n hn => hn.elim,
      fun f hf => absurd hf not_mem_nil⟩, ?_⟩
    intro policies hp p hmem _ e he
    cases hp
    obtain rfl := mem_singleton.mp hmem
    cases he
    simp [annOwns, SqlExpr.names, Within]
  · refine ⟨fun m => m = .table (none, "members"), ⟨?_, ?_,
      fun f hf => absurd hf not_mem_nil⟩, ?_⟩
    · rintro n hn q' t' hq' -
      cases hn
      cases hname.symm.trans hq'
      exact hbefore
    · rintro n - view query - hquery
      cases hquery
    · intro policies hp p hmem _ e he
      obtain rfl : [⟨.select, true, some (.existsSubquery allMembers false), none⟩] =
        policies := Except.ok.inj hp
      obtain rfl := mem_singleton.mp hmem
      cases he
      have hnames : (SqlExpr.existsSubquery allMembers false).names =
          [.table (none, "members")] := by decide +kernel
      exact fun n hn => mem_singleton.mp (hnames ▸ hn)

/-- How the policy judges the note, with the membership hidden or not. -/
def noteJudged (name : String) (b : Bool) : Option Bool :=
  (passesUnder memberRls (memberExec name) 8
    (fun _ => if b then (∅ : ExtTreeSet String).insert "n:2" else ∅)
    (memberNotes name).table (note 1 "ann")).toOption

/-- The table of notes has a name of its own, and the policies judge both rows as meant. -/
structure MemberNames (name : String) : Prop where
  resolves : (memberExec name).catalog.resolveTableName none "members" = some membersName
  apart : (⟨"public", name⟩ : QualifiedName) ≠ membersName
  judgesNote : ∀ b, noteJudged name b = some !b
  judgesMember : (passesUnder memberRls (memberExec name) 8 (fun _ => ∅) members.table
    (note 2 "bob")).toOption = some false

namespace MemberNames

variable {name name' : String} (h : MemberNames name)
include h

theorem named {before : QualifiedName → QualifiedName → Prop}
    (hbefore : before membersName ⟨"public", name⟩) :
    PoliciesName memberRls (memberExec name) before :=
  memberExec_named h.resolves hbefore

omit h in
theorem filtered_members : Filtered memberRls (memberExec name) membersName members :=
  ⟨by rw [memberExec_tables, if_pos rfl], rfl⟩

theorem filtered_notes : Filtered memberRls (memberExec name) ⟨"public", name⟩
    (memberNotes name) :=
  ⟨by rw [memberExec_tables, if_neg h.apart, if_pos rfl], rfl⟩

/-- The policy of `members` looks at no table, that of the notes at `members`. -/
theorem judged (hidden : QualifiedName → ExtTreeSet String) :
    passesUnder memberRls (memberExec name) 8 hidden members.table (note 2 "bob") = .ok false ∧
      passesUnder memberRls (memberExec name) 8 hidden (memberNotes name).table
        (note 1 "ann") = .ok (!(hidden membersName).contains "n:2") := by
  have hnames : PoliciesName memberRls (memberExec name)
      fun q' q => q' = membersName ∧ q ≠ membersName := h.named ⟨rfl, h.apart⟩
  have hfiltered : ∀ {q t}, (memberExec name).tables[q]? = some t →
      Filtered memberRls (memberExec name) q t := by
    intro q t ht
    rcases memberExec_cases ht with ⟨rfl, rfl⟩ | ⟨-, rfl, rfl⟩
    · exact filtered_members
    · exact h.filtered_notes
  constructor
  · refine (passesUnder_congr hnames filtered_members (fun q' t' ht' hq' => ?_) _).trans
      (except_toOption_eq_some.mp h.judgesMember)
    exact absurd rfl (hq' (hfiltered ht')).2
  · refine (passesUnder_congr hnames h.filtered_notes (fun q' t' ht' hq' rid hrid => ?_) _).trans
      (except_toOption_eq_some.mp (h.judgesNote ((hidden membersName).contains "n:2")))
    obtain rfl := (hq' (hfiltered ht')).1
    cases ht'.symm.trans filtered_members.found
    obtain ⟨values, hrow⟩ := Option.isSome_iff_exists.mp (isSome_getElem?_iff_mem.mpr hrid)
    obtain ⟨rfl, -⟩ := rows_notesOf hrow
    rw [← ExtTreeSet.contains_iff_mem]
    cases (hidden membersName).contains "n:2" <;> simp

/-- Ann should see neither the membership nor the note. -/
theorem intended : Intended memberRls (memberExec name) 8 (memberHidden name) where
  judged q t rid values hrow := by
    rcases memberExec_cases hrow.found with ⟨rfl, rfl⟩ | ⟨hne, rfl, rfl⟩
    · obtain ⟨rfl, rfl⟩ := rows_notesOf hrow.row
      rw [(h.judged _).1]
      simp [memberHidden]
    · obtain ⟨rfl, rfl⟩ := rows_notesOf hrow.row
      rw [(h.judged _).2]
      simp [memberHidden, h.apart]
  only q rid hrid := by
    unfold memberHidden at hrid
    split at hrid
    · next hq =>
      obtain rfl : "n:2" = rid := by simpa using hrid
      exact ⟨members, note 2 "bob", hq ▸ filtered_members, getElem?_insert_self⟩
    · split at hrid
      · next hq =>
        obtain rfl : "n:1" = rid := by simpa using hrid
        exact ⟨memberNotes name, note 1 "ann", hq ▸ h.filtered_notes, getElem?_insert_self⟩
      · simp at hrid

theorem acyclic : Acyclic memberRls (memberExec name) := by
  refine ⟨fun q => if q = membersName then 0 else 1, h.named ?_⟩
  simp [h.apart]

/-- The table of notes under another name. -/
theorem renamed (h' : MemberNames name') : Renamed memberRls (memberExec name) 8
    (Equiv.swap ⟨"public", name⟩ ⟨"public", name'⟩) (memberExec name') := by
  intro q
  have hmembers : Equiv.swap (⟨"public", name⟩ : QualifiedName) ⟨"public", name'⟩ membersName =
      membersName := Equiv.swap_apply_of_ne_of_ne h.apart.symm h'.apart.symm
  by_cases hq : q = membersName
  · subst hq
    rw [hmembers, filtered_members.found, filtered_members.found]
    refine ⟨rfl, rfl, fun hidden rid values hrow => ?_⟩
    obtain ⟨-, rfl⟩ := rows_notesOf hrow
    rw [(h.judged _).1, (h'.judged _).1]
  · by_cases hq' : q = ⟨"public", name⟩
    · subst hq'
      rw [Equiv.swap_apply_left, h.filtered_notes.found, h'.filtered_notes.found]
      refine ⟨rfl, rfl, fun hidden rid values hrow => ?_⟩
      obtain ⟨-, rfl⟩ := rows_notesOf hrow
      rw [(h.judged _).2, (h'.judged _).2, hmembers]
    · have hnone : (memberExec name).tables[q]? = none := by
        rw [memberExec_tables, if_neg hq, if_neg hq']
      have hnone' : (memberExec name').tables[Equiv.swap (⟨"public", name⟩ : QualifiedName)
          ⟨"public", name'⟩ q]? = none := by
        rw [memberExec_tables, if_neg, if_neg]
        · rw [Equiv.swap_apply_eq_iff, Equiv.swap_apply_right]
          exact hq'
        · rw [Equiv.swap_apply_eq_iff, hmembers]
          exact hq
      rw [hnone, hnone']
      trivial

end MemberNames

theorem memberNames_files : MemberNames "files" :=
  ⟨by decide +kernel, by decide, by decide +kernel, by decide +kernel⟩

theorem memberNames_notes : MemberNames "notes" :=
  ⟨by decide +kernel, by decide, by decide +kernel, by decide +kernel⟩

theorem memberNames_papers : MemberNames "papers" :=
  ⟨by decide +kernel, by decide, by decide +kernel, by decide +kernel⟩

/-- What `initRls` hides in the table of notes. -/
def memberRun (name : String) : Option (List String) :=
  (initRls (memberExec name) 8 memberRls none).toOption.map fun ctx =>
    (hiddenIn ctx.selectHidden ⟨"public", name⟩).toList

theorem memberRun_ok {name : String} {ids : List String} (h : memberRun name = some ids) :
    ∃ ctx, initRls (memberExec name) 8 memberRls none = .ok ctx ∧
      ∀ rid, rid ∈ hiddenIn ctx.selectHidden ⟨"public", name⟩ ↔ rid ∈ ids := by
  obtain ⟨ctx, hctx, hids⟩ := Option.map_eq_some_iff.mp h
  refine ⟨ctx, except_toOption_eq_some.mp hctx, fun rid => ?_⟩
  rw [← hids, ExtTreeSet.mem_toList]

/-- A table that sorts before `members` shows Ann its note on the strength of a membership
that she does not see, though the note is to be hidden; under a later name it is hidden. -/
theorem earlier_policy_sees_hidden_rows :
    Acyclic memberRls (memberExec "files") ∧
    Intended memberRls (memberExec "files") 8 (memberHidden "files") ∧
    "n:1" ∈ memberHidden "files" ⟨"public", "files"⟩ ∧
    (∃ ctx, initRls (memberExec "files") 8 memberRls none = .ok ctx ∧
      "n:1" ∉ hiddenIn ctx.selectHidden ⟨"public", "files"⟩) ∧
    Renamed memberRls (memberExec "files") 8
      (Equiv.swap ⟨"public", "files"⟩ ⟨"public", "notes"⟩) (memberExec "notes") ∧
    ∃ ctx, initRls (memberExec "notes") 8 memberRls none = .ok ctx ∧
      "n:1" ∈ hiddenIn ctx.selectHidden ⟨"public", "notes"⟩ := by
  have hfiles : memberRun "files" = some [] := by decide +kernel
  have hnotes : memberRun "notes" = some ["n:1"] := by decide +kernel
  obtain ⟨ctx, hctx, hids⟩ := memberRun_ok hfiles
  obtain ⟨ctx', hctx', hids'⟩ := memberRun_ok hnotes
  exact ⟨memberNames_files.acyclic, memberNames_files.intended, by decide +kernel,
    ⟨ctx, hctx, by simp [hids]⟩, memberNames_files.renamed memberNames_notes,
    ctx', hctx', by simp [hids']⟩

/-- Under two later names the same rows are hidden, and they are the intended ones. -/
theorem hidden_rows_intended_notes :
    ∃ ctx ctx', initRls (memberExec "notes") 8 memberRls none = .ok ctx ∧
      initRls (memberExec "papers") 8 memberRls none = .ok ctx' ∧
      hiddenIn ctx.selectHidden = memberHidden "notes" ∧
      ∀ q, hiddenIn ctx'.selectHidden (Equiv.swap ⟨"public", "notes"⟩ ⟨"public", "papers"⟩ q) =
        memberHidden "notes" q := by
  have hnotes : memberRun "notes" = some ["n:1"] := by decide +kernel
  have hpapers : memberRun "papers" = some ["n:1"] := by decide +kernel
  obtain ⟨ctx, hctx, -⟩ := memberRun_ok hnotes
  obtain ⟨ctx', hctx', -⟩ := memberRun_ok hpapers
  have hint := memberNames_notes.intended
  have hρ := memberNames_notes.renamed memberNames_papers
  obtain ⟨-, hown, hrenamed, hordered⟩ := hidden_rows_intended_iff memberRls (memberExec "notes") 8
    memberNames_notes.acyclic (memberHidden "notes") hint
  refine ⟨ctx, ctx', hctx, hctx',
    (hown none ctx hctx).mpr (hordered (memberNames_notes.named (by decide))),
    (hrenamed _ _ none ctx' hρ hctx').mpr ?_⟩
  exact (memberNames_papers.named (by decide)).laterIrrelevant (hint.rename hρ).only

end GuardianDb.Sql
