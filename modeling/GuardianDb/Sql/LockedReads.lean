/-
What SELECT ... FOR UPDATE returns under concurrent commits.

A SELECT with a waiting lock clause runs on the tables it loaded and asks for its
row locks afterwards; the rows it returns are those it read before it waited.

  * `reading_step` — a statement reads a row as committed while no write changes it.
  * `locked_read_committed` — a returned row is the committed one when its lock is
    granted, if no write since the start of the statement has changed it.
  * `stale_locked_read` — a session that waits for another one's UPDATE returns the
    row from before it.
-/
import GuardianDb.Sql.Consistent
import GuardianDb.Sql.Statements

namespace GuardianDb.Sql

open Std Relational Fallible Option

section
variable {δ κ τ ε σ ρ ν : Type}

/-! ### The rows a statement returns -/

structure Returns (E : Statements δ κ τ ε σ ρ) (ν : Type) where
  rowOf : τ → String → Option ν
  rows : ρ → List (QualifiedName × String × ν)
  rows_loaded : ∀ i stmt k tables locks out locks',
    E.dispatch i stmt k tables locks = (.ok out, locks') →
      ∀ q rid v, (q, rid, v) ∈ rows out.result → ∃ t, tables[q]? = some t ∧ rowOf t rid = some v

section
variable {E : Statements δ κ τ ε σ ρ} (V : Returns E ν)

/-- The row in some documents. -/
def Returns.rowIn (k : κ) (q : QualifiedName) (docs : List (String × δ)) (rid : String) : Option ν :=
  (E.build k q docs).toOption.bind fun t => V.rowOf t rid

def Returns.committedRow (sh : Shared δ κ τ) (q : QualifiedName) (rid : String) : Option ν :=
  (E.collectionOf (Session.committed E sh) q).bind fun c =>
    V.rowIn (Session.committed E sh) q (sh.storage.scan c) rid

/-- A write to storage leaves the committed row as it is. -/
def KeepsRow (q : QualifiedName) (rid : String) (s : State δ κ τ σ ρ) (a : SessionId × Move δ σ) :
    Prop :=
  ∀ b m rest save r, (s.sessions a.1).phase = .writing b (m :: rest) save r → a.2 = .next →
    V.committedRow { s.shared with storage := m.apply s.shared.storage } q rid =
      V.committedRow s.shared q rid

/-- Session `i` runs a statement since the counter of `c` was `g₀`, and the row has
been `v₀` in storage ever since. -/
structure Reading (K : κ) (i : SessionId) (q : QualifiedName) (c rid : String) (g₀ : Nat)
    (v₀ : Option ν) (s : State δ κ τ σ ρ) : Prop where
  row : V.rowIn K q (s.shared.storage.scan c) rid = v₀
  later : g₀ ≤ s.shared.storage.generation c
  cache : ∀ g t, s.shared.tableCache[c]? = some (g, t) → g₀ ≤ g → V.rowOf t rid = v₀
  scans : ∀ j g docs, (s.sessions j).phase.scan? = some (c, g, docs) → g₀ ≤ g →
    V.rowIn K q docs rid = v₀
  mine : ∀ l, (s.sessions i).phase.load? = some l → ∀ t, l.tables[q]? = some t →
    V.rowOf t rid = v₀
  counter : ∀ g, (s.sessions i).phase.counter? = some (c, g) → g₀ ≤ g
  unstaged : ∀ l, (s.sessions i).phase.load? = some l → ∀ txn, (s.sessions i).txn = some txn →
    c ∉ txn.truncated ∧ txn.overlay[c]? = none

variable {V} {K : κ} {q : QualifiedName} {c rid : String} {g₀ : Nat} {v₀ : Option ν}

theorem Returns.rowIn_of_build {k : κ} {docs : List (String × δ)} {t : τ}
    (hsame : SameViews E K k) (hbuild : E.build k q docs = .ok t) :
    V.rowIn K q docs rid = V.rowOf t rid := by
  rw [Returns.rowIn, (hsame q).2, hbuild]
  rfl

variable {sh : Shared δ κ τ}

theorem Returns.committedRow_eq (hsame : SameViews E K (Session.committed E sh))
    (hq : E.collectionOf K q = some c) :
    V.committedRow sh q rid = V.rowIn K q (sh.storage.scan c) rid := by
  rw [Returns.committedRow, ← (hsame q).1, hq, bind_some, Returns.rowIn, Returns.rowIn,
    (hsame q).2]

/-- What a session is about to return comes from its tables. -/
def Answers (V : Returns E ν) (me : Session δ κ τ σ ρ) : Prop :=
  ∀ l out todo, me.phase = .acquiring l out todo → ∀ q rid v, (q, rid, v) ∈ V.rows out.result →
    ∃ t, l.tables[q]? = some t ∧ V.rowOf t rid = some v

variable {i : SessionId} {sh' : Shared δ κ τ} {me me' : Session δ κ τ σ ρ} {m : Move δ σ}

theorem answers_moved (hmoved : Session.Moved E i sh me m sh' me') (h : Answers V me) :
    Answers V me' := by
  intro l out todo hout q rid v hv
  cases hmoved with
  | waited | began | rolledBack => exact h l out todo hout q rid v hv
  | ran l' out' locks hphase htodo hrun =>
    cases hout
    exact V.rows_loaded i l.stmt l.catalog l.tables sh.locks out locks hrun q rid v hv
  | acquired locks l' out' object mode scope todo' hphase =>
    cases hout
    exact h l out _ hphase q rid v hv
  | _ => cases hout

/-- Without staged writes a transaction reads what is committed. -/
theorem documents_of_unstaged
    (h : ∀ txn, me.txn = some txn → c ∉ txn.truncated ∧ txn.overlay[c]? = none) :
    me.documents sh c = sh.storage.scan c := by
  unfold Session.documents
  split
  · next txn htxn =>
    obtain ⟨htrunc, hov⟩ := h txn htxn
    split
    · -- only the schema is dirty: the merge changes nothing
      have hno : txn.truncated.contains c = false :=
        Bool.eq_false_iff.mpr fun hc => htrunc (ExtTreeSet.contains_iff_mem.mp hc)
      have hrows : txn.rows c = ∅ := by
        rw [Transaction.rows, hov]
        rfl
      rw [hno, hrows, merged]
      have hempty : (∅ : ExtTreeMap String (Option δ)).toList = [] := by simp
      change (merge ∅ _).toList = _
      rw [if_neg (by simp), MemoryStorage.scan, merge_toList]
    · rfl
  · rfl

variable {s : State δ κ τ σ ρ}

/-- A view that a session loads has the row, whether it comes from the cache or from
documents. -/
theorem reading_mine (hm : m = .next ∨ m = .fail)
    (hmoved : Session.Moved E i s.shared (s.sessions i) m sh' me') (hK : Consistent E K s)
    (hq : E.collectionOf K q = some c) (h : Reading V K i q c rid g₀ v₀ s) :
    ∀ l', me'.phase.load? = some l' →
      (∀ t, l'.tables[q]? = some t → V.rowOf t rid = v₀) ∧
        (∀ txn, me'.txn = some txn → c ∉ txn.truncated ∧ txn.overlay[c]? = none) := by
  have hstep := hK.sessions i
  have hcollection : ∀ {c'}, (s.sessions i).phase.target? = some (q, c') → c' = c := fun ht =>
    Option.some.inj ((hstep.target q _ ht).symm.trans hq)
  intro l' hl'
  cases load_moved hmoved hl' with
  | fresh stmt hstart =>
    subst hstart
    rcases hm with hm | hm <;> cases hm
  | kept l hl _ htxn htables =>
    rw [htables, htxn]
    exact ⟨h.mine l hl, h.unstaged l hl⟩
  | added l q' t' hl _ htxn htables hview =>
    rw [htxn]
    refine ⟨fun t ht => ?_, h.unstaged l hl⟩
    rcases htables q t ht with hold | ⟨rfl, rfl⟩
    · exact h.mine l hl t hold
    have hsame := (hstep.load l hl).catalog
    cases hview with
    | read c' hc hbuild =>
      obtain rfl : c' = c := Option.some.inj (hc.symm.trans ((hsame q).1.symm.trans hq))
      rw [documents_of_unstaged (h.unstaged l hl)] at hbuild
      rw [← Returns.rowIn_of_build hsame hbuild]
      exact h.row
    | scanned c' g docs htarget hcounter hscan hbuild =>
      obtain rfl := hcollection htarget
      rw [← Returns.rowIn_of_build hsame hbuild]
      exact h.scans i g docs hscan (h.counter g hcounter)
    | cached c' g g' htarget hcounter hentry hle =>
      obtain rfl := hcollection htarget
      exact h.cache g' t hentry ((h.counter g hcounter).trans hle)

/-- A counter that session `i` reads is not older than its statement. -/
theorem reading_counter (hmoved : Session.Moved E i s.shared (s.sessions i) m sh' me')
    (h : Reading V K i q c rid g₀ v₀ s) : ∀ g, me'.phase.counter? = some (c, g) → g₀ ≤ g := by
  intro g hg
  rcases counter_moved hmoved hg with hold | rfl
  · exact h.counter g hold
  · exact h.later

variable {s' : State δ κ τ σ ρ} {a : SessionId × Move δ σ}

/-- The cache and the row in storage after a move. -/
theorem reading_shared
    (hmoved : Session.Moved E a.1 s.shared (s.sessions a.1) a.2 sh' me')
    (hrow : KeepsRow V q rid s a) (hK : Consistent E K s) (hq : E.collectionOf K q = some c)
    (h : Reading V K i q c rid g₀ v₀ s) : V.rowIn K q (sh'.storage.scan c) rid = v₀ ∧
      ∀ g t, sh'.tableCache[c]? = some (g, t) → g₀ ≤ g → V.rowOf t rid = v₀ := by
  refine ⟨?_, fun g t hentry hg => ?_⟩
  · generalize hmove : a.2 = m at hmoved
    cases hmoved with
    | wrote commit w rest save result hphase =>
      have hkeep := hrow commit w rest save result hphase hmove
      have hsame : SameViews E K (Session.committed E { s.shared with
          storage := w.apply s.shared.storage }) := by
        rw [committed_apply]
        exact hK.committed
      rw [Returns.committedRow_eq hK.committed hq, Returns.committedRow_eq hsame hq,
        h.row] at hkeep
      exact hkeep
    | _ => exact h.row
  · rcases entry_moved hmoved hentry with hold | ⟨-, l, q', docs, hphase, hbuild, -⟩
    · exact h.cache g t hold hg
    · have hme := hK.sessions a.1
      have htarget := hme.target q' c (by rw [hphase]; rfl)
      obtain rfl := E.collectionOf_inj K q' q c htarget hq
      rw [← Returns.rowIn_of_build (hme.load l (by rw [hphase]; rfl)).catalog hbuild]
      exact h.scans a.1 g docs (by rw [hphase]; rfl) hg

/-- **While no write changes the row, a statement reads it as committed.** -/
theorem reading_step (hstep : s.step E a = some s') (hrow : KeepsRow V q rid s a)
    (hown : a.1 = i → a.2 = .next ∨ a.2 = .fail) (hK : Consistent E K s)
    (hq : E.collectionOf K q = some c) (h : Reading V K i q c rid g₀ v₀ s) :
    Reading V K i q c rid g₀ v₀ s' := by
  obtain ⟨hmoved, hothers⟩ := State.step_moved hstep
  obtain ⟨hrow', hcache'⟩ := reading_shared hmoved hrow hK hq h
  have hlater := (later_moved hmoved c).1
  have hscans : ∀ j g docs, (s'.sessions j).phase.scan? = some (c, g, docs) → g₀ ≤ g →
      V.rowIn K q docs rid = v₀ := by
    intro j g docs hscan hg
    by_cases hj : j = a.1
    · subst hj
      rcases scan_moved hmoved hscan with hold | rfl
      · exact h.scans a.1 g docs hold hg
      · exact h.row
    · rw [hothers j hj] at hscan
      exact h.scans j g docs hscan hg
  by_cases hi : a.1 = i
  · subst hi
    have hmine := reading_mine (hown rfl) hmoved hK hq h
    exact ⟨hrow', h.later.trans hlater, hcache', hscans, fun l hl => (hmine l hl).1,
      reading_counter hmoved h, fun l hl => (hmine l hl).2⟩
  · have hsame := hothers i (Ne.symm hi)
    refine ⟨hrow', h.later.trans hlater, hcache', hscans, ?_, ?_, ?_⟩ <;> rw [hsame]
    · exact h.mine
    · exact h.counter
    · exact h.unstaged

/-- A statement under way: `start` is what was shared when it began. -/
structure Following (V : Returns E ν) (K : κ) (i : SessionId) (q : QualifiedName) (rid : String)
    (start : Shared δ κ τ) (s : State δ κ τ σ ρ) : Prop where
  consistent : Consistent E K s
  answers : Answers V (s.sessions i)
  reading : ∀ c, E.collectionOf K q = some c →
    Reading V K i q c rid (start.storage.generation c) (V.committedRow start q rid) s

theorem following_step {start : Shared δ κ τ} (hstep : s.step E a = some s')
    (hP : KeepsViews E s a ∧ KeepsRow V q rid s a ∧ (a.1 = i → a.2 = .next ∨ a.2 = .fail))
    (h : Following V K i q rid start s) : Following V K i q rid start s' := by
  obtain ⟨hviews, hrow, hown⟩ := hP
  refine ⟨consistent_step hstep hviews h.consistent, ?_, fun c hc =>
    reading_step hstep hrow hown h.consistent hc (h.reading c hc)⟩
  obtain ⟨hmoved, hothers⟩ := State.step_moved hstep
  by_cases hi : a.1 = i
  · subst hi
    exact answers_moved hmoved h.answers
  · rw [hothers i (Ne.symm hi)]
    exact h.answers

/-- A statement starts. -/
theorem following_start {stmt : σ} (hstep : s.step E (i, .start stmt) = some s')
    (h : Consistent E K s)
    (hunstaged : ∀ txn, (s.sessions i).txn = some txn → ∀ c, E.collectionOf txn.catalog q = some c →
      c ∉ txn.truncated ∧ txn.overlay[c]? = none) : Following V K i q rid s.shared s' := by
  have h' : Consistent E K s' := by
    refine consistent_step hstep (fun l out locks _ hnext => ?_) h
    cases hnext
  obtain ⟨hsh, htxn, k, hphase, -⟩ := State.step_start hstep
  refine ⟨h', fun l out todo hacq => ?_, fun c hc => ?_⟩
  · rw [hphase] at hacq
    cases hacq
  · have hrow : V.committedRow s.shared q rid = V.rowIn K q (s.shared.storage.scan c) rid :=
      Returns.committedRow_eq h.committed hc
    refine ⟨?_, by rw [hsh], fun g t hentry hg => ?_, fun j g docs hscan hg => ?_, fun l hl t ht => ?_,
      fun g hg => ?_, fun l hl txn htxn' => ?_⟩
    · rw [hsh, hrow]
    · -- a cached view that is not older than the statement is current
      rw [hsh] at hentry
      obtain ⟨hle, hview⟩ := h.cache c g t hentry
      rw [hrow]
      exact (Returns.rowIn_of_build (.refl K) (hview (Nat.le_antisymm hle hg) q hc)).symm
    · have hstep' := h'.sessions j
      have hle := hstep'.counter c g (Phase.counter?_of_scan? hscan)
      rw [hsh] at hle hstep'
      rw [hrow, ← hstep'.scan c g docs hscan (Nat.le_antisymm hle hg)]
    · rw [hphase] at hl
      cases hl
      simp at ht
    · rw [hphase] at hg
      cases hg
    · rw [htxn] at htxn'
      refine hunstaged txn htxn' c ?_
      rw [← ((h.sessions i).txn txn htxn' q).1]
      exact hc

/-- **A row that a statement returns is the committed one** as long as no write since
its start has changed it; in particular when its last row lock is granted. The run
has an exact change counter and changes no table definition, and the transaction
of the statement has not itself written to the table. -/
theorem locked_read_committed (V : Returns E ν) (s₀ s₁ s₁' s₂ : State δ κ τ σ ρ)
    (hcache : s₀.shared.tableCache = ∅)
    (hidle : ∀ j, (s₀.sessions j).phase = .idle ∧ (s₀.sessions j).txn = none)
    (before after : List (SessionId × Move δ σ))
    (hbefore : Run.run (State.step E) s₀ before = some s₁)
    (hviews : Run.Along (State.step E) (KeepsViews E) s₀ before) (i : SessionId) (stmt : σ)
    (q : QualifiedName) (rid : String) (hstart : s₁.step E (i, .start stmt) = some s₁')
    (hunstaged : ∀ txn, (s₁.sessions i).txn = some txn → ∀ c, E.collectionOf txn.catalog q = some c →
      c ∉ txn.truncated ∧ txn.overlay[c]? = none)
    (hafter : Run.run (State.step E) s₁' after = some s₂)
    (hkeeps : Run.Along (State.step E) (fun s a => KeepsViews E s a ∧ KeepsRow V q rid s a ∧
      (a.1 = i → a.2 = .next ∨ a.2 = .fail)) s₁' after) :
    ∀ l out todo, (s₂.sessions i).phase = .acquiring l out todo →
      ∀ v, (q, rid, v) ∈ V.rows out.result → V.committedRow s₂.shared q rid = some v := by
  have hK : Consistent E (Session.committed E s₀.shared) s₁ := by
    refine Run.run_invariant (fun s a s' hs hP h => consistent_step hs hP h) hviews ?_ hbefore
    exact consistent_fresh hcache hidle
  have hfinal : Following V (Session.committed E s₀.shared) i q rid s₁.shared s₂ :=
    Run.run_invariant (fun s a s' hs hP h => following_step hs hP h) hkeeps
      (following_start hstart hK hunstaged) hafter
  intro l out todo hacq v hv
  obtain ⟨t, ht, hrow⟩ := hfinal.answers l out todo hacq q rid v hv
  have hload : (s₂.sessions i).phase.load? = some l := by
    rw [hacq]
    rfl
  obtain ⟨c, hc⟩ := ((hfinal.consistent.sessions i).load l hload).tables q t ht
  have hread := hfinal.reading c hc
  rw [Returns.committedRow_eq hfinal.consistent.committed hc, hread.row, ← hread.mine l hload t ht,
    hrow]

end

end

section
variable {C : Crates} {δ : Type}

/-! ### The rows of a SELECT -/

/-- A row with an id is that row of the base table. -/
def Sourced (x : SelectExec C) (r : TableRef) (row : Option String × Tuple C) : Prop :=
  ∀ rid, row.1 = some rid → ∃ q t values, x.baseTable r = some (q, t) ∧
    t.rows[rid]? = some values ∧ row.2 = rowTuple t.table values

variable {x : SelectExec C} {q : QualifiedName} {row : Option String × Tuple C}

theorem sourced_tupleRows {r : TableRef} {t : LoadedTable C} (hbase : x.baseTable r = some (q, t))
    {ids : List String} (h : row ∈ tupleRows t ids) :
    Sourced x r row := by
  intro rid hrid
  obtain ⟨id, -, hrow⟩ := List.mem_filterMap.mp h
  obtain ⟨values, hvalues, rfl⟩ := map_eq_some_iff.mp hrow
  cases hrid
  exact ⟨q, t, values, hbase, hvalues, rfl⟩

theorem sourced_unsourced {r : TableRef} {rs : RowSet C}
    (h : row ∈ rs.unsourced.rows) : Sourced x r row := by
  intro rid hrid
  obtain ⟨tuple, -, rfl⟩ := List.mem_map.mp h
  cases hrid

variable {sel : Select C}

theorem sourced_annGrow {outer : List (Frame C)} {t : LoadedTable C}
    (hbase : x.baseTable sel.relation = some (q, t)) {plan : AnnPlan} {fetch : Nat}
    {hfetch : 0 < fetch} {rs : Candidates C}
    (h : x.annGrow sel outer q t plan fetch hfetch = .ok (some rs)) :
    ∀ row ∈ rs.rows, Sourced x sel.relation row := by
  fun_induction SelectExec.annGrow x sel outer q t plan fetch hfetch with
  | case1 fetch hfetch hnone => cases h
  | case2 fetch hfetch ranked hranked exhausted schema ih =>
    obtain ⟨survivors, -, h⟩ := except_bind_ok.mp h
    split at h
    · cases h
      intro row hrow
      rcases List.mem_append.mp hrow with hrow | hrow <;> exact sourced_tupleRows hbase hrow
    · split at h
      · cases h
      · next hgrow => exact ih hgrow h

theorem sourced_chooseScan {outer : List (Frame C)} {kind : SelectExec.ScanKind} {rs : Candidates C}
    (h : x.chooseScan sel outer = .ok (kind, rs)) :
    ∀ row ∈ rs.rows, Sourced x sel.relation row := by
  obtain ⟨ann, hann, h⟩ := except_bind_ok.mp h
  cases ann with
  | some found =>
    cases h
    unfold SelectExec.tryAnnScan at hann
    split at hann
    · next plan q t _ hbase => exact sourced_annGrow hbase hann
    · cases hann
  | none =>
    cases hidx : x.tryIndexScan sel outer with
    | some found =>
      rw [hidx] at h
      cases h
      obtain ⟨⟨q, t⟩, hbase, hidx⟩ := bind_eq_some_iff.mp hidx
      obtain ⟨selection, -, hidx⟩ := bind_eq_some_iff.mp hidx
      obtain ⟨ids, -, hidx⟩ := bind_eq_some_iff.mp hidx
      cases hidx
      exact fun row hrow => sourced_tupleRows hbase hrow
    | none =>
      rw [hidx] at h
      dsimp only at h
      unfold SelectExec.execTableFactor at h
      split at h
      · cases h
        exact fun row hrow => sourced_unsourced hrow
      · split at h
        · cases h
          exact fun row hrow => sourced_unsourced hrow
        · split at h
          · next q t hbase =>
            cases h
            exact fun row hrow => sourced_tupleRows hbase hrow
          · obtain ⟨rs', -, h⟩ := except_map_ok.mp h
            cases h
            exact fun row hrow => sourced_unsourced hrow

/-- What the preparation pass does not touch. -/
def inputs (x : SelectExec C) : Catalog × ExtTreeMap QualifiedName (LoadedTable C) :=
  (x.catalog, x.tables)

theorem keeps_lockRow (clause : LockClause) (q : QualifiedName) (oid : Nat) (rid : String) :
    (lockRow clause q oid rid : SelectM C Bool).Keeps inputs := by
  have htry : ∀ object mode scope, (tryLock object mode scope : SelectM C Bool).Keeps inputs :=
    fun _ _ _ _ => rfl
  unfold lockRow
  cases clause.policy with
  | wait => exact Fallible.Keeps.bind (fun _ => rfl) fun _ => .pure _ _
  | noWait =>
    refine (htry _ _ _).bind fun b => ?_
    cases b with
    | true => exact .pure _ _
    | false => exact fun _ => rfl
  | skipLocked => exact htry _ _ _

theorem keeps_lockRows (sel : Select C) (clause : LockClause) (q : QualifiedName) (table : Table) :
    ∀ rows : List (String × RowValues C), (lockRows sel clause q table rows).Keeps inputs
  | [] => .pure _ _
  | row :: rows => by
      have ih := keeps_lockRows sel clause q table rows
      rw [lockRows]
      refine Fallible.Keeps.bind (.get _) fun x => Fallible.Keeps.bind (.ofExcept _ _) fun b => ?_
      cases b with
      | false => exact ih
      | true =>
        refine (keeps_lockRow clause q table.oid row.1).bind fun granted => ?_
        cases granted with
        | false => exact ih
        | true => exact ih.bind fun _ => .pure _ _

theorem keeps_prepareForUpdate (sel : Select C) (clause : Option LockClause) :
    (prepareForUpdate sel clause).Keeps inputs := by
  cases clause with
  | none => exact .pure _ _
  | some clause =>
    refine Fallible.Keeps.bind (.get _) fun x => Fallible.Keeps.bind (.ofExcept _ _) fun qt => ?_
    refine (keeps_lockRows sel clause qt.1 qt.2 _).bind fun allow => ?_
    split
    · exact fun _ => rfl
    · exact .pure _ _

/-- What a SELECT returns comes from the tables it was given. -/
theorem sourced_execSelectQuery {x' : SelectExec C} {clause : Option LockClause}
    {arr : Arrangement C} {out : SelectExec.ScanKind × List (Option String × Tuple C)}
    (h : (execSelectQuery sel clause arr).exec x = (.ok out, x')) :
    ∀ row ∈ out.2, Sourced x sel.relation row := by
  obtain ⟨_, x₁, hprep, h⟩ := bind_ok.mp h
  obtain ⟨x₂, x₃, hget, h⟩ := bind_ok.mp h
  cases hget
  obtain ⟨found, _, hfound, h⟩ := bind_ok.mp h
  obtain ⟨hrows, rfl⟩ := Prod.mk.inj hfound
  cases h
  obtain ⟨⟨kind, rs⟩, hscan, hrows⟩ := except_bind_ok.mp hrows
  obtain ⟨kept, hwhere, hrows⟩ := except_bind_ok.mp hrows
  cases hrows
  have hinputs : inputs x' = inputs x := by
    have hkeep := keeps_prepareForUpdate sel clause x
    rw [hprep] at hkeep
    exact hkeep
  intro row hrow rid hrid
  have hmem := ((SelectExec.mem_applyWhere hwhere row).mp (arr.mem_of_mem _ row hrow)).1
  obtain ⟨q, t, values, hbase, hvalues, htuple⟩ := sourced_chooseScan hscan row hmem rid hrid
  refine ⟨q, t, values, ?_, hvalues, htuple⟩
  rw [← hbase, SelectExec.baseTable, SelectExec.baseTable, (Prod.mk.inj hinputs).1,
    (Prod.mk.inj hinputs).2]

variable {k : CatalogDoc} {tables : ExtTreeMap QualifiedName (LoadedTable C)}
  {out : Produced δ CatalogDoc (Answer C)}

/-- INSERT, UPDATE and DELETE answer with what they wrote. -/
theorem runDml_ok {m : Dml C δ (List (RowValues C))} (h : runDml k tables m = .ok out) :
    ∃ rows x, m.exec (DmlExec.new k tables) = (.ok rows, x) ∧
      out = ⟨.written rows x.drawn, x.pendingLocks, x.mutations,
        k.withSequences x.catalog.sequences, x.catalogDirty⟩ := by
  unfold runDml at h
  split at h
  · cases h
  · next rows x hrun => simp_all

/-- The rows of the answers of SQL statements. -/
def answerRows : Answer C → List (QualifiedName × String × Tuple C)
  | .rows (some q) rows => rows.filterMap fun row => row.1.map fun rid => (q, rid, row.2)
  | _ => []

variable {base : SelectExec C}

theorem answerRows_loaded {decode : RowDecoder C δ} {env : DmlEnv C δ} {i : SessionId}
    {stmt : Stmt C δ} {locks locks' : Inner}
    (h : (sqlStatements decode env base).dispatch i stmt k tables locks = (.ok out, locks'))
    {rid : String} {v : Tuple C} (hv : (q, rid, v) ∈ answerRows out.result) :
    ∃ t : LoadedTable C, tables[q]? = some t ∧ (t.rows[rid]?).map (rowTuple t.table) = some v := by
  have hdml : ∀ m : Dml C δ (List (RowValues C)), runDml k tables m ≠ .ok out := by
    intro m hm
    obtain ⟨rows, x, -, rfl⟩ := runDml_ok hm
    cases hv
  cases stmt with
  | select sel clause arr reads =>
    change runSelect base i k tables locks sel clause arr = _ at h
    unfold runSelect at h
    split at h
    · cases h
    · next found x hrun =>
      cases h
      unfold answerRows at hv
      split at hv
      · next q' rows hanswer =>
        obtain ⟨hq', rfl⟩ := Answer.rows.inj hanswer
        obtain ⟨row, hrow, hrid⟩ := List.mem_filterMap.mp hv
        obtain ⟨rid', hrid', heq⟩ := map_eq_some_iff.mp hrid
        cases heq
        obtain ⟨q₀, t, values, hbase, hvalues, htuple⟩ :=
          sourced_execSelectQuery hrun row hrow rid hrid'
        obtain ⟨q₁, hq₁, hbase⟩ := bind_eq_some_iff.mp hbase
        obtain ⟨t₁, ht₁, hbase⟩ := bind_eq_some_iff.mp hbase
        cases hbase
        cases hq₁.symm.trans hq'
        exact ⟨t, ht₁, by rw [hvalues, htuple]; rfl⟩
      · cases hv
  | insert | update | delete => exact absurd (Prod.mk.inj h).1 (hdml _)
  | createIndex index =>
    have hcreate := (Prod.mk.inj h).1
    split at hcreate
    · cases hcreate
    · obtain ⟨k', -, rfl⟩ := except_map_ok.mp hcreate
      cases hv

/-- Only CREATE INDEX changes what views are built from. -/
theorem sameViews_dispatch {decode : RowDecoder C δ} {env : DmlEnv C δ} {i : SessionId}
    {stmt : Stmt C δ} {locks locks' : Inner} (hstmt : ∀ index, stmt ≠ .createIndex index)
    (h : (sqlStatements decode env base).dispatch i stmt k tables locks = (.ok out, locks')) :
    SameViews (sqlStatements decode env base) k out.catalog := by
  have hdml : ∀ m : Dml C δ (List (RowValues C)), runDml k tables m = .ok out →
      SameViews (sqlStatements decode env base) k out.catalog := by
    intro m hm
    obtain ⟨rows, x, -, rfl⟩ := runDml_ok hm
    exact fun q => ⟨rfl, rfl⟩
  cases stmt with
  | select sel clause arr reads =>
    change runSelect base i k tables locks sel clause arr = _ at h
    unfold runSelect at h
    split at h
    · cases h
    · cases h
      exact .refl k
  | insert | update | delete => exact hdml _ (Prod.mk.inj h).1
  | createIndex index => exact absurd rfl (hstmt index)

def sqlReturns (decode : RowDecoder C δ) (env : DmlEnv C δ) (base : SelectExec C) :
    Returns (sqlStatements decode env base) (Tuple C) where
  rowOf t rid := (t.rows[rid]?).map (rowTuple t.table)
  rows := answerRows
  rows_loaded := fun _ _ _ _ _ _ _ hrun _ _ _ hv => answerRows_loaded hrun hv

end

/-! ### An UPDATE and a SELECT ... FOR UPDATE -/

/-- Rows are stored as they are. -/
def taskEnv : DmlEnv plainCrates TaskDoc where
  castOther := plainEnv.castOther
  evalDefault _ _ := .ok .null
  evalCheck _ _ _ := .ok none
  encodeRow _ rid values version := (rid, values, version)
  modes := none
  newRowAllowed _ _ _ _ := .ok ()
  oldRowVisible _ _ _ := .ok true
  dmlHidden _ := ∅

abbrev taskStatements := sqlStatements taskDecoder taskEnv (queue false)

abbrev taskReturns := sqlReturns taskDecoder taskEnv (queue false)

abbrev TaskSqlState := State TaskDoc CatalogDoc (LoadedTable plainCrates) (Stmt plainCrates TaskDoc)
  (Answer plainCrates)

abbrev TaskMove := Move TaskDoc (Stmt plainCrates TaskDoc)

def oneTask : TaskSqlState :=
  ⟨⟨MemoryStorage.put ⟨∅, some taskCatalog, ∅⟩ "rows_16384" "n:1" ("n:1", task 1 "new", 1), ∅, true,
      ⟨∅, ∅⟩⟩, fun _ => ⟨none, .idle, taskCatalog, [], []⟩⟩

/-- `UPDATE tasks SET status = 'done'`. -/
def finishTasks : Stmt plainCrates TaskDoc :=
  .update ⟨none, "tasks", [("status", fun _ _ => .ok (.text "done"))], none⟩ [] []

/-- `SELECT * FROM tasks WHERE status = 'new' FOR UPDATE`. -/
def takeTasks : Stmt plainCrates TaskDoc :=
  .select newTasks (some ⟨true, .wait⟩) unarranged []

def goOn (i : SessionId) (n : Nat) : List (SessionId × TaskMove) := List.replicate n (i, .next)

/-- The rows that a session will return, once it has its locks. -/
def lockedRows (me : Session TaskDoc CatalogDoc (LoadedTable plainCrates)
    (Stmt plainCrates TaskDoc) (Answer plainCrates)) :
    Option (List (QualifiedName × String × Tuple plainCrates)) :=
  match me.phase with
  | .acquiring _ out [] => some (answerRows out.result)
  | _ => none

/-- A statement that is about to run changes no definition. -/
def runsDml (s : TaskSqlState) (a : SessionId × TaskMove) : Bool :=
  match (s.sessions a.1).phase with
  | .loading ⟨.createIndex _, _, _, _⟩ => false
  | _ => true

theorem keepsViews_of_runsDml {s : TaskSqlState} {a : SessionId × TaskMove} (h : runsDml s a = true) :
    KeepsViews taskStatements s a := by
  intro l out locks hphase _ hrun
  refine sameViews_dispatch (fun index hstmt => ?_) hrun
  obtain ⟨stmt, k, todo, tables⟩ := l
  obtain rfl : stmt = .createIndex index := hstmt
  rw [runsDml, hphase] at h
  cases h

/-- Nobody writes, and session 2 only goes on. -/
def writesNothing (s : TaskSqlState) (a : SessionId × TaskMove) : Bool :=
  (a.1 != 2 || match a.2 with
    | .next => true
    | _ => false) &&
  match (s.sessions a.1).phase with
  | .writing _ (_ :: _) _ _ => false
  | _ => true

theorem keepsRow_of_writesNothing {s : TaskSqlState} {a : SessionId × TaskMove}
    (h : writesNothing s a = true) (q : QualifiedName) (rid : String) :
    KeepsRow taskReturns q rid s a ∧ (a.1 = 2 → a.2 = .next ∨ a.2 = .fail) := by
  obtain ⟨i, m⟩ := a
  rw [writesNothing, Bool.and_eq_true] at h
  refine ⟨fun b w rest save r hphase _ => ?_, fun hi => ?_⟩
  · simp_all
  · grind

/-- Session 1 updates the task in a transaction. -/
def finishing : List (SessionId × TaskMove) := (1, .begin) :: (1, .start finishTasks) :: goOn 1 9

def texts (row : Tuple plainCrates) : List String :=
  row.map fun v => String.ofList (v.toText.getD [])

variable {me : Session TaskDoc CatalogDoc (LoadedTable plainCrates) (Stmt plainCrates TaskDoc) (Answer plainCrates)}

/-- The transaction of a session has not written to the table of tasks. -/
def unwritten (me : Session TaskDoc CatalogDoc (LoadedTable plainCrates)
    (Stmt plainCrates TaskDoc) (Answer plainCrates)) : Bool :=
  me.txn.all fun txn =>
    taskStatements.collectionOf txn.catalog taskName == some "rows_16384" &&
      !txn.truncated.contains "rows_16384" && (txn.overlay["rows_16384"]?).isNone

theorem unstaged_of_unwritten (h : unwritten me = true) :
    ∀ txn, me.txn = some txn → ∀ c, taskStatements.collectionOf txn.catalog taskName = some c →
      c ∉ txn.truncated ∧ txn.overlay[c]? = none := by
  intro txn htxn c hc
  rw [unwritten, htxn, all_some, Bool.and_eq_true, Bool.and_eq_true, beq_iff_eq] at h
  obtain ⟨⟨hcollection, htrunc⟩, hov⟩ := h
  cases hcollection.symm.trans hc
  refine ⟨fun hmem => ?_, isNone_iff_eq_none.mp hov⟩
  rw [ExtTreeSet.contains_iff_mem.mpr hmem] at htrunc
  cases htrunc

/-- Session 1 rolls back while session 2 waits: session 2 returns the committed task. -/
theorem locked_read_committed_rollback :
    ∃ s₁ s₁' s₂ l out v, Run.run (State.step taskStatements) oneTask (finishing ++ [(2, .begin)]) =
        some s₁ ∧
      s₁.step taskStatements (2, .start takeTasks) = some s₁' ∧
      Run.run (State.step taskStatements) s₁' (goOn 2 6 ++ (1, .rollback) :: goOn 2 1) = some s₂ ∧
      (s₂.sessions 2).phase = .acquiring l out [] ∧
      (taskName, "n:1", v) ∈ answerRows out.result ∧
      taskReturns.committedRow s₂.shared taskName "n:1" = some v := by
  have hrun : ((Run.run (State.step taskStatements) oneTask (finishing ++ [(2, .begin)])).bind fun s₁ =>
      (s₁.step taskStatements (2, .start takeTasks)).bind fun s₁' =>
        (Run.run (State.step taskStatements) s₁' (goOn 2 6 ++ (1, .rollback) :: goOn 2 1)).map fun s₂ =>
          (unwritten (s₁.sessions 2),
            Run.check (State.step taskStatements) (fun s a => runsDml s a && writesNothing s a) s₁'
              (goOn 2 6 ++ (1, .rollback) :: goOn 2 1),
            (lockedRows (s₂.sessions 2)).map fun rows => rows.map fun r => (r.1, r.2.1))) =
      some (true, true, some [(taskName, "n:1")]) := by
    decide +kernel
  obtain ⟨s₁, h₁, hrun⟩ := bind_eq_some_iff.mp hrun
  obtain ⟨s₁', h₁', hrun⟩ := bind_eq_some_iff.mp hrun
  obtain ⟨s₂, h₂, hseen⟩ := map_eq_some_iff.mp hrun
  obtain ⟨hunwritten, hseen⟩ := Prod.mk.inj hseen
  obtain ⟨hcheck, hseen⟩ := Prod.mk.inj hseen
  obtain ⟨rows, hrows, hrow⟩ := map_eq_some_iff.mp hseen
  unfold lockedRows at hrows
  split at hrows
  case h_2 => cases hrows
  rename_i l out hphase
  cases hrows
  obtain ⟨⟨q, rid, v⟩, hv, heq⟩ : ∃ r ∈ answerRows out.result, (r.1, r.2.1) = (taskName, "n:1") := by
    rw [← List.mem_map, hrow]
    exact (.head _)
  cases heq
  refine ⟨s₁, s₁', s₂, l, out, v, h₁, h₁', h₂, hphase, hv, ?_⟩
  refine locked_read_committed taskReturns oneTask s₁ s₁' s₂ rfl (fun _ => ⟨rfl, rfl⟩) _ _ h₁
    (Run.along_of_check (fun s a => keepsViews_of_runsDml) (by decide +kernel)) 2 takeTasks taskName
    "n:1" h₁' (unstaged_of_unwritten hunwritten) h₂ (Run.along_of_check (fun s a h => ?_) hcheck)
    l out [] hphase v hv
  rw [Bool.and_eq_true] at h
  exact ⟨keepsViews_of_runsDml h.1, keepsRow_of_writesNothing h.2 taskName "n:1"⟩

/-- What session 2 returns, who holds the lock on the task, and the committed task. -/
def readAndCommitted (s : TaskSqlState) :
    Option (List (String × List String)) × List SessionId × Option (List String) :=
  ((lockedRows (s.sessions 2)).map fun rows => rows.map fun r => (r.2.1, texts r.2.2),
    (s.shared.locks.holders (.row 16384 "n:1")).map Holding.holder,
    (taskReturns.committedRow s.shared taskName "n:1").map texts)

/-- **Session 2 waits for session 1, gets the lock after its COMMIT and returns the
task as it was before.** -/
theorem stale_locked_read :
    ((Run.run (State.step taskStatements) oneTask (finishing ++ (2, .begin) ::
        (2, .start takeTasks) :: goOn 2 6 ++ (1, .commit [] plainOrder) :: goOn 1 3 ++ goOn 2 1)).map
      readAndCommitted) =
      some (some [("n:1", ["1", "new"])], [2], some ["1", "done"]) := by
  decide +kernel

end GuardianDb.Sql
