/-
Cached views under concurrent writes.

With an exact change counter, a cached view that carries the current counter of its
collection is the view of the committed rows. This holds in every interleaving, as
long as no statement changes a table definition.

  * `consistent_step` — no move of a session breaks it.
-/
import GuardianDb.Sql.TableCache

namespace GuardianDb.Sql

open Std Relational

section
variable {δ κ τ ε σ ρ : Type}

/-! ### Catalogs that build the same views -/

/-- Two catalogs that build the same views of the same collections. -/
def SameViews (E : Statements δ κ τ ε σ ρ) (k k' : κ) : Prop :=
  ∀ q, E.collectionOf k q = E.collectionOf k' q ∧ E.build k q = E.build k' q

variable {E : Statements δ κ τ ε σ ρ}

theorem SameViews.refl (k : κ) : SameViews E k k :=
  fun _ => ⟨rfl, rfl⟩

theorem SameViews.trans {k k' k'' : κ} (h : SameViews E k k')
    (h' : SameViews E k' k'') : SameViews E k k'' :=
  fun q => ⟨(h q).1.trans (h' q).1, (h q).2.trans (h' q).2⟩

/-- The catalog that a statement or COMMIT will leave. -/
def Phase.outcome? : Phase δ κ τ σ ρ → Option κ
  | .acquiring _ out _ => some out.catalog
  | .writing _ _ save _ => save
  | _ => none

/-! ### Copies of the catalog -/

def Copy (me : Session δ κ τ σ ρ) (k : κ) : Prop :=
  (∃ txn, me.txn = some txn ∧ txn.catalog = k) ∨ (∃ l, me.phase.load? = some l ∧ l.catalog = k) ∨
    me.phase.outcome? = some k

/-- How a move changes the copies of its session: they come from its older copies,
from the committed catalog or from the statement that ran. -/
inductive Copied (E : Statements δ κ τ ε σ ρ) (i : SessionId) (sh : Shared δ κ τ)
    (me me' : Session δ κ τ σ ρ) : Prop where
  | kept (hbase : me'.base = me.base) (hran : me'.ran = me.ran)
      (h : ∀ k, Copy me' k → Copy me k)
  | read (hbase : me'.base = Session.committed E sh) (h : ∀ k, Copy me' k → k = me'.base)
  | ran (l : Load κ τ σ) (out : Produced δ κ ρ) (locks : Inner) (hbase : me'.base = me.base)
      (hran : me'.ran = l :: me.ran) (hl : Copy me l.catalog)
      (hrun : E.dispatch i l.stmt l.catalog l.tables sh.locks = (.ok out, locks))
      (h : ∀ k, Copy me' k → Copy me k ∨ k = out.catalog)

/-! ### Views and counters -/

section
variable (E : Statements δ κ τ ε σ ρ) (K : κ)

/-- Cached views are those of the catalog `K`, as far as their counters are current. -/
def CacheExact (sh : Shared δ κ τ) : Prop :=
  ∀ c g t, sh.tableCache[c]? = some (g, t) → g ≤ sh.storage.generation c ∧
    (g = sh.storage.generation c → ∀ q, E.collectionOf K q = some c →
      E.build K q (sh.storage.scan c) = .ok t)

/-- A statement whose catalog builds the views of `K`, with tables of it. -/
structure LoadedUnder (l : Load κ τ σ) : Prop where
  catalog : SameViews E K l.catalog
  tables : ∀ q t, l.tables[q]? = some t → ∃ c, E.collectionOf K q = some c

/-- A session whose catalogs all build the views of `K`, and whose counters and
scans are not newer than storage. -/
structure InStep (st : MemoryStorage δ κ) (me : Session δ κ τ σ ρ) : Prop where
  txn : ∀ txn, me.txn = some txn → SameViews E K txn.catalog
  load : ∀ l, me.phase.load? = some l → LoadedUnder E K l
  outcome : ∀ k, me.phase.outcome? = some k → SameViews E K k
  target : ∀ q c, me.phase.target? = some (q, c) → E.collectionOf K q = some c
  counter : ∀ c g, me.phase.counter? = some (c, g) → g ≤ st.generation c
  scan : ∀ c g docs, me.phase.scan? = some (c, g, docs) → g = st.generation c → docs = st.scan c

/-- The whole database is in step with `K`. -/
structure Consistent (s : State δ κ τ σ ρ) : Prop where
  committed : SameViews E K (Session.committed E s.shared)
  cache : CacheExact E K s.shared
  sessions : ∀ j, InStep E K s.shared.storage (s.sessions j)

/-- A statement that runs changes no table definition. -/
def KeepsViews (s : State δ κ τ σ ρ) (a : SessionId × Move δ σ) : Prop :=
  ∀ l out locks, (s.sessions a.1).phase = .loading l → a.2 = .next →
    E.dispatch a.1 l.stmt l.catalog l.tables s.shared.locks = (.ok out, locks) →
      SameViews E l.catalog out.catalog

end

section
variable {E : Statements δ κ τ ε σ ρ} {K : κ}

/-- Storage moves on: a counter that stays says that its collection did. -/
def Later (st st' : MemoryStorage δ κ) : Prop :=
  ∀ c, st.generation c ≤ st'.generation c ∧
    (st'.generation c = st.generation c → st'.scan c = st.scan c)

theorem later_refl (st : MemoryStorage δ κ) : Later st st := fun _ => ⟨le_rfl, fun _ => rfl⟩

theorem later_apply (st : MemoryStorage δ κ) (m : Mutation δ) : Later st (m.apply st) := fun c =>
  ⟨(m.generation_apply st c).1, fun h => congrArg _ ((m.generation_apply st c).2 h)⟩

variable {me : Session δ κ τ σ ρ}

theorem InStep.later {st st' : MemoryStorage δ κ} (hst : Later st st') (h : InStep E K st me)
    (hcount : ∀ c g docs, me.phase.scan? = some (c, g, docs) →
      me.phase.counter? = some (c, g)) : InStep E K st' me := by
  refine { h with
    counter := fun c g hg => (h.counter c g hg).trans (hst c).1
    scan := fun c g docs hscan heq => ?_ }
  have hle := h.counter c g (hcount c g docs hscan)
  have hsame : st'.generation c = st.generation c :=
    Nat.le_antisymm (heq ▸ hle) (hst c).1
  rw [(hst c).2 hsame]
  exact h.scan c g docs hscan (heq.trans hsame)

theorem Phase.counter?_of_scan? {p : Phase δ κ τ σ ρ} {c : String} {g : Nat}
    {docs : List (String × δ)} (h : p.scan? = some (c, g, docs)) : p.counter? = some (c, g) := by
  cases p with
  | scanned l q c' g' docs' =>
    cases h
    rfl
  | _ => cases h

variable {sh sh' : Shared δ κ τ}

theorem CacheExact.later (h : CacheExact E K sh) (hst : Later sh.storage sh'.storage)
    (hcache : sh'.tableCache = sh.tableCache) : CacheExact E K sh' := by
  intro c g t hentry
  rw [hcache] at hentry
  obtain ⟨hle, hview⟩ := h c g t hentry
  refine ⟨hle.trans (hst c).1, fun heq q hq => ?_⟩
  have hsame : sh'.storage.generation c = sh.storage.generation c :=
    Nat.le_antisymm (heq ▸ hle) (hst c).1
  rw [(hst c).2 hsame]
  exact hview (heq.trans hsame) q hq

theorem InStep.copies {st : MemoryStorage δ κ} (h : InStep E K st me) {k : κ} (hk : Copy me k) :
    SameViews E K k := by
  rcases hk with ⟨txn, htxn, rfl⟩ | ⟨l, hl, rfl⟩ | hk
  · exact h.txn txn htxn
  · exact (h.load l hl).catalog
  · exact h.outcome k hk

theorem InStep.of_copies {st : MemoryStorage δ κ} (hcopies : ∀ k, Copy me k → SameViews E K k)
    (htables : ∀ l, me.phase.load? = some l → ∀ q t, l.tables[q]? = some t →
      ∃ c, E.collectionOf K q = some c)
    (htarget : ∀ q c, me.phase.target? = some (q, c) → E.collectionOf K q = some c)
    (hcounter : ∀ c g, me.phase.counter? = some (c, g) → g ≤ st.generation c)
    (hscan : ∀ c g docs, me.phase.scan? = some (c, g, docs) → g = st.generation c →
      docs = st.scan c) : InStep E K st me where
  txn txn htxn := hcopies _ (.inl ⟨txn, htxn, rfl⟩)
  load l hl := ⟨hcopies _ (.inr (.inl ⟨l, hl, rfl⟩)), htables l hl⟩
  outcome k hk := hcopies k (.inr (.inr hk))
  target := htarget
  counter := hcounter
  scan := hscan

variable {i : SessionId} {me' : Session δ κ τ σ ρ} {m : Move δ σ}
  {p p' : Phase δ κ τ σ ρ}

/-- A session that goes on with the copies it has. -/
theorem copied_kept {returned : List ρ} (hp : me.phase = p)
    (hload : ∀ l', p'.load? = some l' → ∃ l, p.load? = some l ∧ l.catalog = l'.catalog)
    (hout : ∀ k, p'.outcome? = some k → p.outcome? = some k) :
    Copied E i sh me { me with phase := p', returned := returned } := by
  refine .kept rfl rfl fun k hk => ?_
  rcases hk with htxn | ⟨l', hl', rfl⟩ | hk
  · exact .inl htxn
  · obtain ⟨l, hl, hcat⟩ := hload l' hl'
    exact .inr (.inl ⟨l, by rw [hp, hl], hcat⟩)
  · exact .inr (.inr (by rw [hp]; exact hout k hk))

/-- A statement that is loading its tables keeps its copy. -/
theorem copied_load {l l' : Load κ τ σ} (hp : me.phase = p)
    (hl : p.load? = some l) (hl' : p'.load? = some l') (hcatalog : l.catalog = l'.catalog)
    (hout : p'.outcome? = none) : Copied E i sh me { me with phase := p' } := by
  refine copied_kept hp (fun l'' hl'' => ⟨l, hl, ?_⟩) fun k hk => ?_
  · simp_all
  · rw [hout] at hk
    cases hk

/-- A session whose phase has no copy of its own. -/
theorem copy_txn {k : κ} (hload : me.phase.load? = none) (hout : me.phase.outcome? = none)
    (h : Copy me k) : ∃ txn, me.txn = some txn ∧ txn.catalog = k := by
  rcases h with htxn | ⟨l, hl, -⟩ | hk
  · exact htxn
  · rw [hload] at hl
    cases hl
  · rw [hout] at hk
    cases hk

/-- **Where the copies of a session come from.** -/
theorem copies_moved (hmoved : Session.Moved E i sh me m sh' me') :
    Copied E i sh me me' := by
  cases hmoved with
  | waited locks => exact .kept rfl rfl fun _ hk => hk
  | aborted locks txn hphase hor =>
    refine .kept rfl rfl fun k hk => .inl ?_
    obtain ⟨t, ht, rfl⟩ := copy_txn rfl rfl hk
    rcases hor with rfl | ⟨t', ht', rfl⟩
    · exact ⟨t, ht, rfl⟩
    · cases ht
      exact ⟨t', ht', rfl⟩
  | startedIn stmt txn hphase htxn hlive =>
    refine .kept rfl rfl fun k hk => ?_
    rcases hk with htxn' | ⟨l, hl, rfl⟩ | hk
    · exact .inl htxn'
    · cases hl
      exact .inl ⟨txn, htxn, rfl⟩
    · cases hk
  | started stmt hphase htxn =>
    refine .read rfl fun k hk => ?_
    rcases hk with ⟨t, ht, -⟩ | ⟨l, hl, rfl⟩ | hk
    · simp_all
    · cases hl
      rfl
    · cases hk
  | began hphase htxn =>
    refine .read rfl fun k hk => ?_
    obtain ⟨t, ht, rfl⟩ := copy_txn (by rw [hphase]; rfl) (by rw [hphase]; rfl) hk
    cases ht
    rfl
  | committing txn early order hphase htxn hlive =>
    refine .kept rfl rfl fun k hk => .inl ⟨txn, htxn, ?_⟩
    rcases hk with ⟨t, ht, -⟩ | ⟨l, hl, -⟩ | hk
    · cases ht
    · cases hl
    · simp_all [Phase.outcome?]
  | rolledBack locks hphase =>
    refine .kept rfl rfl fun k hk => ?_
    obtain ⟨t, ht, -⟩ := copy_txn (by rw [hphase]; rfl) (by rw [hphase]; rfl) hk
    cases ht
  | ran l out locks hphase htodo hrun =>
    have hl : Copy me l.catalog := .inr (.inl ⟨l, by rw [hphase]; rfl, rfl⟩)
    refine .ran l out locks rfl rfl hl hrun fun k hk => ?_
    rcases hk with htxn | ⟨l', hl', rfl⟩ | hk
    · exact .inl (.inl htxn)
    · cases hl'
      exact .inl hl
    · exact .inr (Option.some.inj hk).symm
  | acquired locks l out object mode scope todo hphase =>
    exact copied_kept hphase (fun l' hl' => ⟨l', hl', rfl⟩) fun k hk => hk
  | stagedIn l out txn hphase htxn =>
    refine .kept rfl rfl fun k hk => .inr (.inr ?_)
    obtain ⟨t, ht, rfl⟩ := copy_txn rfl rfl hk
    cases ht
    rw [Session.stagedTxn, (Transaction.frame_stageMutations _ _).1, hphase]
    rfl
  | applying l out hphase htxn =>
    refine copied_kept hphase (nofun) fun k hk => ?_
    split at hk
    · exact hk
    · cases hk
  | wrote commit w rest save result hphase =>
    exact copied_kept hphase (nofun) fun k hk => hk
  | saved _ _ _ hphase | unsaved _ _ hphase | invalidated _ hphase | released _ _ hphase =>
    exact copied_kept hphase (nofun) nofun
  | _ =>
    have hphase := ‹me.phase = _›
    exact copied_load hphase rfl rfl rfl rfl

/-- Only a statement that runs is noted. -/
theorem ran_moved (hmoved : Session.Moved E i sh me m sh' me') {l : Load κ τ σ}
    (hran : me'.ran = l :: me.ran) : me.phase = .loading l ∧ m = .next := by
  cases hmoved with
  | ran l' out locks hphase =>
    obtain rfl := (List.cons.inj hran).1
    exact ⟨hphase, rfl⟩
  | _ => simp at hran

section
variable (hmoved : Session.Moved E i sh me m sh' me')
include hmoved

theorem later_moved :
    Later sh.storage sh'.storage := by
  cases hmoved with
  | wrote commit w rest save result hphase => exact later_apply sh.storage w
  | saved commit k result hphase => exact fun c => ⟨le_rfl, fun _ => rfl⟩
  | _ => exact later_refl _

/-- **A move keeps its session in step.** -/
theorem inStep_moved (hkeeps : ∀ l out locks, me.phase = .loading l → m = .next →
      E.dispatch i l.stmt l.catalog l.tables sh.locks = (.ok out, locks) →
        SameViews E l.catalog out.catalog) (hK : SameViews E K (Session.committed E sh))
    (h : InStep E K sh.storage me) : InStep E K sh'.storage me' := by
  have hcopies : ∀ k, Copy me' k → SameViews E K k := by
    intro k hk
    cases copies_moved hmoved with
    | kept _ _ hkept => exact h.copies (hkept k hk)
    | read hbase hread =>
      rw [hread k hk, hbase]
      exact hK
    | ran l out locks _ hran hl hrun hcopies =>
      rcases hcopies k hk with hk | rfl
      · exact h.copies hk
      · obtain ⟨hphase, hm⟩ := ran_moved hmoved hran
        exact (h.copies hl).trans (hkeeps l out locks hphase hm hrun)
  have hstep : InStep E K sh.storage me' := by
    refine .of_copies hcopies (fun l' hl' q t ht => ?_) (fun q c hq => ?_) (fun c g hg => ?_)
      fun c g docs hs heq => ?_
    · cases load_moved hmoved hl' with
      | fresh stmt _ htables => simp [htables] at ht
      | kept l hl _ _ htables => exact (h.load l hl).tables q t (htables ▸ ht)
      | added l q' t' hl _ _ htables hview =>
        rcases htables q t ht with hold | ⟨rfl, rfl⟩
        · exact (h.load l hl).tables q t hold
        · cases hview with
          | read c hc => exact ⟨c, ((h.load l hl).catalog q).1.trans hc⟩
          | scanned c g docs htarget => exact ⟨c, h.target q c htarget⟩
          | cached c g g' htarget => exact ⟨c, h.target q c htarget⟩
    · rcases target_moved hmoved hq with hold | ⟨l, hl, hc⟩
      · exact h.target q c hold
      · exact ((h.load l hl).catalog q).1.trans hc
    · rcases counter_moved hmoved hg with hold | rfl
      · exact h.counter c g hold
      · exact le_rfl
    · rcases scan_moved hmoved hs with hold | rfl
      · exact h.scan c g docs hold heq
      · rfl
  exact hstep.later (later_moved hmoved) fun c g docs => Phase.counter?_of_scan?

/-- What a move does to the cache. -/
theorem cacheExact_moved (h : InStep E K sh.storage me)
    (hcache : CacheExact E K sh) : CacheExact E K sh' := by
  have hentries : CacheExact E K { sh with tableCache := sh'.tableCache } := by
    intro c g t hentry
    rcases entry_moved hmoved hentry with hold | ⟨-, l, q, docs, hphase, hbuild, -⟩
    · exact hcache c g t hold
    · refine ⟨h.counter c g (by rw [hphase]; rfl), fun hcur q' hq' => ?_⟩
      have htarget := h.target q c (by rw [hphase]; rfl)
      obtain rfl := E.collectionOf_inj K q q' c htarget hq'
      rw [← h.scan c g docs (by rw [hphase]; rfl) hcur,
        ((h.load l (by rw [hphase]; rfl)).catalog q).2]
      exact hbuild
  have hlater := later_moved hmoved
  exact hentries.later hlater rfl

end

/-- **With an exact change counter, cached views stay those of the committed rows**,
as long as no statement changes a table definition. -/
theorem consistent_step {s s' : State δ κ τ σ ρ} {a : SessionId × Move δ σ}
    (hstep : s.step E a = some s') (hP : KeepsViews E s a) (h : Consistent E K s) :
    Consistent E K s' := by
  obtain ⟨hmoved, hothers⟩ := State.step_moved hstep
  have hme := h.sessions a.1
  refine ⟨?_, cacheExact_moved hmoved hme h.cache, fun j => ?_⟩
  · rcases committed_moved hmoved with hsame | ⟨commit, k, r, hphase, -, -, hk⟩
    · rw [hsame]
      exact h.committed
    · rw [hk]
      exact hme.outcome k (by rw [hphase]; rfl)
  · by_cases hj : j = a.1
    · subst hj
      exact inStep_moved hmoved (fun l out locks hp hm hrun => hP l out locks hp hm hrun) h.committed hme
    · rw [hothers j hj]
      exact (h.sessions j).later (later_moved hmoved) fun c g docs => Phase.counter?_of_scan?

/-- Nothing has run yet. -/
theorem consistent_fresh {s : State δ κ τ σ ρ} (hcache : s.shared.tableCache = ∅)
    (hidle : ∀ j, (s.sessions j).phase = .idle ∧ (s.sessions j).txn = none) :
    Consistent E (Session.committed E s.shared) s := by
  refine ⟨.refl _, fun c g t hentry => ?_, fun j => ?_⟩
  · rw [hcache] at hentry
    simp at hentry
  · obtain ⟨hphase, htxn⟩ := hidle j
    refine .of_copies (fun k hk => ?_) ?_ ?_ ?_ ?_
    · obtain ⟨txn, ht, -⟩ := copy_txn (by rw [hphase]; rfl) (by rw [hphase]; rfl) hk
      rw [htxn] at ht
      cases ht
    all_goals
      rw [hphase]
      intros
      contradiction

end

end

end GuardianDb.Sql
