/-
The decoded-table cache under concurrent schema changes (`cached_table`,
`invalidate_table_cache`).

A cached view has the columns and indexes its table had in the catalog of the
session that built it. The change counter it is tagged with only moves when rows
do. A schema change saves the catalog and then clears the cache; a session that
read the old catalog before can put an old view back afterwards.

  * `clean_step` — the cache is current, or some session is about to clear it.
  * `statement_sees_committed` — if views only enter the cache while their
    definitions are the committed ones, a statement that starts after all schema
    changes have returned sees the committed definitions.
  * `stale_view_served` — a load that straddles CREATE INDEX leaves later
    statements without the index.
-/
import GuardianDb.Sql.Engine
import GuardianDb.Sql.ForUpdate

namespace GuardianDb.Sql

open Std Relational ExtTreeMap

section
variable {δ κ τ ε σ ρ ς : Type}

/-! ### Definitions in views and catalogs -/

/-- What a view says about its table apart from the rows. -/
structure Shapes (E : Statements δ κ τ ε σ ρ) (ς : Type) where
  shapeOf : τ → ς
  shapeIn : κ → QualifiedName → Option ς
  build_shape : ∀ k q docs t, E.build k q docs = .ok t → shapeIn k q = some (shapeOf t)

/-- The statement under way, with the tables it has loaded. -/
def Phase.load? : Phase δ κ τ σ ρ → Option (Load κ τ σ)
  | .locking l _ => some l
  | .loading l => some l
  | .counted l _ _ _ => some l
  | .missed l _ _ _ => some l
  | .scanned l _ _ _ _ => some l
  | .acquiring l _ _ => some l
  | _ => none

/-- The collection that is being loaded through the cache, with its counter. -/
def Phase.counter? : Phase δ κ τ σ ρ → Option (String × Nat)
  | .counted _ _ c g => some (c, g)
  | .missed _ _ c g => some (c, g)
  | .scanned _ _ c g _ => some (c, g)
  | _ => none

/-- The documents of a collection that have been scanned for the cache. -/
def Phase.scan? : Phase δ κ τ σ ρ → Option (String × Nat × List (String × δ))
  | .scanned _ _ c g docs => some (c, g, docs)
  | _ => none

/-- The table that is being loaded through the cache, and its collection. -/
def Phase.target? : Phase δ κ τ σ ρ → Option (QualifiedName × String)
  | .counted _ q c _ => some (q, c)
  | .missed _ q c _ => some (q, c)
  | .scanned _ q c _ _ => some (q, c)
  | _ => none

section
variable {E : Statements δ κ τ ε σ ρ} (S : Shapes E ς)

/-- Two catalogs with the same definitions of all tables. -/
def SameShapes (k k' : κ) : Prop :=
  ∀ q, E.collectionOf k q = E.collectionOf k' q ∧ S.shapeIn k q = S.shapeIn k' q

/-- Every cached view has the definition that the catalog `k` gives its table. -/
def CacheCurrent (k : κ) (sh : Shared δ κ τ) : Prop :=
  ∀ c g t, sh.tableCache[c]? = some (g, t) → ∀ q, E.collectionOf k q = some c →
    S.shapeIn k q = some (S.shapeOf t)

/-- A statement with the definitions of `k`: in its catalog and in its views. -/
structure Sees (k : κ) (me : Session δ κ τ σ ρ) : Prop where
  catalog : ∀ l, me.phase.load? = some l → SameShapes S l.catalog k
  tables : ∀ l, me.phase.load? = some l → ∀ q t, l.tables[q]? = some t →
    S.shapeIn k q = some (S.shapeOf t)
  target : ∀ l, me.phase.load? = some l → ∀ q c, me.phase.target? = some (q, c) →
    E.collectionOf l.catalog q = some c

/-! ### Conditions on steps -/

/-- A view enters the cache only if its table still has the definition from which
it was built. -/
def InstallsCurrent (s : State δ κ τ σ ρ) (a : SessionId × Move δ σ) : Prop :=
  ∀ l q c g docs, (s.sessions a.1).phase = .scanned l q c g docs → a.2 = .next →
    (∀ g' t, s.shared.tableCache[c]? = some (g', t) → g' < g) →
    ∀ q', E.collectionOf (Session.committed E s.shared) q' = some c →
      S.shapeIn (Session.committed E s.shared) q' = S.shapeIn l.catalog q

/-- A saved catalog changes no definition. -/
def KeepsShapes (s : State δ κ τ σ ρ) (a : SessionId × Move δ σ) : Prop :=
  ∀ b k r, (s.sessions a.1).phase = .writing b [] (some k) r → a.2 = .next →
    SameShapes S (Session.committed E s.shared) k

/-! ### The cache over a run -/

/-- The cache is current, or a session has yet to clear it. -/
def Clean (s : State δ κ τ σ ρ) : Prop :=
  CacheCurrent S (Session.committed E s.shared) s.shared ∨
    ∃ j r, (s.sessions j).phase = .invalidating r

variable {S}

variable {k : κ} {sh : Shared δ κ τ} {c : String} {g : Nat} {t : τ}

variable {s s' : State δ κ τ σ ρ} {a : SessionId × Move δ σ} {l : Load κ τ σ} {q : QualifiedName}
  {i : SessionId} {me me' : Session δ κ τ σ ρ} {sh' : Shared δ κ τ}

theorem committed_apply (sh : Shared δ κ τ) (m : Mutation δ) :
    Session.committed E { sh with storage := m.apply sh.storage } = Session.committed E sh := by
  rw [Session.committed, Session.committed, m.catalog_apply]

section
variable {m : Move δ σ} (hmoved : Session.Moved E i sh me m sh' me')
include hmoved

/-- Only saving changes the committed catalog. -/
theorem committed_moved :
    Session.committed E sh' = Session.committed E sh ∨
      ∃ commit k result, me.phase = .writing commit [] (some k) result ∧ m = .next ∧
        me' = { me with phase := .invalidating result } ∧ Session.committed E sh' = k := by
  cases hmoved with
  | wrote commit w rest save result hphase => exact .inl (committed_apply sh w)
  | saved commit k result hphase => exact .inr ⟨commit, k, result, hphase, rfl, rfl, rfl⟩
  | _ => exact .inl rfl

/-- A cached view was there before, or a session has just built it. -/
theorem entry_moved (h : sh'.tableCache[c]? = some (g, t)) :
    sh.tableCache[c]? = some (g, t) ∨ m = .next ∧ ∃ l q docs, me.phase = .scanned l q c g docs ∧
      E.build l.catalog q docs = .ok t ∧
        ∀ g' t', sh.tableCache[c]? = some (g', t') → g' < g := by
  cases hmoved with
  | installed l q c' g' docs t' hphase hbuild holder =>
    rw [getElem?_insert] at h
    split at h
    · next heq =>
      obtain rfl := LawfulEqCmp.eq_of_compare heq
      cases h
      exact .inr ⟨rfl, l, q, docs, hphase, hbuild, holder⟩
    · exact .inl h
  | invalidated => simp at h
  | _ => exact .inl h

/-- A session that is to clear the cache does so next. -/
theorem invalidating_moved {r : Option ρ} (h : me.phase = .invalidating r) :
    me'.phase = .invalidating r ∨ sh'.tableCache = ∅ := by
  cases hmoved with
  | waited => exact .inl h
  | aborted _ _ hphase =>
    rw [h] at hphase
    cases hphase
  | invalidated => exact .inr rfl
  | _ =>
    have hother := ‹me.phase = _›
    cases hother.symm.trans h

end

/-- A view that enters the cache has the committed definition. -/
theorem cacheCurrent_moved
    (hmoved : Session.Moved E a.1 s.shared (s.sessions a.1) a.2 sh' me')
    (hP : InstallsCurrent S s a) (h : CacheCurrent S (Session.committed E s.shared) s.shared) :
    CacheCurrent S (Session.committed E s.shared) sh' := by
  intro c g t hentry q hq
  rcases entry_moved hmoved hentry with hold | ⟨hm, l, q', docs, hphase, hbuild, holder⟩
  · exact h c g t hold q hq
  · exact (hP l q' c g docs hphase hm holder q hq).trans (S.build_shape l.catalog q' docs t hbuild)

/-- **The cache is current unless a session is about to clear it.** -/
theorem clean_step (hstep : s.step E a = some s') (hP : InstallsCurrent S s a) (h : Clean S s) :
    Clean S s' := by
  obtain ⟨hmoved, hothers⟩ := State.step_moved hstep
  rcases h with hcur | ⟨j, r, hj⟩
  · rcases committed_moved hmoved with hsame | ⟨commit, k, r, -, -, hme, -⟩
    · refine .inl ?_
      rw [hsame]
      exact cacheCurrent_moved hmoved hP hcur
    · exact .inr ⟨a.1, r, by rw [hme]⟩
  · by_cases hja : j = a.1
    · subst hja
      rcases invalidating_moved hmoved hj with hstill | hempty
      · exact .inr ⟨a.1, r, hstill⟩
      · refine .inl fun c g t hentry => ?_
        rw [hempty] at hentry
        simp at hentry
    · refine .inr ⟨j, r, ?_⟩
      rw [hothers j hja]
      exact hj

/-! ### What a statement loads -/

/-- Where a view comes from: from documents that the session sees or has scanned, or from
the cache, not older than the counter that the session has read. -/
inductive ViewFrom (E : Statements δ κ τ ε σ ρ) (sh : Shared δ κ τ) (me : Session δ κ τ σ ρ) (k : κ)
    (q : QualifiedName) (t : τ) : Prop where
  | read (c : String) (hc : E.collectionOf k q = some c)
      (hbuild : E.build k q (me.documents sh c) = .ok t)
  | scanned (c : String) (g : Nat) (docs : List (String × δ))
      (htarget : me.phase.target? = some (q, c)) (hcounter : me.phase.counter? = some (c, g))
      (hscan : me.phase.scan? = some (c, g, docs)) (hbuild : E.build k q docs = .ok t)
  | cached (c : String) (g g' : Nat) (htarget : me.phase.target? = some (q, c))
      (hcounter : me.phase.counter? = some (c, g)) (hentry : sh.tableCache[c]? = some (g', t))
      (hle : g ≤ g')

/-- What a move leaves of the statement under way: one that has started has no tables yet,
another one has at most one more. -/
inductive LoadMoved (E : Statements δ κ τ ε σ ρ) (sh : Shared δ κ τ) (me me' : Session δ κ τ σ ρ)
    (m : Move δ σ) (l' : Load κ τ σ) : Prop where
  | fresh (stmt : σ) (hm : m = .start stmt) (htables : l'.tables = ∅)
      (hcatalog : ∀ txn, me'.txn = some txn → l'.catalog = txn.catalog)
  | kept (l : Load κ τ σ) (hl : me.phase.load? = some l) (hcatalog : l'.catalog = l.catalog)
      (htxn : me'.txn = me.txn) (htables : l'.tables = l.tables)
  | added (l : Load κ τ σ) (q : QualifiedName) (t : τ) (hl : me.phase.load? = some l)
      (hcatalog : l'.catalog = l.catalog) (htxn : me'.txn = me.txn)
      (htables : ∀ q' t', l'.tables[q']? = some t' → l.tables[q']? = some t' ∨ q' = q ∧ t' = t)
      (hview : ViewFrom E sh me l.catalog q t)

theorem getElem?_add {q' : QualifiedName} {t' : τ} (h : (l.add q t).tables[q']? = some t') :
    l.tables[q']? = some t' ∨ q' = q ∧ t' = t := by
  unfold Load.add at h
  rw [getElem?_insert] at h
  split at h
  · simp_all
  · exact .inl h

section
variable {m : Move δ σ} (hmoved : Session.Moved E i sh me m sh' me')
include hmoved

theorem load_moved {l' : Load κ τ σ} (h : me'.phase.load? = some l') :
    LoadMoved E sh me me' m l' := by
  cases hmoved with
  | waited locks => exact .kept l' h rfl rfl rfl
  | startedIn stmt txn _ htxn =>
    cases h
    refine .fresh stmt rfl rfl fun t ht => ?_
    rw [Option.some.inj (htxn.symm.trans ht)]
  | started stmt _ htxn =>
    cases h
    refine .fresh stmt rfl rfl fun t ht => ?_
    cases htxn.symm.trans ht
  | began hphase | rolledBack _ hphase =>
    rw [hphase] at h
    cases h
  | locked _ l _ _ _ hphase | tablesLocked l hphase | skipped l _ _ hphase
  | counted l _ _ _ hphase | missed l _ _ _ hphase | scanned l _ _ _ hphase | ran l _ _ hphase
  | acquired _ l _ _ _ _ _ hphase =>
    have hl : me.phase.load? = some l := by rw [hphase]; rfl
    cases h
    exact .kept _ hl rfl rfl rfl
  | loaded l q todo c t hphase htodo hc hbuild =>
    cases h
    exact .added l q t (by rw [hphase]; rfl) rfl rfl (fun _ _ => getElem?_add) (.read c hc hbuild)
  | hit l q c g t hphase hentry =>
    cases h
    exact .added l q t (by rw [hphase]; rfl) rfl rfl (fun _ _ => getElem?_add)
      (.cached c g g (by rw [hphase]; rfl) (by rw [hphase]; rfl) hentry le_rfl)
  | kept l q c g g' docs t hphase hentry hnewer =>
    cases h
    exact .added l q t (by rw [hphase]; rfl) rfl rfl (fun _ _ => getElem?_add)
      (.cached c g g' (by rw [hphase]; rfl) (by rw [hphase]; rfl) hentry hnewer)
  | installed l q c g docs t hphase hbuild =>
    cases h
    exact .added l q t (by rw [hphase]; rfl) rfl rfl (fun _ _ => getElem?_add)
      (.scanned c g docs (by rw [hphase]; rfl) (by rw [hphase]; rfl) (by rw [hphase]; rfl) hbuild)
  | _ => cases h

theorem target_moved (h : me'.phase.target? = some (q, c)) :
    me.phase.target? = some (q, c) ∨
      ∃ l, me.phase.load? = some l ∧ E.collectionOf l.catalog q = some c := by
  cases hmoved with
  | waited | began | rolledBack => exact .inl h
  | counted l q' todo c' hphase htodo hc =>
    cases h
    exact .inr ⟨l, by rw [hphase]; rfl, hc⟩
  | missed _ _ _ _ hphase | scanned _ _ _ _ hphase => exact .inl (by rw [hphase]; exact h)
  | _ => cases h

/-- A session reads the counter that storage has then. -/
theorem counter_moved (h : me'.phase.counter? = some (c, g)) :
    me.phase.counter? = some (c, g) ∨ g = sh.storage.generation c := by
  cases hmoved with
  | waited | began | rolledBack => exact .inl h
  | counted =>
    cases h
    exact .inr rfl
  | missed _ _ _ _ hphase | scanned _ _ _ _ hphase => exact .inl (by rw [hphase]; exact h)
  | _ => cases h

/-- A session scans the documents that storage has then. -/
theorem scan_moved {docs : List (String × δ)} (h : me'.phase.scan? = some (c, g, docs)) :
    me.phase.scan? = some (c, g, docs) ∨ docs = sh.storage.scan c := by
  cases hmoved with
  | waited | began | rolledBack => exact .inl h
  | scanned l q c' g' hphase =>
    cases h
    exact .inr rfl
  | _ => cases h

end

theorem Phase.load?_of_target? {p : Phase δ κ τ σ ρ} (h : p.target? = some (q, c)) :
    ∃ l, p.load? = some l := by
  cases p with
  | counted l | missed l | scanned l => exact ⟨l, rfl⟩
  | _ => cases h

/-! ### A statement under a current cache -/

/-- A view from a current cache. -/
theorem Sees.cached (hcur : CacheCurrent S k sh) (h : Sees S k me) (hl : me.phase.load? = some l)
    (hq : me.phase.target? = some (q, c)) (hentry : sh.tableCache[c]? = some (g, t)) :
    S.shapeIn k q = some (S.shapeOf t) := by
  refine hcur c g t hentry q ?_
  rw [← (h.catalog l hl q).1]
  exact h.target l hl q c hq

/-- A view built by the statement itself. -/
theorem Sees.built (h : Sees S k me) (hl : me.phase.load? = some l) {docs : List (String × δ)}
    (hbuild : E.build l.catalog q docs = .ok t) : S.shapeIn k q = some (S.shapeOf t) :=
  ((h.catalog l hl q).2).symm.trans (S.build_shape l.catalog q docs t hbuild)

/-- **A statement under way keeps seeing the definitions of `k`** while the cache
is current. -/
theorem sees_moved {m : Move δ σ} (hm : m = .next ∨ m = .fail)
    (hmoved : Session.Moved E i sh me m sh' me') (hcur : CacheCurrent S k sh) (h : Sees S k me) :
    Sees S k me' := by
  have hload : ∀ l', me'.phase.load? = some l' → SameShapes S l'.catalog k ∧
      ∀ q t, l'.tables[q]? = some t → S.shapeIn k q = some (S.shapeOf t) := by
    intro l' hl'
    cases load_moved hmoved hl' with
    | fresh stmt hstart =>
      subst hstart
      rcases hm with hm | hm <;> cases hm
    | kept l hl hcatalog _ htables =>
      rw [hcatalog, htables]
      exact ⟨h.catalog l hl, h.tables l hl⟩
    | added l q t hl hcatalog _ htables hview =>
      rw [hcatalog]
      refine ⟨h.catalog l hl, fun q' t' ht' => ?_⟩
      rcases htables q' t' ht' with hold | ⟨rfl, rfl⟩
      · exact h.tables l hl q' t' hold
      · cases hview with
        | read c hc hbuild => exact h.built hl hbuild
        | scanned c g docs _ _ _ hbuild => exact h.built hl hbuild
        | cached c g g' htarget _ hentry _ => exact h.cached hcur hl htarget hentry
  refine ⟨fun l hl => (hload l hl).1, fun l hl => (hload l hl).2, fun l hl q c hq => ?_⟩
  rw [((hload l hl).1 q).1]
  rcases target_moved hmoved hq with hold | ⟨l₀, hl₀, hc⟩
  · obtain ⟨l₀, hl₀⟩ := Phase.load?_of_target? hold
    rw [← (h.catalog l₀ hl₀ q).1]
    exact h.target l₀ hl₀ q c hold
  · rw [← (h.catalog l₀ hl₀ q).1]
    exact hc

variable {k' : κ}

theorem SameShapes.cacheCurrent (h : SameShapes S k k') (hcur : CacheCurrent S k sh) :
    CacheCurrent S k' sh := by
  intro c g t hentry q hq
  rw [← (h q).2]
  exact hcur c g t hentry q ((h q).1.trans hq)

theorem SameShapes.sees (h : SameShapes S k k') (hsees : Sees S k me) : Sees S k' me := by
  refine ⟨fun l hl q => ?_, fun l hl q t ht => ?_, hsees.target⟩
  · exact ⟨(hsees.catalog l hl q).1.trans (h q).1, (hsees.catalog l hl q).2.trans (h q).2⟩
  · exact (h q).2.symm.trans (hsees.tables l hl q t ht)

/-- The cache is current and session `i` sees the committed definitions. -/
def UpToDate (S : Shapes E ς) (i : SessionId) (s : State δ κ τ σ ρ) : Prop :=
  CacheCurrent S (Session.committed E s.shared) s.shared ∧
    Sees S (Session.committed E s.shared) (s.sessions i)

/-- **While no definition changes, a statement keeps seeing the committed ones.** -/
theorem upToDate_step (hstep : s.step E a = some s')
    (hP : InstallsCurrent S s a ∧ KeepsShapes S s a ∧ (a.1 = i → a.2 = .next ∨ a.2 = .fail))
    (h : UpToDate S i s) : UpToDate S i s' := by
  obtain ⟨hinstall, hkeeps, hown⟩ := hP
  obtain ⟨hcur, hsees⟩ := h
  obtain ⟨hmoved, hothers⟩ := State.step_moved hstep
  have hsame : SameShapes S (Session.committed E s.shared) (Session.committed E s'.shared) := by
    rcases committed_moved hmoved with hsame | ⟨commit, k, r, hphase, hm, -, hk⟩
    · rw [hsame]
      exact fun q => ⟨rfl, rfl⟩
    · rw [hk]
      exact hkeeps commit k r hphase hm
  refine ⟨hsame.cacheCurrent (cacheCurrent_moved hmoved hinstall hcur), hsame.sees ?_⟩
  by_cases hi : a.1 = i
  · subst hi
    exact sees_moved (hown rfl) hmoved hcur hsees
  · rw [hothers i (Ne.symm hi)]
    exact hsees

/-- **A statement that starts after all schema changes have returned sees the
committed definitions**, in a run where views only enter the cache while their
definitions are committed. The statement runs in autocommit, or in a transaction
whose catalog has the committed definitions; until it has loaded its tables, no
saved catalog changes a definition. -/
theorem statement_sees_committed (S : Shapes E ς) (s₀ s₁ s₁' s₂ : State δ κ τ σ ρ)
    (hfresh : s₀.shared.tableCache = ∅) (before after : List (SessionId × Move δ σ))
    (hbefore : Run.run (State.step E) s₀ before = some s₁)
    (hinstalls : Run.Along (State.step E) (InstallsCurrent S) s₀ before)
    (hreturned : ∀ j r, (s₁.sessions j).phase ≠ .invalidating r) (i : SessionId) (stmt : σ)
    (htxn : ∀ txn, (s₁.sessions i).txn = some txn →
      SameShapes S txn.catalog (Session.committed E s₁.shared))
    (hstart : s₁.step E (i, .start stmt) = some s₁')
    (hafter : Run.run (State.step E) s₁' after = some s₂)
    (hinstalls' : Run.Along (State.step E) (fun s a => InstallsCurrent S s a ∧ KeepsShapes S s a ∧
      (a.1 = i → a.2 = .next ∨ a.2 = .fail)) s₁' after) :
    ∀ l, (s₂.sessions i).phase.load? = some l →
      SameShapes S l.catalog (Session.committed E s₂.shared) ∧
      ∀ q t, l.tables[q]? = some t →
        S.shapeIn (Session.committed E s₂.shared) q = some (S.shapeOf t) := by
  have hclean : Clean S s₁ := by
    refine Run.run_invariant (fun s a s' hs hP h => clean_step hs hP h) hinstalls (.inl ?_) hbefore
    intro c g t hentry
    rw [hfresh] at hentry
    simp at hentry
  have hcur : CacheCurrent S (Session.committed E s₁.shared) s₁.shared := by
    rcases hclean with hcur | ⟨j, r, hj⟩
    · exact hcur
    · exact absurd hj (hreturned j r)
  have hstarted : UpToDate S i s₁' := by
    obtain ⟨hsh, -, k, hphase, hk⟩ := State.step_start hstart
    have hload : (s₁'.sessions i).phase.load? = some ⟨stmt, k, E.names stmt k, ∅⟩ := by
      rw [hphase]
      rfl
    rw [UpToDate, hsh]
    refine ⟨hcur, fun l hl => ?_, fun l hl q t ht => ?_, fun l hl q c hq => ?_⟩
    · cases hload.symm.trans hl
      rcases hk with ⟨-, rfl⟩ | ⟨txn, htxn', rfl⟩
      · exact fun q => ⟨rfl, rfl⟩
      · exact htxn txn htxn'
    · grind
    · rw [hphase] at hq
      cases hq
  have hfinal := Run.run_invariant (fun s a s' hs hP h => upToDate_step hs hP h) hinstalls' hstarted
    hafter
  exact fun l hl => ⟨hfinal.2.catalog l hl, hfinal.2.tables l hl⟩

end

end

/-! ### Table definitions -/

section
variable {C : Crates} {δ σ ρ : Type}

/-- The definition of a table and of its ordered indexes. -/
def tableShapes (E : Statements δ CatalogDoc (LoadedTable C) SqlError σ ρ) (decode : RowDecoder C δ)
    (h : E.toRelations = tableRelations decode) : Shapes E (Table × List Index) where
  shapeOf t := (t.table, t.indexes.map LoadedIndex.index)
  shapeIn k q := (k.tables[q]?).map fun table => (table, orderedIndexes k.toCatalog q)
  build_shape k q docs t hbuild := by
    rw [h] at hbuild
    obtain ⟨htable, hindexes⟩ := definitions_buildView hbuild
    rw [htable, hindexes]
    rfl

/-- Statements that create an index, or read the indexes of a table. -/
inductive IndexStmt where
  | createIndex (index : Index)
  | select (q : QualifiedName)
  deriving DecidableEq, Repr

def IndexStmt.table : IndexStmt → QualifiedName
  | .createIndex index => ⟨index.schema, index.table⟩
  | .select q => q

/-- CREATE INDEX and SELECT; the result names the indexes in the loaded view. -/
def indexStatements (decode : RowDecoder C δ) :
    Statements δ CatalogDoc (LoadedTable C) SqlError IndexStmt (List String) where
  toRelations := tableRelations decode
  lockPlan stmt k := (k.tables[stmt.table]?).toList.map fun t => (t.oid, match stmt with
    | .createIndex _ => .share
    | .select _ => .accessShare)
  names stmt _ := [stmt.table]
  dispatch _ stmt k tables locks :=
    match tables[stmt.table]? with
    | none => (.error (.undefinedTable stmt.table.name), locks)
    | some t =>
        let seen := t.indexes.map fun idx => idx.index.name
        match stmt with
        | .createIndex index =>
            ((createIndex k t index).map fun k' => ⟨seen, [], [], k', true⟩, locks)
        | .select _ => (.ok ⟨seen, [], [], k, false⟩, locks)

end

/-! ### CREATE INDEX during a load -/

/-- A stored row: its id, its values and its version. -/
abbrev TaskDoc := String × RowValues plainCrates × Int

def taskDecoder : RowDecoder plainCrates TaskDoc := fun _ doc => .ok (some doc)

abbrev TaskState := State TaskDoc CatalogDoc (LoadedTable plainCrates) IndexStmt (List String)

theorem collections_distinct_one (name : QualifiedName) (table : Table) (q q' : QualifiedName)
    (t t' : Table) (h : (ofList [(name, table)])[q]? = some t)
    (h' : (ofList [(name, table)])[q']? = some t')
    (_ : t.storageCollection = t'.storageCollection) : q = q' := by
  have hone : ∀ q t,
      (ofList [(name, table)])[q]? = some t → q = name := by grind
  exact (hone q t h).trans (hone q' t' h').symm

def taskCatalog : CatalogDoc where
  tables := ExtTreeMap.ofList [(taskName, taskTable)]
  indexes := ∅
  sequences := ∅
  views := ∅
  searchPath := ["public"]
  collections_distinct := collections_distinct_one taskName taskTable

/-- Nothing has run yet. -/
def taskState : TaskState :=
  ⟨⟨⟨∅, some taskCatalog, ∅⟩, ∅, true, ⟨∅, ∅⟩⟩, fun _ => ⟨none, .idle, taskCatalog, [], []⟩⟩

def accesses (i : SessionId) (n : Nat) : List (SessionId × Move TaskDoc IndexStmt) :=
  List.replicate n (i, .next)

def creation : List (SessionId × Move TaskDoc IndexStmt) :=
  (1, .start (.createIndex statusIndex)) :: accesses 1 11

def loadedIndexes (me : Session TaskDoc CatalogDoc (LoadedTable plainCrates) IndexStmt (List String)) :
    Option (List String) :=
  (me.phase.load?.bind fun l => l.tables[taskName]?).map fun t =>
    t.indexes.map fun idx => idx.index.name

/-- The definitions of `indexStatements`. -/
def taskShapes : Shapes (indexStatements taskDecoder) (Table × List Index) :=
  tableShapes (indexStatements taskDecoder) taskDecoder rfl

/-- A session that goes on after a scan has the committed definition. -/
def installsCommitted (s : TaskState) (a : SessionId × Move TaskDoc IndexStmt) : Bool :=
  match (s.sessions a.1).phase with
  | .scanned l q c _ _ =>
      let k := Session.committed (indexStatements taskDecoder) s.shared
      decide ((indexStatements taskDecoder).collectionOf k q = some c ∧
        taskShapes.shapeIn k q = taskShapes.shapeIn l.catalog q)
  | _ => true

variable {a : SessionId × Move TaskDoc IndexStmt}

theorem installsCurrent_of_committed {s : TaskState}
    (h : installsCommitted s a = true) : InstallsCurrent taskShapes s a := by
  intro l q c g docs hphase _ _ q' hq'
  rw [installsCommitted, hphase] at h
  obtain ⟨hq, hshape⟩ := of_decide_eq_true h
  obtain rfl := (indexStatements taskDecoder).collectionOf_inj _ q q' c hq hq'
  exact hshape

/-- Session 3 only goes on, and nobody saves a catalog. -/
def readsOnly (s : TaskState) (a : SessionId × Move TaskDoc IndexStmt) : Bool :=
  (match a.2 with
    | .next => true
    | _ => false) &&
  match (s.sessions a.1).phase with
  | .writing _ _ (some _) _ => false
  | _ => true

theorem keepsShapes_of_readsOnly {s : TaskState}
    (h : readsOnly s a = true) : KeepsShapes taskShapes s a ∧ (a.1 = 3 → a.2 = .next ∨ a.2 = .fail) := by
  obtain ⟨i, m⟩ := a
  rw [readsOnly, Bool.and_eq_true] at h
  refine ⟨fun b k r hphase _ => ?_, fun _ => ?_⟩
  · simp_all
  · grind

/-- Once session 1 has created the index, session 3 sees it. -/
theorem statement_sees_committed_creation :
    ∃ s₁ s₁' s₂ l t, Run.run (State.step (indexStatements taskDecoder)) taskState creation = some s₁ ∧
      s₁.step (indexStatements taskDecoder) (3, .start (.select taskName)) = some s₁' ∧
      Run.run (State.step (indexStatements taskDecoder)) s₁' (accesses 3 6) = some s₂ ∧
      (s₂.sessions 3).phase.load? = some l ∧ l.tables[taskName]? = some t ∧
      taskShapes.shapeIn (Session.committed (indexStatements taskDecoder) s₂.shared) taskName =
        some (taskShapes.shapeOf t) := by
  have hrun : ((Run.run (State.step (indexStatements taskDecoder)) taskState creation).bind fun s₁ =>
      (s₁.step (indexStatements taskDecoder) (3, .start (.select taskName))).bind fun s₁' =>
        (Run.run (State.step (indexStatements taskDecoder)) s₁' (accesses 3 6)).map fun s₂ =>
          ((s₁.sessions 1).phase.isIdle,
            Run.check (State.step (indexStatements taskDecoder))
              (fun s a => installsCommitted s a && readsOnly s a) s₁' (accesses 3 6),
            loadedIndexes (s₂.sessions 3))) = some (true, true, some ["tasks_status"]) := by
    decide +kernel
  obtain ⟨s₁, h₁, hrun⟩ := Option.bind_eq_some_iff.mp hrun
  obtain ⟨s₁', h₁', hrun⟩ := Option.bind_eq_some_iff.mp hrun
  obtain ⟨s₂, h₂, hseen⟩ := Option.map_eq_some_iff.mp hrun
  obtain ⟨hidle, hseen⟩ := Prod.mk.inj hseen
  obtain ⟨hcheck, hseen⟩ := Prod.mk.inj hseen
  obtain ⟨t, ht, -⟩ := Option.map_eq_some_iff.mp hseen
  obtain ⟨l, hl, ht⟩ := Option.bind_eq_some_iff.mp ht
  have hother : ∀ j, j ≠ 1 → s₁.sessions j = taskState.sessions j := fun j hj =>
    State.run_sessions h₁ fun a ha => by
      have hall : ∀ b ∈ creation, b.1 = 1 := by
        intro b hb
        rcases List.mem_cons.mp hb with rfl | hb
        · rfl
        · rw [List.eq_of_mem_replicate hb]
      rw [hall a ha]
      exact Ne.symm hj
  have hreturned : ∀ j r, (s₁.sessions j).phase ≠ .invalidating r := by
    intro j r hphase
    by_cases hj : j = 1
    · subst hj
      rw [hphase] at hidle
      cases hidle
    · rw [hother j hj] at hphase
      cases hphase
  have htxn : (s₁.sessions 3).txn = none := by
    rw [hother 3 (by decide)]
    rfl
  refine ⟨s₁, s₁', s₂, l, t, h₁, h₁', h₂, hl, ht, ?_⟩
  refine (statement_sees_committed taskShapes taskState s₁ s₁' s₂ rfl creation (accesses 3 6) h₁
    (Run.along_of_check (fun s a => installsCurrent_of_committed) (by decide +kernel)) hreturned 3
    (.select taskName) (fun txn h => ?_) h₁' h₂ (Run.along_of_check (fun s a h => ?_) hcheck)
    l hl).2 taskName t ht
  · rw [htxn] at h
    cases h
  · rw [Bool.and_eq_true] at h
    exact ⟨installsCurrent_of_committed h.1, keepsShapes_of_readsOnly h.2⟩

/-- **A view that is scanned before CREATE INDEX and enters the cache after it**:
session 1 has returned, session 3 starts then and finds no index. -/
theorem stale_view_served :
    ((Run.run (State.step (indexStatements taskDecoder)) taskState
        ((2, .start (.select taskName)) :: accesses 2 5 ++ creation ++ accesses 2 1)).bind fun s₁ =>
      (Run.run (State.step (indexStatements taskDecoder)) s₁
        ((3, .start (.select taskName)) :: accesses 3 4)).map fun s₂ =>
          ((s₁.sessions 1).returned, loadedIndexes (s₂.sessions 3),
            (orderedIndexes (Session.committed (indexStatements taskDecoder) s₂.shared).toCatalog
              taskName).map Index.name)) =
      some ([[]], some [], ["tasks_status"]) := by
  decide +kernel

end GuardianDb.Sql
