/-
What ALTER TABLE, DROP TABLE and DROP INDEX leave alone.

A statement about one table should change nothing of another: not its columns and
constraints, not its indexes, not its sequences. Two things stand against this.
Indexes and sequences are found by names in their schema, whosever they are; and RENAME
TO drops the table and inserts it again, with what goes along with a DROP.

  * `Local` — all operations but two touch the table and its indexes only.
  * `alterStep_framed_iff` — when one operation leaves the other tables alone.
  * `framed_trans` — what one operation has taken, no later one gives back.
  * `ddl_frames_iff` — when a statement does.
-/
import GuardianDb.Sql.AddColumn

namespace GuardianDb.Sql

open List hiding getElem?_map
open Std Relational Fallible ExtTreeMap

/-! ### Values of a map -/

theorem values_eq_map {α β : Type} {cmp : α → α → Ordering} [TransCmp cmp]
    (m : ExtTreeMap α β cmp) : m.values = m.toList.map Prod.snd := by
  have hfold : m.values = m.foldr (fun _ b l => b :: l) [] := by
    obtain ⟨m⟩ := m
    induction m using ExtDTreeMap.inductionOn with
    | _ m => rfl
  rw [hfold, foldr_eq_foldr_toList]
  induction m.toList with
  | nil => rfl
  | cons p l ih => rw [foldr_cons, ih, map_cons]

theorem mem_values_iff {β : Type} {m : ExtTreeMap QualifiedName β} {b : β} :
    b ∈ m.values ↔ ∃ key : QualifiedName, m[key]? = some b := by
  rw [values_eq_map, mem_map]
  constructor
  · simp_all
  · simp_all

/-! ### Frames -/

/-- Every table and every index stands under its own name. -/
structure Keyed (k : Catalog) : Prop where
  tables : ∀ (q : QualifiedName) (t : Table), k.tables[q]? = some t → t.qualified = q
  indexes : ∀ (q : QualifiedName) (i : Index), k.indexes[q]? = some i → ⟨i.schema, i.name⟩ = q

def IndexOn (q : QualifiedName) (i : Index) : Prop := i.schema = q.schema ∧ i.table = q.name

variable {i : Index}

theorem IndexOn.unique {q q' : QualifiedName} (h : IndexOn q i) (h' : IndexOn q' i) : q = q' := by
  obtain ⟨s, n⟩ := q
  obtain ⟨s', n'⟩ := q'
  obtain ⟨rfl, rfl⟩ := h
  obtain ⟨rfl, rfl⟩ := h'
  rfl

/-- The table as a statement about `a` may leave it: with CASCADE its foreign keys on
`a` may go. -/
def kept (a : QualifiedName) (cascade : Bool) (t : Table) : Table :=
  if cascade then Catalog.withoutReferences a t else t

/-- A statement about the table `a` has left every other table alone. -/
structure Framed (a : QualifiedName) (cascade : Bool) (k k' : Catalog) : Prop where
  tables : ∀ (q : QualifiedName) (t : Table), q ≠ a → k.tables[q]? = some t →
    k'.tables[q]? = some (kept a cascade t)
  indexes : ∀ (q : QualifiedName) (t : Table), q ≠ a → k.tables[q]? = some t →
    ∀ (key : QualifiedName) (i : Index), IndexOn q i →
      (k'.indexes[key]? = some i ↔ k.indexes[key]? = some i)
  sequences : ∀ (q : QualifiedName) (t : Table), q ≠ a → k.tables[q]? = some t →
    ∀ s ∈ Catalog.sequencesOf q.schema t, k'.sequences[s]? = k.sequences[s]?

/-! ### Operations on one table -/

/-- Only the table `a` and its indexes differ. -/
structure Local (a : QualifiedName) (k k' : Catalog) : Prop where
  tables : ∀ q, q ≠ a → k'.tables[q]? = k.tables[q]?
  indexes : ∀ (key : QualifiedName) (i : Index), ¬ IndexOn a i →
    (k'.indexes[key]? = some i ↔ k.indexes[key]? = some i)
  sequences : k'.sequences = k.sequences
  keyed : Keyed k → Keyed k'

namespace Local

variable {a : QualifiedName} {k k' k'' : Catalog}

theorem refl (a : QualifiedName) (k : Catalog) : Local a k k :=
  ⟨fun _ _ => rfl, fun _ _ _ => Iff.rfl, rfl, id⟩

theorem trans (h : Local a k k') (h' : Local a k' k'') : Local a k k'' :=
  ⟨fun q hq => (h'.tables q hq).trans (h.tables q hq),
    fun key i hi => (h'.indexes key i hi).trans (h.indexes key i hi),
    h'.sequences.trans h.sequences, fun hk => h'.keyed (h.keyed hk)⟩

theorem framed (h : Local a k k') : Framed a false k k' where
  tables q t hq ht := by
    rw [h.tables q hq, ht]
    rfl
  indexes q t hq _ key i hi := h.indexes key i fun ha => hq (hi.unique ha)
  sequences q t _ _ s _ := by rw [h.sequences]

/-- An index that is found under a name is on `a`. -/
def OnlyOn (a : QualifiedName) (k : Catalog) (key : QualifiedName) : Prop :=
  ∀ i, k.indexes[key]? = some i → IndexOn a i

theorem onlyOn (h : Local a k k') {key : QualifiedName} (hk : OnlyOn a k key) :
    OnlyOn a k' key := by
  intro i hi
  by_contra hon
  exact hon (hk i ((h.indexes key i hon).mp hi))

end Local

open Local (OnlyOn)

variable {env : DdlEnv} {a : QualifiedName} {k k' : Catalog}

theorem getElem?_modifyTable (k : Catalog) (q q' : QualifiedName) (f : Table → Table) :
    (Catalog.modifyTable k q f).tables[q']? =
      if q' = q then (k.tables[q]?).map f else k.tables[q']? := by
  unfold Catalog.modifyTable
  cases hq : k.tables[q]? with
  | none => simp_all
  | some t => grind

theorem indexes_modifyTable (k : Catalog) (q : QualifiedName) (f : Table → Table) :
    (Catalog.modifyTable k q f).indexes = k.indexes := by
  unfold Catalog.modifyTable
  split <;> rfl

theorem sequences_modifyTable (k : Catalog) (q : QualifiedName) (f : Table → Table) :
    (Catalog.modifyTable k q f).sequences = k.sequences := by
  unfold Catalog.modifyTable
  split <;> rfl

theorem local_modifyTable (k : Catalog) {f : Table → Table}
    (hf : ∀ t, (f t).qualified = t.qualified) : Local a k (Catalog.modifyTable k a f) where
  tables q hq := by rw [getElem?_modifyTable, if_neg hq]
  indexes key i _ := by rw [indexes_modifyTable]
  sequences := sequences_modifyTable k a f
  keyed hk := by
    refine ⟨fun q t ht => ?_, fun q i hi => hk.indexes q i ?_⟩
    · rw [getElem?_modifyTable] at ht
      split at ht
      · next hq =>
        obtain ⟨t₀, ht₀, rfl⟩ := Option.map_eq_some_iff.mp ht
        rw [hf, hk.tables a t₀ ht₀, hq]
      · exact hk.tables q t ht
    · rwa [indexes_modifyTable] at hi

theorem getElem?_eraseIndex (k : Catalog) (schema name : String) (key : QualifiedName) :
    (Catalog.eraseIndex k schema name).indexes[key]? =
      if key = ⟨schema, name⟩ then none else k.indexes[key]? :=
  OrderedMap.get_erase k.indexes _ key

theorem keyed_eraseIndex (hk : Keyed k) (schema name : String) :
    Keyed (Catalog.eraseIndex k schema name) := by
  refine ⟨hk.tables, fun q i hi => hk.indexes q i ?_⟩
  rw [getElem?_eraseIndex] at hi
  split at hi
  · cases hi
  · exact hi

theorem local_eraseIndex {schema name : String} (h : OnlyOn a k ⟨schema, name⟩) :
    Local a k (Catalog.eraseIndex k schema name) where
  tables _ _ := rfl
  indexes key i hi := by
    rw [getElem?_eraseIndex]
    split
    · next hkey =>
      refine ⟨fun he => ?_, fun he => absurd (h i ?_) hi⟩
      · cases he
      · rwa [← hkey]
    · exact Iff.rfl
  sequences := rfl
  keyed hk := keyed_eraseIndex hk schema name

theorem getElem?_tryInsertIndex (k : Catalog) (i : Index) (key : QualifiedName) :
    (Catalog.tryInsertIndex k i).indexes[key]? =
      if key = ⟨i.schema, i.name⟩ ∧ k.indexes[key]? = none then some i else k.indexes[key]? := by
  unfold Catalog.tryInsertIndex
  split
  · next hin => simp_all
  · next hin => grind

theorem local_tryInsertIndex (k : Catalog) (hi : IndexOn a i) :
    Local a k (Catalog.tryInsertIndex k i) where
  tables q _ := by
    unfold Catalog.tryInsertIndex
    split <;> rfl
  indexes key j hj := by
    rw [getElem?_tryInsertIndex]
    split
    · next hnew => grind
    · exact Iff.rfl
  sequences := by
    unfold Catalog.tryInsertIndex
    split <;> rfl
  keyed hk := by
    refine ⟨fun q t ht => hk.tables q t ?_, fun q j hj => ?_⟩
    · unfold Catalog.tryInsertIndex at ht
      split at ht <;> exact ht
    · rw [getElem?_tryInsertIndex] at hj
      split at hj
      · next hnew => simp_all
      · exact hk.indexes q j hj

/-- The indexes of a table are found under names of their own. -/
theorem onlyOn_of_mem (hk : Keyed k) (hi : i ∈ k.indexesForTable a.schema a.name) :
    OnlyOn a k ⟨a.schema, i.name⟩ := by
  obtain ⟨hmem, hon⟩ := mem_filter.mp hi
  obtain ⟨hschema, htable⟩ := (Bool.and_eq_true _ _).mp hon
  rw [beq_iff_eq] at hschema htable
  obtain ⟨key, hkey⟩ := mem_values_iff.mp hmem
  have hown := hk.indexes key i hkey
  rw [hschema] at hown
  intro j hj
  rw [hown, hkey] at hj
  cases hj
  exact ⟨hschema, htable⟩

/-- A loop over names that stand for indexes of the table. -/
theorem local_foldl {f : Catalog → Index → Catalog} {l : List Index}
    (hf : ∀ k i, OnlyOn a k ⟨a.schema, i.name⟩ → i ∈ l → Local a k (f k i))
    (hl : ∀ i ∈ l, OnlyOn a k ⟨a.schema, i.name⟩) : Local a k (l.foldl f k) := by
  induction l generalizing k with
  | nil => exact .refl a k
  | cons i l ih =>
    have hstep := hf k i (hl i mem_cons_self) mem_cons_self
    refine hstep.trans (ih (fun k' j hj hmem => hf k' j hj (mem_cons_of_mem i hmem))
      fun j hj => hstep.onlyOn (hl j (mem_cons_of_mem i hj)))

theorem local_inserts {α : Type} {l : List α} {f : α → Index} (hf : ∀ u ∈ l, IndexOn a (f u))
    (k : Catalog) : Local a k (l.foldl (fun k u => Catalog.tryInsertIndex k (f u)) k) := by
  induction l generalizing k with
  | nil => exact .refl a k
  | cons u l ih =>
    exact (local_tryInsertIndex k (hf u (.head _))).trans (ih (fun v hv => hf v (.tail u hv)) _)

/-! ### ALTER TABLE -/

/-- The operations that may reach other tables. -/
def AlterOp.isWide : AlterOp → Bool
  | .renameTable _ => true
  | .dropConstraint _ => true
  | _ => false

variable {t : Table} {ifExists : Bool}

theorem local_alterDropColumn {names : List String} (hk : Keyed k)
    (h : alterDropColumn k a t names ifExists = .ok k') : Local a k k' := by
  obtain ⟨columns, -, h⟩ := except_bind_ok.mp h
  cases h
  have hset : Local a k (Catalog.modifyTable k a fun t => { t with columns := columns }) :=
    local_modifyTable k fun _ => rfl
  refine hset.trans (local_foldl (fun k' i hi _ => local_eraseIndex hi) fun i hi => ?_)
  exact onlyOn_of_mem (hset.keyed hk) (mem_filter.mp hi).1

theorem local_alterRenameColumn {old new : String} (hk : Keyed k)
    (h : alterRenameColumn k a t old new = .ok k') : Local a k k' := by
  unfold alterRenameColumn at h
  split at h
  · cases h
  · next i hi =>
    cases h
    have hset : Local a k (Catalog.modifyTable k a (renameInTable i old new)) :=
      local_modifyTable k fun _ => rfl
    refine hset.trans (local_foldl (fun k' j hj hmem => ?_) fun j hj =>
      onlyOn_of_mem (hset.keyed hk) hj)
    refine (local_eraseIndex hj).trans (local_tryInsertIndex _ ?_)
    have hon := (mem_filter.mp hmem).2
    simpa [IndexOn] using hon

theorem local_alterColumn {column : String} {f : Column → Column}
    (h : alterColumn k a t column f = .ok k') : Local a k k' := by
  unfold alterColumn at h
  split at h
  · cases h
  · cases h
    exact local_modifyTable k fun _ => rfl

theorem local_alterAddConstraint {constraint : TableConstraint}
    (h : alterAddConstraint k a constraint = .ok k') : Local a k k' := by
  obtain ⟨parts, -, h⟩ := except_bind_ok.mp h
  cases h
  have hset : Local a k (Catalog.modifyTable k a (withConstraints parts)) :=
    local_modifyTable k fun _ => rfl
  refine (hset.trans ?_).trans (local_inserts (fun u _ => ⟨rfl, rfl⟩) _)
  split
  · exact .refl a _
  · exact local_tryInsertIndex _ ⟨rfl, rfl⟩

variable {op : AlterOp}

/-- **All operations but two are local.** -/
theorem alterStep_cases (hk : Keyed k) (h : alterStep env a k op = .ok k') :
    op.isWide = false ∧ Local a k k' ∨
      (∃ new, op = .renameTable new ∧ alterRenameTable env k a new = .ok k') ∨
      ∃ name, op = .dropConstraint name ∧ k' = alterDropConstraint k a name := by
  unfold alterStep at h
  split at h
  · cases h
  · next t ht =>
    cases op with
    | addColumn spec ifNotExists =>
      refine .inl ⟨rfl, ?_⟩
      obtain ⟨parts, -, h⟩ := except_bind_ok.mp h
      split at h
      · split at h
        · cases h
          exact .refl a k
        · cases h
      · cases h
        exact local_modifyTable k fun _ => rfl
    | dropColumn names ifExists => exact .inl ⟨rfl, local_alterDropColumn hk h⟩
    | renameColumn old new => exact .inl ⟨rfl, local_alterRenameColumn hk h⟩
    | setNotNull | dropNotNull | setDefault | dropDefault =>
      exact .inl ⟨rfl, local_alterColumn h⟩
    | setDataType column dataType =>
      obtain ⟨ty, -, h⟩ := except_bind_ok.mp h
      obtain ⟨-, -, h⟩ := except_bind_ok.mp h
      exact .inl ⟨rfl, local_alterColumn h⟩
    | renameTable new => exact .inr (.inl ⟨new, rfl, h⟩)
    | dropConstraint name => exact .inr (.inr ⟨name, rfl, (Except.ok.inj h).symm⟩)
    | addConstraint constraint => exact .inl ⟨rfl, local_alterAddConstraint h⟩
    | rowSecurity enabled forced =>
      cases h
      exact .inl ⟨rfl, local_modifyTable k fun _ => rfl⟩

def IndexClear (a : QualifiedName) (k : Catalog) (name : String) : Prop :=
  ∀ i : Index, k.indexes[(⟨a.schema, name⟩ : QualifiedName)]? = some i →
    ∀ (q : QualifiedName) (t : Table), q ≠ a → k.tables[q]? = some t → ¬ IndexOn q i

/-- No other table uses a sequence of the table, unless it is missing already. -/
def SequencesClear (a : QualifiedName) (k : Catalog) : Prop :=
  ∀ t, k.tables[a]? = some t → ∀ s ∈ Catalog.sequencesOf a.schema t,
    ∀ (q : QualifiedName) (t' : Table), q ≠ a → k.tables[q]? = some t' →
      s ∈ Catalog.sequencesOf q.schema t' → k.sequences[s]? = none

def Unreferenced (a : QualifiedName) (k : Catalog) : Prop :=
  ∀ (q : QualifiedName) (t : Table), q ≠ a → k.tables[q]? = some t →
    ∀ fk ∈ t.foreignKeys, Catalog.references a fk = false

/-- The state in which an operation leaves the other tables alone. -/
def AlterOp.Clear (a : QualifiedName) (k : Catalog) : AlterOp → Prop
  | .renameTable _ => Unreferenced a k ∧ SequencesClear a k
  | .dropConstraint name => IndexClear a k name
  | _ => True

theorem withoutReferences_eq_self {a : QualifiedName} :
    Catalog.withoutReferences a t = t ↔ ∀ fk ∈ t.foreignKeys, Catalog.references a fk = false := by
  constructor
  · intro h fk hfk
    have hsame := congrArg Table.foreignKeys h
    have hkept := filter_eq_self.mp hsame fk hfk
    simpa using hkept
  · intro h
    have hsame : t.foreignKeys.filter (fun fk => !Catalog.references a fk) = t.foreignKeys :=
      filter_eq_self.mpr fun fk hfk => by rw [h fk hfk]; rfl
    rw [Catalog.withoutReferences, hsame]

theorem withoutReferences_idem (a : QualifiedName) (t : Table) :
    Catalog.withoutReferences a (Catalog.withoutReferences a t) =
      Catalog.withoutReferences a t := by
  refine withoutReferences_eq_self.mpr fun fk hfk => ?_
  simpa using (mem_filter.mp hfk).2

/-! #### DROP CONSTRAINT -/

theorem tables_dropConstraint (k : Catalog) (name : String) {q : QualifiedName} (hq : q ≠ a) :
    (alterDropConstraint k a name).tables[q]? = k.tables[q]? := by
  rw [alterDropConstraint, getElem?_modifyTable, if_neg hq]
  rfl

theorem getElem?_dropConstraint (k : Catalog) (name : String) (key : QualifiedName) :
    (alterDropConstraint k a name).indexes[key]? =
      if key = ⟨a.schema, name⟩ then none else k.indexes[key]? := by
  rw [alterDropConstraint, indexes_modifyTable, getElem?_eraseIndex]

theorem dropConstraint_framed_iff (k : Catalog) (name : String) :
    Framed a false k (alterDropConstraint k a name) ↔ IndexClear a k name := by
  constructor
  · intro h i hi q t hq ht hon
    have hgone := (h.indexes q t hq ht ⟨a.schema, name⟩ i hon).mpr hi
    rw [getElem?_dropConstraint, if_pos rfl] at hgone
    cases hgone
  · intro h
    refine ⟨fun q t hq ht => ?_, fun q t hq ht key i hon => ?_, fun q t _ _ s _ => ?_⟩
    · rw [tables_dropConstraint k name hq, ht]
      rfl
    · rw [getElem?_dropConstraint]
      split
      · next hkey =>
        refine ⟨fun he => ?_, fun he => ?_⟩
        · cases he
        · exact absurd hon (h i (hkey ▸ he) q t hq ht)
      · exact Iff.rfl
    · rw [alterDropConstraint, sequences_modifyTable]
      rfl

/-! #### RENAME TO and DROP TABLE -/

theorem getElem?_foldl_erase (l : List QualifiedName) (m : ExtTreeMap QualifiedName Sequence)
    (s : QualifiedName) :
    (l.foldl (fun m seq => m.erase seq) m)[s]? = if s ∈ l then none else m[s]? := by
  induction l generalizing m with
  | nil => simp
  | cons q l ih => grind

section
variable {t : Table}

theorem tables_withoutTable (k : Catalog) (t : Table) {q : QualifiedName} (hq : q ≠ a) :
    (Catalog.withoutTable k a t).tables[q]? =
      (k.tables[q]?).map (Catalog.withoutReferences a) := by
  rw [Catalog.withoutTable, getElem?_map, OrderedMap.get_erase, if_neg hq]

theorem not_mem_withoutTable (k : Catalog) (t : Table) :
    (Catalog.withoutTable k a t).tables[a]? = none := by
  rw [Catalog.withoutTable, getElem?_map, OrderedMap.get_erase, if_pos rfl]
  rfl

theorem indexes_withoutTable (k : Catalog) (t : Table) (key : QualifiedName) (i : Index) :
    (Catalog.withoutTable k a t).indexes[key]? = some i ↔
      k.indexes[key]? = some i ∧ ¬ IndexOn a i := by
  rw [Catalog.withoutTable, getElem?_filter', Option.filter_eq_some_iff]
  simp only [IndexOn, Bool.not_eq_true', Bool.and_eq_false_iff, beq_eq_false_iff_ne, ne_eq,
    not_and_or]

theorem keyed_withoutTable (hk : Keyed k) (t : Table) : Keyed (Catalog.withoutTable k a t) := by
  refine ⟨fun q t' ht' => ?_, fun q i hi => hk.indexes q i
    ((indexes_withoutTable k t q i).mp hi).1⟩
  by_cases hq : q = a
  · rw [hq, not_mem_withoutTable] at ht'
    cases ht'
  · rw [tables_withoutTable k t hq] at ht'
    obtain ⟨t₀, ht₀, rfl⟩ := Option.map_eq_some_iff.mp ht'
    exact hk.tables q t₀ ht₀

/-- What is left without a table, as far as the others are concerned. -/
structure Without (a : QualifiedName) (t : Table) (k k' : Catalog) : Prop where
  tables : ∀ (q : QualifiedName) (t' : Table), q ≠ a → k.tables[q]? = some t' →
    k'.tables[q]? = some (Catalog.withoutReferences a t')
  indexes : ∀ (q : QualifiedName) (t' : Table), q ≠ a → k.tables[q]? = some t' →
    ∀ (key : QualifiedName) (i : Index), IndexOn q i →
      (k'.indexes[key]? = some i ↔ k.indexes[key]? = some i)
  sequences : ∀ s, k'.sequences[s]? =
    if s ∈ Catalog.sequencesOf a.schema t then none else k.sequences[s]?

theorem without_withoutTable (k : Catalog) (t : Table) :
    Without a t k (Catalog.withoutTable k a t) where
  tables q t' hq ht' := by rw [tables_withoutTable k t hq, ht']; rfl
  indexes q t' hq _ key i hon := by
    rw [indexes_withoutTable]
    exact and_iff_left fun ha => hq (hon.unique ha)
  sequences := getElem?_foldl_erase _ _

/-- The sequences of the other tables stay exactly if none is shared. -/
theorem Without.sequences_iff (h : Without a t k k') (ht : k.tables[a]? = some t) :
    (∀ (q : QualifiedName) (t' : Table), q ≠ a → k.tables[q]? = some t' →
      ∀ s ∈ Catalog.sequencesOf q.schema t', k'.sequences[s]? = k.sequences[s]?) ↔
        SequencesClear a k := by
  constructor
  · intro hsame t₀ ht₀ s hs q t' hq ht' hs'
    cases ht.symm.trans ht₀
    rw [← hsame q t' hq ht' s hs', h.sequences, if_pos hs]
  · intro hclear q t' hq ht' s hs'
    rw [h.sequences]
    split
    · next hs => exact (hclear t ht s hs q t' hq ht' hs').symm
    · rfl

theorem Without.framed_cascade_iff (h : Without a t k k') (ht : k.tables[a]? = some t) :
    Framed a true k k' ↔ SequencesClear a k :=
  ⟨fun hf => (h.sequences_iff ht).mp hf.sequences,
    fun hs => ⟨h.tables, h.indexes, (h.sequences_iff ht).mpr hs⟩⟩

theorem Without.framed_iff (h : Without a t k k') (ht : k.tables[a]? = some t) :
    Framed a false k k' ↔ Unreferenced a k ∧ SequencesClear a k := by
  constructor
  · intro hf
    refine ⟨fun q t' hq ht' => withoutReferences_eq_self.mp ?_,
      (h.sequences_iff ht).mp hf.sequences⟩
    exact Option.some.inj ((h.tables q t' hq ht').symm.trans (hf.tables q t' hq ht'))
  · rintro ⟨hrefs, hs⟩
    refine ⟨fun q t' hq ht' => ?_, h.indexes, (h.sequences_iff ht).mpr hs⟩
    rw [h.tables q t' hq ht', withoutReferences_eq_self.mpr (hrefs q t' hq ht')]
    rfl

end

theorem insertTable_ok {schemas : List String} (h : Catalog.insertTable schemas k t = .ok k') :
    k.tables[t.qualified]? = none ∧ k' = { k with tables := k.tables.insert t.qualified t } := by
  unfold Catalog.insertTable at h
  split at h
  · cases h
  · next hnew => grind

theorem dropTableQualified_ok {k₁ : Catalog}
    (h : Catalog.dropTableQualified k a = .ok (t, k₁)) :
    k.tables[a]? = some t ∧ k₁ = Catalog.withoutTable k a t := by
  unfold Catalog.dropTableQualified at h
  split at h
  · cases h
  · next ht =>
    cases h
    exact ⟨ht, rfl⟩

/-- The indexes that RENAME TO makes. -/
def constraintIndexes (schema new : String) (t : Table) : List Index :=
  (t.primaryKey.map (pkIndex schema new t.pkName)).toList ++
    t.uniques.map fun u => uniqueIndex schema new { u with name := "" }

theorem tables_insertIndexes (l : List Index) (k : Catalog) :
    (l.foldl Catalog.tryInsertIndex k).tables = k.tables := by
  refine Loop.foldl_frame Catalog.tables (fun k i => ?_) l k
  unfold Catalog.tryInsertIndex
  split <;> rfl

variable {new : String}

/-- **The catalog after RENAME TO.** -/
theorem alterRenameTable_eq (hk : Keyed k) (h : alterRenameTable env k a new = .ok k') :
    ∃ t, k.tables[a]? = some t ∧
      (Catalog.withoutTable k a t).tables[(⟨a.schema, new⟩ : QualifiedName)]? = none ∧
      k' = (constraintIndexes a.schema new t).foldl Catalog.tryInsertIndex
        { Catalog.withoutTable k a t with
          tables := (Catalog.withoutTable k a t).tables.insert ⟨a.schema, new⟩
            { t with name := new } } := by
  obtain ⟨⟨t, k₁⟩, hdrop, hrest⟩ := except_bind_ok.mp h
  obtain ⟨k₂, hinsert, hindexed⟩ := except_bind_ok.mp hrest
  obtain ⟨ht, rfl⟩ := dropTableQualified_ok hdrop
  obtain ⟨hnew, rfl⟩ := insertTable_ok hinsert
  have hname : ({ t with name := new } : Table).qualified = ⟨a.schema, new⟩ := by
    rw [← congrArg QualifiedName.schema (hk.tables a t ht)]
    rfl
  rw [hname] at hnew
  refine ⟨t, ht, hnew, ?_⟩
  rw [← hname, constraintIndexes, foldl_append, foldl_map]
  cases hindexed
  cases t.primaryKey <;> rfl

/-- **RENAME TO**: the table has its new name, and the other tables end up as after a DROP
TABLE .. CASCADE. -/
theorem alterRenameTable_ok (hk : Keyed k) (h : alterRenameTable env k a new = .ok k') :
    ∃ t, k.tables[a]? = some t ∧ Without a t k k' ∧ Keyed k' ∧
      ∀ q : QualifiedName, k'.tables[q]? = if q = ⟨a.schema, new⟩ then some { t with name := new }
        else (Catalog.withoutTable k a t).tables[q]? := by
  obtain ⟨t, ht, hfree, hk'⟩ := alterRenameTable_eq hk h
  have hindexes : ∀ i ∈ constraintIndexes a.schema new t, IndexOn ⟨a.schema, new⟩ i := by
    intro i hi
    simp only [constraintIndexes, mem_append, Option.mem_toList, Option.map_eq_some_iff,
      mem_map] at hi
    rcases hi with ⟨pk, -, rfl⟩ | ⟨u, -, rfl⟩ <;> exact ⟨rfl, rfl⟩
  have hlocal := local_inserts (f := id) hindexes { Catalog.withoutTable k a t with
    tables := (Catalog.withoutTable k a t).tables.insert ⟨a.schema, new⟩ { t with name := new } }
  have htables : ∀ q : QualifiedName, k'.tables[q]? = if q = ⟨a.schema, new⟩ then
      some { t with name := new } else (Catalog.withoutTable k a t).tables[q]? := by
    intro q
    rw [hk', tables_insertIndexes]
    exact OrderedMap.get_insert _ _ _ q
  have hother : ∀ (q : QualifiedName) (t' : Table), q ≠ a → k.tables[q]? = some t' →
      q ≠ ⟨a.schema, new⟩ := by grind [tables_withoutTable]
  have hwithout := without_withoutTable (a := a) k t
  have hkeyed := keyed_withoutTable (a := a) hk t
  refine ⟨t, ht, ⟨fun q t' hq ht' => ?_, fun q t' hq ht' key i hon => ?_, fun s => ?_⟩, ?_, htables⟩
  · rw [htables, if_neg (hother q t' hq ht')]
    exact hwithout.tables q t' hq ht'
  · rw [hk']
    refine (hlocal.indexes key i fun hn => hother q t' hq ht' (hon.unique hn)).trans ?_
    exact hwithout.indexes q t' hq ht' key i hon
  · rw [hk']
    exact (congrArg (·[s]?) hlocal.sequences).trans (hwithout.sequences s)
  · rw [hk']
    refine hlocal.keyed ⟨fun q t' ht' => ?_, hkeyed.indexes⟩
    rw [OrderedMap.get_insert] at ht'
    split at ht'
    · next hq =>
      cases ht'
      rw [hq, ← congrArg QualifiedName.schema (hk.tables a t ht)]
      rfl
    · exact hkeyed.tables q t' ht'

/-! ### Whole statements -/

/-- What an operation of ALTER TABLE can do to the other tables at most. -/
structure Takes (a : QualifiedName) (k k' : Catalog) : Prop where
  tables : ∀ (q : QualifiedName) (t : Table), q ≠ a → k.tables[q]? = some t →
    k'.tables[q]? = some t ∨ k'.tables[q]? = some (Catalog.withoutReferences a t)
  indexes : ∀ (q : QualifiedName) (t : Table), q ≠ a → k.tables[q]? = some t →
    ∀ (key : QualifiedName) (i : Index), IndexOn q i → k'.indexes[key]? = some i →
      k.indexes[key]? = some i
  sequences : ∀ (s : QualifiedName) (v : Sequence), k'.sequences[s]? = some v →
    k.sequences[s]? = some v
  /-- While the table keeps its name no other appears. -/
  others : (k'.tables[a]?).isSome → ∀ (q : QualifiedName) (t' : Table), q ≠ a →
    k'.tables[q]? = some t' → (k.tables[q]?).isSome

theorem Local.takes (h : Local a k k') : Takes a k k' where
  tables q t hq ht := by
    rw [h.tables q hq]
    exact .inl ht
  indexes q t hq _ key i hon := (h.indexes key i fun ha => hq (hon.unique ha)).mp
  sequences s v hv := by rwa [h.sequences] at hv
  others _ q t' hq ht' := by
    rw [← h.tables q hq, ht']
    rfl

/-- One operation takes at most this, and keeps the names in order. -/
theorem alterStep_takes (hk : Keyed k) (h : alterStep env a k op = .ok k') :
    Takes a k k' ∧ Keyed k' := by
  rcases alterStep_cases hk h with ⟨-, hlocal⟩ | ⟨new, -, h⟩ | ⟨name, -, rfl⟩
  · exact ⟨hlocal.takes, hlocal.keyed hk⟩
  · obtain ⟨t, ht, hw, hkeyed, htables⟩ := alterRenameTable_ok hk h
    refine ⟨⟨fun q t' hq ht' => .inr (hw.tables q t' hq ht'),
      fun q t' hq ht' key i hon => (hw.indexes q t' hq ht' key i hon).mp,
      fun s v hv => ?_, fun hin q t' hq ht' => ?_⟩, hkeyed⟩
    · rw [hw.sequences] at hv
      split at hv
      · cases hv
      · exact hv
    · -- the old name is there only if it is the new one too
      have hsame : a = ⟨a.schema, new⟩ := by
        by_contra hne
        rw [htables, if_neg hne, not_mem_withoutTable] at hin
        cases hin
      rw [htables, if_neg (hsame ▸ hq), tables_withoutTable k t hq] at ht'
      obtain ⟨t₀, ht₀, -⟩ := Option.map_eq_some_iff.mp ht'
      exact Option.isSome_of_eq_some ht₀
  · refine ⟨⟨fun q t' hq ht' => .inl ?_, fun q t' _ _ key i _ hi => ?_,
      fun s v hv => ?_, fun _ q t' hq ht' => ?_⟩, (local_modifyTable (f := withoutConstraint name) _
        fun _ => rfl).keyed (keyed_eraseIndex hk a.schema name)⟩
    · rw [tables_dropConstraint k name hq, ht']
    · simp_all [getElem?_dropConstraint]
    · rwa [alterDropConstraint, sequences_modifyTable] at hv
    · rw [tables_dropConstraint k name hq] at ht'
      exact Option.isSome_of_eq_some ht'

/-- **One operation leaves the other tables alone exactly if it is clear.** -/
theorem alterStep_framed_iff (hk : Keyed k) (h : alterStep env a k op = .ok k') :
    Framed a false k k' ↔ op.Clear a k := by
  rcases alterStep_cases hk h with ⟨hop, hlocal⟩ | ⟨new, rfl, hren⟩ | ⟨name, rfl, rfl⟩
  · refine iff_of_true hlocal.framed ?_
    cases op with
    | renameTable | dropConstraint => cases hop
    | _ => trivial
  · obtain ⟨t, ht, hw, -⟩ := alterRenameTable_ok hk hren
    exact hw.framed_iff ht
  · exact dropConstraint_framed_iff k name

/-- **What is taken is not given back**: two steps leave the others alone exactly if
each does. -/
theorem framed_trans {k₁ k₂ : Catalog} (h₁ : Takes a k k₁) (h₂ : Takes a k₁ k₂)
    (hin : (k₁.tables[a]?).isSome) :
    Framed a false k k₂ ↔ Framed a false k k₁ ∧ Framed a false k₁ k₂ := by
  constructor
  · intro h
    have htables : ∀ q t, q ≠ a → k.tables[q]? = some t →
        k₁.tables[q]? = some t := by
      intro q t hq ht
      rcases h₁.tables q t hq ht with ht₁ | ht₁
      · exact ht₁
      · -- foreign keys that are gone stay away
        have hgone : k₂.tables[q]? = some (Catalog.withoutReferences a t) := by
          rcases h₂.tables q _ hq ht₁ with ht₂ | ht₂
          · exact ht₂
          · rwa [withoutReferences_idem] at ht₂
        have hsame : some t = some (Catalog.withoutReferences a t) :=
          (h.tables q t hq ht).symm.trans hgone
        rw [ht₁, ← hsame]
    have hfirst : Framed a false k k₁ := by
      refine ⟨htables, fun q t hq ht key i hon => ?_, fun q t hq ht s hs => ?_⟩
      · refine ⟨h₁.indexes q t hq ht key i hon, fun hi => ?_⟩
        exact h₂.indexes q t hq (htables q t hq ht) key i hon
          ((h.indexes q t hq ht key i hon).mpr hi)
      · refine Option.ext fun v => ⟨h₁.sequences s v, fun hv => h₂.sequences s v ?_⟩
        rwa [h.sequences q t hq ht s hs]
    refine ⟨hfirst, fun q t hq ht => ?_, fun q t hq ht key i hon => ?_,
      fun q t hq ht s hs => ?_⟩ <;>
    obtain ⟨t₀, ht₀⟩ := Option.isSome_iff_exists.mp (h₁.others hin q t hq ht) <;>
    obtain rfl : t₀ = t := Option.some.inj ((htables q t₀ hq ht₀).symm.trans ht)
    · exact h.tables q t₀ hq ht₀
    · rw [h.indexes q t₀ hq ht₀ key i hon, hfirst.indexes q t₀ hq ht₀ key i hon]
    · rw [h.sequences q t₀ hq ht₀ s hs, hfirst.sequences q t₀ hq ht₀ s hs]
  · rintro ⟨hf₁, hf₂⟩
    refine ⟨fun q t hq ht => hf₂.tables q t hq (hf₁.tables q t hq ht),
      fun q t hq ht key i hon => ?_, fun q t hq ht s hs => ?_⟩
    · rw [hf₂.indexes q t hq (hf₁.tables q t hq ht) key i hon, hf₁.indexes q t hq ht key i hon]
    · rw [hf₂.sequences q t hq (hf₁.tables q t hq ht) s hs, hf₁.sequences q t hq ht s hs]

theorem Takes.trans {k₁ k₂ : Catalog} (h₁ : Takes a k k₁) (h₂ : Takes a k₁ k₂)
    (hin : (k₁.tables[a]?).isSome) : Takes a k k₂ where
  tables q t hq ht := by
    rcases h₁.tables q t hq ht with ht₁ | ht₁
    · exact h₂.tables q t hq ht₁
    · rcases h₂.tables q _ hq ht₁ with ht₂ | ht₂
      · exact .inr ht₂
      · rw [withoutReferences_idem] at ht₂
        exact .inr ht₂
  indexes q t hq ht key i hon hi := by
    obtain ⟨t₁, ht₁⟩ : ∃ t₁, k₁.tables[q]? = some t₁ := by
      rcases h₁.tables q t hq ht with ht₁ | ht₁ <;> exact ⟨_, ht₁⟩
    exact h₁.indexes q t hq ht key i hon (h₂.indexes q t₁ hq ht₁ key i hon hi)
  sequences s v hv := h₁.sequences s v (h₂.sequences s v hv)
  others hin₂ q t' hq ht' := by
    obtain ⟨t₁, ht₁⟩ := Option.isSome_iff_exists.mp (h₂.others hin₂ q t' hq ht')
    exact h₁.others hin q t₁ hq ht₁

/-- Every operation of an ALTER TABLE is clear when its turn comes. -/
def AlterClear (env : DdlEnv) (a : QualifiedName) : List AlterOp → Catalog → Prop
  | [], _ => True
  | op :: ops, k => op.Clear a k ∧ ∀ k', alterStep env a k op = .ok k' → AlterClear env a ops k'

theorem exists_of_alterStep (h : alterStep env a k op = .ok k') : (k.tables[a]?).isSome := by
  unfold alterStep at h
  split at h
  · cases h
  · next t ht => rw [ht]; rfl

/-- A whole ALTER TABLE. -/
theorem alterTable_framed_iff {ops : List AlterOp} (hk : Keyed k)
    (h : alterTable env k a ops = .ok k') :
    Takes a k k' ∧ (Framed a false k k' ↔ AlterClear env a ops k) := by
  induction ops generalizing k with
  | nil =>
    cases h
    exact ⟨(Local.refl a k').takes, iff_of_true (Local.refl a k').framed trivial⟩
  | cons op ops ih =>
    rw [alterTable, foldlM_cons] at h
    obtain ⟨k₁, hstep, h⟩ := except_bind_ok.mp h
    obtain ⟨htakes, hkeyed⟩ := alterStep_takes hk hstep
    obtain ⟨htakes', hiff⟩ := ih hkeyed h
    have hclear : AlterClear env a (op :: ops) k ↔ op.Clear a k ∧ AlterClear env a ops k₁ := by
      refine and_congr_right fun _ => ⟨fun hall => hall k₁ hstep, fun hops k₂ hk₂ => ?_⟩
      cases hstep.symm.trans hk₂
      exact hops
    rw [hclear, ← hiff, ← alterStep_framed_iff hk hstep]
    cases ops with
    | nil =>
      cases h
      exact ⟨htakes, (and_iff_left (Local.refl a k').framed).symm⟩
    | cons op' ops =>
      -- the next operation has found the table
      have hin : (k₁.tables[a]?).isSome := by
        grind [except_bind_ok, exists_of_alterStep]
      exact ⟨htakes.trans htakes' hin, framed_trans htakes htakes' hin⟩

/-- ALTER TABLE, DROP TABLE and DROP INDEX, about one table. -/
inductive TableDdl where
  | alterTable (ops : List AlterOp)
  | dropTable (cascade : Bool)
  | dropIndex (names : List TableName) (ifExists : Bool)

namespace TableDdl

/-- The statement, on a table that has been resolved. -/
def exec (env : DdlEnv) (a : QualifiedName) (k : Catalog) : TableDdl → Except SqlError Catalog
  | .alterTable ops => Sql.alterTable env k a ops
  | .dropTable cascade => Sql.dropTable [a] cascade k a
  | .dropIndex names ifExists => dropIndexes names ifExists k

/-- The statement drops foreign keys on the table as told. -/
def cascades : TableDdl → Bool
  | .dropTable cascade => cascade
  | _ => false

/-- The index that a name stands for: by its schema, or the first on the search path. -/
def indexNamed (k : Catalog) (n : TableName) : Option QualifiedName :=
  match n.1 with
  | some s => some ⟨s, n.2⟩
  | none => (k.searchPath.map fun s => (⟨s, n.2⟩ : QualifiedName)).find? k.indexes.contains

/-- The names of a DROP INDEX stand for indexes of the table, when their turn comes. -/
def NamesIndexes (a : QualifiedName) (ifExists : Bool) : List TableName → Catalog → Prop
  | [], _ => True
  | n :: names, k => (∀ q, indexNamed k n = some q → OnlyOn a k q) ∧
      ∀ k', Catalog.dropIndex k n.1 n.2 ifExists = .ok k' → NamesIndexes a ifExists names k'

/-- The statement names objects of the table only. -/
def NamesOnly (a : QualifiedName) (k : Catalog) : TableDdl → Prop
  | .dropIndex names ifExists => NamesIndexes a ifExists names k
  | _ => True

/-- The state in which a statement leaves the other tables alone. -/
def Clear (env : DdlEnv) (a : QualifiedName) (k : Catalog) : TableDdl → Prop
  | .alterTable ops => AlterClear env a ops k
  | .dropTable _ => SequencesClear a k
  | .dropIndex _ _ => True

end TableDdl

/-- DROP INDEX takes the index that its name stands for, or nothing. -/
theorem dropIndex_ok {n : TableName} (h : Catalog.dropIndex k n.1 n.2 ifExists = .ok k') :
    (TableDdl.indexNamed k n = none ∧ k' = k) ∨ ∃ q, TableDdl.indexNamed k n = some q ∧
      k' = Catalog.eraseIndex k q.schema q.name := by
  obtain ⟨schema, name⟩ := n
  cases schema with
  | some s =>
    simp only [Catalog.dropIndex] at h
    split at h
    · exact .inr ⟨_, rfl, (Except.ok.inj h).symm⟩
    · cases h
  | none =>
    simp only [Catalog.dropIndex] at h
    split at h
    · next q hfind => exact .inr ⟨q, hfind, (Except.ok.inj h).symm⟩
    · next hfind =>
      split at h
      · exact .inl ⟨hfind, (Except.ok.inj h).symm⟩
      · cases h

theorem local_dropIndex {n : TableName}
    (hnames : ∀ q, TableDdl.indexNamed k n = some q → OnlyOn a k q)
    (h : Catalog.dropIndex k n.1 n.2 ifExists = .ok k') : Local a k k' := by
  rcases dropIndex_ok h with ⟨-, rfl⟩ | ⟨q, hq, rfl⟩
  · exact .refl a _
  · exact local_eraseIndex (hnames q hq)

theorem local_dropIndexes {names : List TableName}
    (hnames : TableDdl.NamesIndexes a ifExists names k) (h : dropIndexes names ifExists k = .ok k')
    : Local a k k' := by
  induction names generalizing k with
  | nil =>
    cases h
    exact .refl a k'
  | cons n names ih =>
    obtain ⟨k₁, hstep, h⟩ := except_bind_ok.mp h
    exact (local_dropIndex hnames.1 hstep).trans (ih (hnames.2 k₁ hstep) h)

/-- DROP TABLE. Without CASCADE no other table references it. -/
theorem dropTable_framed_iff (hk : Keyed k) {cascade : Bool}
    (h : dropTable [a] cascade k a = .ok k') : Framed a cascade k k' ↔ SequencesClear a k := by
  unfold dropTable at h
  split at h
  · cases h
  · next hfind =>
    obtain ⟨⟨t, k₁⟩, hdrop, rfl⟩ := except_map_ok.mp h
    obtain ⟨ht, rfl⟩ := dropTableQualified_ok hdrop
    have hw := without_withoutTable (a := a) k t
    cases cascade with
    | true => exact hw.framed_cascade_iff ht
    | false =>
      refine (hw.framed_iff ht).trans (and_iff_right fun q t' hq ht' fk hfk => ?_)
      by_contra href
      rw [Bool.not_eq_false] at href
      have hmem : (q, fk) ∈ k.referencingForeignKeys a := by
        refine mem_flatMap.mpr ⟨t', mem_values_iff.mpr ⟨q, ht'⟩, ?_⟩
        refine mem_map.mpr ⟨fk, mem_filter.mpr ⟨hfk, href⟩, ?_⟩
        rw [hk.tables q t' ht']
      have hnot := List.find?_eq_none.mp hfind (q, fk) hmem
      simp [hq] at hnot

/-- **A statement about one table leaves the others alone exactly if it is clear**: no
DROP CONSTRAINT hits an index of another table, no RENAME TO meets a foreign key on the
table, and neither RENAME TO nor DROP TABLE takes a sequence that another table uses. -/
theorem ddl_frames_iff (env : DdlEnv) (a : QualifiedName) {k k' : Catalog} (hk : Keyed k)
    (stmt : TableDdl) (hnames : stmt.NamesOnly a k) (h : stmt.exec env a k = .ok k') :
    Framed a stmt.cascades k k' ↔ stmt.Clear env a k := by
  cases stmt with
  | alterTable ops => exact (alterTable_framed_iff hk h).2
  | dropTable cascade => exact dropTable_framed_iff hk h
  | dropIndex names ifExists =>
    exact iff_of_true (local_dropIndexes hnames h).framed trivial

/-! ### A constraint with the name of another table's index -/

theorem keyed_of_all {k : Catalog}
    (ht : (k.tables.toList.all fun p => p.2.qualified == p.1) = true)
    (hi : (k.indexes.toList.all fun p => ⟨p.2.schema, p.2.name⟩ == p.1) = true) : Keyed k := by
  refine ⟨fun q t hq => ?_, fun q i hq => ?_⟩
  · have hmem := mem_toList_iff_getElem?_eq_some.mpr hq
    simpa using all_eq_true.mp ht _ hmem
  · have hmem := mem_toList_iff_getElem?_eq_some.mpr hq
    simpa using all_eq_true.mp hi _ hmem

/-- `CREATE TABLE users (id int PRIMARY KEY)`, and `CREATE TABLE orders (id int,
CONSTRAINT c CHECK (id > 0))`. -/
def usersAndOrders (c : String) : Except SqlError Catalog := do
  let k ← createTable integersOnly noTables 16384 "public" "users" [itemId] []
  createTable integersOnly k 16385 "public" "orders" [⟨"id", "int", []⟩]
    [.check (some c) "id > 0"]

def usersName : QualifiedName := ⟨"public", "users"⟩

def ordersName : QualifiedName := ⟨"public", "orders"⟩

/-- `ALTER TABLE orders DROP CONSTRAINT c`. -/
def dropCheck (c : String) : TableDdl := .alterTable [.dropConstraint c]

theorem exec_dropCheck {k : Catalog} (c : String) (h : k.tables[ordersName]? = some t) :
    (dropCheck c).exec integersOnly ordersName k = .ok (alterDropConstraint k ordersName c) := by
  simp only [dropCheck, TableDdl.exec, alterTable, foldlM_cons, foldlM_nil, alterStep, h]
  rfl

/-- A CHECK of `orders` may have the name of the primary-key index of `users`; dropping
the one drops the other. -/
theorem drop_constraint_drops_other_index :
    ∃ k k', usersAndOrders "users_pkey" = .ok k ∧
      (dropCheck "users_pkey").exec integersOnly ordersName k = .ok k' ∧
        ¬ Framed ordersName false k k' := by
  obtain ⟨k, hk⟩ : ∃ k, usersAndOrders "users_pkey" = .ok k :=
    except_isOk_iff.mp (by decide +kernel)
  have hindex : (usersAndOrders "users_pkey").toOption.bind (fun k =>
      k.indexes[(⟨"public", "users_pkey"⟩ : QualifiedName)]?) =
        some (pkIndex "public" "users" "users_pkey" ["id"]) := by decide +kernel
  have husers : ((usersAndOrders "users_pkey").toOption.bind fun k =>
      k.tables[usersName]?).isSome = true := by decide +kernel
  have horders : ((usersAndOrders "users_pkey").toOption.bind fun k =>
      k.tables[ordersName]?).isSome = true := by decide +kernel
  rw [hk] at hindex husers horders
  obtain ⟨users, husers⟩ := Option.isSome_iff_exists.mp husers
  obtain ⟨orders, horders⟩ := Option.isSome_iff_exists.mp horders
  refine ⟨k, _, hk, exec_dropCheck "users_pkey" horders, fun hframed => ?_⟩
  have hclear := (dropConstraint_framed_iff k "users_pkey").mp hframed
  exact hclear _ hindex usersName users (by decide) husers ⟨rfl, rfl⟩

/-- With a name of its own the constraint goes alone. -/
theorem ddl_frames_own_name :
    ∃ k k', usersAndOrders "positive" = .ok k ∧
      (dropCheck "positive").exec integersOnly ordersName k = .ok k' ∧
        Framed ordersName false k k' := by
  obtain ⟨k, hk⟩ : ∃ k, usersAndOrders "positive" = .ok k :=
    except_isOk_iff.mp (by decide +kernel)
  have hindex : (usersAndOrders "positive").toOption.bind (fun k =>
      k.indexes[(⟨"public", "positive"⟩ : QualifiedName)]?) = none := by decide +kernel
  have horders : ((usersAndOrders "positive").toOption.bind fun k =>
      k.tables[ordersName]?).isSome = true := by decide +kernel
  have hkeyed : ((usersAndOrders "positive").toOption.map fun k =>
      (k.tables.toList.all fun p => p.2.qualified == p.1) &&
        k.indexes.toList.all fun p => ⟨p.2.schema, p.2.name⟩ == p.1) = some true := by
    decide +kernel
  rw [hk] at hindex horders hkeyed
  obtain ⟨orders, horders⟩ := Option.isSome_iff_exists.mp horders
  obtain ⟨htables, hindexes⟩ := (Bool.and_eq_true _ _).mp (Option.some.inj hkeyed)
  refine ⟨k, _, hk, exec_dropCheck "positive" horders,
    (ddl_frames_iff integersOnly ordersName (keyed_of_all htables hindexes) (dropCheck "positive")
      trivial (exec_dropCheck "positive" horders)).mpr ⟨?_, fun _ _ => trivial⟩⟩
  intro i hi
  cases hindex.symm.trans hi

end GuardianDb.Sql
