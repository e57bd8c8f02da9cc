/-
ADD COLUMN against a column of CREATE TABLE.

Both read a column specification with `build_column`. CREATE TABLE uses everything it
collects; ALTER TABLE .. ADD COLUMN keeps the column and drops the keys, constraints
and sequences that came with it. So the two end in one catalog exactly if the added
specifications bring nothing but their columns.

  * `buildColumn_ok` — what one specification adds to what has been collected.
  * `createParts_ok` — the catalog after CREATE TABLE.
  * `alterTable_addColumns` — the catalog after ADD COLUMN.
  * `add_column_same_iff` — when the two ways to a table agree.
-/
import GuardianDb.Lib.Loop
import GuardianDb.Sql.Ddl
import GuardianDb.Sql.LockedReads

namespace GuardianDb.Sql

open List hiding getElem?_insert map_map
open Std Relational Fallible ExtTreeMap

/-! ### Specifications -/

/-- An option that describes the column only. -/
def ColumnOption.isPlain : ColumnOption → Bool
  | .primaryKey => false
  | .unique _ => false
  | .references _ _ => false
  | .check _ _ => false
  | _ => true

/-- NOT NULL and NULL; the last one counts. -/
def optionNullable (nullable : Bool) : ColumnOption → Bool
  | .notNull => false
  | .primaryKey => false
  | .null => true
  | _ => nullable

/-- DEFAULT; the last one counts. -/
def optionDefault (default : Option String) : ColumnOption → Option String
  | .default text => some text
  | _ => default

namespace ColumnSpec

/-- The sequence of a `serial` column. -/
def sequence? (table : String) (spec : ColumnSpec) : Option String :=
  (serialType spec.dataType).map fun _ => sequenceName table spec.name

/-- The type of the column, if it can be used. -/
def type (env : DdlEnv) (spec : ColumnSpec) : Except SqlError SqlType := do
  let ty ← columnType env spec.dataType
  env.checkTypeUsable ty
  return ty

def column (table : String) (spec : ColumnSpec) (ty : SqlType) : Column :=
  ⟨spec.name, ty, spec.options.foldl optionNullable (spec.sequence? table).isNone,
    spec.options.foldl optionDefault
      ((spec.sequence? table).map fun seq => "nextval('" ++ seq ++ "')"),
    spec.sequence? table⟩

/-- The columns of some specifications. -/
def columns (env : DdlEnv) (table : String) (specs : List ColumnSpec) : List Column :=
  specs.filterMap fun spec => (spec.type env).toOption.map (spec.column table)

/-- A specification that brings nothing but its column: no key and no constraint, and no
sequence that does not exist. -/
structure ColumnOnly (k : Catalog) (schema table : String) (spec : ColumnSpec) : Prop where
  options : ∀ o ∈ spec.options, o.isPlain = true
  sequence : ∀ seq, spec.sequence? table = some seq →
    k.sequences.contains ⟨schema, seq⟩ = true

end ColumnSpec

/-! ### What a specification adds -/

namespace TableParts

/-- The number of keys and constraints collected. -/
def weight (p : TableParts) : Nat :=
  p.pk.length + p.uniques.length + p.foreignKeys.length + p.checks.length

theorem weight_addPk_le (p : TableParts) (name : String) : p.weight ≤ (p.addPk name).weight := by
  unfold addPk
  split
  · exact Nat.le_refl _
  · simp only [weight, length_append, length_singleton]
    omega

theorem weight_lt_addPk {p : TableParts} {name : String} (h : name ∉ p.pk) :
    p.weight < (p.addPk name).weight := by
  rw [addPk, if_neg (by simpa using h)]
  simp only [weight, length_append, length_singleton]
  omega

end TableParts

/-- What options do to a column under construction. -/
structure OptionsApplied (name : String) (b b' : ColumnBuild) (options : List ColumnOption) :
    Prop where
  nullable : b'.nullable = options.foldl optionNullable b.nullable
  default : b'.default = options.foldl optionDefault b.default
  columns : b'.parts.columns = b.parts.columns
  sequences : b'.parts.sequences = b.parts.sequences
  pk : ∀ c ∈ b'.parts.pk, c ∈ b.parts.pk ∨ c = name
  weight : b.parts.weight ≤ b'.parts.weight
  plain : (∀ o ∈ options, o.isPlain = true) → b'.parts = b.parts
  heavier : (∃ o ∈ options, o.isPlain = false) → name ∉ b.parts.pk →
    b.parts.weight < b'.parts.weight

variable {k : Catalog} {schema table name : String}

/-- One option. -/
theorem applyOption_ok {b b' : ColumnBuild} {o : ColumnOption}
    (h : applyOption k schema table name b o = .ok b') : OptionsApplied name b b' [o] := by
  cases o with
  | primaryKey =>
    cases h
    refine ⟨rfl, rfl, ?_, ?_, fun c hc => ?_, b.parts.weight_addPk_le name,
      fun hp => by simp [ColumnOption.isPlain] at hp, fun _ hn => TableParts.weight_lt_addPk hn⟩
    · simp only [TableParts.addPk]
      split <;> rfl
    · simp only [TableParts.addPk]
      split <;> rfl
    · grind [TableParts.addPk]
  | unique | check =>
    cases h
    refine ⟨rfl, rfl, rfl, rfl, fun c hc => .inl hc, ?_,
      fun hp => by simp [ColumnOption.isPlain] at hp, fun _ _ => ?_⟩
    · simp only [TableParts.weight, length_append]
      omega
    · simp only [TableParts.weight, length_append, length_singleton]
      omega
  | references fname fk =>
    obtain ⟨key, -, h⟩ := except_bind_ok.mp h
    cases h
    refine ⟨rfl, rfl, rfl, rfl, fun c hc => .inl hc, ?_,
      fun hp => by simp [ColumnOption.isPlain] at hp, fun _ _ => ?_⟩
    · simp only [TableParts.weight, length_append]
      omega
    · simp only [TableParts.weight, length_append, length_singleton]
      omega
  | _ =>
    cases h
    refine ⟨rfl, rfl, rfl, rfl, fun c hc => .inl hc, Nat.le_refl _, fun _ => rfl, ?_⟩
    rintro ⟨o, ho, hplain⟩
    obtain rfl := mem_singleton.mp ho
    cases hplain

/-- All options of a column. -/
theorem applyOptions_ok {options : List ColumnOption} {b b' : ColumnBuild}
    (h : options.foldlM (applyOption k schema table name) b = .ok b') :
    OptionsApplied name b b' options := by
  induction options generalizing b with
  | nil =>
    cases h
    exact ⟨rfl, rfl, rfl, rfl, fun c hc => .inl hc, Nat.le_refl _, fun _ => rfl,
      fun ⟨o, ho, _⟩ => nomatch ho⟩
  | cons o options ih =>
    obtain ⟨b₁, hstep, h⟩ := except_bind_ok.mp h
    have h₁ := applyOption_ok hstep
    have h₂ := ih h
    refine ⟨?_, ?_, h₂.columns.trans h₁.columns, h₂.sequences.trans h₁.sequences,
      fun c hc => ?_, h₁.weight.trans h₂.weight, fun hp => ?_, ?_⟩
    · rw [h₂.nullable, h₁.nullable]
      rfl
    · rw [h₂.default, h₁.default]
      rfl
    · rcases h₂.pk c hc with hc | hc
      · exact h₁.pk c hc
      · exact .inr hc
    · rw [h₂.plain fun o' ho' => hp o' (.tail o ho'),
        h₁.plain fun o' ho' => hp o' (mem_cons.mpr (.inl (mem_singleton.mp ho')))]
    · rintro ⟨o', ho', hplain⟩ hname
      cases ho : o.isPlain with
      | false =>
        have hlt := h₁.heavier ⟨o, mem_singleton_self o, ho⟩ hname
        exact Nat.lt_of_lt_of_le hlt h₂.weight
      | true =>
        -- a plain option leaves the collected parts alone
        have hsame : b₁.parts = b.parts :=
          h₁.plain fun o'' ho'' => by rw [mem_singleton.mp ho'', ho]
        rcases mem_cons.mp ho' with rfl | ho'
        · rw [ho] at hplain
          cases hplain
        · rw [← hsame] at hname ⊢
          exact h₂.heavier ⟨o', ho', hplain⟩ hname

/-- What specifications add to the parts of a table. -/
structure Gathered (env : DdlEnv) (table : String) (parts parts' : TableParts)
    (specs : List ColumnSpec) : Prop where
  columns : parts'.columns = parts.columns ++ ColumnSpec.columns env table specs
  names : (ColumnSpec.columns env table specs).map Column.name = specs.map ColumnSpec.name
  sequences : parts'.sequences =
    parts.sequences ++ specs.filterMap fun spec => spec.sequence? table
  pk : ∀ c ∈ parts'.pk, c ∈ parts.pk ∨ c ∈ specs.map ColumnSpec.name
  weight : parts.weight ≤ parts'.weight
  plain : (∀ spec ∈ specs, ∀ o ∈ spec.options, o.isPlain = true) →
    parts'.pk = parts.pk ∧ parts'.uniques = parts.uniques ∧
      parts'.foreignKeys = parts.foreignKeys ∧ parts'.checks = parts.checks
  heavier : (∃ spec ∈ specs, ∃ o ∈ spec.options, o.isPlain = false) →
    (specs.map ColumnSpec.name).Nodup → (∀ c ∈ specs.map ColumnSpec.name, c ∉ parts.pk) →
      parts.weight < parts'.weight

variable {env : DdlEnv} {parts parts' : TableParts}

/-- **What one specification adds** to what has been collected. -/
theorem buildColumn_ok {spec : ColumnSpec}
    (h : buildColumn env k schema table parts spec = .ok parts') :
    Gathered env table parts parts' [spec] := by
  obtain ⟨ty, hty, h⟩ := except_bind_ok.mp h
  obtain ⟨u, husable, h⟩ := except_bind_ok.mp h
  obtain ⟨b, hopts, h⟩ := except_bind_ok.mp h
  cases h
  have happ := applyOptions_ok hopts
  have htype : spec.type env = .ok ty := by
    refine except_bind_ok.mpr ⟨ty, hty, ?_⟩
    exact except_bind_ok.mpr ⟨u, husable, rfl⟩
  have hcols : ColumnSpec.columns env table [spec] = [spec.column table ty] := by
    simp [ColumnSpec.columns, htype, Except.toOption]
  refine ⟨?_, by rw [hcols]; rfl, ?_, fun c hc => ?_, happ.weight, fun hp => ?_, ?_⟩
  · rw [hcols, happ.columns, happ.nullable, happ.default]
    rfl
  · rw [happ.sequences]
    cases hserial : serialType spec.dataType <;> simp [ColumnSpec.sequence?, hserial]
  · simpa using happ.pk c hc
  · have hsame := happ.plain (hp spec (mem_singleton_self spec))
    simp [hsame]
  · rintro ⟨spec', hspec', o, ho, hplain⟩ _ hpk
    obtain rfl := mem_singleton.mp hspec'
    exact happ.heavier ⟨o, ho, hplain⟩ (hpk _ (by simp))

theorem columns_append (env : DdlEnv) (table : String) (specs specs' : List ColumnSpec) :
    ColumnSpec.columns env table (specs ++ specs') =
      ColumnSpec.columns env table specs ++ ColumnSpec.columns env table specs' := by
  simp [ColumnSpec.columns]

/-- All specifications of a table. -/
theorem buildColumns_ok {specs : List ColumnSpec}
    (h : specs.foldlM (buildColumn env k schema table) parts = .ok parts') :
    Gathered env table parts parts' specs := by
  induction specs generalizing parts with
  | nil =>
    cases h
    exact ⟨by simp [ColumnSpec.columns], rfl, by simp, fun c hc => .inl hc, Nat.le_refl _,
      fun _ => ⟨rfl, rfl, rfl, rfl⟩, fun ⟨spec, hspec, _⟩ => nomatch hspec⟩
  | cons spec specs ih =>
    obtain ⟨parts₁, hstep, h⟩ := except_bind_ok.mp h
    have h₁ := buildColumn_ok hstep
    have h₂ := ih h
    have hcols := columns_append env table [spec] specs
    refine ⟨?_, ?_, ?_, fun c hc => ?_, h₁.weight.trans h₂.weight, fun hp => ?_, ?_⟩
    · rw [h₂.columns, h₁.columns, append_assoc, ← hcols]
      rfl
    · rw [← singleton_append, hcols, map_append, h₁.names, h₂.names]
      rfl
    · rw [h₂.sequences, h₁.sequences, append_assoc, ← filterMap_append]
      rfl
    · rcases h₂.pk c hc with hc | hc
      · rcases h₁.pk c hc with hc | hc
        · exact .inl hc
        · exact .inr (mem_cons.mpr (.inl (mem_singleton.mp hc)))
      · exact .inr (.tail _ hc)
    · have hp₁ := h₁.plain fun spec' hspec' =>
        hp spec' (mem_cons.mpr (.inl (mem_singleton.mp hspec')))
      have hp₂ := h₂.plain fun spec' hspec' => hp spec' (.tail _ hspec')
      exact ⟨hp₂.1.trans hp₁.1, hp₂.2.1.trans hp₁.2.1, hp₂.2.2.1.trans hp₁.2.2.1,
        hp₂.2.2.2.trans hp₁.2.2.2⟩
    · rintro ⟨spec', hspec', hheavy⟩ hnodup hpk
      obtain ⟨hnot, hnodup⟩ := nodup_cons.mp hnodup
      rcases mem_cons.mp hspec' with rfl | hspec'
      · refine Nat.lt_of_lt_of_le (h₁.heavier ⟨spec', mem_singleton_self _, hheavy⟩
          (by simp) fun c hc => hpk c ?_) h₂.weight
        exact mem_cons.mpr (.inl (mem_singleton.mp hc))
      · refine Nat.lt_of_le_of_lt h₁.weight (h₂.heavier ⟨spec', hspec', hheavy⟩ hnodup
          fun c hc hmem => ?_)
        rcases h₁.pk c hmem with hmem | hmem
        · exact hpk c (.tail _ hc) hmem
        · exact hnot (mem_singleton.mp hmem ▸ hc)

/-! ### CREATE TABLE -/

/-- `create_sequence`, of the sequences. -/
def newSequence (schema : String) (m : ExtTreeMap QualifiedName Sequence) (seq : String) :
    ExtTreeMap QualifiedName Sequence :=
  if m.contains ⟨schema, seq⟩ then m
  else m.insert ⟨schema, seq⟩ ⟨0, 1, 1, Sequence.unused_nonneg, Int.zero_lt_one, Int.zero_lt_one⟩

theorem createSequence_eq (k : Catalog) (schema seq : String) :
    k.createSequence schema seq = { k with sequences := newSequence schema k.sequences seq } := by
  unfold Catalog.createSequence newSequence
  split <;> rfl

theorem foldl_createSequence (schema : String) (seqs : List String) (k : Catalog) :
    seqs.foldl (fun k seq => k.createSequence schema seq) k =
      { k with sequences := seqs.foldl (newSequence schema) k.sequences } := by
  induction seqs generalizing k with
  | nil => rfl
  | cons seq seqs ih => rw [foldl_cons, ih, createSequence_eq, foldl_cons]

theorem contains_newSequence (schema : String) (m : ExtTreeMap QualifiedName Sequence)
    (seq : String) (q : QualifiedName) : (newSequence schema m seq).contains q = true ↔
      m.contains q = true ∨ q = ⟨schema, seq⟩ := by
  unfold newSequence
  split
  · next hseq => simp_all
  · grind

theorem contains_foldl_newSequence (schema : String) (seqs : List String)
    (m : ExtTreeMap QualifiedName Sequence) (q : QualifiedName) :
    (seqs.foldl (newSequence schema) m).contains q = true ↔
      m.contains q = true ∨ ∃ seq ∈ seqs, q = ⟨schema, seq⟩ :=
  Loop.foldl_adds (M := (·.contains q = true))
    (fun m seq => contains_newSequence schema m seq q) seqs m

/-- Add an index to the indexes of a catalog. -/
def addIndex (m : ExtTreeMap QualifiedName Index) (i : Index) : ExtTreeMap QualifiedName Index :=
  m.insert ⟨i.schema, i.name⟩ i

variable {k' : Catalog}

theorem insertIndex_ok {i : Index} (h : Catalog.insertIndex k i = .ok k') :
    k' = { k with indexes := addIndex k.indexes i } := by
  unfold Catalog.insertIndex at h
  split at h
  · cases h
  · cases h
    rfl

theorem insertIndexes_ok {f : UniqueConstraint → Index} {us : List UniqueConstraint}
    (h : us.foldlM (fun k u => Catalog.insertIndex k (f u)) k = .ok k') :
    k' = { k with indexes := us.foldl (fun m u => addIndex m (f u)) k.indexes } := by
  induction us generalizing k with
  | nil =>
    cases h
    rfl
  | cons u us ih => grind [except_bind_ok, insertIndex_ok]

/-- The indexes of a catalog with those of a new table. -/
def withIndexes (schema name : String) (parts : TableParts) (m : ExtTreeMap QualifiedName Index) :
    ExtTreeMap QualifiedName Index :=
  parts.uniques.foldl (fun m u => addIndex m (uniqueIndex schema name u))
    (if parts.pk.isEmpty then m
      else addIndex m (pkIndex schema name (name ++ "_pkey") parts.pk))

variable {oid : Nat}

/-- **The catalog after CREATE TABLE.** -/
theorem createParts_ok (h : createParts env k oid schema name parts = .ok k') :
    k' = { k with
      tables := k.tables.insert ⟨schema, name⟩ (tableOf oid schema name parts)
      indexes := withIndexes schema name parts k.indexes
      sequences := parts.sequences.foldl (newSequence schema) k.sequences } := by
  obtain ⟨k₁, htable, h⟩ := except_bind_ok.mp h
  obtain ⟨k₂, hpk, h⟩ := except_bind_ok.mp h
  have htable' : k₁ = { k with
      tables := k.tables.insert ⟨schema, name⟩ (tableOf oid schema name parts) } := by
    unfold Catalog.insertTable at htable
    split at htable
    · cases htable
    · split at htable
      · cases htable
      · cases htable
        rfl
  rw [foldl_createSequence] at hpk
  rw [insertIndexes_ok h]
  unfold insertPkIndex at hpk
  split at hpk
  · next hempty =>
    cases hpk
    simp [htable', withIndexes, hempty]
  · next hpkeys =>
    rw [insertIndex_ok hpk]
    simp [htable', withIndexes, hpkeys]

/-- CREATE TABLE without table constraints. -/
theorem createTable_ok {specs : List ColumnSpec}
    (h : createTable env k oid schema name specs [] = .ok k') :
    ∃ parts, specs.foldlM (buildColumn env k schema name) .none = .ok parts ∧
      createParts env k oid schema name parts = .ok k' := by
  unfold createTable at h
  split at h
  · cases h
  · grind [except_bind_ok]

/-! ### ADD COLUMN -/

theorem insert_insert (m : ExtTreeMap QualifiedName Table) (q : QualifiedName) (a b : Table) :
    (m.insert q a).insert q b = m.insert q b := by
  refine ext_getElem? fun q' => ?_
  simp only [getElem?_insert]
  split <;> rfl

variable {q : QualifiedName} {t : Table}

theorem insert_of_getElem? {m : ExtTreeMap QualifiedName Table} (h : m[q]? = some t) :
    m.insert q t = m := by
  refine ext_getElem? fun q' => ?_
  rw [OrderedMap.get_insert]
  split
  · next hq => rw [hq, h]
  · rfl

/-- **The catalog after ADD COLUMN**: the table has the columns of the specifications
besides, under names of their own. -/
theorem alterTable_addColumns {rest : List ColumnSpec} (ht : k.tables[q]? = some t)
    (h : alterTable env k q (rest.map fun spec => .addColumn spec false) = .ok k') :
    k' = { k with
      tables := k.tables.insert q
        ({ t with columns := t.columns ++ ColumnSpec.columns env q.name rest } : Table) } ∧
      (rest.map ColumnSpec.name).Nodup ∧
        ∀ c ∈ rest.map ColumnSpec.name, c ∉ t.columns.map Column.name := by
  induction rest generalizing k t with
  | nil =>
    cases h
    refine ⟨?_, nodup_nil, fun c hc => nomatch hc⟩
    simp [ColumnSpec.columns, insert_of_getElem? ht]
  | cons spec rest ih =>
    rw [map_cons, alterTable, foldlM_cons] at h
    obtain ⟨k₁, hstep, h⟩ := except_bind_ok.mp h
    simp only [alterStep, ht, applyAlterOp, alterAddColumn] at hstep
    obtain ⟨parts, hbuild, hstep⟩ := except_bind_ok.mp hstep
    split at hstep
    · cases hstep
    · next hnew =>
      cases hstep
      have hcoll := buildColumn_ok hbuild
      have hcol : parts.columns = ColumnSpec.columns env q.name [spec] := by
        rw [hcoll.columns]
        rfl
      have hfresh : spec.name ∉ t.columns.map Column.name := by
        simpa [Table.column] using hnew
      rw [Catalog.modifyTable, ht] at h
      obtain ⟨hk, hnodup, hnames⟩ := ih (getElem?_insert_self) h
      refine ⟨?_, nodup_cons.mpr ⟨fun hmem => ?_, hnodup⟩, fun c hc => ?_⟩
      · rw [hk]
        rw [insert_insert, hcol, append_assoc, ← columns_append]
        rfl
      · refine hnames spec.name hmem ?_
        simp [hcol, hcoll.names]
      · grind

/-! ### The two ways to a table -/

def createThenAdd (env : DdlEnv) (k : Catalog) (oid : Nat) (schema name : String)
    (first rest : List ColumnSpec) : Except SqlError Catalog := do
  let k ← createTable env k oid schema name first []
  alterTable env k ⟨schema, name⟩ (rest.map fun spec => .addColumn spec false)

theorem pk_tableOf (oid : Nat) (schema name : String) (parts : TableParts) :
    (tableOf oid schema name parts).primaryKey.getD [] = parts.pk := by
  unfold tableOf
  cases parts.pk <;> rfl

theorem names_tableOf (oid : Nat) (schema name : String) (parts : TableParts) :
    (tableOf oid schema name parts).columns.map Column.name = parts.columns.map Column.name := by
  simp only [tableOf, List.map_map]
  refine map_congr_left fun c _ => ?_
  simp only [Function.comp]
  split <;> rfl

/-- A table with more columns outside its primary key. -/
theorem tableOf_grown {cols : List Column} (hcols : parts'.columns = parts.columns ++ cols)
    (hpk : parts'.pk = parts.pk) (huniques : parts'.uniques = parts.uniques)
    (hfks : parts'.foreignKeys = parts.foreignKeys) (hchecks : parts'.checks = parts.checks)
    (hnames : ∀ c ∈ cols, c.name ∉ parts.pk) :
    tableOf oid schema name parts' =
      { tableOf oid schema name parts with
        columns := (tableOf oid schema name parts).columns ++ cols } := by
  have hkept : (cols.map fun c =>
      if parts.pk.contains c.name then { c with nullable := false } else c) = cols := by
    conv_rhs => rw [← map_id cols]
    refine map_congr_left fun c hc => ?_
    rw [if_neg (by simpa using hnames c hc)]
    rfl
  simp only [tableOf, hcols, hpk, huniques, hfks, hchecks, map_append, hkept]

theorem sequenceName_injective (table : String) : Function.Injective (sequenceName table) := by
  intro a b h
  have h' := congrArg String.toList h
  simpa [sequenceName, String.toList_inj] using h'

/-- The column of a `serial` specification has its sequence's name. -/
theorem name_of_sequence {seq : String} {spec : ColumnSpec} (h : spec.sequence? table = some seq) :
    seq = sequenceName table spec.name := by
  obtain ⟨ty, -, h⟩ := Option.map_eq_some_iff.mp h
  exact h.symm

/-- **ADD COLUMN amounts to declaring the columns at creation exactly if they bring
nothing but themselves.** With the table created in one go or in two, and no rows in it,
the catalogs are all that later statements can tell the two apart by. -/
theorem add_column_same_iff (env : DdlEnv) (k : Catalog) (oid : Nat) (schema name : String)
    (first rest : List ColumnSpec) {k₁ k₂ : Catalog}
    (hall : createTable env k oid schema name (first ++ rest) [] = .ok k₁)
    (hadd : createThenAdd env k oid schema name first rest = .ok k₂) :
    k₂ = k₁ ↔ ∀ spec ∈ rest, spec.ColumnOnly k schema name := by
  obtain ⟨parts₁, hparts₁, hk₁⟩ := createTable_ok hall
  obtain ⟨k₀, hfirst, hadd⟩ := except_bind_ok.mp hadd
  obtain ⟨parts₀, hparts₀, hk₀⟩ := createTable_ok hfirst
  rw [foldlM_append, hparts₀] at hparts₁
  have hc₀ := buildColumns_ok hparts₀
  have hc : Gathered env name parts₀ parts₁ rest := buildColumns_ok hparts₁
  rw [createParts_ok hk₁]
  rw [createParts_ok hk₀] at hadd
  obtain ⟨hk₂, hnodup, hfresh⟩ := alterTable_addColumns getElem?_insert_self hadd
  -- the added names are new, so no key of the first columns has them
  have hfirstNames : parts₀.columns.map Column.name = first.map ColumnSpec.name := by
    rw [hc₀.columns, map_append, hc₀.names]
    rfl
  rw [names_tableOf, hfirstNames] at hfresh
  have hpk : ∀ c ∈ rest.map ColumnSpec.name, c ∉ parts₀.pk := by
    intro c hmem hkey
    rcases hc₀.pk c hkey with hkey | hkey
    · cases hkey
    · exact hfresh c hmem hkey
  constructor
  · intro heq spec hspec
    have htable := congrArg (fun k : Catalog => k.tables[(⟨schema, name⟩ : QualifiedName)]?) heq
    rw [hk₂] at htable heq
    simp only [getElem?_insert_self, Option.some.injEq] at htable
    have hweight : parts₁.weight = parts₀.weight := by
      have hkeys := congrArg (fun t : Table => t.primaryKey.getD []) htable
      simp only [pk_tableOf] at hkeys
      have huniques : parts₀.uniques = parts₁.uniques := congrArg Table.uniques htable
      have hfks : parts₀.foreignKeys = parts₁.foreignKeys := congrArg Table.foreignKeys htable
      have hchecks : parts₀.checks = parts₁.checks := congrArg Table.checks htable
      simp only [TableParts.weight, hkeys, huniques, hfks, hchecks]
    refine ⟨fun o ho => ?_, fun seq hseq => ?_⟩
    · by_contra hplain
      have hlt := hc.heavier ⟨spec, hspec, o, ho, Bool.eq_false_iff.mpr hplain⟩ hnodup hpk
      omega
    · -- the sequence is there in the end, and the first columns have not brought it
      have hseqs : parts₀.sequences.foldl (newSequence schema) k.sequences =
          parts₁.sequences.foldl (newSequence schema) k.sequences :=
        congrArg Catalog.sequences heq
      have hmem : seq ∈ parts₁.sequences := by
        rw [hc.sequences]
        exact mem_append_right _ (mem_filterMap.mpr ⟨spec, hspec, hseq⟩)
      have hin := (contains_foldl_newSequence schema parts₁.sequences k.sequences
        ⟨schema, seq⟩).mpr (.inr ⟨seq, hmem, rfl⟩)
      rw [← hseqs, contains_foldl_newSequence] at hin
      rcases hin with hin | ⟨seq', hseq', heq'⟩
      · exact hin
      · obtain rfl : seq = seq' := congrArg QualifiedName.name heq'
        rw [hc₀.sequences] at hseq'
        obtain ⟨spec', hspec', hown⟩ := mem_filterMap.mp
          ((mem_append.mp hseq').resolve_left (by simp [TableParts.none]))
        have hsame : spec'.name = spec.name := sequenceName_injective name
          ((name_of_sequence hown).symm.trans (name_of_sequence hseq))
        exact absurd (hsame ▸ mem_map_of_mem hspec')
          (hfresh spec.name (mem_map_of_mem hspec))
  · intro honly
    obtain ⟨hpkeys, huniques, hfks, hchecks⟩ := hc.plain fun spec hspec =>
      (honly spec hspec).options
    have hcolNames : ∀ c ∈ ColumnSpec.columns env name rest, c.name ∉ parts₀.pk := by
      intro c hmem
      exact hpk c.name (hc.names ▸ mem_map_of_mem hmem)
    have hseqs : parts₁.sequences.foldl (newSequence schema) k.sequences =
        parts₀.sequences.foldl (newSequence schema) k.sequences := by
      rw [hc.sequences, foldl_append]
      refine Loop.foldl_fixed fun seq hseq => if_pos ?_
      obtain ⟨spec, hspec, hown⟩ := mem_filterMap.mp hseq
      exact (contains_foldl_newSequence _ _ _ _).mpr
        (.inl ((honly spec hspec).sequence seq hown))
    have hindexes : withIndexes schema name parts₁ k.indexes =
        withIndexes schema name parts₀ k.indexes := by
      simp only [withIndexes, hpkeys, huniques]
    rw [hk₂, tableOf_grown hc.columns hpkeys huniques hfks hchecks hcolNames, hseqs, hindexes]
    simp only [insert_insert]

/-! ### A UNIQUE column -/

/-- Every type is `integer`. -/
def integersOnly : DdlEnv := ⟨fun _ => .ok .integer, fun _ => .ok (), ["public"]⟩

def noTables : Catalog := ⟨∅, ∅, ∅, ∅, ["public"]⟩

/-- `id int PRIMARY KEY`. -/
def itemId : ColumnSpec := ⟨"id", "int", [.primaryKey]⟩

/-- `code int` with some options. -/
def itemCode (options : List ColumnOption) : ColumnSpec := ⟨"code", "int", options⟩

/-- `CREATE TABLE items (id .., code ..)`. -/
def itemsCreated (options : List ColumnOption) : Except SqlError Catalog :=
  createTable integersOnly noTables 16384 "public" "items" ([itemId] ++ [itemCode options]) []

/-- `CREATE TABLE items (id ..); ALTER TABLE items ADD COLUMN code ..`. -/
def itemsAltered (options : List ColumnOption) : Except SqlError Catalog :=
  createThenAdd integersOnly noTables 16384 "public" "items" [itemId] [itemCode options]

def itemsName : QualifiedName := ⟨"public", "items"⟩

/-- `INSERT INTO items VALUES (id, code)`. -/
def addItem (id code : Int32) : InsertStmt plainCrates TaskDoc :=
  ⟨none, "items",
    fun _ => .ok [ExtTreeMap.ofList [("id", SqlValue.int4 id), ("code", SqlValue.int4 code)]],
    fun _ => "", none⟩

/-- The new table takes a row with code 7, and whether it takes another. -/
def takesTwice (k : Except SqlError Catalog) : Option Bool := do
  let k ← k.toOption
  let table ← k.tables[itemsName]?
  let t ← (LoadedTable.build table (taskDecoder table) []
    (k.indexesForTable "public" "items")).toOption
  match (execInsert taskEnv (addItem 1 7)).exec
      ⟨k, false, ExtTreeMap.ofList [(itemsName, t)], [], [], [], [], [], []⟩ with
  | (.ok _, x) => return ((execInsert taskEnv (addItem 2 7)).exec x).1.isOk
  | (.error _, _) => none

/-- A UNIQUE column that is added later does not keep a code from being used twice. -/
theorem added_unique_not_enforced :
    takesTwice (itemsCreated [.unique none]) = some false ∧
      takesTwice (itemsAltered [.unique none]) = some true := by
  constructor <;> decide +kernel

/-- A column with NOT NULL and DEFAULT comes out the same. -/
theorem add_column_same_default :
    itemsAltered [.notNull, .default "0"] = itemsCreated [.notNull, .default "0"] ∧
      (itemsCreated [.notNull, .default "0"]).isOk = true := by
  have hcreated : (itemsCreated [.notNull, .default "0"]).isOk = true := by decide +kernel
  have haltered : (itemsAltered [.notNull, .default "0"]).isOk = true := by decide +kernel
  refine ⟨?_, hcreated⟩
  obtain ⟨k₁, h₁⟩ := except_isOk_iff.mp hcreated
  obtain ⟨k₂, h₂⟩ := except_isOk_iff.mp haltered
  rw [h₁, h₂, (add_column_same_iff integersOnly noTables 16384 "public" "items" [itemId]
    [itemCode [.notNull, .default "0"]] h₁ h₂).mpr ?_]
  intro spec hspec
  obtain rfl := mem_singleton.mp hspec
  refine ⟨fun o ho => ?_, fun seq hseq => ?_⟩
  · rcases mem_cons.mp ho with rfl | ho
    · rfl
    · rw [mem_singleton.mp ho]
      rfl
  · cases hseq

end GuardianDb.Sql
