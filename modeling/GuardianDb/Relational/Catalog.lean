/-
The relational catalog (`relational/catalog.rs`): tables with their columns and
constraints, indexes and sequences, and the lookups the executor makes.

Views only take part in name resolution here. What describes triggers, functions
and extensions is left out, as are the OIDs of schemas and indexes.

  * `nextSequenceValue_lt`, `observeSequenceValue_le` — a sequence only goes up.
-/
import GuardianDb.Relational.Value
import GuardianDb.Lib.OrderedMap
import Std.Data.ExtTreeSet

namespace GuardianDb.Relational

open Std

structure QualifiedName where
  schema : String
  name : String
  deriving DecidableEq, Repr

namespace QualifiedName

instance : Ord QualifiedName where
  compare := compareLex (compareOn fun q => q.schema) (compareOn fun q => q.name)

instance : TransOrd QualifiedName :=
  inferInstanceAs (TransCmp (compareLex (compareOn fun q : QualifiedName => q.schema)
    (compareOn fun q => q.name)))

instance : LawfulEqOrd QualifiedName where
  eq_of_compare := by
    intro a b h
    have h' : compareLex (compareOn fun q : QualifiedName => q.schema)
      (compareOn fun q => q.name) a b = .eq := h
    rw [compareLex_eq_eq] at h'
    obtain ⟨as, an⟩ := a
    obtain ⟨bs, bn⟩ := b
    have hschema : as = bs := LawfulEqCmp.eq_of_compare h'.1
    have hname : an = bn := LawfulEqCmp.eq_of_compare h'.2
    rw [hschema, hname]

end QualifiedName

structure Column where
  name : String
  ty : SqlType
  nullable : Bool
  /-- The text of the DEFAULT expression. -/
  default : Option String
  /-- The sequence behind a `serial` column. -/
  identitySequence : Option String
  deriving DecidableEq, Repr

structure Index where
  name : String
  schema : String
  table : String
  columns : List String
  unique : Bool
  /-- The access method, `btree` or `hnsw`. -/
  method : String
  deriving DecidableEq, Repr

structure UniqueConstraint where
  name : String
  columns : List String
  deriving DecidableEq, Repr

inductive ReferentialAction where
  | noAction
  | restrict
  | cascade
  | setNull
  | setDefault
  deriving DecidableEq, Repr

inductive MatchType where
  | simple
  | full
  deriving DecidableEq, Repr

inductive Deferrable where
  | notDeferrable
  | deferrableImmediate
  | deferrableDeferred
  deriving DecidableEq, Repr

def Deferrable.isDeferrable (d : Deferrable) : Bool := d != .notDeferrable

def Deferrable.initiallyDeferred (d : Deferrable) : Bool := d = .deferrableDeferred

structure ForeignKey where
  name : String
  columns : List String
  refSchema : String
  refTable : String
  refColumns : List String
  onDelete : ReferentialAction
  onUpdate : ReferentialAction
  matchType : MatchType
  deferrable : Deferrable
  deriving DecidableEq, Repr

/-- `CheckConstraint`, with the text of its expression. -/
structure CheckConstraint where
  name : String
  expr : String
  deriving DecidableEq, Repr

inductive PolicyCmd where
  | all
  | select
  | insert
  | update
  | delete
  deriving DecidableEq, Repr

/-- `Policy`, with the texts of its expressions. -/
structure Policy where
  name : String
  cmd : PolicyCmd
  permissive : Bool
  /-- The roles it is for; none means all. -/
  roles : List String
  usingExpr : Option String
  checkExpr : Option String
  deriving DecidableEq, Repr

structure Table where
  oid : Nat
  schema : String
  name : String
  columns : List Column
  /-- The columns of the primary key. -/
  primaryKey : Option (List String)
  uniques : List UniqueConstraint
  foreignKeys : List ForeignKey
  checks : List CheckConstraint
  storageCollection : String
  rlsEnabled : Bool := false
  rlsForced : Bool := false
  policies : List Policy := []
  /-- The name of the primary-key constraint. -/
  pkName : String := ""
  deriving DecidableEq, Repr

def Table.qualified (t : Table) : QualifiedName := ⟨t.schema, t.name⟩

/-- `Table::column`; the last of several columns of one name. -/
def Table.column (t : Table) (name : String) : Option Column :=
  t.columns.reverse.find? fun c => c.name == name

/-- `Sequence`; `create_sequence` makes ascending ones. The numbers are `i64`; a
sequence that overflows is left out. -/
structure Sequence where
  current : Int
  increment : Int
  start : Int
  current_nonneg : 0 ≤ current
  increment_pos : 0 < increment
  start_pos : 0 < start
  deriving DecidableEq, Repr

namespace Sequence

theorem unused_nonneg : (0 : Int) ≤ 0 := by decide

/-- The value after the current one. -/
def next (s : Sequence) : Int := if s.current = 0 then s.start else s.current + s.increment

/-- A sequence after a later value. -/
def advance (s : Sequence) (value : Int) (h : s.current < value) : Sequence :=
  { s with current := value, current_nonneg := Int.le_of_lt (Int.lt_of_le_of_lt s.current_nonneg h) }

theorem current_lt_next (s : Sequence) : s.current < s.next := by
  have hinc := s.increment_pos
  have hstart := s.start_pos
  unfold next
  split <;> omega

end Sequence

structure Catalog where
  tables : ExtTreeMap QualifiedName Table
  indexes : ExtTreeMap QualifiedName Index
  sequences : ExtTreeMap QualifiedName Sequence
  views : ExtTreeSet QualifiedName
  searchPath : List String

namespace Catalog

def resolveTableName (k : Catalog) (schema : Option String) (name : String) :
    Option QualifiedName :=
  let exists? := fun q => k.tables.contains q || k.views.contains q
  match schema with
  | some s => if exists? ⟨s, name⟩ then some ⟨s, name⟩ else none
  | none => (k.searchPath.map fun s => (⟨s, name⟩ : QualifiedName)).find? exists?

/-- `indexes_for_table`, in the order of a catalog that was read back. -/
def indexesForTable (k : Catalog) (schema table : String) : List Index :=
  k.indexes.values.filter fun i => i.schema == schema && i.table == table

def referencingForeignKeys (k : Catalog) (q : QualifiedName) : List (QualifiedName × ForeignKey) :=
  k.tables.values.flatMap fun t =>
    (t.foreignKeys.filter fun fk => fk.refSchema == q.schema && fk.refTable == q.name).map
      fun fk => (t.qualified, fk)

/-! ### Sequences -/

/-- `create_sequence`; one that exists is kept. -/
def createSequence (k : Catalog) (schema name : String) : Catalog :=
  if k.sequences.contains ⟨schema, name⟩ then k
  else
    { k with
      sequences := k.sequences.insert ⟨schema, name⟩
        ⟨0, 1, 1, by decide, by decide, by decide⟩ }

def nextSequenceValue (k : Catalog) (q : QualifiedName) : Except RelError (Int × Catalog) :=
  match k.sequences[q]? with
  | none => .error (.undefinedObject ("sequence " ++ q.schema ++ "." ++ q.name))
  | some seq =>
      .ok (seq.next, { k with
        sequences := k.sequences.insert q (seq.advance seq.next seq.current_lt_next) })

def observeSequenceValue (k : Catalog) (q : QualifiedName) (value : Int) : Catalog :=
  match k.sequences[q]? with
  | some seq =>
      if h : seq.current < value then
        { k with sequences := k.sequences.insert q (seq.advance value h) }
      else k
  | none => k

/-- The last value of a sequence; 0 before its first and for a missing one. -/
def lastValue (k : Catalog) (q : QualifiedName) : Int :=
  match k.sequences[q]? with
  | some seq => seq.current
  | none => 0

theorem lastValue_insert (k : Catalog) (q q' : QualifiedName) (seq : Sequence) :
    lastValue { k with sequences := k.sequences.insert q seq } q' =
      if q' = q then seq.current else k.lastValue q' := by
  unfold lastValue
  rw [OrderedMap.get_insert]
  by_cases h : q' = q <;> simp [h]

/-- **A drawn value is past the last one**, and the new last one. -/
theorem nextSequenceValue_lt {k k' : Catalog} {q : QualifiedName} {v : Int}
    (h : k.nextSequenceValue q = .ok (v, k')) :
    k.lastValue q < v ∧ ∀ q', k'.lastValue q' = if q' = q then v else k.lastValue q' := by
  unfold nextSequenceValue at h
  cases hseq : k.sequences[q]? with
  | none =>
    rw [hseq] at h
    cases h
  | some seq =>
    rw [hseq] at h
    cases h
    refine ⟨?_, fun q' => k.lastValue_insert q q' _⟩
    rw [lastValue, hseq]
    exact seq.current_lt_next

theorem observeSequenceValue_le (k : Catalog) (q : QualifiedName) (v : Int) (q' : QualifiedName) :
    k.lastValue q' ≤ (k.observeSequenceValue q v).lastValue q' := by
  unfold observeSequenceValue
  split
  · next seq hseq =>
    split
    · next hlt =>
      rw [lastValue_insert]
      split
      · next heq =>
        rw [heq, lastValue, hseq]
        exact Int.le_of_lt hlt
      · exact Int.le_refl _
    · exact Int.le_refl _
  · exact Int.le_refl _

end Catalog

end GuardianDb.Relational
