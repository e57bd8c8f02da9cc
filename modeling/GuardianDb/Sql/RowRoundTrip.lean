/-
Row documents read back (`encode_row` and `decode_row_owned` of `sql/store.rs`).

The columns of a row are written into the same JSON object as its id, its version and its
tombstone flag, after these, and CREATE TABLE takes columns of any name. A column named
like one of the three takes its place. A name that two columns share is read once: the
second column finds its field gone.

  * `decodeColumns_eq` — what the columns are read as, with names that come twice.
  * `decodeRow_encodeRow` — what a written row is read as.
  * `row_round_trip_iff` — when this is the row.
-/
import GuardianDb.Sql.Loadable

namespace GuardianDb.Sql

open Std Relational

section
variable {C : Crates} (D : Codec C)

/-! ### Columns -/

theorem decodeJson_null (ty : SqlType) : decodeJson D ty .null = .ok .null := by
  unfold decodeJson
  rfl

def columnNames (cs : List Column) : List String := cs.map Column.name

/-- What the columns of a name are read as: the second one finds nothing. -/
def readBack (cs : List Column) (w : String → SqlValue C) (name : String) : SqlValue C :=
  if 2 ≤ (columnNames cs).count name then .null else w name

/-- **The columns are read one by one**, and a name that comes again is NULL. -/
theorem decodeColumns_eq (cs : List Column) (fields : List (String × Json))
    (w : String → SqlValue C) (values : RowValues C)
    (h : ∀ c ∈ cs, decodeJson D c.ty (fieldOf fields c.name) = .ok (w c.name)) :
    ∃ values', decodeColumns D cs fields values = .ok values' ∧
      ∀ name, values'[name]? =
        if name ∈ columnNames cs then some (readBack cs w name) else values[name]? := by
  induction cs generalizing fields w values with
  | nil => exact ⟨values, rfl, fun name => rfl⟩
  | cons c cs ih =>
    have htail : ∀ c' ∈ cs, decodeJson D c'.ty (fieldOf (removeField fields c.name) c'.name) =
        .ok (if c'.name = c.name then .null else w c'.name) := by
      intro c' hc'
      by_cases hname : c'.name = c.name
      · rw [if_pos hname, fieldOf, lookup_removeField, if_pos hname]
        exact decodeJson_null D c'.ty
      · rw [if_neg hname, fieldOf_removeField hname]
        exact h c' (.tail c hc')
    obtain ⟨values', hrun, hread⟩ := ih (removeField fields c.name)
      (fun name => if name = c.name then .null else w name) (values.insert c.name (w c.name))
      htail
    refine ⟨values', ?_, fun name => ?_⟩
    · rw [decodeColumns, h c (.head _)]
      exact hrun
    · rw [hread name]
      have hnames : columnNames (c :: cs) = c.name :: columnNames cs := rfl
      simp only [readBack, hnames, List.mem_cons, List.count_cons]
      by_cases hname : name = c.name
      · grind
      · grind

/-! ### Rows -/

/-- The values of a row come back one by one from their JSON form. -/
def Survive (t : Table) (values : RowValues C) : Prop :=
  ∀ c ∈ t.columns,
    decodeJson D c.ty (encodeJson D (valueOf values c.name)) = .ok (valueOf values c.name)

/-- A row comes back from its document: its id, its version, and the value of each
column. -/
def RoundTrips (t : Table) (rowId : String) (version : Int64) (values : RowValues C) : Prop :=
  ∃ values', decodeRow D t (encodeRow D t rowId values version.toInt) =
      .ok (some (rowId, values', version.toInt)) ∧
    ∀ name, values'[name]? =
      if name ∈ columnNames t.columns then some (valueOf values name) else none

/-- `as_i64`. -/
def jsonInt : Json → Option Int
  | .number (.int n) => some n.toInt
  | _ => none

/-- `as_bool`, false for what is none. -/
def jsonTrue : Json → Bool
  | .bool b => b
  | _ => false

/-- What is read from the three fields that are not columns, and the columns. -/
def readRow (deleted id version : Json) (values : RowValues C) :
    Except SqlError (Option (String × RowValues C × Int)) :=
  if jsonTrue deleted then .ok none
  else
    match id with
    | .string rowId => .ok (some (rowId, values, (jsonInt version).getD 1))
    | _ => .error (.storage "row document missing _id")

variable {values : RowValues C} {rowId : String}

theorem readRow_eq_iff {deleted id version : Json} {values' : RowValues C} {v : Int} :
    readRow deleted id version values = .ok (some (rowId, values', v)) ↔
      deleted ≠ .bool true ∧ id = .string rowId ∧ (jsonInt version).getD 1 = v ∧
        values = values' := by
  have hflag : jsonTrue deleted = true ↔ deleted = .bool true := by
    cases deleted <;> simp [jsonTrue]
  unfold readRow
  split
  · next h => simp [hflag.mp h]
  · next h => grind

/-- What a document has under the name of one of the fields that are not columns: the
column of that name, if there is one. -/
def writtenField (t : Table) (values : RowValues C) (name : String) (j : Json) : Json :=
  if name ∈ columnNames t.columns then encodeJson D (valueOf values name) else j

def rowFields (t : Table) (rowId : String) (values : RowValues C) (version : Int) :
    List (String × Json) :=
  t.columns.foldl (fun fields c =>
    setField fields c.name (encodeJson D (valueOf values c.name))) (rowHeader t rowId version)

theorem lookup_rowFields (t : Table) (rowId : String) (values : RowValues C) (version : Int)
    (name : String) : (rowFields D t rowId values version).lookup name =
      if name ∈ columnNames t.columns then some (encodeJson D (valueOf values name))
      else (rowHeader t rowId version).lookup name :=
  lookup_encodeColumns D values t.columns (rowHeader t rowId version) name

variable {t : Table} {name : String}

theorem lookup_rowFields_header {version : Int} {j : Json}
    (h : (rowHeader t rowId version).lookup name = some j) :
    (rowFields D t rowId values version).lookup name = some (writtenField D t values name j) := by
  rw [lookup_rowFields, writtenField, h]
  split <;> rfl

/-- How an object is read, by its fields. -/
theorem decodeRow_object {fields : List (String × Json)} {deleted id version : Json}
    (hdeleted : fields.lookup "__deleted" = some deleted) (hid : fields.lookup "_id" = some id)
    (hversion : fields.lookup "__version" = some version)
    (hrun : decodeColumns D t.columns fields ∅ = .ok values) :
    decodeRow D t (.object fields) = readRow deleted id version values := by
  have hflag : isDeleted fields = jsonTrue deleted := by
    simp only [isDeleted, hdeleted]
    cases deleted <;> rfl
  have hnumber : versionIn fields = (jsonInt version).getD 1 := by
    simp only [versionIn, hversion]
    cases version with
    | number n => cases n <;> rfl
    | _ => rfl
  simp only [decodeRow, readRow, hflag, hid, hrun, hnumber]
  cases id <;> rfl

/-- **What a written row is read as.** -/
theorem decodeRow_encodeRow (h : Survive D t values) (rowId : String) (version : Int64) : ∃ values',
    (∀ name, values'[name]? = if name ∈ columnNames t.columns then
      some (readBack t.columns (valueOf values) name) else none) ∧
    decodeRow D t (encodeRow D t rowId values version.toInt) =
      readRow (writtenField D t values "__deleted" (.bool false))
        (writtenField D t values "_id" (.string rowId))
        (writtenField D t values "__version" (.number (.int version))) values' := by
  have hcolumns : ∀ c ∈ t.columns,
      decodeJson D c.ty (fieldOf (rowFields D t rowId values version.toInt) c.name) =
        .ok (valueOf values c.name) := by
    intro c hc
    have hmem : c.name ∈ columnNames t.columns := List.mem_map_of_mem hc
    rw [fieldOf, lookup_rowFields, if_pos hmem]
    exact h c hc
  obtain ⟨values', hrun, hread⟩ := decodeColumns_eq D t.columns _ (valueOf values) ∅ hcolumns
  refine ⟨values', fun name => ?_, ?_⟩
  · rw [hread name]
    simp
  · have hversion : (rowHeader t rowId version.toInt).lookup "__version" =
        some (.number (.int version)) := by
      rw [rowHeader, Int64.ofInt_toInt]
      rfl
    exact decodeRow_object D (lookup_rowFields_header D rfl) (lookup_rowFields_header D rfl)
      (lookup_rowFields_header D hversion) hrun

/-- No column takes the place of the id, the version or the tombstone flag with another
value, and a name that two columns share has no value. -/
structure NamesApart (t : Table) (rowId : String) (version : Int64) (values : RowValues C) :
    Prop where
  id : "_id" ∈ columnNames t.columns → encodeJson D (valueOf values "_id") = .string rowId
  version : "__version" ∈ columnNames t.columns →
    (jsonInt (encodeJson D (valueOf values "__version"))).getD 1 = version.toInt
  deleted : "__deleted" ∈ columnNames t.columns →
    encodeJson D (valueOf values "__deleted") ≠ .bool true
  twice : ∀ name, 2 ≤ (columnNames t.columns).count name → valueOf values name = .null

theorem writtenField_of_mem (j : Json) (h : name ∈ columnNames t.columns) :
    writtenField D t values name j = encodeJson D (valueOf values name) :=
  if_pos h

/-- What is under a name has a property if the column of the name has it, and what was
written there before has it too. -/
theorem writtenField_ind {j : Json} (P : Json → Prop) (hcolumn : name ∈ columnNames t.columns →
      P (encodeJson D (valueOf values name))) (hj : P j) : P (writtenField D t values name j) := by
  unfold writtenField
  split
  · next h => exact hcolumn h
  · exact hj

/-- **A row comes back from its document** if and only if its column names are apart from
the other fields and from one another, or hold what these would hold. -/
theorem row_round_trip_iff (t : Table) (rowId : String) (version : Int64)
    {values : RowValues C} (h : Survive D t values) :
    RoundTrips D t rowId version values ↔ NamesApart D t rowId version values := by
  obtain ⟨values', hread, hdecode⟩ := decodeRow_encodeRow D h rowId version
  unfold RoundTrips
  rw [hdecode]
  constructor
  · rintro ⟨values'', hrow, hvalues⟩
    obtain ⟨hdeleted, hid, hversion, rfl⟩ := readRow_eq_iff.mp hrow
    refine ⟨fun hmem => ?_, fun hmem => ?_, fun hmem => ?_, fun name hcount => ?_⟩
    · rwa [writtenField_of_mem D _ hmem] at hid
    · rwa [writtenField_of_mem D _ hmem] at hversion
    · rwa [writtenField_of_mem D _ hmem] at hdeleted
    · have hmem : name ∈ columnNames t.columns :=
        List.count_pos_iff.mp (Nat.lt_of_lt_of_le Nat.zero_lt_two hcount)
      have hsame := (hread name).symm.trans (hvalues name)
      rw [if_pos hmem, if_pos hmem, readBack, if_pos hcount] at hsame
      exact (Option.some.inj hsame).symm
  · intro hapart
    refine ⟨values', readRow_eq_iff.mpr ⟨?_, ?_, ?_, rfl⟩, fun name => ?_⟩
    · exact writtenField_ind D (· ≠ .bool true) hapart.deleted (by simp)
    · exact writtenField_ind D (· = .string rowId) hapart.id rfl
    · exact writtenField_ind D (fun j => (jsonInt j).getD 1 = version.toInt) hapart.version rfl
    · rw [hread name, readBack]
      split
      · split
        · next hcount => rw [hapart.twice name hcount]
        · rfl
      · rfl

end

/-! ### Columns named like other fields -/

/-- `CREATE TABLE items (..)` in an empty database, with a row written and read back. -/
def itemReadBack (columns : List ColumnSpec) (values : List (String × SqlValue plainCrates)) :
    Option (Except SqlError (Option (String × RowValues plainCrates × Int))) :=
  ((createTable twoTypes ⟨∅, ∅, ∅, ∅, ["public"]⟩ 1 "public" "items" columns []).toOption.bind
    fun k => k.tables[(⟨"public", "items"⟩ : QualifiedName)]?).map fun t =>
      decodeRow plainCodec t (encodeRow plainCodec t "1" (ExtTreeMap.ofList values) 1)

/-- A column `__version` is read as the version of the row, and a row with an integer
column `_id` cannot be read. Both values come back on their own. -/
theorem version_column_read_as_version :
    (itemReadBack [⟨"__version", "integer", []⟩] [("__version", .int4 7)]).map
      (fun r => r.toOption.map fun row => row.map fun p => (p.1, p.2.2)) =
        some (some (some ("1", 7))) ∧
    (itemReadBack [⟨"_id", "integer", []⟩] [("_id", .int4 7)]).map
      (fun r => r.toOption.map Option.isSome) = some none ∧
    decodeJson plainCodec .integer (encodeJson plainCodec (.int4 7)) = .ok (.int4 7) := by
  refine ⟨by decide +kernel, by decide +kernel, rfl⟩

/-- A table with a column `b`. -/
def plainItems : Table :=
  tableOf 1 "public" "items" ⟨[⟨"b", .integer, true, none, none⟩], [], [], [], [], []⟩

def sevenRow : RowValues plainCrates := ExtTreeMap.ofList [("b", SqlValue.int4 7)]

theorem valueOf_sevenRow : valueOf sevenRow "b" = .int4 7 := by
  simp [valueOf, sevenRow, ExtTreeMap.ofList_singleton]

/-- A row of a table with no such column comes back. -/
theorem row_round_trip_iff_plain : RoundTrips plainCodec plainItems "1" 3 sevenRow := by
  have hsurvive : Survive plainCodec plainItems sevenRow := by
    intro c hc
    obtain rfl : c = ⟨"b", .integer, true, none, none⟩ := List.mem_singleton.mp hc
    rw [valueOf_sevenRow]
    rfl
  refine (row_round_trip_iff plainCodec plainItems "1" 3 hsurvive).mpr
    ⟨fun h => ?_, fun h => ?_, fun h => ?_, fun name hcount => ?_⟩
  · exact absurd h (by decide)
  · exact absurd h (by decide)
  · exact absurd h (by decide)
  · have hle : (columnNames plainItems.columns).count name ≤ 1 := List.count_le_length
    exact absurd (Nat.le_trans hcount hle) (by decide)

end GuardianDb.Sql
