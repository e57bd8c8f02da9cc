/-
Indexes of a collection (`IndexCatalog`).

A secondary index maps the texts of a field's values to the documents that have
them; an array is indexed under its text and under the texts of its elements. The
text of a value (`serde_json::to_string`) is a parameter: all that matters is that
one value has one text.

  * `rebuild_secondary` — what the secondary indexes are after a rebuild.
  * `mem_candidates` — the candidates of a query include every accepted document.
-/
import GuardianDb.Lib.Loop
import GuardianDb.Odm.Query
import Std.Data.ExtTreeMap
import Std.Data.ExtTreeSet

namespace GuardianDb.Odm

open List

open Sql (Json JsonNumber)
open Std (ExtTreeMap ExtTreeSet LawfulEqCmp)

/-! ### Schemas -/

inductive FieldType where
  | any
  | string
  | number
  | boolean
  | object
  | array
  | timestamp
  deriving DecidableEq

structure FieldDefinition where
  name : String
  fieldType : FieldType
  required : Bool := false
  nullable : Bool := false
  primaryKey : Bool := false
  unique : Bool := false
  indexed : Bool := false

/-- What the modelled functions read of a `ModelSchema`. -/
structure ModelSchema where
  fields : ExtTreeMap String FieldDefinition
  primaryKey : String := "_id"
  strict : Bool := true

def ModelSchema.indexedFields (schema : ModelSchema) : List String :=
  (ExtTreeSet.ofList ((schema.fields.values.filter fun field =>
    field.indexed || field.unique || field.primaryKey).map (·.name))).toList

def ModelSchema.uniqueFields (schema : ModelSchema) : List String :=
  (ExtTreeSet.ofList ((schema.fields.values.filter fun field =>
    field.unique || field.primaryKey).map (·.name))).toList

/-! ### Tokens -/

variable (indexToken : Json → String)

def indexTokens (value : Json) : ExtTreeSet String :=
  match value with
  | .array items => ExtTreeSet.ofList (indexToken value :: items.map indexToken)
  | _ => ExtTreeSet.ofList [indexToken value]

/-- The value that is indexed for a document; null and missing ones are not. -/
def indexedValue (document : Json) (field : String) : Option Json :=
  match valueAtPath document field with
  | some .null => none
  | value => value

/-! ### Rebuild -/

/-- `IndexCatalog`; its maps by field are lists in the order of the fields. -/
structure IndexCatalog where
  unique : List (String × ExtTreeMap String String)
  secondary : List (String × ExtTreeMap String (ExtTreeSet String))

/-- A token of a unique field; it may be there for the same document. -/
def insertUnique (id field : String) (values : ExtTreeMap String String) (token : String) :
    Except OdmError (ExtTreeMap String String) :=
  match values[token]? with
  | some existing =>
      if existing ≠ id then .error (.duplicateKey field token) else .ok (values.insert token id)
  | none => .ok (values.insert token id)

/-- The unique index of a field with one more document. -/
def addUnique (id : String) (document : Json) (entry : String × ExtTreeMap String String) :
    Except OdmError (String × ExtTreeMap String String) :=
  match indexedValue document entry.1 with
  | none => .ok entry
  | some value => do
      let values ← (indexTokens indexToken value).toList.foldlM (insertUnique id entry.1) entry.2
      return (entry.1, values)

/-- A token of an indexed field. -/
def insertToken (id : String) (values : ExtTreeMap String (ExtTreeSet String)) (token : String) :
    ExtTreeMap String (ExtTreeSet String) :=
  values.insert token ((values[token]?.getD ∅).insert id)

/-- The secondary index of a field with one more document. -/
def addTokens (id : String) (document : Json) (field : String)
    (values : ExtTreeMap String (ExtTreeSet String)) : ExtTreeMap String (ExtTreeSet String) :=
  match indexedValue document field with
  | none => values
  | some value => (indexTokens indexToken value).toList.foldl (insertToken id) values

/-- The catalog with one more document. -/
def IndexCatalog.add (catalog : IndexCatalog) (entry : String × Json) :
    Except OdmError IndexCatalog := do
  let unique ← catalog.unique.mapM (addUnique indexToken entry.1 entry.2)
  return ⟨unique, catalog.secondary.map fun p =>
    (p.1, addTokens indexToken entry.1 entry.2 p.1 p.2)⟩

def IndexCatalog.empty (schema : ModelSchema) : IndexCatalog where
  unique := schema.uniqueFields.map (·, ∅)
  secondary := schema.indexedFields.map (·, ∅)

def IndexCatalog.rebuild (schema : ModelSchema) (documents : ExtTreeMap String Json) :
    Except OdmError IndexCatalog :=
  documents.toList.foldlM (IndexCatalog.add indexToken) (.empty schema)

/-! ### Candidates -/

/-- The value a condition asks for, if it is an equality that an index can answer. -/
def equality (condition : Json) : Option Json :=
  match condition with
  | .object fields => if fields.length = 1 then fields.lookup "$eq" else none
  | value => some value

/-- The documents that the index of the field has for the condition. -/
def IndexCatalog.matching (catalog : IndexCatalog) (field : String) (condition : Json) :
    Option (ExtTreeSet String) :=
  if isOperator field then none
  else
    match catalog.secondary.lookup field, equality condition with
    -- null is in no index
    | some _, some .null => none
    | some index, some value => some (index[indexToken value]?.getD ∅)
    | _, _ => none

/-- What the loop of `candidates` does with a field of the query. -/
def IndexCatalog.narrow (catalog : IndexCatalog) (candidates : Option (ExtTreeSet String))
    (p : String × Json) : Option (ExtTreeSet String) :=
  match catalog.matching indexToken p.1 p.2, candidates with
  | none, _ => candidates
  | some found, none => some found
  | some found, some existing => some (existing ∩ found)

/-- `candidates`; nothing when every document has to be looked at. -/
def IndexCatalog.candidates (catalog : IndexCatalog) (query : Json) :
    Option (ExtTreeSet String) :=
  match query with
  | .object fields => fields.foldl (catalog.narrow indexToken) none
  | _ => none

/-! ### Every accepted document is a candidate -/

variable {indexToken}

/-- A value is indexed under the text of every value it is equal to. -/
theorem mem_indexTokens {actual expected : Json} (hactual : Integral actual)
    (h : valuesEqual actual expected = true) :
    indexToken expected ∈ indexTokens indexToken actual := by
  rw [valuesEqual.eq_def, Bool.or_eq_true] at h
  obtain h | h := h
  · obtain rfl := eq_of_jsonEq hactual h
    cases actual <;> simp [indexTokens]
  · cases actual with
    | array items =>
      obtain ⟨item, hitem, heq⟩ := any_eq_true.mp h
      obtain rfl := eq_of_jsonEq (IntegralItems.mem hactual hitem) heq
      simp only [indexTokens, ExtTreeSet.mem_ofList, contains_iff_mem]
      exact .tail _ (mem_map_of_mem hitem)
    | _ => cases h

variable {key : String}

theorem lookup_of_length_one {α : Type} {fields : List (String × α)} {x : α}
    (hlen : fields.length = 1) (h : fields.lookup key = some x) : fields = [(key, x)] := by
  obtain ⟨⟨k, y⟩, rfl⟩ := length_eq_one_iff.mp hlen
  rw [lookup_cons] at h
  split at h
  next hk => rw [Option.some.inj h, beq_iff_eq.mp hk]
  · cases h

/-- A condition that an index can answer is met by equal values only. -/
theorem valuesEqual_of_equality {actual : Option Json} {condition expected : Json}
    (h : matchesCondition actual condition = .ok true)
    (hequality : equality condition = some expected) :
    ∃ value, actual = some value ∧ valuesEqual value expected = true := by
  have hany : actual.any (valuesEqual · expected) = true := by
    cases condition with
    | object fields =>
      rw [equality] at hequality
      split at hequality
      next hlen =>
        obtain rfl := lookup_of_length_one hlen hequality
        have hoperator : [("$eq", expected)].any (isOperator ·.1) = true := by
          rw [any_cons, show isOperator "$eq" = true by decide, Bool.true_or]
        rw [matchesCondition, if_pos hoperator, matchesOperators, matchesOperator] at h
        cases hmatch : actual.any (valuesEqual · expected) with
        | true => rfl
        | false =>
          rw [hmatch] at h
          cases h
      · cases hequality
    | _ =>
      cases hequality
      exact Except.ok.inj h
  cases actual with
  | none => cases hany
  | some value => exact ⟨value, rfl, hany⟩

variable {id id' token : String} {values : ExtTreeMap String (ExtTreeSet String)}

/-- The documents under a token, as one more is added. -/
theorem mem_insertToken {token' : String} :
    id ∈ (insertToken id' values token')[token]?.getD ∅ ↔
      id ∈ values[token]?.getD ∅ ∨ token = token' ∧ id = id' := by
  rw [insertToken, ExtTreeMap.getElem?_insert]
  split
  next heq => grind
  next hne => grind

theorem mem_foldl_insertToken {tokens : List String} :
    id ∈ (tokens.foldl (insertToken id') values)[token]?.getD ∅ ↔
      id ∈ values[token]?.getD ∅ ∨ token ∈ tokens ∧ id = id' := by
  rw [Loop.foldl_adds (f := insertToken id') (M := (id ∈ ·[token]?.getD ∅))
    fun _ _ => mem_insertToken]
  simp

variable {field : String}

theorem mem_addTokens {document : Json} :
    id ∈ (addTokens indexToken id' document field values)[token]?.getD ∅ ↔
      id ∈ values[token]?.getD ∅ ∨ id = id' ∧
        ∃ value, indexedValue document field = some value ∧
          token ∈ indexTokens indexToken value := by
  rw [addTokens]
  cases indexedValue document field with
  | none => simp
  | some value =>
    rw [mem_foldl_insertToken, ExtTreeSet.mem_toList]
    simp [and_comm]

/-- The index of a field over a list of documents. -/
def fieldIndex (indexToken : Json → String) (field : String) (documents : List (String × Json)) :
    ExtTreeMap String (ExtTreeSet String) :=
  documents.foldl (fun values p => addTokens indexToken p.1 p.2 field values) ∅

theorem add_secondary {catalog catalog' : IndexCatalog} {p : String × Json}
    (h : catalog.add indexToken p = .ok catalog') :
    catalog'.secondary = catalog.secondary.map fun q =>
      (q.1, addTokens indexToken p.1 p.2 q.1 q.2) := by
  obtain ⟨unique, -, h⟩ := Fallible.except_bind_ok.mp h
  cases h
  rfl

theorem foldlM_secondary : ∀ {documents : List (String × Json)}
    {catalog catalog' : IndexCatalog},
    documents.foldlM (IndexCatalog.add indexToken) catalog = .ok catalog' →
    catalog'.secondary = catalog.secondary.map fun q => (q.1,
      documents.foldl (fun values p => addTokens indexToken p.1 p.2 q.1 values) q.2)
  | [], catalog, catalog', h => by
      cases h
      simp
  | p :: documents, catalog, catalog', h => by
      rw [foldlM_cons] at h
      obtain ⟨next, hadd, h⟩ := Fallible.except_bind_ok.mp h
      rw [foldlM_secondary h, add_secondary hadd, map_map]
      rfl

/-- A rebuild gives every indexed field the index of its documents. -/
theorem rebuild_secondary {schema : ModelSchema} {documents : ExtTreeMap String Json}
    {catalog : IndexCatalog} (h : IndexCatalog.rebuild indexToken schema documents = .ok catalog) :
    catalog.secondary = schema.indexedFields.map fun field =>
      (field, fieldIndex indexToken field documents.toList) := by
  rw [foldlM_secondary h, IndexCatalog.empty, map_map]
  rfl

theorem mem_foldl_addTokens : ∀ {documents : List (String × Json)}
    {values : ExtTreeMap String (ExtTreeSet String)},
    id ∈ (documents.foldl (fun values p => addTokens indexToken p.1 p.2 field values)
        values)[token]?.getD ∅ ↔
      id ∈ values[token]?.getD ∅ ∨ ∃ document, (id, document) ∈ documents ∧
        ∃ value, indexedValue document field = some value ∧ token ∈ indexTokens indexToken value
  | [], values => by simp
  | (id', document') :: documents, values => by
      rw [foldl_cons, mem_foldl_addTokens, mem_addTokens, or_assoc]
      refine or_congr_right ?_
      constructor
      · grind
      · grind

theorem lookup_map_self {α : Type} {f : String → α} {x : α} :
    ∀ {keys : List String}, (keys.map fun k => (k, f k)).lookup key = some x → x = f key
  | [], h => by cases h
  | k :: keys, h => by
      rw [map_cons, lookup_cons] at h
      split at h
      next hk => rw [beq_iff_eq.mp hk, Option.some.inj h]
      · exact lookup_map_self h

section Accepted

variable {schema : ModelSchema} {documents : ExtTreeMap String Json} {catalog : IndexCatalog}
  (hrebuild : IndexCatalog.rebuild indexToken schema documents = .ok catalog)
  {id : String} {document : Json} (hmem : (id, document) ∈ documents.toList)
  (hdocument : Integral document)

include hrebuild hmem hdocument

/-- What the index has for a condition includes the documents that meet it. -/
theorem mem_matching {field : String} {condition : Json} {found : ExtTreeSet String}
    (hmatches : matchesField document field condition = .ok true)
    (hfound : catalog.matching indexToken field condition = some found) : id ∈ found := by
  rw [IndexCatalog.matching] at hfound
  split at hfound
  · cases hfound
  next hfield =>
    rw [matchesField_eq (Bool.not_eq_true _ ▸ hfield)] at hmatches
    split at hfound
    · cases hfound
    next index expected hnull hindex hequality =>
      obtain ⟨value, hvalue, hequal⟩ := valuesEqual_of_equality hmatches hequality
      have hintegral := integral_foldlM hdocument hvalue
      -- null equals nothing but null, which no index is asked for
      have hindexed : indexedValue document field = some value := by
        cases value with
        | null =>
          rw [valuesEqual.eq_def, Bool.or_false] at hequal
          exact absurd (eq_of_jsonEq hintegral hequal).symm hnull
        | _ => rw [indexedValue, hvalue]
      rw [rebuild_secondary hrebuild] at hindex
      obtain rfl := lookup_map_self hindex
      cases hfound
      rw [fieldIndex, mem_foldl_addTokens]
      exact .inr ⟨document, hmem, value, hindexed, mem_indexTokens hintegral hequal⟩
    · cases hfound

theorem mem_foldl_narrow : ∀ {query : List (String × Json)} {acc : Option (ExtTreeSet String)},
    (∀ p ∈ query, matchesField document p.1 p.2 = .ok true) → (∀ ids ∈ acc, id ∈ ids) →
      ∀ ids ∈ query.foldl (catalog.narrow indexToken) acc, id ∈ ids
  | [], acc, _, hacc => hacc
  | p :: query, acc, hquery, hacc => by
      rw [foldl_cons]
      refine mem_foldl_narrow (fun q hq => hquery q (.tail p hq)) ?_
      intro ids hids
      have hfield := hquery p (.head _)
      rw [IndexCatalog.narrow.eq_def] at hids
      split at hids
      · exact hacc ids hids
      next found hmatching => grind [mem_matching]
      next found existing hmatching => grind [ExtTreeSet.mem_inter_iff, mem_matching]

/-- **The candidates of a query include every document it accepts.** -/
theorem mem_candidates {query : Json} {ids : ExtTreeSet String}
    (haccepts : accepts query document = true)
    (hids : catalog.candidates indexToken query = some ids) : id ∈ ids := by
  rw [accepts_iff] at haccepts
  cases query with
  | object fields =>
    exact mem_foldl_narrow hrebuild hmem hdocument (matchesObject_ok haccepts)
      (fun _ h => by cases h) ids hids
  | _ => cases hids

end Accepted

end GuardianDb.Odm
