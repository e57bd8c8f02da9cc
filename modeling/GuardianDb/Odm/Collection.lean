/-
Collections of documents: what `find` returns and what `update` selects.

Every call reloads the stored documents into a map by id and rebuilds the indexes. A
document that does not meet the schema, a second one with the same id or with the
same value of a unique field ends the call with an error. After that a query looks
at the candidates of the indexes only.

  * `documents_perm` — the documents of a collection are the stored ones, by id.
  * `candidateDocuments_filter` — among the candidates are all accepted documents,
    in the order of the ids.
  * `find_eq_accepted` — so a query does not depend on the indexes.
-/
import GuardianDb.Lib.OrderedMap
import GuardianDb.Odm.Index
import Mathlib.Data.List.Sort

namespace GuardianDb.Odm

open Fallible List

open Sql (Json JsonNumber)
open Std (ExtTreeMap ExtTreeSet LawfulEqCmp OrientedCmp ReflCmp)

/-! ### Documents and the schema -/

def FieldType.matches : FieldType → Json → Bool
  | .any, _ => true
  | .string, .string _ | .timestamp, .string _ => true
  | .number, .number _ => true
  | .boolean, .bool _ => true
  | .object, .object _ => true
  | .array, .array _ => true
  | _, _ => false

/-- The name of a field type as `{:?}` writes it. -/
def FieldType.debug : FieldType → String
  | .any => "Any"
  | .string => "String"
  | .number => "Number"
  | .boolean => "Boolean"
  | .object => "Object"
  | .array => "Array"
  | .timestamp => "Timestamp"

/-- What `validate_document` checks of a declared field. -/
def checkField (fields : List (String × Json)) (field : FieldDefinition) :
    Except OdmError Unit :=
  match fields.lookup field.name with
  | none =>
      if field.required then .error (.validation field.name "required field is missing")
      else .ok ()
  | some .null =>
      if field.required && !field.nullable then
        .error (.validation field.name "required field cannot be null")
      else .ok ()
  | some value =>
      if field.fieldType.matches value then .ok ()
      else .error (.validation field.name ("expected " ++ field.fieldType.debug))

namespace ModelSchema

variable (schema : ModelSchema)

/-- What `validate_document` checks of a key in strict mode. -/
def checkKey (p : String × Json) : Except OdmError Unit :=
  if p.1 ≠ "_id" ∧ p.1 ∉ schema.fields then
    .error (.validation p.1 "field is not declared in the strict schema")
  else .ok ()

def validateDocument (document : Json) : Except OdmError Unit :=
  match document with
  | .object fields => do
      schema.fields.values.forM (checkField fields)
      if schema.strict then fields.forM schema.checkKey
  | _ => .error (.validation "$document" "document must be a JSON object")

end ModelSchema

/-- `entry(key).or_insert(value)` of a sorted map. -/
def orInsert (key : String) (value : Json) : List (String × Json) → List (String × Json)
  | [] => [(key, value)]
  | (k, x) :: rest =>
      if key < k then (key, value) :: (k, x) :: rest
      else if key = k then (k, x) :: rest
      else (k, x) :: orInsert key value rest

/-- The parameters of the model: `serde_json::to_string` and the text of a number. -/
structure JsonTexts where
  indexToken : Json → String
  numberText : JsonNumber → String

variable (T : JsonTexts)

def canonicalValue : Json → Except OdmError String
  | .string s => .ok s
  | .number n => .ok (T.numberText n)
  | .bool b => .ok (toString b)
  | _ => .error (.validation "$id" "primary keys must be strings, numbers, or booleans")

/-! ### Collections -/

structure CollectionState where
  documents : ExtTreeMap String Json
  indexes : IndexCatalog

namespace ModelSchema

variable (schema : ModelSchema)

def documentId (document : Json) : Except OdmError String :=
  match objectGet document schema.primaryKey with
  | some value => canonicalValue T value
  | none => .error (.validation schema.primaryKey "primary key is missing")

/-- The document with the mirror of its id, under a primary key of another name. -/
def mirrorId (id : String) (document : Json) : Json :=
  if schema.primaryKey ≠ "_id" then
    match document with
    | .object fields => .object (orInsert "_id" (.string id) fields)
    | other => other
  else document

def externalDocument (document : Json) : Json :=
  if schema.primaryKey ≠ "_id" then
    match document with
    | .object fields => .object (Sql.removeField fields "_id")
    | other => other
  else document

/-- A stored document as `refresh_locked` takes it up. -/
def loadDocument (document : Json) : Except OdmError (String × Json) := do
  schema.validateDocument document
  let id ← schema.documentId T document
  return (id, schema.mirrorId id document)

/-- The loop of `refresh_locked` over the stored documents. -/
def insertDocument (documents : ExtTreeMap String Json) (document : Json) :
    Except OdmError (ExtTreeMap String Json) := do
  let (id, document) ← schema.loadDocument T document
  if id ∈ documents then .error (.duplicateKey schema.primaryKey id)
  else return documents.insert id document

/-- `refresh_locked`, with what `load_all` gives. -/
def refreshLocked (stored : List Json) : Except OdmError CollectionState := do
  let documents ← stored.foldlM (schema.insertDocument T) ∅
  let indexes ← IndexCatalog.rebuild T.indexToken schema documents
  return ⟨documents, indexes⟩

end ModelSchema

/-- The documents a query looks at, in the order it does. -/
def CollectionState.candidateDocuments (state : CollectionState) (query : Json) :
    List (String × Json) :=
  match state.indexes.candidates T.indexToken query with
  | some ids => ids.toList.filterMap fun id => state.documents[id]?.map (id, ·)
  | none => state.documents.toList

/-- The loop of `find`. -/
def collectMatches (schema : ModelSchema) (query : Json) :
    List (String × Json) → Except OdmError (List Json)
  | [] => .ok []
  | (_, document) :: rest => do
      if ← matchesQuery document query then
        return schema.externalDocument document :: (← collectMatches schema query rest)
      else collectMatches schema query rest

/-- The loop of `update_with_options`. -/
def firstMatch (query : Json) : List (String × Json) → Except OdmError (Option (String × Json))
  | [] => .ok none
  | (id, document) :: rest => do
      if ← matchesQuery document query then return some (id, document)
      else firstMatch query rest

def find (schema : ModelSchema) (stored : List Json) (query : Json) :
    Except OdmError (List Json) := do
  let state ← schema.refreshLocked T stored
  collectMatches schema query (state.candidateDocuments T query)

/-- The document that `update_with_options` applies its operations to, with its id. -/
def selectForUpdate (schema : ModelSchema) (stored : List Json) (query : Json) :
    Except OdmError (Option (String × Json)) := do
  let state ← schema.refreshLocked T stored
  firstMatch query (state.candidateDocuments T query)

/-! ### Loading -/

variable {T} {schema : ModelSchema}

variable {documents : ExtTreeMap String Json} {document : Json}

/-- One more document is loaded. -/
theorem insertDocument_ok {documents' : ExtTreeMap String Json}
    (h : schema.insertDocument T documents document = .ok documents') :
    ∃ p : String × Json, schema.loadDocument T document = .ok p ∧ p.1 ∉ documents ∧
      documents' = documents.insert p.1 p.2 := by
  obtain ⟨p, hload, h⟩ := except_bind_ok.mp h
  change (if p.1 ∈ documents then _ else _) = _ at h
  split at h
  · cases h
  next hnew => exact ⟨p, hload, hnew, (Except.ok.inj h).symm⟩

variable {p : String × Json}

/-- The entries are in the order of the ids, without repetition. -/
def ById (l : List (String × Json)) : Prop :=
  l.Pairwise fun p q => compare p.1 q.1 = .lt

theorem byId_toList (documents : ExtTreeMap String Json) : ById documents.toList :=
  ExtTreeMap.ordered_keys_toList

theorem toList_insert_perm (hnew : p.1 ∉ documents) :
    (documents.insert p.1 p.2).toList.Perm (p :: documents.toList) := by
  have hget : (documents.insert p.1 p.2)[p.1]? = some p.2 := ExtTreeMap.getElem?_insert_self
  have hperm := OrderedMap.toList_perm_erase hget
  rwa [OrderedMap.erase_insert, OrderedMap.erase_of_notMem hnew] at hperm

/-- The loop of `refresh_locked` adds the loaded documents to the entries there are. -/
theorem foldlM_insertDocument : ∀ {stored : List Json}
    {documents documents' : ExtTreeMap String Json},
    stored.foldlM (schema.insertDocument T) documents = .ok documents' →
      ∃ l, stored.mapM (schema.loadDocument T) = .ok l ∧
        documents'.toList.Perm (l ++ documents.toList)
  | [], documents, documents', h => by
      cases h
      exact ⟨[], rfl, .refl _⟩
  | d :: stored, documents, documents', h => by
      rw [foldlM_cons] at h
      obtain ⟨next, hinsert, h⟩ := except_bind_ok.mp h
      obtain ⟨p, hload, hnew, rfl⟩ := insertDocument_ok hinsert
      obtain ⟨l, hl, hperm⟩ := foldlM_insertDocument h
      refine ⟨p :: l, ?_, hperm.trans ?_⟩
      · rw [mapM_cons, hload, hl]
        rfl
      · exact ((toList_insert_perm hnew).append_left l).trans perm_middle

variable {stored : List Json} {state : CollectionState}

theorem refreshLocked_ok (h : schema.refreshLocked T stored = .ok state) :
    stored.foldlM (schema.insertDocument T) ∅ = .ok state.documents ∧
      IndexCatalog.rebuild T.indexToken schema state.documents = .ok state.indexes := by
  obtain ⟨documents, hdocuments, h⟩ := except_bind_ok.mp h
  obtain ⟨indexes, hindexes, h⟩ := except_bind_ok.mp h
  cases h
  exact ⟨hdocuments, hindexes⟩

/-- The documents of a collection are the stored ones, under their ids. -/
theorem documents_perm (h : schema.refreshLocked T stored = .ok state) :
    ∃ l, stored.mapM (schema.loadDocument T) = .ok l ∧ state.documents.toList.Perm l := by
  obtain ⟨l, hl, hperm⟩ := foldlM_insertDocument (refreshLocked_ok h).1
  exact ⟨l, hl, hperm.trans (.of_eq (append_nil l))⟩

/-! ### Integers of the loaded documents -/

theorem integral_orInsert {key s : String} : ∀ {fields : List (String × Json)},
    IntegralFields fields → IntegralFields (orInsert key (.string s) fields)
  | [], _ => ⟨trivial, trivial⟩
  | (k, x) :: rest, h => by
      rw [orInsert]
      split
      · exact ⟨trivial, h⟩
      · split
        · exact h
        · exact ⟨h.1, integral_orInsert h.2⟩

theorem integral_mirrorId {id : String} (h : Integral document) :
    Integral (schema.mirrorId id document) := by
  rw [ModelSchema.mirrorId.eq_def]
  split
  · cases document with
    | object fields => exact integral_orInsert h
    | _ => exact h
  · exact h

theorem loadDocument_ok (h : schema.loadDocument T document = .ok p) :
    p.2 = schema.mirrorId p.1 document := by
  obtain ⟨-, -, h⟩ := except_bind_ok.mp h
  obtain ⟨id, -, h⟩ := except_bind_ok.mp h
  cases h
  rfl

theorem integral_documents (h : schema.refreshLocked T stored = .ok state)
    (hstored : ∀ d ∈ stored, Integral d) (hp : p ∈ state.documents.toList) : Integral p.2 := by
  obtain ⟨l, hl, hperm⟩ := documents_perm h
  obtain ⟨d, hd, hload⟩ := except_mapM_ok hl p (hperm.mem_iff.mp hp)
  rw [loadDocument_ok hload]
  exact integral_mirrorId (hstored d hd)

/-! ### Queries without the indexes -/

/-- Among the candidates are all accepted documents, in the order of the ids. -/
theorem candidateDocuments_filter (h : schema.refreshLocked T stored = .ok state)
    (hstored : ∀ d ∈ stored, Integral d) (query : Json) :
    (state.candidateDocuments T query).filter (accepts query ·.2) =
      state.documents.toList.filter (accepts query ·.2) := by
  rw [CollectionState.candidateDocuments]
  split
  next ids hids =>
    have hsorted : ById (ids.toList.filterMap fun id => state.documents[id]?.map (id, ·)) := by
      refine ExtTreeSet.ordered_toList.filterMap _ fun id id' hlt p hp q hq => ?_
      obtain ⟨d, -, rfl⟩ := Option.map_eq_some_iff.mp hp
      obtain ⟨d', -, rfl⟩ := Option.map_eq_some_iff.mp hq
      exact hlt
    refine OrderedMap.eq_of_ordered (hsorted.filter _) ((byId_toList _).filter _) fun p => ?_
    rw [mem_filter, mem_filter, mem_filterMap]
    constructor
    · grind
    · rintro ⟨hp, haccepts⟩
      have hcandidate := mem_candidates (refreshLocked_ok h).2 hp (integral_documents h hstored hp)
        haccepts hids
      refine ⟨⟨p.1, ExtTreeSet.mem_toList.mpr hcandidate, ?_⟩, haccepts⟩
      rw [ExtTreeMap.mem_toList_iff_getElem?_eq_some.mp hp]
      rfl
  · rfl

variable {query : Json}

theorem mem_of_mem_candidateDocuments (hp : p ∈ state.candidateDocuments T query) :
    p ∈ state.documents.toList := by
  rw [CollectionState.candidateDocuments] at hp
  split at hp
  · grind
  · exact hp

theorem accepts_eq {b : Bool} (h : matchesQuery document query = .ok b) :
    accepts query document = b := by
  rw [accepts, h]

theorem collectMatches_eq : ∀ {l : List (String × Json)},
    (∀ p ∈ l, ∃ b, matchesQuery p.2 query = .ok b) → collectMatches schema query l =
      .ok ((l.filter (accepts query ·.2)).map (schema.externalDocument ·.2))
  | [], _ => rfl
  | (id, document) :: rest, h => by
      obtain ⟨b, hb⟩ := h _ (.head _)
      have ih := collectMatches_eq fun p hp => h p (.tail _ hp)
      rw [collectMatches, hb, filter_cons, accepts_eq hb, ih]
      cases b <;> rfl

theorem firstMatch_eq : ∀ {l : List (String × Json)},
    (∀ p ∈ l, ∃ b, matchesQuery p.2 query = .ok b) →
      firstMatch query l = .ok (l.find? (accepts query ·.2))
  | [], _ => rfl
  | (id, document) :: rest, h => by
      obtain ⟨b, hb⟩ := h _ (.head _)
      have ih := firstMatch_eq fun p hp => h p (.tail _ hp)
      rw [firstMatch, hb, List.find?_cons, accepts_eq hb, ih]
      cases b <;> rfl

/-- **Queries do not depend on indexes.** For stored documents that the collection accepts,
whose numbers are integers and on all of which the query evaluates, `find` returns the
accepted ones in the order of their ids, and `update` selects the first of them. -/
theorem find_eq_accepted (T : JsonTexts) (schema : ModelSchema) (stored : List Json)
    (query : Json) {state : CollectionState}
    (hrefresh : schema.refreshLocked T stored = .ok state)
    (hintegral : ∀ d ∈ stored, Integral d)
    (hquery : ∀ p ∈ state.documents.toList, ∃ b, matchesQuery p.2 query = .ok b) :
    ∃ documents : List (String × Json), ById documents ∧
      (∃ l, stored.mapM (schema.loadDocument T) = .ok l ∧ documents.Perm l) ∧
      find T schema stored query =
        .ok ((documents.filter (accepts query ·.2)).map (schema.externalDocument ·.2)) ∧
      selectForUpdate T schema stored query = .ok (documents.find? (accepts query ·.2)) := by
  have hcandidates : ∀ p ∈ state.candidateDocuments T query,
      ∃ b, matchesQuery p.2 query = .ok b :=
    fun p hp => hquery p (mem_of_mem_candidateDocuments hp)
  have hfilter := candidateDocuments_filter hrefresh hintegral query
  refine ⟨state.documents.toList, byId_toList _, documents_perm hrefresh, ?_, ?_⟩
  · rw [find, hrefresh, ← hfilter]
    exact collectMatches_eq hcandidates
  · rw [selectForUpdate, hrefresh, ← List.head?_filter, ← hfilter, List.head?_filter]
    exact firstMatch_eq hcandidates

/-! ### Documents that the collection rejects, and the order of numbers -/

def sampleTexts : JsonTexts where
  indexToken
    | .string s => "\"" ++ s ++ "\""
    | .number (.int n) => toString n.toInt
    | _ => "null"
  numberText
    | .int n => toString n.toInt
    | .nat n => toString n.toNat
    | .float _ => "0.0"

/-- The primary key of people, a number. -/
def idField : FieldDefinition where
  name := "id"
  fieldType := .number
  required := true
  primaryKey := true
  unique := true
  indexed := true

/-- The email address of people, which is unique. -/
def emailField : FieldDefinition where
  name := "email"
  fieldType := .string
  unique := true
  indexed := true

/-- People with a number and an email address. -/
def people : ModelSchema where
  fields := ExtTreeMap.ofList [("id", idField), ("email", emailField)]
  primaryKey := "id"

def person (id : Int64) (email : String) : Json :=
  .object [("email", .string email), ("id", .number (.int id))]

theorem integral_person (id : Int64) (email : String) : Integral (person id email) :=
  ⟨trivial, trivial, trivial⟩

def returns (r : Except OdmError (List Json)) (l : List Json) : Bool :=
  match r with
  | .ok documents => itemsEq l documents
  | .error _ => false

variable {r : Except OdmError (List Json)}

theorem eq_of_returns {l : List Json} (hl : IntegralItems l)
    (h : returns r l = true) : r = .ok l := by
  cases r with
  | error e => cases h
  | ok documents => rw [eq_of_itemsEq hl h]

def fails (r : Except OdmError (List Json)) (e : OdmError) : Bool :=
  match r with
  | .ok _ => false
  | .error e' => e' = e

theorem eq_of_fails {e : OdmError} (h : fails r e = true) :
    r = .error e := by
  cases r with
  | ok documents => cases h
  | error e' => rw [of_decide_eq_true h]

/-- The people with the email address `a`. -/
def addressA : Json := .object [("email", .string "a")]

theorem addressA_evaluates (document : Json) : ∃ b, matchesQuery document addressA = .ok b := by
  have hfield : isOperator "email" = false := by decide
  rw [addressA, matchesQuery, matchesObject, matchesField_eq hfield, matchesCondition]
  · cases (valueAtPath document "email").any (valuesEqual · (.string "a")) with
    | true => exact ⟨true, rfl⟩
    | false => exact ⟨false, rfl⟩
  · rintro _ ⟨⟩

theorem find_eq_accepted_people :
    ∃ documents : List (String × Json), ById documents ∧
      find sampleTexts people [person 9 "a", person 10 "b"] addressA =
        .ok ((documents.filter (accepts addressA ·.2)).map (people.externalDocument ·.2)) ∧
      find sampleTexts people [person 9 "a", person 10 "b"] addressA = .ok [person 9 "a"] := by
  have hrefresh : (people.refreshLocked sampleTexts [person 9 "a", person 10 "b"]).isOk = true := by
    decide +kernel
  have hintegral : ∀ d ∈ [person 9 "a", person 10 "b"], Integral d := by
    rw [forall_mem_cons, forall_mem_singleton]
    exact ⟨integral_person 9 "a", integral_person 10 "b"⟩
  obtain ⟨state, hstate⟩ := Fallible.except_isOk_iff.mp hrefresh
  obtain ⟨documents, hsorted, -, hfind, -⟩ := find_eq_accepted sampleTexts people _ addressA
    hstate hintegral fun p _ => addressA_evaluates p.2
  refine ⟨documents, hsorted, hfind, eq_of_returns ?_ (by decide +kernel)⟩
  exact ⟨integral_person 9 "a", trivial⟩

/-- Two people with one email address cannot be queried at all, and the person `10` comes
before the person `9`. -/
theorem query_fails_on_duplicates :
    (∀ d ∈ [person 9 "a", person 10 "a"], matchesQuery d (.object []) = .ok true) ∧
      find sampleTexts people [person 9 "a", person 10 "a"] (.object []) =
        .error (.duplicateKey "email" "\"a\"") ∧
      find sampleTexts people [person 9 "a", person 10 "b"] (.object []) =
        .ok [person 10 "b", person 9 "a"] := by
  refine ⟨fun d _ => rfl, eq_of_fails (by decide +kernel), eq_of_returns ?_ (by decide +kernel)⟩
  exact ⟨integral_person 10 "b", integral_person 9 "a", trivial⟩

end GuardianDb.Odm
