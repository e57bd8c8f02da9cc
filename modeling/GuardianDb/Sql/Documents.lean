/-
Rows as stored documents (`encode_json`, `decode_json`, `encode_row`,
`decode_row_owned`).

A row is stored as a JSON object with a field for each column, written from the values
and read back by the types of the columns. What other crates do with texts is in
`Codec`, with the law that they read what they write; the readers of `tsvector` and
`tsquery` are there too.

  * `readsBack_of_storable` — a storable value can be read back as one.
  * `decodeRow_of_readable` — what a document that can be read gives.
  * `readable_encodeRow` — a row of storable values can be read.
-/
import GuardianDb.Lib.Fallible
import GuardianDb.Relational.Written
import GuardianDb.Sql.Arith
import GuardianDb.Sql.Scan

namespace GuardianDb.Sql

open Std Relational BinaryFloat Fallible List

/-! ### JSON -/

/-- `serde_json::Number`; the second kind is beyond `i64`. -/
inductive JsonNumber where
  | int (n : Int64)
  | nat (n : UInt64)
  | float (x : Finite binary64)
  deriving DecidableEq

/-- `serde_json::Value`. -/
inductive Json where
  | null
  | bool (b : Bool)
  | number (n : JsonNumber)
  | string (s : String)
  | array (items : List Json)
  | object (fields : List (String × Json))

namespace Json

def asF64 : JsonNumber → F64
  | .int n => .ofInt binary64 n.toInt
  | .nat n => .ofInt binary64 n.toNat
  | .float x => .fin x

/-- `Number::from_f64`, or null. -/
def ofFloat : F64 → Json
  | .fin x => .number (.float x)
  | _ => .null

end Json

/-- What other crates do with the texts of values, and the readers of full-text search. -/
structure Codec (C : Crates) where
  /-- `serde_json::Value`, of the values of type JSON. -/
  ofJson : C.Json → Json
  toJson : Json → C.Json
  /-- `str::trim`. -/
  trim : String → String
  trim_label : ∀ s : String,
    (∀ c ∈ s.toList, C.isAlphanumeric c ∨ c = '_' ∨ c = '-' ∨ c = '.') → trim s = s
  /-- The text of a normalized decimal. -/
  decimalText : Decimal → String
  decimalText_read : ∀ d, (C.decimalFromStr (decimalText d)).isSome
  base64 : List UInt8 → String
  unbase64 : String → Option (List UInt8)
  base64_read : ∀ bytes, (unbase64 (base64 bytes)).isSome
  parseUuid : String → Option C.uuid.Carrier
  uuid_read : ∀ u, (parseUuid (C.uuid.text u)).isSome
  dateText : C.date.Carrier → String
  parseDate : String → Option C.date.Carrier
  date_read : ∀ d, (parseDate (dateText d)).isSome
  timeText : C.time.Carrier → String
  parseTime : String → Option C.time.Carrier
  time_read : ∀ t, (parseTime (timeText t)).isSome
  timestampText : C.timestamp.Carrier → String
  parseTimestamp : String → Option C.timestamp.Carrier
  timestamp_read : ∀ t, (parseTimestamp (timestampText t)).isSome
  timestamptzText : C.timestamptz.Carrier → String
  parseTimestamptz : String → Option C.timestamptz.Carrier
  timestamptz_read : ∀ t, (parseTimestamptz (timestamptzText t)).isSome
  /-- The texts of JSON values and numbers. -/
  jsonText : Json → String
  numberText : JsonNumber → String
  parseTsVector : String → Except RelError (List TsLexeme)
  parseTsQuery : String → Except RelError (Option TsQueryNode)

section
variable {C : Crates} (D : Codec C)

/-! ### Values -/

mutual

def encodeJson : SqlValue C → Json
  | .null => .null
  | .bool b => .bool b
  | .int2 n => .number (.int n.toInt64)
  | .int4 n => .number (.int n.toInt64)
  | .int8 n => .number (.int n)
  | .float4 x => .ofFloat (x.convert binary64)
  | .float8 x => .ofFloat x
  | .numeric d => .string (D.decimalText d)
  | .text s => .string s
  | .bytea bytes => .string (D.base64 bytes)
  | .uuid u => .string (C.uuid.text u)
  | .date d => .string (D.dateText d)
  | .time t => .string (D.timeText t)
  | .timestamp t => .string (D.timestampText t)
  | .timestamptz t => .string (D.timestamptzText t)
  | .json j => D.ofJson j
  | .array items => .array (encodeItems items)
  | .citext s => .string s
  | .vector v => .array (v.map fun x => .ofFloat (x.convert binary64))
  | .hstore map => .object (map.toList.map fun p => (p.1, match p.2 with
      | some s => .string s
      | none => .null))
  | .ltree p => .string p.path
  | .cube c => .object [("ll", .array (c.ll.map Json.ofFloat)),
      ("ur", .array (c.ur.map Json.ofFloat))]
  | .tsVector v => .string (String.ofList (formatTsVector v))
  | .tsQuery q => .string (String.ofList (formatTsQuery q))

def encodeItems : List (SqlValue C) → List Json
  | [] => []
  | v :: vs => encodeJson v :: encodeItems vs

end

def jsonAsI64 : Json → Option Int64
  | .number (.int n) => some n
  | .number n => some (Int64.ofInt ((Json.asF64 n).toIntSat Int64.minValue.toInt
      Int64.maxValue.toInt))
  | .string s => (parseSigned Int64.minValue.toInt Int64.maxValue.toInt (D.trim s)).map Int64.ofInt
  | .bool b => some (if b then 1 else 0)
  | _ => none

def jsonAsF64 : Json → Option F64
  | .number n => some (Json.asF64 n)
  | .string s => parse binary64 (D.trim s)
  | _ => none

/-- `as_str`. -/
def jsonAsStr : Json → Option String
  | .string s => some s
  | _ => none

/-- `as_array`. -/
def jsonAsArray : Json → Option (List Json)
  | .array items => some items
  | _ => none

/-- The labels of a path are well formed. -/
def validPath (C : Crates) (path : String) : Bool :=
  path.isEmpty || (path.toList.splitOn '.').all (ltreeLabelOk C)

/-- `parse_ltree_text`. -/
def parseLtree (text : String) : Except RelError (Ltree C) :=
  let path := D.trim text
  if h : validPath C path = true then
    .ok ⟨path, by simpa [validPath, String.isEmpty_iff, List.all_eq_true] using h⟩
  else .error (.syntaxError ("ltree syntax error in \"" ++ path ++ "\""))

/-- A result, or the error that the JSON value has no value of the type. -/
def orBad {α : Type} (ty : String) (j : Json) (r : Option α) : Except RelError α :=
  match r with
  | some a => .ok a
  | none => .error (.invalidTextRepresentation ty (D.jsonText j))

/-- A date or time that is read from a text, with the error of its reader. -/
def readText {α : Type} (ty : String) (parser : String → Option α) (j : Json) :
    Except RelError α := do
  let s ← orBad D ty j (jsonAsStr j)
  match parser s with
  | some a => .ok a
  | none => .error (.invalidTextRepresentation ty s)

/-- The corner of a cube under a field. -/
def decodeCorner (fields : List (String × Json)) (key : String) : Option (List F64) := do
  (← jsonAsArray (← fields.lookup key)).mapM (jsonAsF64 D)

/-- The value of an hstore entry. -/
def decodeEntry (p : String × Json) : Option (String × Option String) :=
  match p.2 with
  | .null => some (p.1, none)
  | .string s => some (p.1, some s)
  | _ => none

/-- The corners of a cube, not without dimensions. -/
def decodeCube (fields : List (String × Json)) : Option CubeCorners := do
  let ll ← decodeCorner D fields "ll"
  let ur ← decodeCorner D fields "ur"
  if h : ll.length = ur.length ∧ ll ≠ [] then some ⟨ll, ur, h.1⟩ else none

def checkVectorDims (v : List F32) (dims : Option Nat) : Except RelError Unit :=
  match dims with
  | some d =>
      if v.length = d then .ok ()
      else .error (.datatypeMismatch "" ("vector(" ++ toString d ++ ")")
        ("vector(" ++ toString v.length ++ ")"))
  | none => .ok ()

def decodeJson (ty : SqlType) (j : Json) : Except RelError (SqlValue C) :=
  match j with
  | .null => .ok .null
  | j =>
    match ty with
    | .boolean => match j with
        | .bool b => .ok (.bool b)
        | j => orBad D "boolean" j none
    | .smallInt => (orBad D "smallint" j (jsonAsI64 D j)).map fun n => .int2 n.toInt16
    | .integer => (orBad D "integer" j (jsonAsI64 D j)).map fun n => .int4 n.toInt32
    | .bigInt => (orBad D "bigint" j (jsonAsI64 D j)).map .int8
    | .real => (orBad D "real" j (jsonAsF64 D j)).map fun x => .float4 (x.convert binary32)
    | .doublePrecision => (orBad D "double precision" j (jsonAsF64 D j)).map .float8
    | .numeric _ _ => (orBad D "numeric" j (match j with
        | .string s => (C.decimalFromStr s).or (C.decimalFromScientific s)
        | .number n => C.decimalFromStr (D.numberText n)
        | _ => none)).map .numeric
    | .text => (orBad D "text" j (jsonAsStr j)).map .text
    | .varchar _ => (orBad D "text" j (jsonAsStr j)).map .text
    | .char _ => (orBad D "text" j (jsonAsStr j)).map .text
    | .bytea => (orBad D "bytea" j ((jsonAsStr j).bind D.unbase64)).map .bytea
    | .uuid => (orBad D "uuid" j ((jsonAsStr j).bind D.parseUuid)).map .uuid
    | .date => (readText D "date" D.parseDate j).map .date
    | .time => (readText D "time" D.parseTime j).map .time
    | .timestamp => (readText D "timestamp" D.parseTimestamp j).map .timestamp
    | .timestamptz => (readText D "timestamptz" D.parseTimestamptz j).map .timestamptz
    | .json => .ok (.json (D.toJson j))
    | .jsonb => .ok (.json (D.toJson j))
    | .array inner => do
        let items ← orBad D "array" j (jsonAsArray j)
        return .array (← items.mapM (decodeJson inner))
    | .citext => (orBad D "citext" j (jsonAsStr j)).map .citext
    | .vector dims => do
        let items ← orBad D "vector" j (jsonAsArray j)
        let v ← orBad D "vector" j (items.mapM (jsonAsF64 D))
        let v := v.map fun x => x.convert binary32
        checkVectorDims v dims
        return .vector v
    | .hstore => match j with
        | .object fields => (orBad D "hstore" j (fields.mapM decodeEntry)).map fun entries =>
            .hstore (ExtTreeMap.ofList entries)
        | j => orBad D "hstore" j none
    | .ltree => do
        let s ← orBad D "ltree" j (jsonAsStr j)
        return .ltree (← parseLtree D s)
    | .cube => match j with
        | .object fields => (orBad D "cube" j (decodeCube D fields)).map .cube
        | j => orBad D "cube" j none
    | .tsVector => do
        let s ← orBad D "tsvector" j (jsonAsStr j)
        return .tsVector (← D.parseTsVector s)
    | .tsQuery => do
        let s ← orBad D "tsquery" j (jsonAsStr j)
        return .tsQuery (← D.parseTsQuery s)
    | .unknown => .ok (.json (D.toJson j))

/-! ### Reading back -/

/-- A value that can be read back from its JSON form: NULL or of the type, and for full
text one that its reader understands. -/
inductive Storable (D : Codec C) : SqlType → SqlValue C → Prop
  | null (ty : SqlType) : Storable D ty .null
  | boolean (b : Bool) : Storable D .boolean (.bool b)
  | smallInt (n : Int16) : Storable D .smallInt (.int2 n)
  | integer (n : Int32) : Storable D .integer (.int4 n)
  | bigInt (n : Int64) : Storable D .bigInt (.int8 n)
  | real (x : F32) : Storable D .real (.float4 x)
  | doublePrecision (x : F64) : Storable D .doublePrecision (.float8 x)
  | numeric (precision scale : Option Nat) (d : Decimal) :
      Storable D (.numeric precision scale) (.numeric d)
  | text (s : String) : Storable D .text (.text s)
  | varchar (n : Option Nat) (s : String) : Storable D (.varchar n) (.text s)
  | char (n : Option Nat) (s : String) : Storable D (.char n) (.text s)
  | bytea (bytes : List UInt8) : Storable D .bytea (.bytea bytes)
  | uuid (u : C.uuid.Carrier) : Storable D .uuid (.uuid u)
  | date (d : C.date.Carrier) : Storable D .date (.date d)
  | time (t : C.time.Carrier) : Storable D .time (.time t)
  | timestamp (ts : C.timestamp.Carrier) : Storable D .timestamp (.timestamp ts)
  | timestamptz (ts : C.timestamptz.Carrier) : Storable D .timestamptz (.timestamptz ts)
  | json (j : C.Json) : Storable D .json (.json j)
  | jsonb (j : C.Json) : Storable D .jsonb (.json j)
  | array {inner : SqlType} {items : List (SqlValue C)}
      (h : ∀ item ∈ items, Storable D inner item) : Storable D (.array inner) (.array items)
  | citext (s : String) : Storable D .citext (.citext s)
  | vector {dims : Option Nat} {v : List F32} (hdims : ∀ n ∈ dims, v.length = n)
      (h : ∀ x ∈ v, x.isFinite) : Storable D (.vector dims) (.vector v)
  | hstore (map : ExtTreeMap String (Option String)) : Storable D .hstore (.hstore map)
  | ltree (p : Ltree C) : Storable D .ltree (.ltree p)
  | cube {c : CubeCorners} (hne : c.ll ≠ []) (hll : ∀ x ∈ c.ll, x.isFinite)
      (hur : ∀ x ∈ c.ur, x.isFinite) : Storable D .cube (.cube c)
  | tsVector {v : List TsLexeme}
      (h : D.parseTsVector (String.ofList (formatTsVector v)) = .ok v) :
      Storable D .tsVector (.tsVector v)
  | tsQuery {q : Option TsQueryNode}
      (h : D.parseTsQuery (String.ofList (formatTsQuery q)) = .ok q) :
      Storable D .tsQuery (.tsQuery q)
  | unknown (j : C.Json) : Storable D .unknown (.json j)

def ReadsBack (ty : SqlType) (v : SqlValue C) : Prop :=
  ∃ v', decodeJson D ty (encodeJson D v) = .ok v' ∧ Storable D ty v'

theorem encodeItems_eq (items : List (SqlValue C)) :
    encodeItems D items = items.map (encodeJson D) := by
  induction items with
  | nil => rw [encodeItems, map_nil]
  | cons v vs ih => rw [encodeItems, ih, map_cons]

/-- The items of an array are read back one by one. -/
theorem readsBack_items {inner : SqlType} {items : List (SqlValue C)}
    (h : ∀ item ∈ items, ReadsBack D inner item) :
    ∃ vs, (items.map (encodeJson D)).mapM (decodeJson D inner) = .ok vs ∧
      ∀ v ∈ vs, Storable D inner v := by
  induction items with
  | nil => exact ⟨[], rfl, fun v hv => nomatch hv⟩
  | cons item items ih =>
    obtain ⟨v, hv, hstore⟩ := h item (.head _)
    obtain ⟨vs, hvs, hall⟩ := ih fun item hitem => h item (.tail _ hitem)
    refine ⟨v :: vs, ?_, fun v' hv' => ?_⟩
    · rw [map_cons, mapM_cons, hv, hvs]
      rfl
    · grind

/-- Finite numbers are written as numbers. -/
theorem jsonAsF64_ofFloat {x : F64} (h : x.isFinite) : jsonAsF64 D (Json.ofFloat x) = some x := by
  obtain ⟨x, rfl⟩ := Flt.exists_fin h
  rfl

theorem mapM_ofFloat {l : List F64} (h : ∀ x ∈ l, x.isFinite) :
    (l.map Json.ofFloat).mapM (jsonAsF64 D) = some l := by
  induction l with
  | nil => rfl
  | cons x l ih => simp_all [mapM_cons, jsonAsF64_ofFloat]

theorem narrow_widen {x : F32} (h : x.isFinite) : (x.convert binary64).convert binary32 = x := by
  obtain ⟨x, rfl⟩ := Flt.exists_fin h
  exact Flt.convert_convert (by decide) (by decide) (by decide) x

theorem readsBack_vector {dims : Option Nat} {v : List F32} (hdims : ∀ n ∈ dims, v.length = n)
    (h : ∀ x ∈ v, x.isFinite) : ReadsBack D (.vector dims) (.vector v) := by
  have hread : (v.map fun x => Json.ofFloat (x.convert binary64)).mapM (jsonAsF64 D) =
      some (v.map fun x => x.convert binary64) := by
    have hwide : ∀ x ∈ v.map fun x : F32 => x.convert binary64, x.isFinite := by
      grind [isFinite_f64]
    have hmap := mapM_ofFloat D hwide
    rwa [map_map] at hmap
  have hback : (v.map fun x : F32 => x.convert binary64).map (fun x => x.convert binary32) = v := by
    rw [map_map]
    conv_rhs => rw [← map_id v]
    exact map_congr_left fun x hx => narrow_widen (h x hx)
  have hcheck : checkVectorDims v dims = .ok () := by
    cases dims with
    | none => rfl
    | some n => simp [checkVectorDims, hdims n rfl]
  refine ⟨.vector v, ?_, .vector hdims h⟩
  refine except_bind_ok.mpr ⟨_, rfl, except_bind_ok.mpr
    ⟨_, congrArg (orBad D "vector" _) hread, except_bind_ok.mpr ⟨(), ?_, ?_⟩⟩⟩
  · rwa [hback]
  · rw [hback]
    rfl

theorem readsBack_hstore (m : ExtTreeMap String (Option String)) :
    ReadsBack D .hstore (.hstore m) := by
  have hread : (m.toList.map fun p => (p.1, match p.2 with
      | some s => Json.string s
      | none => Json.null)).mapM decodeEntry = some m.toList := by
    induction m.toList with
    | nil => rfl
    | cons p l ih =>
      obtain ⟨key, value⟩ := p
      rw [map_cons, mapM_cons, ih]
      cases value <;> rfl
  refine ⟨.hstore (ExtTreeMap.ofList m.toList), ?_, .hstore _⟩
  simp only [encodeJson, decodeJson, orBad, hread]
  rfl

theorem validPath_of_ltree (p : Ltree C) : validPath C p.path = true := by
  rcases p.valid with h | h
  · simp [validPath, h]
  · simp only [validPath, Bool.or_eq_true, all_eq_true]
    exact .inr h

/-- A path has no white space to trim. -/
theorem trim_ltree (p : Ltree C) : D.trim p.path = p.path :=
  D.trim_label p.path fun _ => p.char_of_mem

theorem readsBack_cube {c : CubeCorners} (hne : c.ll ≠ []) (hll : ∀ x ∈ c.ll, x.isFinite)
    (hur : ∀ x ∈ c.ur, x.isFinite) : ReadsBack D .cube (.cube c) := by
  refine ⟨.cube c, ?_, .cube hne hll hur⟩
  have hread : decodeCube D [("ll", .array (c.ll.map Json.ofFloat)),
      ("ur", .array (c.ur.map Json.ofFloat))] = some c := by
    have hll' : decodeCorner D [("ll", .array (c.ll.map Json.ofFloat)),
        ("ur", .array (c.ur.map Json.ofFloat))] "ll" = some c.ll := mapM_ofFloat D hll
    have hur' : decodeCorner D [("ll", .array (c.ll.map Json.ofFloat)),
        ("ur", .array (c.ur.map Json.ofFloat))] "ur" = some c.ur := mapM_ofFloat D hur
    simp only [decodeCube, hll', hur']
    simp [c.same_length, hne]
  simp only [encodeJson, decodeJson, orBad, hread]
  rfl

/-- Numbers that are not finite are written as NULL. -/
theorem readsBack_float8 (x : F64) : ReadsBack D .doublePrecision (.float8 x) := by
  cases x with
  | fin x => exact ⟨.float8 (.fin x), rfl, .doublePrecision _⟩
  | nan | inf => exact ⟨.null, rfl, .null _⟩

theorem readsBack_float4 (x : F32) : ReadsBack D .real (.float4 x) := by
  unfold ReadsBack
  rw [encodeJson]
  cases x.convert binary64 with
  | fin y => exact ⟨_, rfl, .real _⟩
  | nan | inf => exact ⟨.null, rfl, .null _⟩

/-- A JSON value comes back, or NULL for a JSON null. -/
theorem readsBack_json (j : C.Json) {ty : SqlType} (hty : ty = .json ∨ ty = .jsonb ∨ ty = .unknown) :
    ReadsBack D ty (.json j) := by
  unfold ReadsBack
  rw [encodeJson]
  rcases hty with rfl | rfl | rfl
  · cases D.ofJson j with
    | null => exact ⟨.null, rfl, .null _⟩
    | _ => exact ⟨_, rfl, .json _⟩
  · cases D.ofJson j with
    | null => exact ⟨.null, rfl, .null _⟩
    | _ => exact ⟨_, rfl, .jsonb _⟩
  · cases D.ofJson j with
    | null => exact ⟨.null, rfl, .null _⟩
    | _ => exact ⟨_, rfl, .unknown _⟩

/-- A date or time comes back if its text can be read. -/
theorem readsBack_text {α : Type} {ty : SqlType} {v : SqlValue C} {value : α → SqlValue C}
    {name s : String} {parser : String → Option α} (hread : (parser s).isSome)
    (hstored : ∀ a, Storable D ty (value a))
    (hdecode : decodeJson D ty (encodeJson D v) = (readText D name parser (.string s)).map value) :
    ReadsBack D ty v := by
  obtain ⟨a, ha⟩ := Option.isSome_iff_exists.mp hread
  refine ⟨value a, ?_, hstored a⟩
  simp only [hdecode, readText, jsonAsStr, orBad, bind, Except.bind, ha]
  rfl

/-- **A storable value can be read back as one.** -/
theorem readsBack_of_storable {ty : SqlType} {v : SqlValue C} (h : Storable D ty v) :
    ReadsBack D ty v := by
  induction h with
  | null ty =>
    refine ⟨.null, ?_, .null ty⟩
    unfold decodeJson
    rfl
  | boolean b => exact ⟨.bool b, rfl, .boolean b⟩
  | smallInt n => exact ⟨_, rfl, .smallInt _⟩
  | integer n => exact ⟨_, rfl, .integer _⟩
  | bigInt n => exact ⟨_, rfl, .bigInt _⟩
  | real x => exact readsBack_float4 D x
  | doublePrecision x => exact readsBack_float8 D x
  | numeric precision scale d =>
    obtain ⟨d', hd'⟩ := Option.isSome_iff_exists.mp (D.decimalText_read d)
    refine ⟨.numeric d', ?_, .numeric _ _ d'⟩
    simp only [encodeJson, decodeJson, hd', Option.some_or, orBad]
    rfl
  | text s => exact ⟨_, rfl, .text s⟩
  | varchar n s => exact ⟨_, rfl, .varchar n s⟩
  | char n s => exact ⟨_, rfl, .char n s⟩
  | bytea bytes =>
    obtain ⟨b, hb⟩ := Option.isSome_iff_exists.mp (D.base64_read bytes)
    refine ⟨.bytea b, ?_, .bytea b⟩
    simp only [encodeJson, decodeJson, jsonAsStr, Option.bind_some, hb, orBad]
    rfl
  | uuid u =>
    obtain ⟨u', hu'⟩ := Option.isSome_iff_exists.mp (D.uuid_read u)
    refine ⟨.uuid u', ?_, .uuid u'⟩
    simp only [encodeJson, decodeJson, jsonAsStr, Option.bind_some, hu', orBad]
    rfl
  | date d => exact readsBack_text D (D.date_read d) .date rfl
  | time t => exact readsBack_text D (D.time_read t) .time rfl
  | timestamp t => exact readsBack_text D (D.timestamp_read t) .timestamp rfl
  | timestamptz t => exact readsBack_text D (D.timestamptz_read t) .timestamptz rfl
  | json j => exact readsBack_json D j (.inl rfl)
  | jsonb j => exact readsBack_json D j (.inr (.inl rfl))
  | unknown j => exact readsBack_json D j (.inr (.inr rfl))
  | array _ ih =>
    obtain ⟨vs, hvs, hall⟩ := readsBack_items D ih
    refine ⟨.array vs, ?_, .array hall⟩
    simp only [encodeJson, decodeJson, encodeItems_eq, jsonAsArray, orBad, bind, Except.bind, hvs]
    rfl
  | citext s => exact ⟨_, rfl, .citext s⟩
  | vector hdims h => exact readsBack_vector D hdims h
  | hstore m => exact readsBack_hstore D m
  | ltree p =>
    refine ⟨.ltree p, ?_, .ltree p⟩
    have hparse : parseLtree D p.path = .ok p := by
      simp [parseLtree, trim_ltree, validPath_of_ltree]
    simp only [encodeJson, decodeJson, jsonAsStr, orBad, bind, Except.bind, hparse]
    rfl
  | cube hne hll hur => exact readsBack_cube D hne hll hur
  | tsVector h =>
    refine ⟨_, ?_, .tsVector h⟩
    simp only [encodeJson, decodeJson, jsonAsStr, orBad, bind, Except.bind, h]
    rfl
  | tsQuery h =>
    refine ⟨_, ?_, .tsQuery h⟩
    simp only [encodeJson, decodeJson, jsonAsStr, orBad, bind, Except.bind, h]
    rfl

/-! ### Rows -/

/-- A field of an object; a missing one is null. -/
def fieldOf (fields : List (String × Json)) (name : String) : Json :=
  (fields.lookup name).getD .null

/-- `Map::insert`. -/
def setField (fields : List (String × Json)) (name : String) (j : Json) : List (String × Json) :=
  fields.filter (fun p => p.1 != name) ++ [(name, j)]

/-- `Map::remove`. -/
def removeField (fields : List (String × Json)) (name : String) : List (String × Json) :=
  fields.filter fun p => p.1 != name

/-- The loop of `decode_row_owned` over the columns; each field is taken once. -/
def decodeColumns : List Column → List (String × Json) → RowValues C → Except RelError (RowValues C)
  | [], _, values => .ok values
  | c :: cs, fields, values => do
      let v ← decodeJson D c.ty (fieldOf fields c.name)
      decodeColumns cs (removeField fields c.name) (values.insert c.name v)

/-- `as_bool` of the tombstone flag. -/
def isDeleted (fields : List (String × Json)) : Bool :=
  match fields.lookup "__deleted" with
  | some (.bool b) => b
  | _ => false

/-- The version of a row; 1 if there is none. -/
def versionIn (fields : List (String × Json)) : Int :=
  match fields.lookup "__version" with
  | some (.number (.int n)) => n.toInt
  | _ => 1

/-- `decode_row_owned`; nothing for a tombstone. -/
def decodeRow (t : Table) (doc : Json) : Except SqlError (Option (String × RowValues C × Int)) :=
  match doc with
  | .object fields =>
      if isDeleted fields then .ok none
      else
        match fields.lookup "_id" with
        | some (.string id) =>
            match decodeColumns D t.columns fields ∅ with
            | .ok values => .ok (some (id, values, versionIn fields))
            | .error e => .error (.relational e)
        | _ => .error (.storage "row document missing _id")
  | _ => .error (.storage "row document is not an object")

/-- The fields of every row document. -/
def rowHeader (t : Table) (rowId : String) (version : Int) : List (String × Json) :=
  [("_id", .string rowId), ("__schema", .string t.schema), ("__table", .string t.name),
    ("__version", .number (.int (Int64.ofInt version))), ("__deleted", .bool false)]

def encodeRow (t : Table) (rowId : String) (values : RowValues C) (version : Int) : Json :=
  .object (t.columns.foldl (fun fields c =>
    setField fields c.name (encodeJson D (valueOf values c.name))) (rowHeader t rowId version))

theorem lookup_removeField (fields : List (String × Json)) (name key : String) :
    (removeField fields name).lookup key = if key = name then none else fields.lookup key := by
  unfold removeField
  induction fields with
  | nil => simp
  | cons p l ih => grind

theorem lookup_setField (fields : List (String × Json)) (name key : String) (j : Json) :
    (setField fields name j).lookup key = if key = name then some j else fields.lookup key := by
  rw [setField, lookup_append]
  have hremoved := lookup_removeField fields name key
  unfold removeField at hremoved
  rw [hremoved]
  by_cases hkey : key = name
  · simp [hkey]
  · have hother : (key == name) = false := beq_eq_false_iff_ne.mpr hkey
    simp [hkey, hother, lookup_cons]

/-- What a row document has under a name after encoding. -/
theorem lookup_encodeColumns (values : RowValues C) (cs : List Column)
    (fields : List (String × Json)) (key : String) :
    (cs.foldl (fun fields c => setField fields c.name (encodeJson D (valueOf values c.name)))
      fields).lookup key =
        if key ∈ cs.map Column.name then some (encodeJson D (valueOf values key))
        else fields.lookup key := by
  induction cs generalizing fields with
  | nil => simp
  | cons c cs ih =>
    rw [foldl_cons, ih, lookup_setField]
    by_cases htail : key ∈ cs.map Column.name
    · simp [htail]
    · grind

/-- A document that can be loaded as a row of the table: a tombstone, or one with its own
id whose fields can be read. -/
def Readable (t : Table) (rowId : String) (doc : Json) : Prop :=
  ∃ fields, doc = .object fields ∧ (isDeleted fields = true ∨
    fields.lookup "_id" = some (.string rowId) ∧
      ∀ c ∈ t.columns, ∃ v, decodeJson D c.ty (fieldOf fields c.name) = .ok v ∧ Storable D c.ty v)

variable {fields : List (String × Json)}

theorem fieldOf_removeField {name key : String} (h : key ≠ name) :
    fieldOf (removeField fields name) key = fieldOf fields key := by
  rw [fieldOf, lookup_removeField, if_neg h, fieldOf]

/-- **The columns are read one by one.** -/
theorem decodeColumns_ok {cs : List Column} (hnodup : (cs.map Column.name).Nodup)
    (h : ∀ c ∈ cs, ∃ v, decodeJson D c.ty (fieldOf fields c.name) = .ok v) (values : RowValues C) :
    ∃ values', decodeColumns D cs fields values = .ok values' ∧
      (∀ c ∈ cs, decodeJson D c.ty (fieldOf fields c.name) = .ok (valueOf values' c.name)) ∧
        ∀ key, key ∉ cs.map Column.name → valueOf values' key = valueOf values key := by
  induction cs generalizing fields values with
  | nil => exact ⟨values, rfl, (fun c hc => nomatch hc), fun _ _ => rfl⟩
  | cons c cs ih =>
    obtain ⟨hnot, hnodup⟩ := nodup_cons.mp hnodup
    obtain ⟨v, hv⟩ := h c (.head _)
    have hother : ∀ c' ∈ cs, c'.name ≠ c.name := fun c' hc' heq =>
      hnot (heq ▸ mem_map_of_mem hc')
    have htail : ∀ c' ∈ cs, ∃ v,
        decodeJson D c'.ty (fieldOf (removeField fields c.name) c'.name) = .ok v := by
      simp_all [fieldOf_removeField]
    obtain ⟨values', hrun, hread, hkeep⟩ := ih hnodup htail (values.insert c.name v)
    refine ⟨values', ?_, fun c' hc' => ?_, fun key hkey => ?_⟩
    · rw [decodeColumns, hv]
      exact hrun
    · grind [valueOf, fieldOf_removeField]
    · rw [map_cons, mem_cons, not_or] at hkey
      rw [hkeep key hkey.2, valueOf, OrderedMap.get_insert, if_neg hkey.1]
      rfl

variable {t : Table}

theorem decodeRow_deleted (h : isDeleted fields = true) :
    decodeRow D t (.object fields) = .ok none := by
  simp [decodeRow, h]

/-- A readable document is a tombstone or gives a row. -/
theorem decodeRow_of_readable (hnodup : (t.columns.map Column.name).Nodup) {rowId : String}
    {doc : Json} (h : Readable D t rowId doc) :
    (∃ fields, doc = .object fields ∧ isDeleted fields = true) ∨
      ∃ fields values, doc = .object fields ∧
      decodeRow D t doc = .ok (some (rowId, values, versionIn fields)) ∧
        (∀ c ∈ t.columns, decodeJson D c.ty (fieldOf fields c.name) = .ok (valueOf values c.name) ∧
          Storable D c.ty (valueOf values c.name)) ∧
        ∀ key, key ∉ t.columns.map Column.name → valueOf values key = .null := by
  obtain ⟨fields, rfl, hdeleted | ⟨hid, hcols⟩⟩ := h
  · exact .inl ⟨fields, rfl, hdeleted⟩
  · cases hdeleted : isDeleted fields with
    | true => exact .inl ⟨fields, rfl, hdeleted⟩
    | false =>
      obtain ⟨values, hrun, hread, hkeep⟩ := decodeColumns_ok D hnodup
        (fun c hc => (hcols c hc).imp fun _ h => h.1) ∅
      refine .inr ⟨fields, values, rfl, by simp [decodeRow, hdeleted, hid, hrun],
        fun c hc => ⟨hread c hc, ?_⟩, fun key hkey => ?_⟩
      · simp_all
      · rw [hkeep key hkey]
        simp [valueOf]

/-- **A row of storable values can be loaded**, unless a column is named `_id`. -/
theorem readable_encodeRow (hid : "_id" ∉ t.columns.map Column.name) {values : RowValues C}
    (h : ∀ c ∈ t.columns, Storable D c.ty (valueOf values c.name)) (rowId : String) (version : Int)
    : Readable D t rowId (encodeRow D t rowId values version) := by
  refine ⟨_, rfl, .inr ⟨?_, fun c hc => ?_⟩⟩
  · rw [lookup_encodeColumns, if_neg hid]
    rfl
  · rw [fieldOf, lookup_encodeColumns, if_pos (mem_map_of_mem hc)]
    exact readsBack_of_storable D (h c hc)

end

end GuardianDb.Sql
