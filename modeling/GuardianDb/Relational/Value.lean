/-
The relational value model: `SqlType`, `SqlValue`, and the numeric accessors.

Values are those of `relational/value.rs`. Types and functions of external
crates that the code calls are the fields of `Crates`, together with the
documented behaviour that proofs rely on; a `Decimal` is its normal form, since
the code only compares decimals and prints them normalized. Text that must be
valid (an `ltree` path, the two corners of a cube) carries its validity.

The wire text, storage encoding and type modifiers that nothing here reads
(OIDs, `typlen`, `udt_name`) are left out.
-/
import Std.Data.ExtTreeMap
import GuardianDb.Lib.FixedDecimal

namespace GuardianDb.Relational

open BinaryFloat

abbrev F64 := Flt binary64

abbrev F32 := Flt binary32

/-- `rust_decimal::Decimal`, up to trailing zeros. -/
abbrev Decimal := FixedDecimal

/-! ### Types and errors -/

/-- A column or expression type. -/
inductive SqlType where
  | boolean
  | smallInt
  | integer
  | bigInt
  | real
  | doublePrecision
  | numeric (precision scale : Option Nat)
  | text
  | varchar (n : Option Nat)
  | char (n : Option Nat)
  | bytea
  | uuid
  | date
  | time
  | timestamp
  | timestamptz
  | json
  | jsonb
  | array (inner : SqlType)
  | citext
  | vector (dims : Option Nat)
  | hstore
  | ltree
  | cube
  | tsVector
  | tsQuery
  | unknown
deriving DecidableEq, Repr

namespace SqlType

/-- The name reported in error messages. -/
def name : SqlType → String
  | .boolean => "boolean"
  | .smallInt => "smallint"
  | .integer => "integer"
  | .bigInt => "bigint"
  | .real => "real"
  | .doublePrecision => "double precision"
  | .numeric (some p) (some s) => s!"numeric({p},{s})"
  | .numeric (some p) none => s!"numeric({p})"
  | .numeric none _ => "numeric"
  | .text => "text"
  | .varchar (some n) => s!"character varying({n})"
  | .varchar none => "character varying"
  | .char (some n) => s!"character({n})"
  | .char none => "character"
  | .bytea => "bytea"
  | .uuid => "uuid"
  | .date => "date"
  | .time => "time without time zone"
  | .timestamp => "timestamp without time zone"
  | .timestamptz => "timestamp with time zone"
  | .json => "json"
  | .jsonb => "jsonb"
  | .array inner => inner.name ++ "[]"
  | .citext => "citext"
  | .vector (some n) => s!"vector({n})"
  | .vector none => "vector"
  | .hstore => "hstore"
  | .ltree => "ltree"
  | .cube => "cube"
  | .tsVector => "tsvector"
  | .tsQuery => "tsquery"
  | .unknown => "unknown"

def isInteger : SqlType → Bool
  | .smallInt | .integer | .bigInt => true
  | _ => false

def isNumeric : SqlType → Bool
  | .smallInt | .integer | .bigInt | .real | .doublePrecision | .numeric .. => true
  | _ => false

end SqlType

/-- The errors of the relational layer that the modelled functions return. -/
inductive RelError where
  | datatypeMismatch (column expected actual : String)
  | invalidTextRepresentation (ty value : String)
  | numericValueOutOfRange (ty : String)
  | divisionByZero
  | cannotCoerce (source target : String)
  | featureNotSupported (what : String)
  | syntaxError (what : String)
  | undefinedTable (name : String)
  | undefinedObject (what : String)
deriving DecidableEq, Repr

/-! ### External crates -/

/-- A type of another crate whose values are ordered and printed. -/
structure Printable where
  Carrier : Type
  cmp : Carrier → Carrier → Ordering
  text : Carrier → String
  cmp_eq_iff : ∀ a b, cmp a b = .eq ↔ a = b
  text_injective : ∀ a b, text a = text b → a = b

/-- `d` is the integer `z`. -/
def Decimal.IsInt (d : Decimal) (z : Int) : Prop :=
  d.scale = 0 ∧ d.coeff = z.natAbs ∧ d.neg = decide (z < 0)

/-- Every character is an ASCII digit, and there is one. -/
def IsDigits (s : String) : Prop := s ≠ "" ∧ ∀ c ∈ s.toList, c.isDigit

/-- The number written by a string of digits. -/
def digitsValue (s : String) : Nat := Nat.ofDigitChars 10 s.toList 0

/-- What the code takes from other crates and from the Unicode tables, with the
documented behaviour the proofs use. -/
structure Crates where
  /-- `Decimal::from_f64`: `None` for what is not finite or out of range. -/
  decimalFromF64 : F64 → Option Decimal
  decimalFromF64_none : ∀ x : Finite binary64, decimalFromF64 (.fin x) = none →
    2 ^ (96 + binary64.unit) ≤ x.mag
  decimalFromF64_zero : ∀ x : Finite binary64, x.mag = 0 →
    decimalFromF64 (.fin x) = some (.ofInt 0 (by decide))
  /-- `Decimal::from_f32`, likewise. -/
  decimalFromF32 : F32 → Option Decimal
  decimalFromF32_none : ∀ x : Finite binary32, decimalFromF32 (.fin x) = none →
    2 ^ (96 + binary32.unit) ≤ x.mag
  decimalFromF32_zero : ∀ x : Finite binary32, x.mag = 0 →
    decimalFromF32 (.fin x) = some (.ofInt 0 (by decide))
  /-- `Decimal::to_f64`: an integer goes to the nearest `f64`. -/
  decimalToF64 : Decimal → Option F64
  decimalToF64_int : ∀ d z, Decimal.IsInt d z → decimalToF64 d = some (.ofInt binary64 z)
  decimalToI64 : Decimal → Option Int64
  /-- `Decimal::from_str`: digits are read exactly, or not at all when the number
  needs more than 96 bits. -/
  decimalFromStr : String → Option Decimal
  decimalFromStr_digits : ∀ s, IsDigits s → ∀ h : digitsValue s < 2 ^ 96,
    decimalFromStr s = some (.ofInt (digitsValue s) h)
  decimalFromStr_overflow : ∀ s, IsDigits s → 2 ^ 96 ≤ digitsValue s → decimalFromStr s = none
  decimalFromScientific : String → Option Decimal
  /-- The arithmetic operators of `Decimal`; `none` is a panic on overflow. -/
  decimalAdd : Decimal → Decimal → Option Decimal
  decimalSub : Decimal → Decimal → Option Decimal
  decimalMul : Decimal → Decimal → Option Decimal
  decimalDiv : Decimal → Decimal → Option Decimal
  decimalRem : Decimal → Decimal → Option Decimal
  /-- `f64::powf`. -/
  powf : F64 → F64 → F64
  uuid : Printable
  date : Printable
  time : Printable
  timestamp : Printable
  timestamptz : Printable
  /-- `NaiveDateTime::and_utc`. -/
  andUtc : timestamp.Carrier → timestamptz.Carrier
  /-- `serde_json::Value` and its `to_string`. -/
  Json : Type
  jsonText : Json → String
  /-- `str::to_lowercase`. -/
  toLowercase : String → String
  /-- `char::is_alphanumeric`. -/
  isAlphanumeric : Char → Bool
  nul_not_alphanumeric : isAlphanumeric (Char.ofNat 0) = false

/-! ### Values -/

/-- One `tsvector` entry. -/
structure TsLexeme where
  word : String
  positions : List UInt16
deriving DecidableEq

/-- A `tsquery` operator tree. -/
inductive TsQueryNode where
  | lexeme (word : String)
  | not (child : TsQueryNode)
  | and (left right : TsQueryNode)
  | or (left right : TsQueryNode)
deriving DecidableEq

/-- Label syntax of `parse_ltree_text`. -/
def ltreeLabelOk (C : Crates) (label : List Char) : Bool :=
  !label.isEmpty && decide (label.length ≤ 255) &&
    label.all fun c => C.isAlphanumeric c || c == '_' || c == '-'

/-- A validated label path; the empty path has no labels. -/
structure Ltree (C : Crates) where
  path : String
  valid : path = "" ∨ ∀ label ∈ path.toList.splitOn '.', ltreeLabelOk C label

/-- A cube: two corners of one dimension, as given on input. -/
structure CubeCorners where
  ll : List F64
  ur : List F64
  same_length : ll.length = ur.length

inductive SqlValue (C : Crates) where
  | null
  | bool (b : Bool)
  | int2 (n : Int16)
  | int4 (n : Int32)
  | int8 (n : Int64)
  | float4 (x : F32)
  | float8 (x : F64)
  | numeric (d : Decimal)
  | text (s : String)
  | bytea (bytes : List UInt8)
  | uuid (u : C.uuid.Carrier)
  | date (d : C.date.Carrier)
  | time (t : C.time.Carrier)
  | timestamp (ts : C.timestamp.Carrier)
  | timestamptz (ts : C.timestamptz.Carrier)
  | json (j : C.Json)
  | array (items : List (SqlValue C))
  | citext (s : String)
  | vector (v : List F32)
  | hstore (map : Std.ExtTreeMap String (Option String))
  | ltree (p : Ltree C)
  | cube (c : CubeCorners)
  | tsVector (v : List TsLexeme)
  | tsQuery (q : Option TsQueryNode)

namespace SqlValue

variable {C : Crates}

def isNull : SqlValue C → Bool
  | .null => true
  | _ => false

/-- The runtime type; an array takes the type of its first element. -/
def typeOf : SqlValue C → SqlType
  | .null => .unknown
  | .bool _ => .boolean
  | .int2 _ => .smallInt
  | .int4 _ => .integer
  | .int8 _ => .bigInt
  | .float4 _ => .real
  | .float8 _ => .doublePrecision
  | .numeric _ => .numeric none none
  | .text _ => .text
  | .bytea _ => .bytea
  | .uuid _ => .uuid
  | .date _ => .date
  | .time _ => .time
  | .timestamp _ => .timestamp
  | .timestamptz _ => .timestamptz
  | .json _ => .jsonb
  | .array [] => .array .text
  | .array (item :: _) => .array item.typeOf
  | .citext _ => .citext
  | .vector v => .vector (some v.length)
  | .hstore _ => .hstore
  | .ltree _ => .ltree
  | .cube _ => .cube
  | .tsVector _ => .tsVector
  | .tsQuery _ => .tsQuery

def asF64 : SqlValue C → Option F64
  | .int2 n => some (.ofInt binary64 n.toInt)
  | .int4 n => some (.ofInt binary64 n.toInt)
  | .int8 n => some (.ofInt binary64 n.toInt)
  | .float4 x => some (x.convert binary64)
  | .float8 x => some x
  | .numeric d => C.decimalToF64 d
  | _ => none

/-- `as i64` from a float: cut off and saturated. -/
def f64ToI64 (x : Flt f) : Int64 := Int64.ofInt (x.toIntSat Int64.minValue.toInt Int64.maxValue.toInt)

def asI64 : SqlValue C → Option Int64
  | .int2 n => some n.toInt64
  | .int4 n => some n.toInt64
  | .int8 n => some n
  | .numeric d => C.decimalToI64 d
  | .float4 x => some (f64ToI64 x)
  | .float8 x => some (f64ToI64 x)
  | _ => none

/-- `Decimal::from` on a machine integer. -/
def decimalOfInt64 (n : Int64) : Decimal :=
  .ofInt n.toInt (by have := n.le_toInt; have := n.toInt_lt; omega)

def asDecimal : SqlValue C → Option Decimal
  | .int2 n => some (decimalOfInt64 n.toInt64)
  | .int4 n => some (decimalOfInt64 n.toInt64)
  | .int8 n => some (decimalOfInt64 n)
  | .numeric d => some d
  | .float4 x => C.decimalFromF32 x
  | .float8 x => C.decimalFromF64 x
  | _ => none

end SqlValue

/-! ### The assumptions are satisfiable -/

def plainPrintable : Printable where
  Carrier := String
  cmp := compare
  text := id
  cmp_eq_iff _ _ := Std.compare_eq_iff_eq
  text_injective _ _ h := h

/-- A float below `2 ^ 96` without its fraction. -/
def plainDecimal {f : Format} : Flt f → Option Decimal
  | .fin x =>
    if h : x.mag < 2 ^ (96 + f.unit) then
      some (.ofInt x.trunc (by
        rw [x.natAbs_trunc, Nat.div_lt_iff_lt_mul (Nat.two_pow_pos _), ← Nat.pow_add]
        exact h))
    else none
  | _ => none

theorem plainDecimal_none {f : Format} (x : Finite f) (h : plainDecimal (.fin x) = none) :
    2 ^ (96 + f.unit) ≤ x.mag := by
  by_contra hlt
  simp only [plainDecimal, dif_pos (Nat.lt_of_not_le hlt), reduceCtorEq] at h

theorem plainDecimal_zero {f : Format} (x : Finite f) (h : x.mag = 0) :
    plainDecimal (.fin x) = some (.ofInt 0 (by decide)) := by
  have htrunc : x.trunc = 0 := by
    rw [← Int.natAbs_eq_zero, x.natAbs_trunc, h, Nat.zero_div]
  unfold plainDecimal
  simp [h, htrunc]

local instance (priority := high) decidableAllChars {l : List Char} {p : Char → Prop}
    [DecidablePred p] : Decidable (∀ c ∈ l, p c) := List.decidableBAll p l

/-- Crates that do the least their documentation promises. -/
def plainCrates : Crates where
  decimalFromF64 := plainDecimal
  decimalFromF64_none := plainDecimal_none
  decimalFromF64_zero := plainDecimal_zero
  decimalFromF32 := plainDecimal
  decimalFromF32_none := plainDecimal_none
  decimalFromF32_zero := plainDecimal_zero
  decimalToF64 d := some (ofDec binary64 d.neg d.coeff 0 d.scale)
  decimalToF64_int d z h := by
    obtain ⟨hscale, hcoeff, hneg⟩ := h
    rw [hscale, hcoeff, hneg, ofDec_integer]
    rfl
  decimalToI64 _ := none
  decimalFromStr s :=
    if h : s ≠ "" ∧ (∀ c ∈ s.toList, c.isDigit) ∧ digitsValue s < 2 ^ 96 then
      some (.ofInt (digitsValue s) h.2.2)
    else none
  decimalFromStr_digits s hs h := dif_pos ⟨hs.1, hs.2, h⟩
  decimalFromStr_overflow s _ h := dif_neg fun hlt => Nat.not_lt_of_le h hlt.2.2
  decimalFromScientific _ := none
  decimalAdd _ _ := none
  decimalSub _ _ := none
  decimalMul _ _ := none
  decimalDiv _ _ := none
  decimalRem _ _ := none
  powf x _ := x
  uuid := plainPrintable
  date := plainPrintable
  time := plainPrintable
  timestamp := plainPrintable
  timestamptz := plainPrintable
  andUtc ts := ts
  Json := String
  jsonText := id
  toLowercase s := String.ofList (s.toList.map Char.toLower)
  isAlphanumeric := Char.isAlphanum
  nul_not_alphanumeric := by decide

end GuardianDb.Relational
