/-
Comparison of values (`SqlValue::compare`), and the equality it decides.

`Equal` spells out, type by type, which values compare equal: most types compare
by identity, `citext` without case, numbers by value, vectors coordinate by
coordinate, cubes as boxes whatever corners they were given by, arrays element by
element with a NULL equal to nothing.

  * `compare_eq_iff` — two values of one type compare equal exactly when they are
    `Equal`.
-/
import GuardianDb.Relational.Written

namespace GuardianDb.Relational

open BinaryFloat List

variable {C : Crates}

/-! ### Comparison -/

/-- A loop that stops at the first comparison other than `Equal`, and then the
comparison of the lengths. -/
def tieBreak (last : Ordering) : List (Option Ordering) → Option Ordering
  | [] => some last
  | some .eq :: rest => tieBreak last rest
  | other :: _ => other

def ltreeLabels (path : String) : List (List Char) :=
  if path = "" then [] else path.toList.splitOn '.'

def labelsCmp (a b : String) : Ordering :=
  List.compareLex compare (ltreeLabels a) (ltreeLabels b)

/-- A coordinate; those missing read as zero. -/
def coord (v : List F64) (i : Nat) : F64 := v.getD i (.ofInt binary64 0)

namespace CubeCorners

def low (c : CubeCorners) (i : Nat) : F64 := (coord c.ll i).min (coord c.ur i)

def high (c : CubeCorners) (i : Nat) : F64 := (coord c.ll i).max (coord c.ur i)

/-- The minimal corners first, then the maximal ones, then the dimension. -/
def cmp (a b : CubeCorners) : Option Ordering :=
  let dims := List.range (max a.ll.length b.ll.length)
  tieBreak (compare a.ll.length b.ll.length)
    (dims.map (fun i => (a.low i).partialCmp (b.low i)) ++
      dims.map fun i => (a.high i).partialCmp (b.high i))

end CubeCorners

def pairCmp (p q : String × Option String) : Ordering :=
  (compare p.1 q.1).then (compare p.2 q.2)

def lexemeCmp (l m : TsLexeme) : Ordering :=
  (compare l.word m.word).then (compare l.positions m.positions)

namespace SqlValue

/-- Numbers of any type: as decimals where both have one, else as `f64`. -/
def compareNumeric (a b : SqlValue C) : Option Ordering :=
  match a.asDecimal, b.asDecimal with
  | some d, some e => some (d.cmp e)
  | _, _ =>
    match a.asF64, b.asF64 with
    | some x, some y => x.partialCmp y
    | _, _ => none

/-- The last resort: textual forms. -/
def compareText (a b : SqlValue C) : Option Ordering :=
  match a.toText, b.toText with
  | some s, some t => some (compare s t)
  | _, _ => none

mutual

/-- `compare`: none if either side is NULL. -/
protected def compare (a b : SqlValue C) : Option Ordering :=
  if a.isNull || b.isNull then none
  else if a.typeOf.isNumeric && b.typeOf.isNumeric then a.compareNumeric b
  else
    match a, b with
    | .bool x, .bool y => some (Ord.compare x y)
    | .text x, .text y => some (Ord.compare x y)
    | .citext x, .citext y => some (Ord.compare (C.toLowercase x) (C.toLowercase y))
    | .citext x, .text y => some (Ord.compare (C.toLowercase x) (C.toLowercase y))
    | .text x, .citext y => some (Ord.compare (C.toLowercase x) (C.toLowercase y))
    | .vector v, .vector w =>
      tieBreak (Ord.compare v.length w.length) (List.zipWith Flt.partialCmp v w)
    | .ltree p, .ltree q => some (labelsCmp p.path q.path)
    | .ltree p, .text t => some (labelsCmp p.path t)
    | .text s, .ltree q => some (labelsCmp s q.path)
    | .cube c, .cube d => c.cmp d
    | .hstore m, .hstore n => some (List.compareLex pairCmp m.toList n.toList)
    | .tsVector v, .tsVector w => some (List.compareLex lexemeCmp v w)
    | .uuid x, .uuid y => some (C.uuid.cmp x y)
    | .bytea x, .bytea y => some (Ord.compare x y)
    | .date x, .date y => some (C.date.cmp x y)
    | .time x, .time y => some (C.time.cmp x y)
    | .timestamp x, .timestamp y => some (C.timestamp.cmp x y)
    | .timestamptz x, .timestamptz y => some (C.timestamptz.cmp x y)
    | .timestamp x, .timestamptz y => some (C.timestamptz.cmp (C.andUtc x) y)
    | .timestamptz x, .timestamp y => some (C.timestamptz.cmp x (C.andUtc y))
    | .json i, .json j => some (Ord.compare (C.jsonText i) (C.jsonText j))
    | .array xs, .array ys => tieBreak (Ord.compare xs.length ys.length) (compareItems xs ys)
    | x, y => x.compareText y

/-- The elements of two arrays in pairs. -/
def compareItems : List (SqlValue C) → List (SqlValue C) → List (Option Ordering)
  | x :: xs, y :: ys => x.compare y :: compareItems xs ys
  | _, _ => []

end

def sqlEq (a b : SqlValue C) : Option Bool := (a.compare b).map (· == .eq)

end SqlValue

/-! ### Equality -/

/-- Floats as the same number: through decimals where both have one. -/
def SameNumber {f : Format} (toDecimal : Flt f → Option Decimal) (x y : Flt f) : Prop :=
  match toDecimal x, toDecimal y with
  | some d, some e => d = e
  | _, _ => x.partialCmp y = some .eq

def SameBox (c d : CubeCorners) : Prop :=
  c.ll.length = d.ll.length ∧ ∀ i < c.ll.length,
    (c.low i).partialCmp (d.low i) = some .eq ∧ (c.high i).partialCmp (d.high i) = some .eq

/-- Scalars that SQL identifies. -/
def Same : SqlValue C → SqlValue C → Prop
  | .null, _ => False
  | .float4 x, .float4 y => SameNumber C.decimalFromF32 x y
  | .float8 x, .float8 y => SameNumber C.decimalFromF64 x y
  | .citext s, .citext t => C.toLowercase s = C.toLowercase t
  | .vector v, .vector w => List.Forall₂ (fun x y => x.partialCmp y = some .eq) v w
  | .cube c, .cube d => SameBox c d
  | .json i, .json j => C.jsonText i = C.jsonText j
  | .tsQuery p, .tsQuery q => formatTsQuery p = formatTsQuery q
  | a, b => a = b

/-- Values of type `ty` that SQL identifies; arrays element by element. -/
def Equal : SqlType → SqlValue C → SqlValue C → Prop
  | .array inner, a, b =>
    match a, b with
    | .array xs, .array ys => List.Forall₂ (Equal inner) xs ys
    | _, _ => False
  | _, a, b => Same a b

theorem equal_of_not_array {ty : SqlType} (h : ∀ inner, ty ≠ .array inner) (a b : SqlValue C) :
    Equal ty a b ↔ Same a b := by
  unfold Equal
  split
  · exact absurd rfl (h _)
  · rfl

/-! ### The loops -/

theorem tieBreak_eq_iff {last : Ordering} {rs : List (Option Ordering)} :
    tieBreak last rs = some .eq ↔ (∀ r ∈ rs, r = some .eq) ∧ last = .eq := by
  induction rs with
  | nil => simp [tieBreak]
  | cons r rs ih =>
    rcases r with _ | _ | _ | _ <;> simp [tieBreak, ih]

theorem forall_zipWith_iff {α β : Type} {f : α → β → Option Ordering} : ∀ {xs : List α} {ys : List β},
    ((∀ r ∈ List.zipWith f xs ys, r = some .eq) ∧ compare xs.length ys.length = .eq) ↔
      List.Forall₂ (fun x y => f x y = some .eq) xs ys
  | [], [] => by simp
  | [], y :: ys => by simp
  | x :: xs, [] => by simp
  | x :: xs, y :: ys => by
      have ih : ((∀ r ∈ List.zipWith f xs ys, r = some .eq) ∧
          compare xs.length ys.length = .eq) ↔
          List.Forall₂ (fun x y => f x y = some .eq) xs ys := forall_zipWith_iff
      rw [Std.compare_eq_iff_eq] at ih ⊢
      rw [forall₂_cons, ← ih]
      simp only [zipWith_cons_cons, forall_mem_cons, length_cons,
        Nat.add_right_cancel_iff, and_assoc]

theorem forall₂_iff_of_mem {α β : Type} {R S : α → β → Prop} : ∀ {xs : List α} {ys : List β},
    (∀ x ∈ xs, ∀ y ∈ ys, R x y ↔ S x y) → (List.Forall₂ R xs ys ↔ List.Forall₂ S xs ys)
  | [], [], _ => by simp
  | [], _ :: _, _ => by simp
  | _ :: _, [], _ => by simp
  | x :: xs, y :: ys, h => by
      rw [forall₂_cons, forall₂_cons, h x (.head _) y (.head _),
        forall₂_iff_of_mem fun x hx y hy => h x (.tail _ hx) y
          (.tail _ hy)]

theorem compareItems_eq_zipWith : ∀ xs ys : List (SqlValue C),
    SqlValue.compareItems xs ys = List.zipWith SqlValue.compare xs ys
  | [], _ => by simp [SqlValue.compareItems]
  | _ :: _, [] => by simp [SqlValue.compareItems]
  | x :: xs, y :: ys => by
      rw [SqlValue.compareItems, zipWith_cons_cons, compareItems_eq_zipWith xs ys]

instance : Std.LawfulEqCmp pairCmp where
  compare_self := by
    intro p
    simp [pairCmp]
  eq_of_compare := by
    rintro ⟨k, v⟩ ⟨l, w⟩ h
    rw [pairCmp, Ordering.then_eq_eq, Std.compare_eq_iff_eq, Std.compare_eq_iff_eq] at h
    obtain ⟨rfl, rfl⟩ := h
    rfl

instance : Std.LawfulEqCmp lexemeCmp where
  compare_self := by
    intro p
    simp [lexemeCmp]
  eq_of_compare := by
    rintro ⟨k, v⟩ ⟨l, w⟩ h
    rw [lexemeCmp, Ordering.then_eq_eq, Std.compare_eq_iff_eq, Std.compare_eq_iff_eq] at h
    obtain ⟨rfl, rfl⟩ := h
    rfl

theorem ltreeLabels_injective {a b : String} (h : ltreeLabels a = ltreeLabels b) : a = b := by
  unfold ltreeLabels at h
  split at h <;> split at h <;> rename_i ha hb
  · rw [ha, hb]
  · exact absurd h.symm (splitOn_ne_nil _ _)
  · exact absurd h (splitOn_ne_nil _ _)
  · apply String.toList_injective
    have hjoin : ['.'].intercalate (a.toList.splitOn '.') = a.toList :=
      intercalate_splitOn '.'
    rw [← hjoin, h, intercalate_splitOn]

theorem labelsCmp_eq_iff {a b : String} : labelsCmp a b = .eq ↔ a = b := by
  unfold labelsCmp
  rw [Std.LawfulEqCmp.compare_eq_iff_eq]
  exact ⟨ltreeLabels_injective, fun h => h ▸ rfl⟩

theorem CubeCorners.cmp_eq_iff {c d : CubeCorners} : c.cmp d = some .eq ↔ SameBox c d := by
  unfold cmp SameBox
  rw [tieBreak_eq_iff, Std.compare_eq_iff_eq]
  constructor
  · rintro ⟨hall, hlen⟩
    refine ⟨hlen, fun i hi => ⟨?_, ?_⟩⟩
    · exact hall _ (mem_append_left _ (mem_map_of_mem (mem_range.mpr (by omega))))
    · exact hall _ (mem_append_right _ (mem_map_of_mem (mem_range.mpr (by omega))))
  · rintro ⟨hlen, hall⟩
    refine ⟨?_, hlen⟩
    intro r hr
    rw [mem_append, mem_map, mem_map] at hr
    rcases hr with ⟨i, hi, rfl⟩ | ⟨i, hi, rfl⟩
    · exact (hall i (by have := mem_range.mp hi; omega)).1
    · exact (hall i (by have := mem_range.mp hi; omega)).2

/-! ### Values that compare equal -/

theorem int16_toInt64_inj {x y : Int16} : x.toInt64 = y.toInt64 ↔ x = y := by
  rw [← Int64.toInt_inj, Int16.toInt_toInt64, Int16.toInt_toInt64, Int16.toInt_inj]

theorem int32_toInt64_inj {x y : Int32} : x.toInt64 = y.toInt64 ↔ x = y := by
  rw [← Int64.toInt_inj, Int32.toInt_toInt64, Int32.toInt_toInt64, Int32.toInt_inj]

theorem decimalOfInt64_injective {m n : Int64}
    (h : SqlValue.decimalOfInt64 m = SqlValue.decimalOfInt64 n) : m = n :=
  Int64.toInt_inj.mp (FixedDecimal.ofInt_injective h)

theorem decimalOfInt64_cmp {m n : Int64} :
    (SqlValue.decimalOfInt64 m).cmp (SqlValue.decimalOfInt64 n) = .eq ↔ m = n := by
  rw [FixedDecimal.cmp_eq_iff]
  exact ⟨decimalOfInt64_injective, fun h => h ▸ rfl⟩

variable {a b : SqlValue C}

/-- Floats compare as numbers: through decimals, or as they are. -/
theorem compareNumeric_float {f : Format} {toDecimal : Flt f → Option Decimal} {x y : Flt f}
    {u v : F64} (ha : a.asDecimal = toDecimal x) (hb : b.asDecimal = toDecimal y)
    (hu : a.asF64 = some u) (hv : b.asF64 = some v)
    (hcmp : u.partialCmp v = some .eq ↔ x.partialCmp y = some .eq) :
    a.compareNumeric b = some .eq ↔ SameNumber toDecimal x y := by
  unfold SqlValue.compareNumeric SameNumber
  rw [ha, hb, hu, hv]
  split
  · rw [Option.some.injEq, FixedDecimal.cmp_eq_iff]
  · exact hcmp

theorem some_eq_iff {α : Type} {o : Ordering} {value : α → SqlValue C} {a b : α}
    (hvalue : value a = value b → a = b) (ho : o = .eq ↔ a = b) :
    some o = some Ordering.eq ↔ value a = value b := by
  rw [Option.some.injEq, ho]
  exact ⟨fun h => h ▸ rfl, hvalue⟩

theorem compare_eq_iff_same {ty : SqlType} (hty : ∀ inner, ty ≠ .array inner)
    (ha : HasType ty a) (hb : HasType ty b) : a.compare b = some .eq ↔ Same a b := by
  cases ha <;> cases hb
  case boolean.boolean => exact some_eq_iff SqlValue.bool.inj Std.compare_eq_iff_eq
  case smallInt.smallInt =>
    exact some_eq_iff SqlValue.int2.inj (decimalOfInt64_cmp.trans int16_toInt64_inj)
  case integer.integer =>
    exact some_eq_iff SqlValue.int4.inj (decimalOfInt64_cmp.trans int32_toInt64_inj)
  case bigInt.bigInt => exact some_eq_iff SqlValue.int8.inj decimalOfInt64_cmp
  case real.real x y =>
    exact compareNumeric_float (a := .float4 (.fin x)) (b := .float4 (.fin y)) rfl rfl rfl rfl
      (Flt.partialCmp_convert (by decide) (by decide) (by decide) x y)
  case doublePrecision.doublePrecision x y =>
    exact compareNumeric_float (a := .float8 (.fin x)) (b := .float8 (.fin y)) rfl rfl rfl rfl
      Iff.rfl
  case numeric.numeric x y => exact some_eq_iff SqlValue.numeric.inj (FixedDecimal.cmp_eq_iff x y)
  case text.text | varchar.varchar | char.char =>
    exact some_eq_iff SqlValue.text.inj Std.compare_eq_iff_eq
  case bytea.bytea => exact some_eq_iff SqlValue.bytea.inj Std.compare_eq_iff_eq
  case uuid.uuid x y => exact some_eq_iff SqlValue.uuid.inj (C.uuid.cmp_eq_iff x y)
  case date.date x y => exact some_eq_iff SqlValue.date.inj (C.date.cmp_eq_iff x y)
  case time.time x y => exact some_eq_iff SqlValue.time.inj (C.time.cmp_eq_iff x y)
  case timestamp.timestamp x y =>
    exact some_eq_iff SqlValue.timestamp.inj (C.timestamp.cmp_eq_iff x y)
  case timestamptz.timestamptz x y =>
    exact some_eq_iff SqlValue.timestamptz.inj (C.timestamptz.cmp_eq_iff x y)
  case json.json | jsonb.jsonb | citext.citext | tsQuery.tsQuery =>
    exact Option.some_inj.trans Std.compare_eq_iff_eq
  case array.array => exact absurd rfl (hty _)
  case vector.vector => exact tieBreak_eq_iff.trans forall_zipWith_iff
  case hstore.hstore =>
    refine some_eq_iff SqlValue.hstore.inj ?_
    rw [Std.LawfulEqCmp.compare_eq_iff_eq, Std.ExtTreeMap.toList_inj]
  case ltree.ltree =>
    refine some_eq_iff SqlValue.ltree.inj (labelsCmp_eq_iff.trans ?_)
    exact ⟨fun h => Ltree.toList_path_injective (h ▸ rfl), fun h => h ▸ rfl⟩
  case cube.cube => exact CubeCorners.cmp_eq_iff
  case tsVector.tsVector =>
    exact some_eq_iff SqlValue.tsVector.inj Std.LawfulEqCmp.compare_eq_iff_eq

theorem compare_array (xs ys : List (SqlValue C)) : SqlValue.compare (.array xs) (.array ys) =
    tieBreak (compare xs.length ys.length) (SqlValue.compareItems xs ys) := by
  cases xs <;> rfl

theorem compare_null_left (b : SqlValue C) : SqlValue.compare .null b = none := by
  cases b <;> rfl

theorem compare_null_right (a : SqlValue C) : a.compare .null = none := by
  cases a <;> rfl

theorem not_same_null_right (a : SqlValue C) : ¬ Same a .null := by
  cases a <;> nofun

theorem not_equal_null_left (ty : SqlType) (b : SqlValue C) : ¬ Equal ty .null b := by
  cases ty <;> exact id

theorem not_equal_null_right (ty : SqlType) (a : SqlValue C) : ¬ Equal ty a .null := by
  cases ty with
  | array inner => cases a <;> exact id
  | _ => exact not_same_null_right a

/-- Elements compare equal exactly when they are `Equal`; a NULL is equal to nothing. -/
theorem compare_eq_iff_of_item (ty : SqlType) : ∀ {a b : SqlValue C}, IsItem ty a → IsItem ty b →
    (a.compare b = some .eq ↔ Equal ty a b) := by
  have hitem : ∀ {ty : SqlType}, (∀ {a b : SqlValue C}, HasType ty a → HasType ty b →
      (a.compare b = some .eq ↔ Equal ty a b)) → ∀ {a b : SqlValue C}, IsItem ty a → IsItem ty b →
        (a.compare b = some .eq ↔ Equal ty a b) := by
    intro ty h a b ha hb
    by_cases hna : a = .null
    · grind [compare_null_left, not_equal_null_left]
    by_cases hnb : b = .null
    · grind [compare_null_right, not_equal_null_right]
    exact h (ha hna) (hb hnb)
  induction ty with
  | array inner ih =>
    apply hitem
    intro a b ha hb
    cases ha with
    | @array _ xs hxs =>
      cases hb with
      | @array _ ys hys =>
        rw [compare_array, tieBreak_eq_iff, compareItems_eq_zipWith, forall_zipWith_iff]
        exact forall₂_iff_of_mem fun x hx y hy => ih (hxs x hx) (hys y hy)
  | _ => exact hitem (compare_eq_iff_same (by rintro _ ⟨⟩))

/-- **Comparison decides SQL equality.** -/
theorem compare_eq_iff {ty : SqlType} (ha : HasType ty a) (hb : HasType ty b) :
    a.compare b = some .eq ↔ Equal ty a b :=
  compare_eq_iff_of_item ty (fun _ => ha) (fun _ => hb)

end GuardianDb.Relational
