/-
Index keys (`SqlValue::index_key`) against SQL equality.

Unique indexes, foreign keys, grouping and set operations identify values by
their index key; `compare` decides SQL equality. The two agree for every scalar
type except vectors and cubes, which print the sign of a zero and the corners as
given, and they agree for arrays unless an element is NULL or the elements have
several spellings.

  * `indexKey_iff_compare_iff` — for every type, when equal keys are equal values.
  * `swapped_corners` — one box under two keys.
-/
import GuardianDb.Relational.Compare

namespace GuardianDb.Relational

open BinaryFloat List

variable {C : Crates}

/-! ### Keys -/

/-- `Display` of an `f64`. -/
def floatDisplay : F64 → List Char
  | .nan => "NaN".toList
  | .inf neg => if neg then "-inf".toList else "inf".toList
  | .fin x => display x

/-- The key of a number: its normalized decimal, or the `f64` without one. -/
def SqlValue.numberKey (v : SqlValue C) : List Char :=
  match v.asDecimal with
  | some d => d.text
  | none => floatDisplay (v.asF64.getD .nan)

def SqlValue.indexKey : SqlValue C → List Char
  | .null => Char.ofNat 0 :: "null".toList
  | .text s => 's' :: ':' :: s.toList
  | .citext s => 's' :: ':' :: (C.toLowercase s).toList
  | .bool b => 'b' :: ':' :: (if b then "true" else "false").toList
  | .uuid u => 'u' :: ':' :: (C.uuid.text u).toList
  | .ltree p => 'l' :: ':' :: replaceChar '.' [Char.ofNat 0] p.path.toList
  | v =>
    if v.typeOf.isNumeric then 'n' :: ':' :: v.numberKey
    else 'x' :: ':' :: v.toText.getD []

/-! ### Keys of label paths -/

variable {c : Char} {sep : Char}

theorem mem_intercalate : ∀ {ws : List (List Char)},
    c ∈ [sep].intercalate ws → c = sep ∨ ∃ w ∈ ws, c ∈ w
  | [], h => by cases h
  | [w], h => by
      rw [intercalate_singleton] at h
      exact .inr ⟨w, mem_singleton_self w, h⟩
  | w :: v :: ws, h => by
      rw [intercalate_cons_cons, mem_append, mem_append] at h
      rcases h with (h | h) | h
      · exact .inr ⟨w, .head _, h⟩
      · exact .inl (mem_singleton.mp h)
      · rcases mem_intercalate h with h | ⟨u, hu, h⟩
        · exact .inl h
        · exact .inr ⟨u, .tail _ hu, h⟩

/-- The characters of a label path. -/
theorem Ltree.char_of_mem (p : Ltree C) (h : c ∈ p.path.toList) :
    C.isAlphanumeric c = true ∨ c = '_' ∨ c = '-' ∨ c = '.' := by
  rcases p.valid with hempty | hlabels
  · rw [hempty] at h
    cases h
  · have hjoin : ['.'].intercalate (p.path.toList.splitOn '.') = p.path.toList :=
      intercalate_splitOn '.'
    rw [← hjoin] at h
    rcases mem_intercalate h with h | ⟨label, hlabel, hmem⟩
    · exact .inr (.inr (.inr h))
    · have hok := hlabels label hlabel
      simp only [ltreeLabelOk, Bool.and_eq_true, all_eq_true, Bool.or_eq_true,
        beq_iff_eq] at hok
      rcases hok.2 _ hmem with (h | h) | h
      · exact .inl h
      · exact .inr (.inl h)
      · exact .inr (.inr (.inl h))

theorem nul_not_mem_path (p : Ltree C) : Char.ofNat 0 ∉ p.path.toList := by
  intro hmem
  rcases p.char_of_mem hmem with h | h
  · rw [C.nul_not_alphanumeric] at h
    cases h
  · revert h
    decide

theorem replaceChar_injective {rep : Char} : ∀ {s t : List Char}, rep ∉ s → rep ∉ t →
    replaceChar sep [rep] s = replaceChar sep [rep] t → s = t
  | [], [], _, _, _ => rfl
  | [], d :: t, _, _, h => by
      simp only [replaceChar, flatMap_nil, flatMap_cons] at h
      split at h <;> cases h
  | c :: s, [], _, _, h => by
      simp only [replaceChar, flatMap_nil, flatMap_cons] at h
      split at h <;> cases h
  | c :: s, d :: t, hs, ht, h => by
      simp only [mem_cons, not_or] at hs ht
      have hhead : c = d ∧ replaceChar sep [rep] s = replaceChar sep [rep] t := by
        grind [replaceChar]
      rw [hhead.1, replaceChar_injective hs.2 ht.2 hhead.2]

/-! ### Keys of numbers -/

variable {f : Format}

/-- Finite numbers of one value are one number, zeros apart. -/
theorem eq_of_units_eq {x y : Finite f} (hpos : 0 < x.mag) (h : x.units = y.units) : x = y := by
  unfold Finite.units at h
  cases hx : x.neg <;> cases hy : y.neg <;> simp only [hx, hy, Bool.false_eq_true, if_true,
    if_false] at h
  · exact Finite.ext (hx.trans hy.symm) (by omega)
  · omega
  · omega
  · exact Finite.ext (hx.trans hy.symm) (by omega)

variable {a b : SqlValue C} {toDecimal : Flt f → Option Decimal}

/-- **Floats.** The key identifies the numbers that compare equal: those without a
decimal are large, and print like no decimal. -/
theorem numberKey_float {x y : Finite f}
    {u v : Finite binary64} (ha : a.asDecimal = toDecimal (.fin x))
    (hb : b.asDecimal = toDecimal (.fin y)) (hu : a.asF64 = some (.fin u))
    (hv : b.asF64 = some (.fin v)) (huv : u = v ↔ x = y)
    (hx : toDecimal (.fin x) = none → 0 < x.mag ∧ 2 ^ (96 + binary64.unit) ≤ u.mag)
    (hy : toDecimal (.fin y) = none → 0 < y.mag ∧ 2 ^ (96 + binary64.unit) ≤ v.mag) :
    a.numberKey = b.numberKey ↔ SameNumber toDecimal (.fin x) (.fin y) := by
  unfold SqlValue.numberKey SameNumber
  rw [ha, hb, hu, hv, Flt.partialCmp_fin]
  cases hdx : toDecimal (.fin x) with
  | some d =>
    cases hdy : toDecimal (.fin y) with
    | some e => exact ⟨FixedDecimal.text_injective, fun h => h ▸ rfl⟩
    | none =>
      refine ⟨fun h => absurd h.symm (FixedDecimal.display_ne_text (hy hdy).2 d), fun h => ?_⟩
      rw [eq_of_units_eq (hy hdy).1 h.symm, hdx] at hdy
      cases hdy
  | none =>
    cases hdy : toDecimal (.fin y) with
    | some e =>
      refine ⟨fun h => absurd h (FixedDecimal.display_ne_text (hx hdx).2 e), fun h => ?_⟩
      rw [eq_of_units_eq (hx hdx).1 h, hdy] at hdx
      cases hdx
    | none =>
      constructor
      · intro h
        rw [huv.mp (display_injective h)]
      · intro h
        rw [huv.mpr (eq_of_units_eq (hx hdx).1 h)]

theorem le_mag_widen {u v m : Nat} (huv : u ≤ v) (h : 2 ^ (96 + u) ≤ m) :
    2 ^ (96 + v) ≤ m * 2 ^ (v - u) := by
  calc 2 ^ (96 + v) = 2 ^ (96 + u) * 2 ^ (v - u) := by
        rw [← Nat.pow_add]
        congr 1
        omega
    _ ≤ m * 2 ^ (v - u) := Nat.mul_le_mul_right _ h

theorem numberKey_float8 (x y : Finite binary64) :
    SqlValue.numberKey (C := C) (.float8 (.fin x)) = SqlValue.numberKey (C := C) (.float8 (.fin y)) ↔
      SameNumber C.decimalFromF64 (.fin x) (.fin y) := by
  have hbig : ∀ x : Finite binary64, C.decimalFromF64 (.fin x) = none →
      0 < x.mag ∧ 2 ^ (96 + binary64.unit) ≤ x.mag := by
    intro x hx
    have hle := C.decimalFromF64_none x hx
    exact ⟨Nat.lt_of_lt_of_le (Nat.two_pow_pos _) hle, hle⟩
  exact numberKey_float rfl rfl rfl rfl Iff.rfl (hbig x) (hbig y)

theorem numberKey_float4 (x y : Finite binary32) :
    SqlValue.numberKey (C := C) (.float4 (.fin x)) = SqlValue.numberKey (C := C) (.float4 (.fin y)) ↔
      SameNumber C.decimalFromF32 (.fin x) (.fin y) := by
  obtain ⟨u, hu, huneg, humag⟩ := Flt.convert_widen (g := binary64) (by decide) (by decide)
    (by decide) x
  obtain ⟨v, hv, hvneg, hvmag⟩ := Flt.convert_widen (g := binary64) (by decide) (by decide)
    (by decide) y
  have hbig : ∀ {x : Finite binary32} {u : Finite binary64},
      u.mag = x.mag * 2 ^ (binary64.unit - binary32.unit) → C.decimalFromF32 (.fin x) = none →
      0 < x.mag ∧ 2 ^ (96 + binary64.unit) ≤ u.mag := by
    intro x u humag hx
    have hle := C.decimalFromF32_none x hx
    rw [humag]
    exact ⟨Nat.lt_of_lt_of_le (Nat.two_pow_pos _) hle, le_mag_widen (by decide) hle⟩
  refine numberKey_float rfl rfl (congrArg some hu) (congrArg some hv) ?_ (hbig humag) (hbig hvmag)
  constructor
  · intro h
    apply Flt.convert_injOn (g := binary64) (by decide) (by decide) (by decide)
    rw [hu, hv, h]
  · grind

/-! ### Keys of scalars -/

/-- Types whose key is the text output. -/
def keyIsText : SqlType → Bool
  | .bytea | .date | .time | .timestamp | .timestamptz | .json | .jsonb | .array _ | .vector _
  | .hstore | .cube | .tsVector | .tsQuery => true
  | _ => false

variable {ty : SqlType}

theorem indexKey_of_keyIsText (hty : keyIsText ty = true) (ha : HasType ty a) :
    a.indexKey = 'x' :: ':' :: a.toText.getD [] := by
  cases ha with
  | @array _ items _ => cases items <;> rfl
  | boolean _ => cases hty
  | smallInt _ => cases hty
  | integer _ => cases hty
  | bigInt _ => cases hty
  | real _ => cases hty
  | doublePrecision _ => cases hty
  | numeric _ _ _ => cases hty
  | text _ => cases hty
  | varchar _ _ => cases hty
  | char _ _ => cases hty
  | uuid _ => cases hty
  | citext _ => cases hty
  | ltree _ => cases hty
  | _ => rfl

theorem indexKey_eq_iff_written (hty : keyIsText ty = true) (ha : HasType ty a) (hb : HasType ty b)
    : a.indexKey = b.indexKey ↔ Written ty a b := by
  obtain ⟨s, hs⟩ := exists_toText ha
  obtain ⟨t, ht⟩ := exists_toText hb
  rw [indexKey_of_keyIsText hty ha, indexKey_of_keyIsText hty hb, ← toText_eq_iff ha hb, hs, ht]
  simp

variable {d : Char}

theorem tagged_iff (s t : List Char) : c :: d :: s = c :: d :: t ↔ s = t := by
  simp

/-- A value is determined by its key when what it carries is. -/
theorem key_iff {α : Type} {key : α → List Char} {value : α → SqlValue C}
    (hvalue : ∀ {a b}, value a = value b → a = b) (hkey : ∀ {a b}, key a = key b → a = b) (a b : α)
    : c :: d :: key a = c :: d :: key b ↔ value a = value b := by
  rw [tagged_iff]
  exact ⟨fun h => by rw [hkey h], fun h => by rw [hvalue h]⟩

theorem indexKey_eq_iff_same (hty : keyIsText ty = false) (ha : HasType ty a) (hb : HasType ty b) :
    a.indexKey = b.indexKey ↔ Same a b := by
  cases ha <;> cases hb
  case boolean.boolean x y => cases x <;> cases y <;> simp [SqlValue.indexKey, Same]
  case smallInt.smallInt x y =>
    exact key_iff SqlValue.int2.inj (fun h => int16_toInt64_inj.mp
      (decimalOfInt64_injective (FixedDecimal.text_injective h))) x y
  case integer.integer x y =>
    exact key_iff SqlValue.int4.inj (fun h => int32_toInt64_inj.mp
      (decimalOfInt64_injective (FixedDecimal.text_injective h))) x y
  case bigInt.bigInt x y =>
    exact key_iff SqlValue.int8.inj
      (fun h => decimalOfInt64_injective (FixedDecimal.text_injective h)) x y
  case real.real x y => exact (tagged_iff _ _).trans (numberKey_float4 x y)
  case doublePrecision.doublePrecision x y => exact (tagged_iff _ _).trans (numberKey_float8 x y)
  case numeric.numeric x y => exact key_iff SqlValue.numeric.inj FixedDecimal.text_injective x y
  case text.text x y | varchar.varchar x y | char.char x y =>
    exact key_iff SqlValue.text.inj (fun h => String.toList_injective h) x y
  case uuid.uuid x y => exact key_iff SqlValue.uuid.inj C.uuid.toList_text_injective x y
  case citext.citext => exact (tagged_iff _ _).trans String.toList_inj
  case ltree.ltree x y =>
    exact key_iff SqlValue.ltree.inj (fun h => Ltree.toList_path_injective
      (replaceChar_injective (nul_not_mem_path _) (nul_not_mem_path _) h)) x y
  all_goals cases hty

/-! ### Keys against equality -/

/-- No element is NULL, at any depth. -/
def NullFree : SqlType → SqlValue C → Prop
  | .array inner, .array items => ∀ item ∈ items, item ≠ .null ∧ NullFree inner item
  | _, _ => True

theorem exists_of_forall₂ {α β : Type} {R : α → β → Prop} {xs : List α} {ys : List β}
    (h : List.Forall₂ R xs ys) {x : α} (hx : x ∈ xs) : ∃ y, R x y := by
  induction h with
  | nil => cases hx
  | cons hxy _ ih => grind

theorem nullFree_of_equal (ty : SqlType) : ∀ {a b : SqlValue C}, Equal ty a b → NullFree ty a := by
  induction ty with
  | array inner ih =>
    intro a b h
    cases a with
    | array xs =>
      cases b with
      | array ys =>
        intro x hx
        obtain ⟨y, hxy⟩ := exists_of_forall₂ h hx
        refine ⟨?_, ih hxy⟩
        rintro rfl
        exact not_equal_null_left inner y hxy
      | _ => cases h
    | _ => trivial
  | _ => exact fun _ => trivial

/-! ### Boxes -/

variable {v : List F64} {i : Nat}

theorem coord_eq (hi : i < v.length) : coord v i = v[i] := by
  rw [coord, getD_eq_getElem?_getD, List.getElem?_eq_getElem hi, Option.getD_some]

theorem coord_fin (hv : ∀ x ∈ v, x.isFinite) (hi : i < v.length) : ∃ x, coord v i = .fin x := by
  have hfinite := hv _ (getElem_mem hi)
  rw [coord_eq hi]
  exact Flt.exists_fin hfinite

theorem coord_of_floatsEq {w : List F64} (h : floatsEq v w = true) (hi : i < v.length) :
    (coord v i).partialCmp (coord w i) = some .eq := by
  unfold floatsEq at h
  rw [Bool.and_eq_true, beq_iff_eq, all_eq_true] at h
  have hmem : (v[i], w[i]) ∈ v.zip w := by
    have hlen : i < (v.zip w).length := by
      rw [length_zip]
      omega
    rw [← getElem_zip (h := hlen)]
    exact getElem_mem hlen
  rw [coord_eq hi, coord_eq (h.1 ▸ hi)]
  exact beq_iff_eq.mp (h.2 _ hmem)

/-- The box of a cube whose corners coincide is the corner. -/
theorem low_high_of_point {c : CubeCorners} (hcl : ∀ x ∈ c.ll, x.isFinite)
    (hcu : ∀ x ∈ c.ur, x.isFinite) (hpoint : floatsEq c.ll c.ur = true) (hi : i < c.ll.length) :
    ∃ x y z : Finite binary64, coord c.ll i = .fin x ∧
      c.low i = .fin y ∧ y.units = x.units ∧ c.high i = .fin z ∧ z.units = x.units := by
  obtain ⟨x, hx⟩ := coord_fin hcl hi
  obtain ⟨w, hw⟩ := coord_fin hcu (c.same_length ▸ hi)
  have hsame := coord_of_floatsEq hpoint hi
  rw [hx, hw, Flt.partialCmp_fin] at hsame
  obtain ⟨y, hy, hyunits⟩ := Flt.min_fin x w
  obtain ⟨z, hz, hzunits⟩ := Flt.max_fin x w
  refine ⟨x, y, z, hx, ?_, by omega, ?_, by omega⟩
  · rw [CubeCorners.low, hx, hw, hy]
  · rw [CubeCorners.high, hx, hw, hz]

theorem partialCmp_self_fin (x : Finite f) : Flt.partialCmp (.fin x) (.fin x) = some .eq := by
  rw [Flt.partialCmp_fin]

/-- Two cubes written alike are one box. -/
theorem sameBox_of_alike {c d : CubeCorners} (hcl : ∀ x ∈ c.ll, x.isFinite)
    (hcu : ∀ x ∈ c.ur, x.isFinite) (hdl : ∀ x ∈ d.ll, x.isFinite) (hdu : ∀ x ∈ d.ur, x.isFinite)
    (h : Alike (C := C) (.cube c) (.cube d)) : SameBox c d := by
  obtain ⟨hll, hpoint, hur⟩ := h
  refine ⟨by rw [hll], ?_⟩
  intro i hi
  cases hflag : floatsEq c.ll c.ur with
  | false =>
    have hcd : c = d := by
      cases c
      cases d
      cases hll
      cases hur hflag
      rfl
    subst hcd
    obtain ⟨x, hx⟩ := coord_fin hcl hi
    obtain ⟨w, hw⟩ := coord_fin hcu (c.same_length ▸ hi)
    obtain ⟨y, hy, -⟩ := Flt.min_fin x w
    obtain ⟨z, hz, -⟩ := Flt.max_fin x w
    rw [CubeCorners.low, CubeCorners.high, hx, hw, hy, hz]
    exact ⟨partialCmp_self_fin y, partialCmp_self_fin z⟩
  | true => grind [low_high_of_point, Flt.partialCmp_fin]

theorem sameNumber_self (x : Finite f) :
    SameNumber toDecimal (.fin x) (.fin x) := by
  unfold SameNumber
  cases toDecimal (.fin x) with
  | some d => rfl
  | none => exact partialCmp_self_fin x

theorem same_of_alike (hty : ∀ inner, ty ≠ .array inner) (ha : HasType ty a) (hb : HasType ty b)
    (h : Alike a b) : Same a b := by
  cases ha with
  | array _ => exact absurd rfl (hty _)
  | real x =>
    cases hb
    cases h
    exact sameNumber_self x
  | doublePrecision x =>
    cases hb
    cases h
    exact sameNumber_self x
  | citext s =>
    cases hb
    cases h
    rfl
  | @vector _ v _ hv =>
    cases hb
    cases h
    apply forall₂_same.mpr
    intro x hx
    obtain ⟨x, rfl⟩ := Flt.exists_fin (hv _ hx)
    exact partialCmp_self_fin x
  | cube hcl hcu =>
    cases hb with
    | cube hdl hdu => exact sameBox_of_alike hcl hcu hdl hdu h
  | _ =>
    cases hb
    exact h

/-- Values written alike without a NULL are equal. -/
theorem equal_of_written (ty : SqlType) : ∀ {a b : SqlValue C}, HasType ty a → HasType ty b →
    NullFree ty a → Written ty a b → Equal ty a b := by
  have hscalar : ∀ {ty : SqlType}, (∀ inner, ty ≠ .array inner) → ∀ {a b : SqlValue C},
      HasType ty a → HasType ty b → Written ty a b → Equal ty a b := by
    grind [written_of_not_array, equal_of_not_array, same_of_alike]
  induction ty with
  | array inner ih =>
    intro a b ha hb hnull h
    cases ha with
    | @array _ xs hxs =>
      cases hb with
      | @array _ ys hys =>
        induction h with
        | nil => exact .nil
        | @cons x y xs ys hxy _ ih' =>
          obtain ⟨hx, hfree⟩ := hnull x (.head _)
          have hy : y ≠ .null := by
            rintro rfl
            exact hx (written_null_right hxy)
          refine .cons (ih (hxs x (.head _) hx) (hys y (.head _) hy)
            hfree hxy) (ih' ?_ ?_ ?_)
          · exact fun x hx => hxs x (.tail _ hx)
          · exact fun x hx => hnull x (.tail _ hx)
          · exact fun y hy => hys y (.tail _ hy)
  | _ => exact fun ha hb _ => hscalar (by rintro _ ⟨⟩) ha hb

/-- When keys agree with equality: always, except that vectors and cubes that are
equal must be written alike, and that arrays written alike must hold no NULL and
arrays that are equal must be written alike. -/
def KeyAgrees : SqlType → SqlValue C → SqlValue C → Prop
  | .vector dims, a, b => Equal (.vector dims) a b → Written (.vector dims) a b
  | .cube, a, b => Equal .cube a b → Written .cube a b
  | .array inner, a, b => (Written (.array inner) a b → NullFree (.array inner) a) ∧
      (Equal (.array inner) a b → Written (.array inner) a b)
  | _, _, _ => True

/-- Scalar types other than vectors and cubes have one key per value. -/
theorem indexKey_eq_iff_equal (harray : ∀ inner, ty ≠ .array inner)
    (hvector : ∀ dims, ty ≠ .vector dims) (hcube : ty ≠ .cube) (ha : HasType ty a)
    (hb : HasType ty b) : a.indexKey = b.indexKey ↔ Equal ty a b := by
  rw [equal_of_not_array harray]
  cases hkey : keyIsText ty with
  | false => exact indexKey_eq_iff_same hkey ha hb
  | true =>
    rw [indexKey_eq_iff_written hkey ha hb, written_of_not_array harray]
    cases ha with
    | array _ => exact absurd rfl (harray _)
    | vector _ _ => exact absurd rfl (hvector _)
    | cube _ _ => exact absurd rfl hcube
    | real | doublePrecision | citext => cases hkey
    | _ =>
      cases hb
      exact Iff.rfl

/-- **Keys against equality.** Two values of one type have the same index key
exactly when they compare equal, if and only if the type has one spelling per
value or these values do. -/
theorem indexKey_iff_compare_iff {ty : SqlType} {a b : SqlValue C} (ha : HasType ty a)
    (hb : HasType ty b) :
    (a.indexKey = b.indexKey ↔ a.compare b = some .eq) ↔ KeyAgrees ty a b := by
  rw [compare_eq_iff ha hb]
  cases ty with
  | vector | cube =>
    rw [indexKey_eq_iff_written rfl ha hb]
    exact ⟨fun h => h.mpr, fun h => ⟨equal_of_written _ ha hb trivial, h⟩⟩
  | array inner =>
    rw [indexKey_eq_iff_written rfl ha hb]
    constructor
    · intro h
      exact ⟨fun hw => nullFree_of_equal _ (h.mp hw), h.mpr⟩
    · rintro ⟨hfree, halike⟩
      exact ⟨fun hw => equal_of_written _ ha hb (hfree hw) hw, halike⟩
  | _ =>
    refine ⟨fun _ => trivial, fun _ => indexKey_eq_iff_equal ?_ ?_ ?_ ha hb⟩ <;> rintro ⟨⟩ <;>
      nofun

theorem indexKey_iff_compare_citext :
    ((SqlValue.citext "Ab" : SqlValue plainCrates).indexKey =
        (SqlValue.citext "aB" : SqlValue plainCrates).indexKey ↔
      (SqlValue.citext "Ab" : SqlValue plainCrates).compare (.citext "aB") = some .eq) :=
  (indexKey_iff_compare_iff (HasType.citext "Ab") (HasType.citext "aB")).mpr trivial

/-- The cube from `x` to `y` in one dimension. -/
def interval (x y : F64) : CubeCorners := ⟨[x], [y], rfl⟩

theorem hasType_interval {x y : F64} (hx : x.isFinite) (hy : y.isFinite) :
    HasType (C := C) .cube (.cube (interval x y)) := by
  refine .cube ?_ ?_ <;> intro z hz
  · rwa [mem_singleton.mp hz]
  · rwa [mem_singleton.mp hz]

/-- The cubes `(0),(1)` and `(1),(0)`. -/
def upward : CubeCorners := interval (.ofInt binary64 0) (.ofInt binary64 1)

def downward : CubeCorners := interval (.ofInt binary64 1) (.ofInt binary64 0)

theorem hasType_upward : HasType (C := C) .cube (.cube upward) :=
  hasType_interval (by decide +kernel) (by decide +kernel)

theorem hasType_downward : HasType (C := C) .cube (.cube downward) :=
  hasType_interval (by decide +kernel) (by decide +kernel)

theorem indexKey_upward_ne : (SqlValue.cube upward : SqlValue C).indexKey ≠
    (SqlValue.cube downward : SqlValue C).indexKey := by
  intro h
  have hll := ((indexKey_eq_iff_written rfl hasType_upward hasType_downward).mp h).1
  revert hll
  decide +kernel

/-- **One box, two keys.** Cubes compare as boxes and are keyed by their corners:
`(0),(1)` and `(1),(0)`. -/
theorem swapped_corners : ¬ ∀ (C : Crates) (ty : SqlType) (a b : SqlValue C), HasType ty a →
    HasType ty b → (a.indexKey = b.indexKey ↔ a.compare b = some .eq) := by
  intro h
  have hiff := h plainCrates .cube _ _ hasType_upward hasType_downward
  exact indexKey_upward_ne (hiff.mpr (by decide +kernel))

end GuardianDb.Relational
