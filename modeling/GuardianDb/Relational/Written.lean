/-
What the text of a value tells about it.

The composite formats are self-delimiting, so the text of an array determines
its elements and their texts. Two values of one type have the same text exactly
when they are `Written` alike: they are the same value, except that documents and
queries are compared by their text and that the second corner of a cube is not
printed when it coincides with the first.

  * `HasType` — the values a column of a type holds, floats being finite.
  * `toText_eq_iff` — equal texts are values written alike.
-/
import GuardianDb.Relational.Text

namespace GuardianDb.Relational

open BinaryFloat Delimited List

variable {C : Crates}

/-! ### Values of a type -/

/-- `v` is a value of type `ty` other than NULL; an array may hold NULL elements. -/
inductive HasType : SqlType → SqlValue C → Prop
  | boolean (b : Bool) : HasType .boolean (.bool b)
  | smallInt (n : Int16) : HasType .smallInt (.int2 n)
  | integer (n : Int32) : HasType .integer (.int4 n)
  | bigInt (n : Int64) : HasType .bigInt (.int8 n)
  | real (x : Finite binary32) : HasType .real (.float4 (.fin x))
  | doublePrecision (x : Finite binary64) : HasType .doublePrecision (.float8 (.fin x))
  | numeric (precision scale : Option Nat) (d : Decimal) :
      HasType (.numeric precision scale) (.numeric d)
  | text (s : String) : HasType .text (.text s)
  | varchar (n : Option Nat) (s : String) : HasType (.varchar n) (.text s)
  | char (n : Option Nat) (s : String) : HasType (.char n) (.text s)
  | bytea (bytes : List UInt8) : HasType .bytea (.bytea bytes)
  | uuid (u : C.uuid.Carrier) : HasType .uuid (.uuid u)
  | date (d : C.date.Carrier) : HasType .date (.date d)
  | time (t : C.time.Carrier) : HasType .time (.time t)
  | timestamp (ts : C.timestamp.Carrier) : HasType .timestamp (.timestamp ts)
  | timestamptz (ts : C.timestamptz.Carrier) : HasType .timestamptz (.timestamptz ts)
  | json (j : C.Json) : HasType .json (.json j)
  | jsonb (j : C.Json) : HasType .jsonb (.json j)
  | array {inner : SqlType} {items : List (SqlValue C)}
      (h : ∀ item ∈ items, item ≠ .null → HasType inner item) :
      HasType (.array inner) (.array items)
  | citext (s : String) : HasType .citext (.citext s)
  | vector {dims : Option Nat} {v : List F32} (hdims : ∀ n ∈ dims, v.length = n)
      (h : ∀ x ∈ v, x.isFinite) : HasType (.vector dims) (.vector v)
  | hstore (map : Std.ExtTreeMap String (Option String)) : HasType .hstore (.hstore map)
  | ltree (p : Ltree C) : HasType .ltree (.ltree p)
  | cube {c : CubeCorners} (hll : ∀ x ∈ c.ll, x.isFinite) (hur : ∀ x ∈ c.ur, x.isFinite) :
      HasType .cube (.cube c)
  | tsVector (v : List TsLexeme) : HasType .tsVector (.tsVector v)
  | tsQuery (q : Option TsQueryNode) : HasType .tsQuery (.tsQuery q)

/-- An element of an array of `ty`. -/
def IsItem (ty : SqlType) (v : SqlValue C) : Prop := v ≠ .null → HasType ty v

/-! ### Written alike -/

/-- Scalars written alike. -/
def Alike : SqlValue C → SqlValue C → Prop
  | .json i, .json j => C.jsonText i = C.jsonText j
  | .tsQuery p, .tsQuery q => formatTsQuery p = formatTsQuery q
  | .cube c, .cube d => c.ll = d.ll ∧ floatsEq c.ll c.ur = floatsEq d.ll d.ur ∧
      (floatsEq c.ll c.ur = false → c.ur = d.ur)
  | a, b => a = b

/-- Values of type `ty` written alike; arrays element by element. -/
def Written : SqlType → SqlValue C → SqlValue C → Prop
  | .array inner, a, b =>
    match a, b with
    | .array xs, .array ys => List.Forall₂ (Written inner) xs ys
    | a, b => a = b
  | _, a, b => Alike a b

variable {ty : SqlType}

theorem written_of_not_array (h : ∀ inner, ty ≠ .array inner) (a b : SqlValue C) :
    Written ty a b ↔ Alike a b := by
  unfold Written
  split
  · exact absurd rfl (h _)
  · rfl

/-- A value is determined by its text when what it carries is. -/
theorem text_iff {α : Type} {text : α → List Char} {value : α → SqlValue C}
    (hvalue : ∀ {a b}, value a = value b → a = b) (htext : ∀ {a b}, text a = text b → a = b)
    (a b : α) : some (text a) = some (text b) ↔ value a = value b := by
  constructor
  · intro h
    rw [htext (Option.some.inj h)]
  · intro h
    rw [hvalue h]

theorem Printable.toList_text_injective (P : Printable) {a b : P.Carrier}
    (h : (P.text a).toList = (P.text b).toList) : a = b :=
  P.text_injective a b (String.toList_injective h)

theorem Ltree.toList_path_injective {p q : Ltree C} (h : p.path.toList = q.path.toList) :
    p = q := by
  cases p
  cases q
  cases String.toList_injective h
  rfl

variable {a b : SqlValue C}

theorem toText_eq_iff_alike (hty : ∀ inner, ty ≠ .array inner) (ha : HasType ty a)
    (hb : HasType ty b) : a.toText = b.toText ↔ Alike a b := by
  cases ha <;> cases hb
  case boolean.boolean x y => cases x <;> cases y <;> simp [SqlValue.toText, Alike]
  case smallInt.smallInt x y =>
    exact text_iff SqlValue.int2.inj (fun h => Int16.toInt_inj.mp (intText_injective h)) x y
  case integer.integer x y =>
    exact text_iff SqlValue.int4.inj (fun h => Int32.toInt_inj.mp (intText_injective h)) x y
  case bigInt.bigInt x y =>
    exact text_iff SqlValue.int8.inj (fun h => Int64.toInt_inj.mp (intText_injective h)) x y
  case real.real x y =>
    exact text_iff (fun h => Flt.fin.inj (SqlValue.float4.inj h)) display_injective x y
  case doublePrecision.doublePrecision x y =>
    exact text_iff (fun h => Flt.fin.inj (SqlValue.float8.inj h)) display_injective x y
  case numeric.numeric x y => exact text_iff SqlValue.numeric.inj FixedDecimal.text_injective x y
  case text.text x y | varchar.varchar x y | char.char x y =>
    exact text_iff SqlValue.text.inj (fun h => String.toList_injective h) x y
  case bytea.bytea x y =>
    exact text_iff SqlValue.bytea.inj
      (fun h => hexEncode_injective (List.cons.inj (List.cons.inj h).2).2) x y
  case uuid.uuid x y => exact text_iff SqlValue.uuid.inj (C.uuid.toList_text_injective) x y
  case date.date x y => exact text_iff SqlValue.date.inj (C.date.toList_text_injective) x y
  case time.time x y => exact text_iff SqlValue.time.inj (C.time.toList_text_injective) x y
  case timestamp.timestamp x y =>
    exact text_iff SqlValue.timestamp.inj (C.timestamp.toList_text_injective) x y
  case timestamptz.timestamptz x y =>
    exact text_iff SqlValue.timestamptz.inj (C.timestamptz.toList_text_injective) x y
  case json.json | jsonb.jsonb => exact Option.some_inj.trans String.toList_inj
  case array.array => exact absurd rfl (hty _)
  case citext.citext x y =>
    exact text_iff SqlValue.citext.inj (fun h => String.toList_injective h) x y
  case vector.vector hx y hy _ =>
    refine Option.some_inj.trans ⟨fun h => ?_, fun h => ?_⟩
    · exact congrArg _ (formatVector_injective hx hy h)
    · exact congrArg _ (SqlValue.vector.inj h)
  case hstore.hstore x y => exact text_iff SqlValue.hstore.inj formatHStore_injective x y
  case ltree.ltree x y => exact text_iff SqlValue.ltree.inj Ltree.toList_path_injective x y
  case cube.cube hxl hxu _ hyl hyu =>
    exact Option.some_inj.trans (formatCube_eq_iff hxl hxu hyl hyu)
  case tsVector.tsVector x y => exact text_iff SqlValue.tsVector.inj formatTsVector_injective x y
  case tsQuery.tsQuery => exact Option.some_inj

/-! ### Elements of an array -/

/-- What follows an element: a comma or the closing brace. -/
def AtItemEnd (s : List Char) : Prop := ∃ c r, s = c :: r ∧ (c = ',' ∨ c = '}')

variable {s : List Char}

theorem AtItemEnd.stops (h : AtItemEnd s) : Stops (fun c => !isSpecial c) s := by
  obtain ⟨c, r, rfl, rfl | rfl⟩ := h <;> exact stops_cons (by decide) r

variable {t : List Char}

theorem not_special_of_bare (h : needsQuote t = false) : ∀ c ∈ t, (!isSpecial c) = true := by
  intro c hc
  simp only [needsQuote, Bool.or_eq_false_iff, any_eq_false] at h
  rw [Bool.eq_false_iff.mpr (h.1.2 c hc)]
  rfl

/-- A bare element does not begin with a quote or a brace. -/
theorem bare_ne_special (h : needsQuote t = false) {r : List Char} {c : Char}
    (hc : isSpecial c = true) : t ++ s ≠ c :: r := by
  intro heq
  cases t with
  | nil => cases h
  | cons d t => grind [not_special_of_bare]

variable {s' : List Char}

/-- Elements other than arrays are cut at the end of the element. -/
theorem quoteItem_cut {u : List Char} (hs : AtItemEnd s) (hs' : AtItemEnd s')
    (h : quoteItem t ++ s = quoteItem u ++ s') : t = u ∧ s = s' := by
  unfold quoteItem at h
  simp only [escapeQuotes_eq] at h
  cases ht : needsQuote t <;> cases hu : needsQuote u <;>
    simp only [ht, hu, if_true, Bool.false_eq_true, if_false, cons_append,
      append_assoc, nil_append] at h
  · exact run_cut (not_special_of_bare ht) (not_special_of_bare hu) hs.stops hs'.stops h
  · exact absurd h (bare_ne_special ht rfl)
  · exact absurd h.symm (bare_ne_special hu rfl)
  · exact escaped_cut (by decide) (List.cons.inj h).2

theorem null_ne_quoteItem (hs : AtItemEnd s) (hs' : AtItemEnd s') :
    "NULL".toList ++ s ≠ quoteItem t ++ s' := by
  intro h
  unfold quoteItem at h
  split at h <;> rename_i hq
  · cases h
  · have hcut := run_cut (all_eq_true.mp (by decide))
      (not_special_of_bare (Bool.eq_false_iff.mpr hq)) hs.stops hs'.stops h
    rw [← hcut.1] at hq
    exact hq (by decide)

/-- An element as it stands in the text of its array. -/
def itemCode (v : SqlValue C) : List Char := SqlValue.itemText v.isArray v.toText

theorem itemTexts_eq_map (items : List (SqlValue C)) :
    SqlValue.itemTexts items = items.map itemCode := by
  induction items with
  | nil => rfl
  | cons item items ih => rw [SqlValue.itemTexts, ih, map_cons, itemCode]

theorem itemCode_array (items : List (SqlValue C)) :
    itemCode (.array items) = '{' :: [','].intercalate (items.map itemCode) ++ ['}'] := by
  rw [itemCode, SqlValue.toText, itemTexts_eq_map]
  rfl

variable {v : SqlValue C}

theorem exists_toText (hv : HasType ty v) : ∃ t, v.toText = some t := by
  cases hv <;> simp [SqlValue.toText]

theorem isArray_of_not_array (hty : ∀ inner, ty ≠ .array inner) (hv : HasType ty v) :
    v.isArray = false := by
  cases hv with
  | array _ => exact absurd rfl (hty _)
  | _ => rfl

theorem itemCode_of_not_array (hty : ∀ inner, ty ≠ .array inner) (hv : HasType ty v) :
    ∃ t, v.toText = some t ∧ itemCode v = quoteItem t := by
  obtain ⟨t, ht⟩ := exists_toText hv
  refine ⟨t, ht, ?_⟩
  rw [itemCode, ht, isArray_of_not_array hty hv]
  rfl

/-- An element other than NULL is an array or is quoted as needed. -/
theorem itemCode_cases (hv : HasType ty v) :
    (∃ items, v = .array items) ∨ ∃ t, itemCode v = quoteItem t := by
  cases ty with
  | array inner =>
    cases hv with
    | array _ => exact .inl ⟨_, rfl⟩
  | _ =>
    obtain ⟨t, -, ht⟩ := itemCode_of_not_array (by rintro _ ⟨⟩) hv
    exact .inr ⟨t, ht⟩

/-- No element can be mistaken for the end of its array. -/
theorem itemCode_ne_brace {ty : SqlType} {v : SqlValue C} (hv : IsItem ty v) (s r : List Char) :
    itemCode v ++ s ≠ '}' :: r := by
  intro h
  by_cases hnull : v = .null
  · subst hnull
    cases h
  · obtain ⟨items, rfl⟩ | ⟨t, ht⟩ := itemCode_cases (hv hnull)
    · rw [itemCode_array] at h
      cases h
    · rw [ht, quoteItem] at h
      split at h <;> rename_i hq
      · cases h
      · exact bare_ne_special (Bool.eq_false_iff.mpr hq) rfl h

/-! ### Arrays -/

/-- The text of an element ends where the next comma or the closing brace begins,
and shows the element up to how it is written. -/
def ItemsCut (C : Crates) (ty : SqlType) : Prop :=
  ∀ {a b : SqlValue C} {s t : List Char}, IsItem ty a → IsItem ty b → AtItemEnd s → AtItemEnd t →
    itemCode a ++ s = itemCode b ++ t → Written ty a b ∧ s = t

theorem itemsCut_of_not_array (hty : ∀ inner, ty ≠ .array inner) : ItemsCut C ty := by
  intro a b s t ha hb hs ht h
  rw [written_of_not_array hty]
  by_cases hna : a = .null <;> by_cases hnb : b = .null
  · subst hna hnb
    exact ⟨rfl, append_cancel_left h⟩
  · obtain ⟨u, -, hu⟩ := itemCode_of_not_array hty (hb hnb)
    subst hna
    rw [hu] at h
    exact absurd h (null_ne_quoteItem hs ht)
  · obtain ⟨u, -, hu⟩ := itemCode_of_not_array hty (ha hna)
    subst hnb
    rw [hu] at h
    exact absurd h.symm (null_ne_quoteItem ht hs)
  · obtain ⟨u, hau, hu⟩ := itemCode_of_not_array hty (ha hna)
    obtain ⟨w, hbw, hw⟩ := itemCode_of_not_array hty (hb hnb)
    rw [hu, hw] at h
    obtain ⟨rfl, hst⟩ := quoteItem_cut hs ht h
    exact ⟨(toText_eq_iff_alike hty (ha hna) (hb hnb)).mp (hau.trans hbw.symm), hst⟩

/-- The elements of an array are read back from its text. -/
theorem items_cut {inner : SqlType} (hinner : ItemsCut C inner) {xs ys : List (SqlValue C)}
    {s t : List Char} (hxs : ∀ x ∈ xs, IsItem inner x) (hys : ∀ y ∈ ys, IsItem inner y)
    (h : [','].intercalate (xs.map itemCode) ++ '}' :: s =
      [','].intercalate (ys.map itemCode) ++ '}' :: t) :
    List.Forall₂ (Written inner) xs ys ∧ s = t := by
  have hcuts : Cuts (IsItem inner) (itemCode (C := C)) AtItemEnd := by
    intro a b s t ha hb hs ht heq
    obtain ⟨-, rfl⟩ := hinner ha hb hs ht heq
    exact ⟨append_cancel_right heq, rfl⟩
  obtain ⟨hmap, hst⟩ := intercalate_cut (fun s => ∃ r, s = '}' :: r) hcuts
    (fun s => ⟨',', s, rfl, Or.inl rfl⟩) (by rintro _ ⟨r, rfl⟩; exact ⟨'}', r, rfl, Or.inr rfl⟩)
    (by rintro s ⟨r, hr⟩; cases hr) (fun a ha s ⟨r, hr⟩ => itemCode_ne_brace ha s r hr)
    hxs hys ⟨s, rfl⟩ ⟨t, rfl⟩ h
  refine ⟨?_, (List.cons.inj hst).2⟩
  -- equal words of equal length, so the elements can be compared one by one
  clear h hst
  induction xs generalizing ys with
  | nil => simp_all
  | cons x xs ih =>
    cases ys with
    | nil => cases hmap
    | cons y ys =>
      obtain ⟨hcode, hrest⟩ := List.cons.inj hmap
      have hend : AtItemEnd [','] := ⟨',', [], rfl, Or.inl rfl⟩
      refine .cons (hinner (hxs x mem_cons_self) (hys y mem_cons_self) hend hend
        (by rw [hcode])).1 (ih ?_ ?_ hrest)
      · exact fun x hx => hxs x (mem_cons_of_mem _ hx)
      · exact fun y hy => hys y (mem_cons_of_mem _ hy)

theorem itemsCut (ty : SqlType) : ItemsCut C ty := by
  induction ty with
  | array inner ih =>
    intro a b s t ha hb hs ht h
    by_cases hna : a = .null <;> by_cases hnb : b = .null
    · subst hna hnb
      exact ⟨rfl, append_cancel_left h⟩
    · subst hna
      cases hb hnb with
      | array _ =>
        rw [itemCode_array] at h
        cases h
    · subst hnb
      cases ha hna with
      | array _ =>
        rw [itemCode_array] at h
        cases h
    · cases ha hna with
      | array hxs =>
        cases hb hnb with
        | array hys =>
          simp only [itemCode_array, cons_append, append_assoc,
            nil_append, List.cons.injEq, true_and] at h
          exact items_cut ih hxs hys h
  | _ => exact itemsCut_of_not_array (by rintro _ ⟨⟩)

theorem alike_null_left (h : Alike .null b) : b = .null := by
  cases b <;> first | rfl | cases h

theorem alike_null_right (h : Alike a .null) : a = .null := by
  cases a <;> first | rfl | cases h

theorem written_null_right (h : Written ty a .null) : a = .null := by
  cases ty with
  | array inner => cases a <;> first | rfl | cases h
  | _ => exact alike_null_right h

/-- Values written alike have the same text, also as elements. -/
theorem itemCode_of_written (ty : SqlType) : ∀ {a b : SqlValue C}, IsItem ty a → IsItem ty b →
    Written ty a b → a.toText = b.toText ∧ itemCode a = itemCode b := by
  have hscalar : ∀ {ty : SqlType}, (∀ inner, ty ≠ .array inner) → ∀ {a b : SqlValue C},
      IsItem ty a → IsItem ty b → Written ty a b → a.toText = b.toText ∧ itemCode a = itemCode b := by
    intro ty hty a b ha hb h
    rw [written_of_not_array hty] at h
    by_cases hna : a = .null
    · subst hna
      rw [alike_null_left h]
      exact ⟨rfl, rfl⟩
    · have hnb : b ≠ .null := fun hnb => hna (alike_null_right (hnb ▸ h))
      have htext := (toText_eq_iff_alike hty (ha hna) (hb hnb)).mpr h
      refine ⟨htext, ?_⟩
      rw [itemCode, itemCode, htext, isArray_of_not_array hty (ha hna),
        isArray_of_not_array hty (hb hnb)]
  induction ty with
  | array inner ih =>
    intro a b ha hb h
    unfold Written at h
    split at h
    · rename_i xs ys
      have hxs : ∀ x ∈ xs, IsItem inner x := by cases ha nofun with | array hxs => exact hxs
      have hys : ∀ y ∈ ys, IsItem inner y := by cases hb nofun with | array hys => exact hys
      have hmap : xs.map itemCode = ys.map itemCode := by
        clear ha hb
        induction h with
        | nil => rfl
        | cons hxy _ ih' => grind
      refine ⟨?_, ?_⟩
      · rw [SqlValue.toText, SqlValue.toText, itemTexts_eq_map, itemTexts_eq_map, hmap]
      · rw [itemCode_array, itemCode_array, hmap]
    · subst h
      exact ⟨rfl, rfl⟩
  | _ => exact hscalar (by rintro _ ⟨⟩)

/-- **The text shows how a value is written**, and nothing else. -/
theorem toText_eq_iff (ha : HasType ty a) (hb : HasType ty b) :
    a.toText = b.toText ↔ Written ty a b := by
  refine ⟨?_, fun h => (itemCode_of_written ty (fun _ => ha) (fun _ => hb) h).1⟩
  intro h
  have hcode : itemCode a = itemCode b := by
    rw [itemCode, itemCode, h]
    cases ty with
    | array inner =>
      cases ha
      cases hb
      rfl
    | _ => rw [isArray_of_not_array (by rintro _ ⟨⟩) ha, isArray_of_not_array (by rintro _ ⟨⟩) hb]
  have hend : AtItemEnd [','] := ⟨',', [], rfl, .inl rfl⟩
  exact (itemsCut ty (fun _ => ha) (fun _ => hb) hend hend (by rw [hcode])).1

end GuardianDb.Relational
