/-
Text output of values (`SqlValue::to_text`).

The composite formats are self-delimiting: the text of a vector, a cube, an
`hstore` or a `tsvector` determines its parts. Each format has a lemma that says
so, built from the rules for runs, quoted text and separated lists.

  * `toText` — text output of every shape, none for NULL.
  * `formatVector_injective`, `formatHStore_injective`, `formatTsVector_injective`
    — the text determines the value.
  * `formatCube_eq_iff` — what the text of a cube shows.
-/
import Std.Data.String.ToInt
import GuardianDb.Lib.Delimited
import GuardianDb.Lib.SortBy
import GuardianDb.Relational.Value

namespace GuardianDb.Relational

open BinaryFloat Delimited List

/-! ### Text of the scalar shapes -/

/-- `format_float` and `format_float_f32`. -/
def formatFloat {f : Format} : Flt f → List Char
  | .nan => "NaN".toList
  | .inf neg => if neg then "-Infinity".toList else "Infinity".toList
  | .fin x => display x

/-- `to_string` of an integer. -/
def intText (z : Int) : List Char := (Int.repr z).toList

def hexEncode (bytes : List UInt8) : List Char :=
  bytes.flatMap fun b => [Nat.digitChar (b.toNat / 16), Nat.digitChar (b.toNat % 16)]

/-- `str::replace` of one character. -/
def replaceChar (c : Char) (rep : List Char) (text : List Char) : List Char :=
  text.flatMap fun d => if d = c then rep else [d]

/-! ### Text of the composite shapes -/

def formatVector (v : List F32) : List Char :=
  '[' :: [','].intercalate (v.map fun x => formatFloat (x.convert binary64)) ++ [']']

def formatCorner (v : List F64) : List Char := [',', ' '].intercalate (v.map formatFloat)

/-- `==` on slices of floats. -/
def floatsEq (v w : List F64) : Bool :=
  v.length == w.length && (v.zip w).all fun (x, y) => x.partialCmp y == some .eq

def formatCube (c : CubeCorners) : List Char :=
  if floatsEq c.ll c.ur then '(' :: formatCorner c.ll ++ [')']
  else '(' :: formatCorner c.ll ++ [')', ',', '('] ++ formatCorner c.ur ++ [')']

/-- A quoted `hstore` key or value. -/
def hstoreQuote (s : String) : List Char :=
  '"' :: replaceChar '"' ['\\', '"'] (replaceChar '\\' ['\\', '\\'] s.toList) ++ ['"']

/-- One pair of an `hstore`. -/
def hstorePair (p : String × Option String) : List Char :=
  match p.2 with
  | some val => hstoreQuote p.1 ++ ['=', '>'] ++ hstoreQuote val
  | none => hstoreQuote p.1 ++ "=>NULL".toList

/-- The order of keys in the text: by length in bytes, then by content. -/
def hstoreOrder (a b : String × Option String) : Ordering :=
  (compare a.1.utf8ByteSize b.1.utf8ByteSize).then (compare a.1 b.1)

def formatHStore (map : Std.ExtTreeMap String (Option String)) : List Char :=
  [',', ' '].intercalate ((SortBy.sortBy hstoreOrder map.toList).map hstorePair)

def quoteLexeme (word : String) : List Char :=
  '\'' :: replaceChar '\'' ['\'', '\''] (replaceChar '\\' ['\\', '\\'] word.toList) ++ ['\'']

/-- One lexeme of a `tsvector` with its positions. -/
def lexemeText (l : TsLexeme) : List Char :=
  quoteLexeme l.word ++
    if l.positions.isEmpty then []
    else ':' :: [','].intercalate (l.positions.map fun p => intText p.toNat)

def formatTsVector (v : List TsLexeme) : List Char := [' '].intercalate (v.map lexemeText)

namespace TsQueryNode

/-- Operator priority; a lexeme binds tightest. -/
def priority : TsQueryNode → Nat
  | .or .. => 0
  | .and .. => 1
  | .not _ => 3
  | .lexeme _ => 255

/-- `infix`: parentheses only around a child that binds looser than its parent. -/
def infixText (parentPriority : Nat) (node : TsQueryNode) : List Char :=
  let body :=
    match node with
    | .lexeme w => quoteLexeme w
    | .not c => '!' :: c.infixText 3
    | .and a b => a.infixText 1 ++ " & ".toList ++ b.infixText 1
    | .or a b => a.infixText 0 ++ " | ".toList ++ b.infixText 0
  if node.priority < parentPriority then "( ".toList ++ body ++ " )".toList else body

end TsQueryNode

def formatTsQuery : Option TsQueryNode → List Char
  | some node => node.infixText 0
  | none => []

/-! ### Arrays -/

/-- Characters that force an array element into quotes. -/
def isSpecial (c : Char) : Bool :=
  c == ',' || c == '{' || c == '}' || c == '"' || c == '\\' || c == ' '

def needsQuote (t : List Char) : Bool :=
  t.isEmpty || t.any isSpecial || String.ofList (t.map Char.toLower) == "null"

/-- An array element other than an array. -/
def quoteItem (t : List Char) : List Char :=
  if needsQuote t then
    '"' :: replaceChar '"' ['\\', '"'] (replaceChar '\\' ['\\', '\\'] t) ++ ['"']
  else t

section
variable {C : Crates}

namespace SqlValue

def isArray : SqlValue C → Bool
  | .array _ => true
  | _ => false

/-- How `format_array` writes an element with the given text. -/
def itemText (isArray : Bool) : Option (List Char) → List Char
  | none => "NULL".toList
  | some t => if isArray then t else quoteItem t

mutual

/-- `to_text`: PostgreSQL text output, none for NULL. -/
def toText : SqlValue C → Option (List Char)
  | .null => none
  | .bool b => some (if b then ['t'] else ['f'])
  | .int2 n => some (intText n.toInt)
  | .int4 n => some (intText n.toInt)
  | .int8 n => some (intText n.toInt)
  | .float4 x => some (formatFloat x)
  | .float8 x => some (formatFloat x)
  | .numeric d => some d.text
  | .text s => some s.toList
  | .bytea b => some ('\\' :: 'x' :: hexEncode b)
  | .uuid u => some (C.uuid.text u).toList
  | .date d => some (C.date.text d).toList
  | .time t => some (C.time.text t).toList
  | .timestamp ts => some (C.timestamp.text ts).toList
  | .timestamptz ts => some (C.timestamptz.text ts).toList
  | .json j => some (C.jsonText j).toList
  | .array items => some ('{' :: [','].intercalate (itemTexts items) ++ ['}'])
  | .citext s => some s.toList
  | .vector v => some (formatVector v)
  | .hstore map => some (formatHStore map)
  | .ltree p => some p.path.toList
  | .cube c => some (formatCube c)
  | .tsVector v => some (formatTsVector v)
  | .tsQuery q => some (formatTsQuery q)

/-- The elements of an array, as `format_array` writes them. -/
def itemTexts : List (SqlValue C) → List (List Char)
  | [] => []
  | item :: items => itemText item.isArray item.toText :: itemTexts items

end

end SqlValue

end

/-! ### Quoting -/

theorem escapeQuotes_eq (t : List Char) :
    replaceChar '"' ['\\', '"'] (replaceChar '\\' ['\\', '\\'] t) = escaped '\\' '"' t := by
  unfold replaceChar escaped
  rw [flatMap_assoc]
  congr 1
  funext c
  by_cases hb : c = '\\'
  · simp [hb]
  · by_cases hq : c = '"' <;> simp [hb, hq]

theorem doubleQuotes_eq (t : List Char) :
    replaceChar '\'' ['\'', '\''] (replaceChar '\\' ['\\', '\\'] t) = doubled '\\' '\'' t := by
  unfold replaceChar doubled
  rw [flatMap_assoc]
  congr 1
  funext c
  by_cases hb : c = '\\'
  · simp [hb]
  · by_cases hq : c = '\'' <;> simp [hb, hq]

variable {s t : List Char}

/-- Quoted text is cut in front of anything. -/
theorem hstoreQuote_cut {a b : String} (h : hstoreQuote a ++ s = hstoreQuote b ++ t) :
    a = b ∧ s = t := by
  unfold hstoreQuote at h
  simp only [escapeQuotes_eq, cons_append, append_assoc, nil_append,
    List.cons.injEq, true_and] at h
  obtain ⟨htext, hrest⟩ := escaped_cut (by decide) h
  exact ⟨String.toList_injective htext, hrest⟩

theorem quoteLexeme_cut {a b : String} (hs : Stops (· == '\'') s) (ht : Stops (· == '\'') t)
    (h : quoteLexeme a ++ s = quoteLexeme b ++ t) : a = b ∧ s = t := by
  unfold quoteLexeme at h
  simp only [doubleQuotes_eq, cons_append, append_assoc, nil_append,
    List.cons.injEq, true_and] at h
  obtain ⟨htext, hrest⟩ := doubled_cut hs ht h
  exact ⟨String.toList_injective htext, hrest⟩

/-! ### Scalars -/

theorem intText_injective {x y : Int} (h : intText x = intText y) : x = y :=
  Int.repr_injective (String.toList_injective h)

variable {f : Format} {x : Flt f}

theorem formatFloat_injective {y : Flt f} (hx : x.isFinite) (hy : y.isFinite)
    (h : formatFloat x = formatFloat y) : x = y := by
  obtain ⟨x, rfl⟩ := Flt.exists_fin hx
  obtain ⟨y, rfl⟩ := Flt.exists_fin hy
  rw [display_injective h]

theorem digitChar_injective : ∀ a b : Fin 16,
    Nat.digitChar a.val = Nat.digitChar b.val → a = b := by
  decide

theorem hexEncode_injective : ∀ {a b : List UInt8}, hexEncode a = hexEncode b → a = b
  | [], [], _ => rfl
  | [], _ :: _, h => by cases h
  | _ :: _, [], h => by cases h
  | x :: xs, y :: ys, h => by
      simp only [hexEncode, flatMap_cons, cons_append, nil_append,
        List.cons.injEq] at h
      obtain ⟨hhigh, hlow, hrest⟩ := h
      have hx := x.toNat_lt
      have hy := y.toNat_lt
      have hdiv := digitChar_injective ⟨x.toNat / 16, by omega⟩ ⟨y.toNat / 16, by omega⟩ hhigh
      have hmod := digitChar_injective ⟨x.toNat % 16, by omega⟩ ⟨y.toNat % 16, by omega⟩ hlow
      have hbyte : x = y := by grind [UInt8.toNat_inj]
      rw [hbyte, hexEncode_injective hrest]

/-! ### Vectors and cubes -/

theorem isNumberChar_formatFloat (hx : x.isFinite) {c : Char} (h : c ∈ formatFloat x) :
    isNumberChar c := by
  obtain ⟨x, rfl⟩ := Flt.exists_fin hx
  exact isNumberChar_display h

theorem formatFloat_ne_nil (hx : x.isFinite) : formatFloat x ≠ [] := by
  obtain ⟨x, rfl⟩ := Flt.exists_fin hx
  intro h
  have hparse := parse_display x
  rw [show display x = [] from h] at hparse
  cases hparse

/-- Number texts separated by commas are cut in front of a closing bracket. -/
theorem numbers_cut {α : Type} {dom : α → Prop} {code : α → List Char} {sep : List Char}
    {close : Char} (hchars : ∀ a, dom a → ∀ c ∈ code a, isNumberChar c)
    (hne : ∀ a, dom a → code a ≠ []) (hclose : isNumberChar close = false) (hcomma : close ≠ ',')
    {xs ys : List α} (hxs : ∀ x ∈ xs, dom x) (hys : ∀ y ∈ ys, dom y)
    (h : (',' :: sep).intercalate (xs.map code) ++ close :: s =
      (',' :: sep).intercalate (ys.map code) ++ close :: t) :
    xs.map code = ys.map code ∧ s = t := by
  have hcut := intercalate_cut (fun s => ∃ r, s = close :: r) (cuts_run hchars)
    (fun s => stops_cons (by decide) _) ?_ ?_ ?_ hxs hys ⟨s, rfl⟩ ⟨t, rfl⟩ h
  · exact ⟨hcut.1, (List.cons.inj hcut.2).2⟩
  · rintro _ ⟨r, rfl⟩
    exact stops_cons hclose r
  · grind
  · rintro a ha s ⟨r, hr⟩
    cases hcode : code a with
    | nil => exact hne a ha hcode
    | cons c cs => grind

theorem map_injOn {α β : Type} {g : α → β} : ∀ {xs ys : List α},
    (∀ x ∈ xs, ∀ y ∈ ys, g x = g y → x = y) → xs.map g = ys.map g → xs = ys
  | [], [], _, _ => rfl
  | [], _ :: _, _, h => by cases h
  | _ :: _, [], _, h => by cases h
  | x :: xs, y :: ys, hinj, h => by
      obtain ⟨hhead, htail⟩ := List.cons.inj h
      rw [hinj x (.head _) y (.head _) hhead,
        map_injOn (fun x hx y hy => hinj x (.tail _ hx) y
          (.tail _ hy)) htail]

theorem isFinite_f64 {x : F32} (hx : x.isFinite) : (x.convert binary64).isFinite :=
  Flt.isFinite_convert (by decide) (by decide) (by decide) hx

/-- An `f32` read as an `f64` loses nothing. -/
theorem f64_injOn {x y : F32} (hx : x.isFinite) (hy : y.isFinite)
    (h : x.convert binary64 = y.convert binary64) : x = y := by
  obtain ⟨x, rfl⟩ := Flt.exists_fin hx
  obtain ⟨y, rfl⟩ := Flt.exists_fin hy
  exact congrArg Flt.fin (Flt.convert_injOn (by decide) (by decide) (by decide) h)

theorem formatVector_injective {v w : List F32} (hv : ∀ x ∈ v, x.isFinite)
    (hw : ∀ x ∈ w, x.isFinite) (h : formatVector v = formatVector w) : v = w := by
  have hchars : ∀ x : F32, x.isFinite → ∀ c ∈ formatFloat (x.convert binary64), isNumberChar c :=
    fun x hx c hc => isNumberChar_formatFloat (isFinite_f64 hx) hc
  have hne : ∀ x : F32, x.isFinite → formatFloat (x.convert binary64) ≠ [] :=
    fun x hx => formatFloat_ne_nil (isFinite_f64 hx)
  have hcut := numbers_cut hchars hne (by decide) (by decide) hv hw (List.cons.inj h).2
  apply map_injOn _ hcut.1
  intro x hx y hy heq
  apply f64_injOn (hv x hx) (hw y hy)
  exact formatFloat_injective (isFinite_f64 (hv x hx)) (isFinite_f64 (hw y hy)) heq

theorem formatCorner_cut {v w : List F64} (hv : ∀ x ∈ v, x.isFinite) (hw : ∀ x ∈ w, x.isFinite)
    {s t : List Char} (h : formatCorner v ++ ')' :: s = formatCorner w ++ ')' :: t) :
    v = w ∧ s = t := by
  have hcut := numbers_cut (fun x hx c hc => isNumberChar_formatFloat hx hc)
    (fun x hx => formatFloat_ne_nil hx) (by decide) (by decide) hv hw h
  refine ⟨map_injOn ?_ hcut.1, hcut.2⟩
  intro x hx y hy heq
  exact formatFloat_injective (hv x hx) (hw y hy) heq

/-- The text of a cube shows the first corner, whether the corners coincide and,
if they do not, the second one. -/
theorem formatCube_eq_iff {c d : CubeCorners} (hcl : ∀ x ∈ c.ll, x.isFinite)
    (hcu : ∀ x ∈ c.ur, x.isFinite) (hdl : ∀ x ∈ d.ll, x.isFinite) (hdu : ∀ x ∈ d.ur, x.isFinite) :
    formatCube c = formatCube d ↔ c.ll = d.ll ∧ floatsEq c.ll c.ur = floatsEq d.ll d.ur ∧
      (floatsEq c.ll c.ur = false → c.ur = d.ur) := by
  have happ : ∀ v w : List F64, '(' :: formatCorner v ++ [')', ',', '('] ++ formatCorner w ++ [')'] =
      '(' :: (formatCorner v ++ ')' :: (',' :: '(' :: (formatCorner w ++ [')']))) := by
    simp
  unfold formatCube
  rw [happ, happ]
  constructor
  · intro h
    cases hc : floatsEq c.ll c.ur <;> cases hd : floatsEq d.ll d.ur <;>
      simp only [hc, hd, Bool.false_eq_true, if_true, if_false, cons_append, List.cons.injEq,
        true_and] at h <;> obtain ⟨hll, hrest⟩ := formatCorner_cut hcl hdl h
    · simp only [List.cons.injEq, true_and] at hrest
      exact ⟨hll, rfl, fun _ => (formatCorner_cut hcu hdu hrest).1⟩
    · cases hrest
    · cases hrest
    · exact ⟨hll, rfl, nofun⟩
  · simp_all

/-! ### `hstore` -/

theorem hstorePair_cut : ∀ {p q : String × Option String} {s t : List Char},
    hstorePair p ++ s = hstorePair q ++ t → p = q ∧ s = t := by
  rintro ⟨k, v⟩ ⟨l, w⟩ s t h
  -- the keys are cut first, whatever the values are
  have hkey : k = l ∧ _ := hstoreQuote_cut
    (s := "=>".toList ++ (v.elim "NULL".toList hstoreQuote ++ s))
    (t := "=>".toList ++ (w.elim "NULL".toList hstoreQuote ++ t))
    (by cases v <;> cases w <;> simpa [hstorePair] using h)
  obtain ⟨rfl, hrest⟩ := hkey
  have hvalue := append_cancel_left hrest
  cases v <;> cases w
  · exact ⟨rfl, append_cancel_left hvalue⟩
  · cases hvalue
  · cases hvalue
  · obtain ⟨rfl, hst⟩ := hstoreQuote_cut hvalue
    exact ⟨rfl, hst⟩

theorem formatHStore_injective {m n : Std.ExtTreeMap String (Option String)}
    (h : formatHStore m = formatHStore n) : m = n := by
  have hcuts : Cuts (fun _ => True) hstorePair (fun _ => True) := by
    intro p q s t _ _ _ _ heq
    obtain ⟨rfl, hst⟩ := hstorePair_cut heq
    exact ⟨rfl, hst⟩
  have hmap := (intercalate_cut (· = []) hcuts (fun _ => trivial) (fun _ _ => trivial)
    (by simp) (by rintro ⟨k, v⟩ - s; cases v <;> simp [hstorePair, hstoreQuote])
    (fun _ _ => trivial) (fun _ _ => trivial) rfl rfl (congrArg (· ++ []) h)).1
  have hsorted := map_injOn (fun p _ q _ heq => (hstorePair_cut (congrArg (· ++ []) heq)).1) hmap
  have hperm := SortBy.sortBy_perm hstoreOrder m.toList
  rw [hsorted] at hperm
  exact Std.ExtTreeMap.ext_toList (hperm.symm.trans (SortBy.sortBy_perm _ _))

/-! ### `tsvector` -/

/-- The end of the text, or a blank. -/
def AtBlank (s : List Char) : Prop := s = [] ∨ ∃ r, s = ' ' :: r

theorem AtBlank.stops {p : Char → Bool} (hp : p ' ' = false) (h : AtBlank s) : Stops p s := by
  rcases h with rfl | ⟨r, rfl⟩
  · exact stops_nil p
  · exact stops_cons hp r

theorem isDigit_intText {n : Nat} {c : Char} (h : c ∈ intText n) : c.isDigit := by
  rw [show intText n = (Nat.repr n).toList from rfl, Nat.toList_repr] at h
  exact Nat.isDigit_of_mem_toDigits (by decide) (by decide) h

theorem intText_ne_nil (n : Nat) : intText n ≠ [] := by
  rw [show intText n = (Nat.repr n).toList from rfl, Nat.toList_repr]
  exact Nat.toDigits_ne_nil

/-- Positions separated by commas are cut in front of a blank. -/
theorem positions_cut {ps qs : List UInt16} (hs : AtBlank s) (ht : AtBlank t)
    (h : [','].intercalate (ps.map fun p => intText p.toNat) ++ s =
      [','].intercalate (qs.map fun p => intText p.toNat) ++ t) : ps = qs ∧ s = t := by
  have hcuts : Cuts (fun _ => True) (fun p : UInt16 => intText p.toNat) (Stops Char.isDigit) :=
    cuts_run fun p _ c hc => isDigit_intText hc
  have hcut := intercalate_cut AtBlank hcuts (fun s => stops_cons (by decide) _)
    (fun s hs => hs.stops (by decide)) ?_ ?_ (fun _ _ => trivial) (fun _ _ => trivial) hs ht h
  · grind [map_injOn, UInt16.toNat_inj, intText_injective]
  · rintro s (h | ⟨r, h⟩) <;> cases h
  · intro p _ s hblank
    cases hcode : intText p.toNat with
    | nil => exact intText_ne_nil _ hcode
    | cons c cs =>
      have hdigit := isDigit_intText (hcode ▸ (.head _) : c ∈ intText p.toNat)
      simp only [hcode] at hblank
      rw [hblank.stops (p := Char.isDigit) (by decide) c _ rfl] at hdigit
      cases hdigit

theorem lexemeText_cut : ∀ {l m : TsLexeme} {s t : List Char}, AtBlank s → AtBlank t →
    lexemeText l ++ s = lexemeText m ++ t → l = m ∧ s = t := by
  rintro ⟨w, ps⟩ ⟨v, qs⟩ s t hs ht h
  have hstops : ∀ (ps : List UInt16) (s : List Char), AtBlank s → Stops (· == '\'')
      ((if ps.isEmpty then [] else ':' :: [','].intercalate (ps.map fun p => intText p.toNat)) ++ s) := by
    intro ps s hs
    split
    · exact hs.stops (by decide)
    · exact stops_cons (by decide) _
  simp only [lexemeText, append_assoc] at h
  obtain ⟨rfl, hrest⟩ := quoteLexeme_cut (hstops ps s hs) (hstops qs t ht) h
  cases ps with
  | nil =>
    cases qs with
    | nil => exact ⟨rfl, hrest⟩
    | cons q qs => rcases hs with rfl | ⟨r, rfl⟩ <;> cases hrest
  | cons p ps =>
    cases qs with
    | nil => rcases ht with rfl | ⟨r, rfl⟩ <;> cases hrest
    | cons q qs => grind [positions_cut]

theorem formatTsVector_injective {v w : List TsLexeme}
    (h : formatTsVector v = formatTsVector w) : v = w := by
  have hcuts : Cuts (fun _ => True) lexemeText AtBlank := by
    intro l m s t _ _ hs ht heq
    obtain ⟨rfl, hst⟩ := lexemeText_cut hs ht heq
    exact ⟨rfl, hst⟩
  have hmap := (intercalate_cut (· = []) hcuts (fun s => .inr ⟨s, rfl⟩) (fun _ h => .inl h)
    (by simp) (by intro l _ s; simp [lexemeText, quoteLexeme]) (fun _ _ => trivial)
    (fun _ _ => trivial) rfl rfl (congrArg (· ++ []) h)).1
  exact map_injOn (fun l _ m _ heq =>
    (lexemeText_cut (.inl rfl) (.inl rfl) (congrArg (· ++ []) heq)).1) hmap

end GuardianDb.Relational
