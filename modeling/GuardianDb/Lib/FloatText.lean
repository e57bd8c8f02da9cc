/-
Decimal text of binary floating-point numbers.

`positional` writes a decimal number without an exponent, `display` writes the
shortest one that reads back as a given float, and `parse` reads the usual
syntax, rounding the exact decimal value once. The search for the shortest form
tests every candidate by reading it back and falls back to the exact expansion,
so the round trip does not depend on how many digits a format needs.

  * `splitPoint_positional` — the digits and the position of the point are read
    back from positional text.
  * `parse_display` — a finite number is read back from its text.
-/
import Mathlib.Data.List.TakeWhile
import GuardianDb.Lib.BinaryFloat

namespace BinaryFloat

open Rounding List

/-! ### Positional notation -/

/-- `d * 10 ^ up / 10 ^ down` without an exponent. -/
def positional (d up down : Nat) : List Char :=
  let ds := Nat.toDigits 10 d ++ List.replicate up '0'
  if down = 0 then
    ds
  else if ds.length ≤ down then
    '0' :: '.' :: (List.replicate (down - ds.length) '0' ++ ds)
  else
    ds.take (ds.length - down) ++ '.' :: ds.drop (ds.length - down)

/-- The digits before a point, those after it, and what follows. -/
def splitPoint (cs : List Char) : List Char × List Char × List Char :=
  match cs.dropWhile Char.isDigit with
  | '.' :: rest =>
    (cs.takeWhile Char.isDigit, rest.takeWhile Char.isDigit, rest.dropWhile Char.isDigit)
  | rest => (cs.takeWhile Char.isDigit, [], rest)

theorem splitPoint_digits {ds : List Char} (h : ∀ c ∈ ds, c.isDigit) :
    splitPoint ds = (ds, [], []) := by
  unfold splitPoint
  rw [dropWhile_eq_nil_iff.mpr h, takeWhile_eq_self_iff.mpr h]

theorem splitPoint_point {int frac : List Char} (hint : ∀ c ∈ int, c.isDigit)
    (hfrac : ∀ c ∈ frac, c.isDigit) :
    splitPoint (int ++ '.' :: frac) = (int, frac, []) := by
  have hdrop : (int ++ '.' :: frac).dropWhile Char.isDigit = '.' :: frac := by simp_all
  have htake : (int ++ '.' :: frac).takeWhile Char.isDigit = int := by simp_all
  unfold splitPoint
  rw [hdrop, htake]
  simp only [takeWhile_eq_self_iff.mpr hfrac, dropWhile_eq_nil_iff.mpr hfrac]

variable {d up : Nat} {c : Char}

theorem isDigit_of_mem_digits (h : c ∈ Nat.toDigits 10 d ++ List.replicate up '0') : c.isDigit := by
  rcases mem_append.mp h with hc | hc
  · exact Nat.isDigit_of_mem_toDigits (by decide) (by decide) hc
  · rw [eq_of_mem_replicate hc]
    decide

/-- **Positional text can be read.** Its digits are those of `d * 10 ^ up`, and
`down` of them stand behind the point. -/
theorem splitPoint_positional (d up down : Nat) :
    ∃ int frac, splitPoint (positional d up down) = (int, frac, []) ∧ int ≠ [] ∧
      frac.length = down ∧ Nat.ofDigitChars 10 (int ++ frac) 0 = d * 10 ^ up := by
  generalize hds : Nat.toDigits 10 d ++ List.replicate up '0' = ds
  have hdigits : ∀ c ∈ ds, c.isDigit := by
    intro c hc
    subst hds
    exact isDigit_of_mem_digits hc
  have hvalue : Nat.ofDigitChars 10 ds 0 = d * 10 ^ up := by
    rw [← hds, Nat.ofDigitChars_append, Nat.ofDigitChars_ten_toDigits,
      Nat.ofDigitChars_replicate_zero, Nat.mul_comm]
  have hne : ds ≠ [] := by
    subst hds
    simp [Nat.toDigits_ne_nil]
  unfold positional
  simp only [hds]
  by_cases h0 : down = 0
  · simp_all [splitPoint_digits]
  by_cases hle : ds.length ≤ down
  · have hzeros : ∀ c ∈ List.replicate (down - ds.length) '0' ++ ds, c.isDigit := by
      intro c hc
      rcases mem_append.mp hc with hc | hc
      · simp_all
      · exact hdigits c hc
    rw [if_neg h0, if_pos hle]
    have hzero : ∀ c ∈ ['0'], c.isDigit := all_eq_true.mp (by decide)
    refine ⟨['0'], _, splitPoint_point hzero hzeros, by decide, ?_, ?_⟩
    · simp_all
    · rw [singleton_append, Nat.ofDigitChars_cons, Nat.ofDigitChars_append,
        Nat.ofDigitChars_replicate_zero]
      simpa using hvalue
  · rw [if_neg h0, if_neg hle]
    refine ⟨_, _, splitPoint_point (fun c hc => hdigits c (mem_of_mem_take hc))
      (fun c hc => hdigits c (mem_of_mem_drop hc)), ?_, ?_, ?_⟩
    · grind [length_take]
    · rw [length_drop]
      omega
    · rwa [take_append_drop]

variable {down : Nat}

theorem positional_injective {d' up' down' : Nat}
    (h : positional d up down = positional d' up' down') :
    d * 10 ^ up = d' * 10 ^ up' ∧ down = down' := by
  obtain ⟨int, frac, hsplit, -, hlen, hvalue⟩ := splitPoint_positional d up down
  obtain ⟨int', frac', hsplit', -, hlen', hvalue'⟩ := splitPoint_positional d' up' down'
  rw [h, hsplit'] at hsplit
  cases hsplit
  exact ⟨hvalue.symm.trans hvalue', hlen.symm.trans hlen'⟩

/-! ### Reading -/

/-- The number nearest to `± d * 10 ^ up / 10 ^ down`. -/
def ofDec (f : Format) (neg : Bool) (d up down : Nat) : Flt f :=
  Flt.ofQuot f neg (d * 10 ^ up) (Nat.pow_pos (n := down) (by decide : 0 < 10))

variable (f : Format)

theorem ofDec_integer (neg : Bool) (n : Nat) :
    ofDec f neg n 0 0 = Flt.ofQuot f neg n Nat.one_pos := by
  simp [ofDec]

/-- An optional sign; `true` is minus. -/
def splitSign : List Char → Bool × List Char
  | '-' :: cs => (true, cs)
  | '+' :: cs => (false, cs)
  | cs => (false, cs)

theorem splitSign_digits {cs : List Char} (h : ∀ c ∈ cs, c.isDigit) :
    splitSign cs = (false, cs) := by
  unfold splitSign
  split
  · exact absurd (h '-' (mem_cons_self ..)) (by decide)
  · exact absurd (h '+' (mem_cons_self ..)) (by decide)
  · rfl

/-- Digits with an optional point and an optional exponent. -/
def parseDigits (f : Format) (neg : Bool) (cs : List Char) : Option (Flt f) :=
  let (int, frac, rest) := splitPoint cs
  let d := Nat.ofDigitChars 10 (int ++ frac) 0
  if int.isEmpty && frac.isEmpty then
    none
  else
    match rest with
    | [] => some (ofDec f neg d 0 frac.length)
    | c :: rest =>
      let (expNeg, exp) := splitSign rest
      let e := Nat.ofDigitChars 10 exp 0
      if (c == 'e' || c == 'E') && !exp.isEmpty && exp.all Char.isDigit then
        some (if expNeg then ofDec f neg d 0 (frac.length + e) else ofDec f neg d e frac.length)
      else
        none

/-- The words for numbers that are not finite, in any case. -/
def parseWord (f : Format) (neg : Bool) (cs : List Char) : Option (Flt f) :=
  match String.ofList (cs.map Char.toLower) with
  | "inf" | "infinity" => some (.inf neg)
  | "nan" => some .nan
  | _ => none

/-- Reads a number, as the standard library does for `f32` and `f64`. -/
def parse (f : Format) (s : String) : Option (Flt f) :=
  let (neg, cs) := splitSign s.toList
  parseDigits f neg cs <|> parseWord f neg cs

/-- Digits are read as the integer they write. -/
theorem parse_digits {s : String} (hne : s ≠ "") (h : ∀ c ∈ s.toList, c.isDigit) :
    parse f s = some (Flt.ofInt f (Nat.ofDigitChars 10 s.toList 0)) := by
  have hcs : s.toList.isEmpty = false := by simp_all
  have hint : ofDec f false (Nat.ofDigitChars 10 s.toList 0) 0 0 =
      Flt.ofInt f (Nat.ofDigitChars 10 s.toList 0) := by
    rw [ofDec_integer]
    rfl
  unfold parse parseDigits
  simp only [splitSign_digits h, splitPoint_digits h, append_nil, hcs, Bool.false_and,
    length_nil, hint]
  rfl

/-! ### Writing -/

/-- The multiple of `10 ^ up / 10 ^ down` next to `x` that reads back as `x`; the
nearer one if both neighbours do. -/
def atScale {f : Format} (x : Finite f) (up down : Nat) : Option Nat :=
  let num := x.mag * 10 ^ down
  let den := 2 ^ f.unit * 10 ^ up
  let reads := fun d => decide (ofDec f x.neg d up down = .fin x)
  let below := num / den
  if reads below && (decide (2 * (num % den) < den) || !reads (below + 1)) then
    some below
  else if reads (below + 1) then
    some (below + 1)
  else
    none

/-- The scales that are tried, coarsest first. -/
def scales (f : Format) : List (Nat × Nat) :=
  (List.range (f.top - f.unit)).reverse.map (·, 0) ++ (List.range f.unit).map (0, · + 1)

/-- The shortest decimal number that reads back as `x`: digits and scale. -/
def shortest {f : Format} (x : Finite f) : Nat × Nat × Nat :=
  match (scales f).findSome? fun (up, down) => (atScale x up down).map (·, up, down) with
  | some r => r
  | none => (x.mag * 5 ^ f.unit, 0, f.unit)

theorem scales_pairwise :
    (scales f).Pairwise fun p q => q.1 ≤ p.1 ∧ p.2 ≤ q.2 := by
  unfold scales
  rw [pairwise_append]
  refine ⟨?_, ?_, ?_⟩
  · rw [pairwise_map, pairwise_reverse]
    exact (pairwise_le_range).imp fun h => ⟨h, Nat.le_refl 0⟩
  · rw [pairwise_map]
    exact (pairwise_le_range).imp fun h => ⟨Nat.le_refl 0, Nat.succ_le_succ h⟩
  · simp_all

variable {f : Format} {x : Finite f}

/-- A scale that works bounds the scale of the shortest form. -/
theorem shortest_coarser (hmem : (up, down) ∈ scales f) (h : atScale x up down = some d) :
    ∃ n up' down', shortest x = (n, up', down') ∧ atScale x up' down' = some n ∧
      up ≤ up' ∧ down' ≤ down := by
  unfold shortest
  split
  · rename_i r hr
    obtain ⟨before, ⟨up', down'⟩, after, hsplit, hscale, hnone⟩ := List.findSome?_eq_some_iff.mp hr
    obtain ⟨n, hn, rfl⟩ := Option.map_eq_some_iff.mp hscale
    refine ⟨n, up', down', rfl, hn, ?_⟩
    have horder := scales_pairwise f
    rw [hsplit] at hmem horder
    rcases mem_append.mp hmem with hbefore | hafter
    · simp_all
    · grind [rel_of_pairwise_cons]
  · simp_all

/-- Text of a finite number: its shortest decimal form without an exponent. -/
def display {f : Format} (x : Finite f) : List Char :=
  let body := if x.mag = 0 then ['0'] else
    let (d, up, down) := shortest x
    positional d up down
  if x.neg then '-' :: body else body

/-- The characters of a number without an exponent. -/
def isNumberChar (c : Char) : Bool := c.isDigit || c == '.' || c == '-'

theorem isNumberChar_positional (h : c ∈ positional d up down) : isNumberChar c := by
  have hcases : c.isDigit ∨ c = '.' := by
    have hdigits : ∀ c ∈ Nat.toDigits 10 d ++ List.replicate up '0', c.isDigit :=
      fun c hc => isDigit_of_mem_digits hc
    unfold positional at h
    generalize Nat.toDigits 10 d ++ List.replicate up '0' = ds at h hdigits
    simp only at h
    split at h
    · exact .inl (hdigits c h)
    · split at h
      · simp only [mem_cons, mem_append, mem_replicate] at h
        rcases h with rfl | rfl | ⟨-, rfl⟩ | hc
        · exact .inl (by decide)
        · exact .inr rfl
        · exact .inl (by decide)
        · exact .inl (hdigits c hc)
      · grind
  rcases hcases with hdigit | rfl
  · simp [isNumberChar, hdigit]
  · decide

theorem isNumberChar_display (h : c ∈ display x) : isNumberChar c := by
  have hbody : ∀ c ∈ (if x.mag = 0 then ['0'] else
      positional (shortest x).1 (shortest x).2.1 (shortest x).2.2), isNumberChar c := by
    intro c hc
    split at hc
    · simp only [mem_singleton] at hc
      rw [hc]
      decide
    · exact isNumberChar_positional hc
  unfold display at h
  simp only at h
  split at h
  · rcases mem_cons.mp h with rfl | hc
    · decide
    · exact hbody c hc
  · exact hbody c h

/-! ### The round trip -/

theorem ofDec_of_mag_eq (x : Finite f) (h : d * 10 ^ up * 2 ^ f.unit = x.mag * 10 ^ down) :
    ofDec f x.neg d up down = .fin x := by
  have hself : roundQuot f.precision (d * 10 ^ up * 2 ^ f.unit) (10 ^ down) = x.mag := by
    rw [h]
    exact roundQuot_of_fits f.precision_pos (Nat.pow_pos (by decide)) x.fits
  have hlt : roundQuot f.precision (d * 10 ^ up * 2 ^ f.unit) (10 ^ down) < 2 ^ f.top := by
    rw [hself]
    exact x.lt_top
  unfold ofDec Flt.ofQuot
  rw [dif_pos hlt]
  congr 1
  ext
  · rfl
  · exact hself

theorem ofDec_of_atScale (h : atScale x up down = some d) : ofDec f x.neg d up down = .fin x := by
  unfold atScale at h
  simp only [Bool.and_eq_true, decide_eq_true_eq] at h
  split at h
  · simp_all
  · grind

theorem ofDec_shortest (x : Finite f) :
    ofDec f x.neg (shortest x).1 (shortest x).2.1 (shortest x).2.2 = .fin x := by
  unfold shortest
  split
  · rename_i r hr
    obtain ⟨⟨up, down⟩, -, hscale⟩ := exists_of_findSome?_eq_some hr
    obtain ⟨d, hd, rfl⟩ := Option.map_eq_some_iff.mp hscale
    exact ofDec_of_atScale hd
  · -- no short form was found: the exact expansion, `1 / 2 = 5 / 10` per bit
    apply ofDec_of_mag_eq
    rw [Nat.pow_zero, Nat.mul_one, Nat.mul_assoc, ← Nat.mul_pow]

theorem parseDigits_positional (neg : Bool) (d up down : Nat) :
    parseDigits f neg (positional d up down) = some (ofDec f neg d up down) := by
  obtain ⟨int, frac, hsplit, hne, hlen, hvalue⟩ := splitPoint_positional d up down
  unfold parseDigits
  simp only [hsplit, hvalue, hlen, isEmpty_eq_false_iff.mpr hne, Bool.false_and]
  rw [if_neg (by decide)]
  unfold ofDec
  rw [Nat.pow_zero, Nat.mul_one]

theorem splitSign_positional (d up down : Nat) :
    splitSign (positional d up down) = (false, positional d up down) := by
  obtain ⟨int, frac, hsplit, hne, -, -⟩ := splitPoint_positional d up down
  generalize positional d up down = cs at hsplit
  unfold splitSign
  split
  · cases hsplit
  · cases hsplit
  · rfl

/-- The text of a finite number is in positional notation and reads back. -/
theorem display_positional (x : Finite f) : ∃ d up down,
    display x = (if x.neg then '-' :: positional d up down else positional d up down) ∧
      ofDec f x.neg d up down = .fin x := by
  unfold display
  by_cases h0 : x.mag = 0
  · exact ⟨0, 0, 0, by simp [h0, positional], ofDec_of_mag_eq x (by simp [h0])⟩
  · exact ⟨_, _, _, by simp only [if_neg h0], ofDec_shortest x⟩

theorem splitSign_signed (neg : Bool) (d up down : Nat) :
    splitSign (if neg then '-' :: positional d up down else positional d up down) =
      (neg, positional d up down) := by
  cases neg with
  | false => exact splitSign_positional d up down
  | true => rfl

/-- **Reading undoes writing.** The text of a finite number is read as that
number, sign of zero included. -/
theorem parse_display (x : Finite f) : parse f (String.ofList (display x)) = some (.fin x) := by
  obtain ⟨d, up, down, htext, hread⟩ := display_positional x
  unfold parse
  rw [String.toList_ofList, htext, splitSign_signed]
  simp only [parseDigits_positional, hread]
  rfl

theorem display_injective {y : Finite f} (h : display x = display y) : x = y := by
  have hx := parse_display x
  rw [h, parse_display y] at hx
  cases hx
  rfl

end BinaryFloat
