/-
LIKE patterns (`like_match`).

  * `likeMatch_iff` — a text matches exactly if it can be split as the pattern says.
-/
import Mathlib.Data.List.Infix

namespace GuardianDb.Sql

open List

/-- `like_inner`: the pattern against the text, from where the scan of both stands. Of
consecutive `%` the last one counts. -/
def likeInner (esc : Option Char) : List Char → List Char → Bool
  | [], t => t.isEmpty
  | c :: p, t =>
    if some c = esc then
      match p, t with
      | d :: p, a :: t => a == d && likeInner esc p t
      | _, _ => false
    else if c = '%' then
      if p = [] then true
      else if p.head? = some '%' then likeInner esc p t
      else t.tails.any fun k => likeInner esc p k
    else
      match t with
      | [] => false
      | a :: t => (c == '_' || a == c) && likeInner esc p t

/-- `like_match`, with `str::to_lowercase`. -/
def likeMatch (toLowercase : String → String) (text pattern : String) (caseInsensitive : Bool)
    (escape : Option Char) : Bool :=
  let (t, p) := if caseInsensitive then (toLowercase text, toLowercase pattern)
    else (text, pattern)
  likeInner escape p.toList t.toList

/-- The text can be split as the pattern says. -/
inductive Like (esc : Option Char) : List Char → List Char → Prop
  | nil : Like esc [] []
  | escaped {c : Char} (d : Char) {p t : List Char} (hc : some c = esc) (h : Like esc p t) :
      Like esc (c :: d :: p) (d :: t)
  | any (s : List Char) {p t : List Char} (hc : some '%' ≠ esc) (h : Like esc p t) :
      Like esc ('%' :: p) (s ++ t)
  | one (a : Char) {p t : List Char} (hc : some '_' ≠ esc) (h : Like esc p t) :
      Like esc ('_' :: p) (a :: t)
  | self {c : Char} {p t : List Char} (hc : some c ≠ esc) (hany : c ≠ '%') (hone : c ≠ '_')
      (h : Like esc p t) : Like esc (c :: p) (c :: t)

variable {esc : Option Char} {c : Char} {p t : List Char}

theorem like_escape (hc : some c = esc) :
    Like esc (c :: p) t ↔ ∃ d p' t', p = d :: p' ∧ t = d :: t' ∧ Like esc p' t' := by
  constructor
  · intro h
    cases h with
    | escaped d _ h => exact ⟨d, _, _, rfl, rfl, h⟩
    | any | one | self => contradiction
  · rintro ⟨d, p', t', rfl, rfl, h⟩
    exact .escaped d hc h

theorem like_any (hc : some '%' ≠ esc) :
    Like esc ('%' :: p) t ↔ ∃ k, k <:+ t ∧ Like esc p k := by
  constructor
  · intro h
    cases h with
    | escaped d h' => exact absurd h' hc
    | any s _ h => exact ⟨_, suffix_append s _, h⟩
    | self => contradiction
  · rintro ⟨k, ⟨s, rfl⟩, h⟩
    exact .any s hc h

theorem like_char (hc : some c ≠ esc) (hany : c ≠ '%') :
    Like esc (c :: p) t ↔ ∃ a t', t = a :: t' ∧ (c = '_' ∨ a = c) ∧ Like esc p t' := by
  constructor
  · intro h
    cases h with
    | escaped d h' => exact absurd h' hc
    | any => contradiction
    | one a _ h => exact ⟨a, _, rfl, .inl rfl, h⟩
    | self _ _ _ h => exact ⟨c, _, rfl, .inr rfl, h⟩
  · rintro ⟨a, t', rfl, heq, h⟩
    by_cases hone : c = '_'
    · subst hone
      exact .one a hc h
    · obtain rfl := heq.resolve_left hone
      exact .self hc hany hone h

/-- The scan finds the split. -/
theorem likeInner_iff : likeInner esc p t = true ↔ Like esc p t := by
  fun_induction likeInner esc p t with
  | case1 t =>
    rw [List.isEmpty_iff]
    constructor
    · rintro rfl
      exact .nil
    · intro h
      cases h
      rfl
  | case2 c hc d p a t ih => grind [like_escape hc]
  | case3 c p t hc hno => grind [like_escape hc]
  | case4 t hc => exact iff_of_true rfl ((like_any hc).mpr ⟨[], nil_suffix, .nil⟩)
  | case5 p t hne hhead hc ih =>
    -- a second `%` takes what the first one leaves
    obtain ⟨p, rfl⟩ : ∃ q, p = '%' :: q := by cases p <;> simp_all
    rw [ih, like_any hc, like_any hc]
    constructor
    · rintro ⟨k, hk, h⟩
      exact ⟨t, suffix_rfl, (like_any hc).mpr ⟨k, hk, h⟩⟩
    · rintro ⟨k, hk, h⟩
      obtain ⟨k', hk', h⟩ := (like_any hc).mp h
      exact ⟨k', hk'.trans hk, h⟩
  | case6 p t hne hhead hc ih => simp [like_any hc, ih]
  | case7 c p hc hany => simp [like_char hc hany]
  | case8 c p hc hany a t ih => simp [like_char hc hany, ih]

/-- **`LIKE` matches exactly the texts that can be split as the pattern says.** -/
theorem likeMatch_iff (toLowercase : String → String) (text pattern : String)
    (escape : Option Char) :
    likeMatch toLowercase text pattern false escape = true ↔
      Like escape pattern.toList text.toList :=
  likeInner_iff

end GuardianDb.Sql
