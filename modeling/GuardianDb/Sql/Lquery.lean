/-
Matching an ltree path against an lquery (`sql/ext/ltree.rs`): the query is a list of
levels, and each level takes a run of the path's labels.

The matcher backtracks: a level tries its runs from the shortest on. The parser is left
out, so any levels may stand in a query here; lowercasing is a parameter.

  * `lqueryMatch_iff_runs` — a path matches exactly when its labels divide into runs that
    the levels take.
-/
import Mathlib.Data.List.Forall2

namespace GuardianDb.Sql.Lquery

/-- One `|`-alternation branch of a level. -/
structure Variant where
  label : String
  /-- `@` — case-insensitive. -/
  ci : Bool
  /-- `*` — the label only has to begin so. -/
  byPrefix : Bool
  /-- `%` — match underscore-separated words. -/
  word : Bool

/-- One item of a query; `not` covers the whole alternation. -/
structure Level where
  not : Bool
  /-- `*` — matches any labels; `variants` is empty. -/
  star : Bool
  min : Nat
  max : Nat
  variants : List Variant

/-- The pattern's words match a contiguous run of the label's words. -/
def wordMatch (pattern label : String) (byPrefix : Bool) : Bool :=
  let pwords := pattern.toList.splitOn '_'
  let lwords := label.toList.splitOn '_'
  if pwords.length > lwords.length then false
  else (List.range (lwords.length - pwords.length + 1)).any fun start =>
    (pwords.zip (lwords.drop start)).all fun (p, l) =>
      if byPrefix then p.isPrefixOf l else l == p

section
variable (lower : String → String)

def variantMatches (v : Variant) (label : String) : Bool :=
  let (pat, lab) := if v.ci then (lower v.label, lower label) else (v.label, label)
  if v.word then wordMatch pat lab v.byPrefix
  else if v.byPrefix then pat.toList.isPrefixOf lab.toList
  else lab == pat

def levelMatches (level : Level) (label : String) : Bool :=
  if level.star then true
  else level.variants.any (variantMatches lower · label) != level.not

/-- The loop of `lqueryMatch`, with `count` labels taken and `labels` left; `rest` matches
the levels that follow. -/
def consume (level : Level) (rest : List String → Bool) (cap count : Nat) :
    List String → Bool
  | [] => level.min ≤ count && rest []
  | label :: labels =>
    (level.min ≤ count && rest (label :: labels)) ||
      (count != cap && levelMatches lower level label &&
        consume level rest cap (count + 1) labels)

def lqueryMatch : List Level → List String → Bool
  | [], labels => labels.isEmpty
  | level :: levels, labels =>
    if level.min > labels.length then false
    else consume lower level (lqueryMatch levels) (min level.max labels.length) 0 labels

/-- A run that the level takes. -/
def Level.Takes (level : Level) (run : List String) : Prop :=
  level.min ≤ run.length ∧ run.length ≤ level.max ∧
    ∀ label ∈ run, levelMatches lower level label = true

end

variable {lower : String → String} {level : Level} {rest : List String → Bool} {cap : Nat}

theorem consume_iff {labels : List String} : ∀ {count : Nat}, count ≤ cap →
    (consume lower level rest cap count labels = true ↔ ∃ run tail, run ++ tail = labels ∧
      level.min ≤ count + run.length ∧ count + run.length ≤ cap ∧
        (∀ label ∈ run, levelMatches lower level label = true) ∧ rest tail = true) := by
  induction labels with
  | nil =>
    intro count hcount
    simp [consume, hcount]
  | cons label labels ih =>
    intro count hcount
    simp only [consume, Bool.or_eq_true, Bool.and_eq_true, decide_eq_true_eq, bne_iff_ne]
    constructor
    · rintro (⟨hmin, hrest⟩ | ⟨⟨hne, hlabel⟩, h⟩)
      · exact ⟨[], _, rfl, hmin, hcount, by simp, hrest⟩
      · obtain ⟨run, tail, rfl, hmin, hcap, hrun, hrest⟩ := (ih (by omega)).mp h
        refine ⟨label :: run, tail, rfl, ?_, ?_, List.forall_mem_cons.mpr ⟨hlabel, hrun⟩, hrest⟩
        all_goals
          rw [List.length_cons]
          omega
    · rintro ⟨_ | ⟨label', run⟩, tail, happ, hmin, hcap, hrun, hrest⟩
      · cases happ
        exact .inl ⟨hmin, hrest⟩
      · cases happ
        rw [List.length_cons] at hmin hcap
        obtain ⟨hlabel, hrun⟩ := List.forall_mem_cons.mp hrun
        refine .inr ⟨⟨by omega, hlabel⟩, (ih (by omega)).mpr ⟨run, tail, rfl, ?_⟩⟩
        exact ⟨by omega, by omega, hrun, hrest⟩

/-- The first level takes a run and the others match what is left. -/
theorem lqueryMatch_cons {levels : List Level} {labels : List String} :
    lqueryMatch lower (level :: levels) labels = true ↔ ∃ run tail, run ++ tail = labels ∧
      level.Takes lower run ∧ lqueryMatch lower levels tail = true := by
  rw [lqueryMatch]
  unfold Level.Takes
  split
  · next hmin =>
    refine ⟨nofun, ?_⟩
    rintro ⟨run, tail, rfl, ⟨hle, -⟩, -⟩
    rw [List.length_append] at hmin
    omega
  · rw [consume_iff (Nat.zero_le _)]
    refine exists₂_congr fun run tail => and_congr_right ?_
    rintro rfl
    rw [Nat.zero_add, Nat.le_min, List.length_append]
    simp only [Nat.le_add_right, and_true, and_assoc]

/-- **An lquery matches what it describes.** The labels are divided into consecutive runs,
one per level in order, each taken by its level. -/
theorem lqueryMatch_iff_runs (lower : String → String) (levels : List Level)
    (labels : List String) : lqueryMatch lower levels labels = true ↔
      ∃ runs, runs.flatten = labels ∧ List.Forall₂ (Level.Takes lower) levels runs := by
  induction levels generalizing labels with
  | nil => cases labels <;> simp [lqueryMatch]
  | cons level levels ih =>
    simp only [lqueryMatch_cons, ih, List.forall₂_cons_left_iff]
    constructor
    · rintro ⟨run, _, rfl, hrun, runs, rfl, hruns⟩
      exact ⟨run :: runs, rfl, run, runs, hrun, hruns, rfl⟩
    · rintro ⟨_, rfl, run, runs, hrun, hruns, rfl⟩
      exact ⟨run, runs.flatten, rfl, hrun, runs, rfl, hruns⟩

end GuardianDb.Sql.Lquery
