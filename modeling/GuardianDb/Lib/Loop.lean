/-
Bounded `while` loops and left folds, with their invariant rules.

An imperative loop is written `whileLoop cond body fuel s`: the body is run as
long as the condition holds, at most `fuel` times. A fuel that covers a
decreasing measure makes the cut-off invisible (`whileLoop_done`), so a model
that computes such a fuel up front runs its loop to the end.

  * `whileLoop_done` — with fuel for a measure, the loop ends, and what one round preserves
    holds then.
  * `foldl_invariant`, `foldl_frame`, `foldl_adds` — the same for a `for` loop over a list.
  * `foldl_absorb` — a step that later steps do not undo is as good as the last one.
-/
import Mathlib.Data.List.Basic

namespace Loop

variable {σ α : Type*}

/-- `while cond(s) { s = body(s) }`, cut off after `fuel` rounds. -/
def whileLoop (cond : σ → Bool) (body : σ → σ) : Nat → σ → σ
  | 0, s => s
  | fuel + 1, s => if cond s then whileLoop cond body fuel (body s) else s

section
variable {c : σ → Bool} {b : σ → σ} {I : σ → Prop}

/-- **Loop rule.** If every round keeps the invariant and lowers a measure, a fuel that
covers the measure lets the loop end by itself, with the invariant. -/
theorem whileLoop_done (measure : σ → Nat)
    (step : ∀ s, c s = true → I s → I (b s) ∧ measure (b s) < measure s) :
    ∀ (fuel : Nat) {s : σ}, I s → measure s ≤ fuel →
      I (whileLoop c b fuel s) ∧ c (whileLoop c b fuel s) = false
  | 0, s, h, hm => by
      refine ⟨h, Bool.eq_false_iff.mpr fun hc => ?_⟩
      have hlt := (step s hc h).2
      omega
  | fuel + 1, s, h, hm => by
      by_cases hc : c s = true
      · obtain ⟨hnext, hlt⟩ := step s hc h
        simpa [whileLoop, hc] using whileLoop_done measure step fuel hnext (by omega)
      · simpa [whileLoop, hc] using h

end

variable {f : σ → α → σ}

/-- Invariant rule for `for a in as { s = f(s, a) }`. -/
theorem foldl_invariant {I : σ → Prop} :
    ∀ (as : List α), (∀ s, ∀ a ∈ as, I s → I (f s a)) →
      ∀ {s : σ}, I s → I (as.foldl f s)
  | [], _, _, h => h
  | a :: as, step, s, h =>
    foldl_invariant as (fun s b hb => step s b (.tail a hb))
      (step s a (.head _) h)

/-- What no step of a `for` loop changes, the loop does not. -/
theorem foldl_frame {β : Type*} (p : σ → β) (h : ∀ s a, p (f s a) = p s)
    (as : List α) (s : σ) : p (as.foldl f s) = p s :=
  foldl_invariant (I := (p · = p s)) as (fun t a _ ht => (h t a).trans ht) rfl

/-- What each element of a `for` loop adds is there after it. -/
theorem foldl_adds {M : σ → Prop} {P : α → Prop}
    (h : ∀ s a, M (f s a) ↔ M s ∨ P a) (as : List α) (s : σ) :
    M (as.foldl f s) ↔ M s ∨ ∃ a ∈ as, P a := by
  induction as generalizing s with
  | nil => simp
  | cons a as ih => simp [ih, h, or_assoc]

/-- Elements that change nothing leave the state of a `for` loop where it is. -/
theorem foldl_fixed {s : σ} {as : List α} (h : ∀ a ∈ as, f s a = s) :
    as.foldl f s = s :=
  foldl_invariant (I := (· = s)) as (fun _ a ha hs => hs ▸ h a ha) rfl

/-- **Absorbing state.** If one of the elements takes every state of the invariant to
`goal`, and no element leads out of `goal`, the loop ends in `goal` whatever its order. -/
theorem foldl_absorb {I : σ → Prop} {goal : σ} {as : List α} {a : α}
    (ha : a ∈ as) (step : ∀ s, ∀ b ∈ as, I s → I (f s b)) (reach : ∀ s, I s → f s a = goal)
    (fixed : ∀ b ∈ as, f goal b = goal) {s : σ} (h : I s) : as.foldl f s = goal := by
  obtain ⟨before, after, rfl⟩ := List.append_of_mem ha
  rw [List.foldl_append, List.foldl_cons, reach]
  · exact foldl_fixed fun b hb => fixed b (by simp [hb])
  · exact foldl_invariant before (fun s b hb => step s b (by simp [hb])) h

end Loop
