/-
Runs of a partial step function, and debts along a run.

A step function `σ → α → Option σ` says what each action does in the states that
allow it. Some actions put a component of the state, named by a key, into a
condition that only a later action repairs; `owes` follows whether such a repair
is still outstanding.

  * `run_invariant` — what every step under a condition preserves holds at the end
    of a run that meets the condition.
  * `exists_run` — some run is done, if a step decreases a measure until then.
  * `since_concat` — events after which only certain others happened.
  * `run_of_not_owes` — a key is good at the end unless a repair is outstanding.
  * `not_owes_of_repair` — a repair settles everything before it.
-/
import Mathlib.Data.List.Basic

namespace Run

open List

variable {σ α κ : Type*}

/-- The state after the actions, if each of them is allowed in turn. -/
def run (step : σ → α → Option σ) : σ → List α → Option σ
  | s, [] => some s
  | s, a :: acts => (step s a).bind fun s' => run step s' acts

variable {step : σ → α → Option σ}

theorem run_cons {s s' : σ} {a : α} {acts : List α} :
    run step s (a :: acts) = some s' ↔ ∃ t, step s a = some t ∧ run step t acts = some s' :=
  Option.bind_eq_some_iff

/-- Every action of a run satisfies `P` in the state it is taken in. -/
def Along (step : σ → α → Option σ) (P : σ → α → Prop) : σ → List α → Prop
  | _, [] => True
  | s, a :: acts => P s a ∧ ∀ s', step s a = some s' → Along step P s' acts

theorem along_true : ∀ (acts : List α) (s : σ), Along step (fun _ _ => True) s acts
  | [], _ => trivial
  | _ :: acts, _ => ⟨trivial, fun s' _ => along_true acts s'⟩

variable {P : σ → α → Prop}

/-- **What every step that satisfies `P` preserves holds at the end of a run of
such steps.** -/
theorem run_invariant {Inv : σ → Prop}
    (hstep : ∀ s a s', step s a = some s' → P s a → Inv s → Inv s') :
    ∀ {acts : List α} {s s' : σ}, Along step P s acts → Inv s → run step s acts = some s' → Inv s'
  | [], s, s', _, hinv, hrun => by
      cases hrun
      exact hinv
  | a :: acts, s, s', hP, hinv, hrun => by
      obtain ⟨t, ht, hrest⟩ := run_cons.mp hrun
      exact run_invariant hstep (hP.2 t ht) (hstep s a t ht hP.1 hinv) hrest

/-- **A measure that some step decreases, as long as the run is not done, leads to a state
that is.** -/
theorem exists_run {Inv Done : σ → Prop} (μ : σ → Nat)
    (hstep : ∀ s, Inv s → ¬ Done s → ∃ a s', step s a = some s' ∧ P s a ∧ Inv s' ∧ μ s' < μ s)
    (s : σ) (hs : Inv s) :
    ∃ acts s', run step s acts = some s' ∧ Along step P s acts ∧ Inv s' ∧ Done s' := by
  by_cases hdone : Done s
  · exact ⟨[], s, rfl, trivial, hs, hdone⟩
  · obtain ⟨a, t, ht, hP, hinv, hlt⟩ := hstep s hs hdone
    obtain ⟨acts, s', hrun, halong, hs'⟩ := exists_run μ hstep t hinv
    refine ⟨a :: acts, s', run_cons.mpr ⟨t, ht, hrun⟩, ⟨hP, fun t' ht' => ?_⟩, hs'⟩
    cases ht.symm.trans ht'
    exact halong
termination_by μ s

/-- A decidable condition along a run, by running it. -/
def check (step : σ → α → Option σ) (p : σ → α → Bool) : σ → List α → Bool
  | _, [] => true
  | s, a :: acts => p s a && match step s a with
      | none => true
      | some s' => check step p s' acts

theorem along_of_check {p : σ → α → Bool} (h : ∀ s a, p s a = true → P s a) :
    ∀ {acts : List α} {s : σ}, check step p s acts = true → Along step P s acts
  | [], _, _ => trivial
  | a :: acts, s, hcheck => by
      rw [check, Bool.and_eq_true] at hcheck
      refine ⟨h s a hcheck.1, fun s' hs' => ?_⟩
      have hrest := hcheck.2
      rw [hs'] at hrest
      exact along_of_check h hrest

/-- **After one more event**, something was the case at an event with only `Q` after it
if it is now, or if it was before and the new event satisfies `Q`. -/
theorem since_concat {P : List α → α → Prop} {Q : α → Prop} {l : List α} {a : α} :
    (∃ before b after, l ++ [a] = before ++ b :: after ∧ P before b ∧ ∀ c ∈ after, Q c) ↔
      P l a ∨ Q a ∧ ∃ before b after, l = before ++ b :: after ∧ P before b ∧ ∀ c ∈ after, Q c := by
  constructor
  · rintro ⟨before, b, after, h, hP, hQ⟩
    rcases eq_nil_or_concat after with rfl | ⟨rest, x, rfl⟩
    · obtain ⟨rfl, hb⟩ := append_inj' h rfl
      exact .inl (singleton_inj.mp hb ▸ hP)
    · have heq : l ++ [a] = (before ++ b :: rest) ++ [x] := by simpa using h
      obtain ⟨rfl, hx⟩ := append_inj' heq rfl
      obtain rfl := singleton_inj.mp hx
      exact .inr ⟨hQ a (by simp), before, b, rest, rfl, hP, fun c hc => hQ c (by simp [hc])⟩
  · rintro (hP | ⟨hQ, before, b, after, rfl, hP, hafter⟩)
    · exact ⟨l, a, [], rfl, hP, by simp⟩
    · exact ⟨before, b, after ++ [a], by simp, hP, by simpa [or_imp, forall_and] using ⟨hafter, hQ⟩⟩

/-- Some action of the run harmed the key `k` and none after it was a repair;
`debt` says so of what happened before the run. -/
def owes (step : σ → α → Option σ) (Harms : σ → α → κ → Prop) (Repairs : σ → α → Prop) (k : κ) :
    Prop → σ → List α → Prop
  | debt, _, [] => debt
  | debt, s, a :: acts =>
      match step s a with
      | none => False
      | some s' => owes step Harms Repairs k ((debt ∨ Harms s a k) ∧ ¬ Repairs s a) s' acts

/-- **A key without an outstanding repair is good.** Steps keep `Inv`, keep a good
key good unless they harm it, and make every key good when they are repairs. -/
theorem run_of_not_owes {Harms : σ → α → κ → Prop} {Repairs : σ → α → Prop} (Inv : σ → Prop)
    (Good : σ → κ → Prop) (hinv : ∀ s a s', step s a = some s' → Inv s → Inv s')
    (hkeep : ∀ s a s' k, step s a = some s' → Inv s → Good s k → ¬ Harms s a k → Good s' k)
    (hrepair : ∀ s a s' k, step s a = some s' → Inv s → Repairs s a → Good s' k) {k : κ} :
    ∀ {acts : List α} {debt : Prop} {s s' : σ}, Inv s → (¬ debt → Good s k) →
      run step s acts = some s' → ¬ owes step Harms Repairs k debt s acts → Good s' k
  | [], debt, s, s', _, hgood, hrun, howes => by
      cases hrun
      exact hgood howes
  | a :: acts, debt, s, s', hs, hgood, hrun, howes => by
      obtain ⟨t, ht, hrest⟩ := run_cons.mp hrun
      rw [owes, ht] at howes
      refine run_of_not_owes Inv Good hinv hkeep hrepair (hinv s a t ht hs) ?_ hrest howes
      intro hclear
      by_cases hrep : Repairs s a
      · exact hrepair s a t k ht hs hrep
      · grind

section
variable {step : σ → α → Option σ} {Harms : σ → α → κ → Prop} {Repairs : σ → α → Prop} {k : κ}

theorem not_owes_of_harmless : ∀ {acts : List α} {debt : Prop} {s : σ}, ¬ debt →
    (∀ s, ∀ a ∈ acts, ¬ Harms s a k) → ¬ owes step Harms Repairs k debt s acts
  | [], _, _, hdebt, _ => hdebt
  | a :: acts, debt, s, hdebt, hnone => by
      rw [owes]
      cases step s a with
      | none => exact id
      | some t =>
        refine not_owes_of_harmless (fun h => ?_) fun s b hb =>
          hnone s b (mem_cons_of_mem a hb)
        exact h.1.elim hdebt (hnone s a mem_cons_self)

/-- Whatever came before a repair is forgotten. -/
theorem not_owes_of_repair {a : α} {post : List α} (hrep : ∀ s, Repairs s a)
    (hpost : ∀ s, ∀ b ∈ post, ¬ Harms s b k) : ∀ {pre : List α} {debt : Prop} {s : σ},
    ¬ owes step Harms Repairs k debt s (pre ++ a :: post)
  | [], debt, s => by
      rw [nil_append, owes]
      cases step s a with
      | none => exact id
      | some t => exact not_owes_of_harmless (fun h => h.2 (hrep s)) hpost
  | b :: pre, debt, s => by
      rw [cons_append, owes]
      cases step s b with
      | none => exact id
      | some t => exact not_owes_of_repair hrep hpost

end

end Run
