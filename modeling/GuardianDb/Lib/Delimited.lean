/-
Text formats that can be read back: self-delimiting codes.

A code cuts in front of a set of continuations when the end of a code word can
be found: no two words followed by such continuations give the same text except
the same word followed by the same continuation. Formats are built from runs of
characters, quoted text and separated lists, and injectivity of the whole
follows from the pieces.

  * `cuts_run` — words of allowed characters, in front of any other character.
  * `flatMap_cut`, `escaped_cut`, `doubled_cut` — quoted text, with escapes and with
    doubled quotes.
  * `intercalate_cut` — lists of words with a separator.
-/
import Mathlib.Data.List.TakeWhile

namespace Delimited

open List

variable {α : Type*}

/-- Words of `code` are cut off unambiguously in front of `follow`. -/
def Cuts (dom : α → Prop) (code : α → List Char) (follow : List Char → Prop) : Prop :=
  ∀ a b s t, dom a → dom b → follow s → follow t → code a ++ s = code b ++ t →
    code a = code b ∧ s = t

/-- The text is at its end, or its next character fails `p`. -/
def Stops (p : Char → Bool) (s : List Char) : Prop := ∀ c rest, s = c :: rest → p c = false

theorem stops_nil (p : Char → Bool) : Stops p [] := by
  intro c rest h
  cases h

variable {p : Char → Bool}

theorem stops_cons {c : Char} (h : p c = false) (s : List Char) :
    Stops p (c :: s) := by
  intro d rest heq
  cases heq
  exact h

variable {t u s s' : List Char}

/-- Characters that satisfy `p` end where `p` fails. -/
theorem run_cut (ht : ∀ c ∈ t, p c = true)
    (hu : ∀ c ∈ u, p c = true) (hs : Stops p s) (hs' : Stops p s') (h : t ++ s = u ++ s') :
    t = u ∧ s = s' := by
  have htake : ∀ {t s}, (∀ c ∈ t, p c = true) → Stops p s →
      (t ++ s).takeWhile p = t := by
    intro t s ht hs
    rw [takeWhile_append_of_pos ht]
    cases s with
    | nil => simp
    | cons c rest => simp [hs c rest rfl]
  have hword : t = u := by
    rw [← htake ht hs, h, htake hu hs']
  refine ⟨hword, ?_⟩
  rw [hword] at h
  exact append_cancel_left h

/-- **Runs.** Words of characters that satisfy `p` are cut where `p` fails. -/
theorem cuts_run {dom : α → Prop} {code : α → List Char}
    (h : ∀ a, dom a → ∀ c ∈ code a, p c = true) : Cuts dom code (Stops p) := by
  intro a b s t ha hb hs ht heq
  exact run_cut (h a ha) (h b hb) hs ht heq

/-! ### Quoted text -/

/-- **Text written character by character** is ended by a `q` that no character's code
can be mistaken for in front of `follow`, if the codes are prefix-free. -/
theorem flatMap_cut {code : Char → List Char} {q : Char} (follow : List Char → Prop)
    (hcode : ∀ c d s s', code c ++ s = code d ++ s' → c = d ∧ s = s')
    (hend : ∀ c s s', follow s' → code c ++ s ≠ q :: s') (hs : follow s)
    (hs' : follow s') (h : t.flatMap code ++ q :: s = u.flatMap code ++ q :: s') :
    t = u ∧ s = s' := by
  induction t generalizing u with
  | nil =>
    cases u with
    | nil => exact ⟨rfl, (List.cons.inj h).2⟩
    | cons d u =>
      rw [flatMap_cons, append_assoc] at h
      exact absurd h.symm (hend d _ s hs)
  | cons c t ih =>
    cases u with
    | nil =>
      rw [flatMap_cons, append_assoc] at h
      exact absurd h (hend c _ s' hs')
    | cons d u =>
      rw [flatMap_cons, flatMap_cons, append_assoc, append_assoc] at h
      obtain ⟨rfl, hrest⟩ := hcode c d _ _ h
      obtain ⟨rfl, heq⟩ := ih hrest
      exact ⟨rfl, heq⟩

/-- Characters `e` and `q` are preceded by `e`. -/
def escaped (e q : Char) (text : List Char) : List Char :=
  text.flatMap fun c => if c = e ∨ c = q then [e, c] else [c]

/-- **Escapes.** An unescaped `q` ends escaped text, whatever follows. -/
theorem escaped_cut {e q : Char} (hne : e ≠ q)
    (h : escaped e q t ++ q :: s = escaped e q u ++ q :: s') : t = u ∧ s = s' := by
  refine flatMap_cut (fun _ => True) (fun c d s s' h => ?_) (fun c s s' _ h => ?_) trivial
    trivial h
  · split at h <;> split at h <;> simp_all
  · split at h <;> simp_all

/-- Characters `b` and `q` are written twice. -/
def doubled (b q : Char) (text : List Char) : List Char :=
  text.flatMap fun c => if c = b ∨ c = q then [c, c] else [c]

/-- **Doubled quotes.** A single `q` ends the text, if no further `q` follows. -/
theorem doubled_cut {b q : Char} (hs : Stops (· == q) s)
    (hs' : Stops (· == q) s') (h : doubled b q t ++ q :: s = doubled b q u ++ q :: s') :
    t = u ∧ s = s' := by
  refine flatMap_cut _ (fun c d s s' h => ?_) (fun c s s' hs' h => ?_) hs hs' h
  · split at h <;> split at h <;> simp_all
  · split at h
    · obtain ⟨hq, hrest⟩ := List.cons.inj h
      simpa [hq] using hs' c s hrest.symm
    · simp_all

/-! ### Separated lists -/

/-- What follows the first of several separated words. -/
def afterFirst (sep : List Char) : List (List Char) → List Char
  | [] => []
  | w :: ws => sep ++ sep.intercalate (w :: ws)

theorem intercalate_cons (sep w : List Char) (ws : List (List Char)) :
    sep.intercalate (w :: ws) = w ++ afterFirst sep ws := by
  cases ws with
  | nil => simp [afterFirst]
  | cons v vs => simp [afterFirst, intercalate_cons_cons]

/-- **Lists.** Words that are cut in front of the separator and of the endings
make lists that are cut in front of the endings, if no ending begins like the
separator and no word can be mistaken for an ending. -/
theorem intercalate_cut (ends : List Char → Prop) {dom : α → Prop} {code : α → List Char}
    {follow : List Char → Prop} {c : Char} {sep : List Char} (hitem : Cuts dom code follow)
    (hsep : ∀ s, follow (c :: sep ++ s)) (hends : ∀ s, ends s → follow s)
    (hother : ∀ s, ¬ ends (c :: s)) (hword : ∀ a, dom a → ∀ s, ¬ ends (code a ++ s))
    {xs ys : List α} {s t : List Char} (hxs : ∀ x ∈ xs, dom x) (hys : ∀ y ∈ ys, dom y)
    (hs : ends s) (ht : ends t)
    (heq : (c :: sep).intercalate (xs.map code) ++ s = (c :: sep).intercalate (ys.map code) ++ t) :
    xs.map code = ys.map code ∧ s = t := by
  have hfollow : ∀ (ws : List α) (s : List Char), ends s →
      follow (afterFirst (c :: sep) (ws.map code) ++ s) := by
    intro ws s hs
    cases ws with
    | nil => exact hends s hs
    | cons w ws =>
      rw [map_cons, afterFirst, append_assoc]
      exact hsep _
  induction xs generalizing ys with
  | nil =>
    cases ys with
    | nil => exact ⟨rfl, heq⟩
    | cons y ys =>
      simp only [map_nil, intercalate_nil, nil_append, map_cons,
        intercalate_cons, append_assoc] at heq
      exact absurd (heq ▸ hs) (hword y (hys y mem_cons_self) _)
  | cons x xs ih =>
    have hx := hxs x mem_cons_self
    cases ys with
    | nil =>
      simp only [map_nil, intercalate_nil, nil_append, map_cons,
        intercalate_cons, append_assoc] at heq
      exact absurd (heq ▸ ht) (hword x hx _)
    | cons y ys =>
      simp only [map_cons, intercalate_cons, append_assoc] at heq
      obtain ⟨hcode, hrest⟩ := hitem x y _ _ hx (hys y mem_cons_self)
        (hfollow xs s hs) (hfollow ys t ht) heq
      -- after the first word either both lists end or both go on
      have htail : xs.map code = ys.map code ∧ s = t := by
        cases xs with
        | nil =>
          cases ys with
          | nil => exact ⟨rfl, hrest⟩
          | cons y' ys =>
            change s = _ at hrest
            exact absurd (hrest ▸ hs) (hother _)
        | cons x' xs =>
          cases ys with
          | nil =>
            change _ = t at hrest
            exact absurd (hrest ▸ ht) (hother _)
          | cons y' ys =>
            simp only [map_cons, afterFirst, append_assoc] at hrest
            exact ih (fun x hx => hxs x (mem_cons_of_mem _ hx))
              (fun y hy => hys y (mem_cons_of_mem _ hy))
              (append_cancel_left hrest)
      exact ⟨by rw [map_cons, map_cons, hcode, htail.1], htail.2⟩

end Delimited
