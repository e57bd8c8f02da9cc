/-
Observations of results.

Two computations may have to agree only in part: in all of their result, or only in
its value. An observation is a view of results that goes through sequencing and loops,
so that agreement of the steps gives agreement of the whole.
-/
import GuardianDb.Lib.Fallible

/-- A view of the results of computations that is compatible with sequencing. -/
structure Observation (ε : Type) (F : Type → Type) [Monad F] [LawfulMonad F] where
  of : {α : Type} → Except ε α → F α
  of_ok : ∀ {α : Type} (a : α), of (.ok a) = pure a
  of_bind : ∀ {α β : Type} (x : Except ε α) (f : α → Except ε β),
    of (x >>= f) = of x >>= fun a => of (f a)

namespace Observation

variable {ε α β : Type}

/-- The whole result. -/
def exact : Observation ε (Except ε) := ⟨id, fun _ => rfl, fun _ _ => rfl⟩

/-- The value, or that there is none. -/
def value : Observation ε Option := ⟨Except.toOption, fun _ => rfl, fun x _ => by cases x <;> rfl⟩

variable {F : Type → Type} [Monad F] [LawfulMonad F] (T : Observation ε F)

theorem of_pure (a : α) : T.of (pure a) = pure a := T.of_ok a

/-- Steps that agree, the second only where the first gives something. -/
theorem of_bind_congr {x x' : Except ε α} {f f' : α → Except ε β} (hx : T.of x = T.of x')
    (hf : ∀ a, x = .ok a → T.of (f a) = T.of (f' a)) : T.of (x >>= f) = T.of (x' >>= f') := by
  have hstep : T.of (x >>= f) = T.of (x >>= f') := by
    cases x with
    | error e => rfl
    | ok a => exact hf a rfl
  rw [hstep, T.of_bind, T.of_bind, hx]

theorem of_ite {c : Prop} [Decidable c] (x y : Except ε α) :
    T.of (if c then x else y) = if c then T.of x else T.of y := apply_ite _ c x y

theorem of_foldlM (f : β → α → Except ε β) (l : List α) (b : β) :
    T.of (l.foldlM f b) = l.foldlM (fun b a => T.of (f b a)) b := by
  induction l generalizing b with
  | nil => exact T.of_ok b
  | cons a l ih => simp [T.of_bind, ih]

theorem of_filterM (p : α → Except ε Bool) (l : List α) :
    T.of (l.filterM p) = l.filterM fun a => T.of (p a) := by
  have hloop : ∀ l acc, T.of (List.filterAuxM p l acc) =
      List.filterAuxM (fun a => T.of (p a)) l acc := by
    intro l
    induction l with
    | nil => exact fun acc => T.of_ok acc
    | cons a l ih => exact fun acc => by simp [T.of_bind, ih]
  simp only [List.filterM, T.of_bind, T.of_pure, hloop]

theorem of_map (f : α → β) (x : Except ε α) : T.of (x.map f) = f <$> T.of x := by
  have hmap : x.map f = x >>= fun a => .ok (f a) := by cases x <;> rfl
  simp [hmap, T.of_bind, T.of_ok]

theorem of_mapM (f : α → Except ε β) (l : List α) :
    T.of (l.mapM f) = l.mapM fun a => T.of (f a) := by
  induction l with
  | nil => exact T.of_ok []
  | cons a l ih => simp only [List.mapM_cons, T.of_bind, T.of_pure, ih]

end Observation
