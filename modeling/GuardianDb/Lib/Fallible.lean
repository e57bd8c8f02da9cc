/-
Computations that can fail and keep their state when they do.

`Fallible σ ε α` is `ExceptT ε (StateM σ) α`: an error ends the computation and
leaves the state as it is at that point. Four judgments say what such a
computation does, each with rules for sequencing and for loops.

  * `Ensures` — what is true of the state when it succeeds.
  * `Leads` — how the state after success relates to the one before.
  * `Keeps` — what it leaves unchanged, however it ends.
  * `Spares` — what it leaves unchanged when it fails.
-/
import Mathlib.Control.Lawful
import Mathlib.Order.Defs.Unbundled

/-- A computation that can fail and keeps its state when it does. -/
abbrev Fallible (σ ε α : Type) := ExceptT ε (StateM σ) α

namespace Fallible

open List

variable {σ ε α β V : Type}

/-- The result and the state after. -/
def exec (m : Fallible σ ε α) (s : σ) : Except ε α × σ := m s

/-- The result of a pure computation. -/
def ofExcept (r : Except ε α) : Fallible σ ε α := fun s => (r, s)

@[simp] theorem exec_ofExcept (r : Except ε α) (s : σ) :
    (ofExcept r : Fallible σ ε α).exec s = (r, s) := rfl

@[simp] theorem exec_pure (a : α) (s : σ) : (pure a : Fallible σ ε α).exec s = (.ok a, s) := rfl

@[simp] theorem exec_get (s : σ) : (get : Fallible σ ε σ).exec s = (.ok s, s) := rfl

@[simp] theorem exec_modify (f : σ → σ) (s : σ) :
    (modify f : Fallible σ ε PUnit).exec s = (.ok ⟨⟩, f s) := rfl

theorem exec_bind (m : Fallible σ ε α) (f : α → Fallible σ ε β) (s : σ) :
    (m >>= f).exec s = match m.exec s with
      | (.ok a, t) => (f a).exec t
      | (.error e, t) => (.error e, t) := by
  change (match m s with
    | (a, t) => ExceptT.bindCont f a t) = _
  rcases h : m s with ⟨e | a, t⟩
  · simp [exec, h, ExceptT.bindCont]
    rfl
  · simp [exec, h, ExceptT.bindCont]

variable {m : Fallible σ ε α} {f : α → Fallible σ ε β} {b : β}

theorem bind_ok {s s' : σ} :
    (m >>= f).exec s = (.ok b, s') ↔
      ∃ a t, m.exec s = (.ok a, t) ∧ (f a).exec t = (.ok b, s') := by
  rw [exec_bind]
  rcases m.exec s with ⟨_ | a, t⟩ <;> simp [and_assoc]

theorem bind_error {s s' : σ} {e : ε} :
    (m >>= f).exec s = (.error e, s') ↔ m.exec s = (.error e, s') ∨
      ∃ a t, m.exec s = (.ok a, t) ∧ (f a).exec t = (.error e, s') := by
  rw [exec_bind]
  rcases m.exec s with ⟨_ | a, t⟩ <;> simp [and_assoc]

variable {l : List α}

theorem mapM_congr {m : Type → Type} [Monad m] [LawfulMonad m] {f g : α → m β}
    (h : ∀ a ∈ l, f a = g a) : l.mapM f = l.mapM g := by
  induction l with
  | nil => rfl
  | cons a l ih => simp_all

theorem foldlM_congr {m : Type → Type} [Monad m] {f g : β → α → m β}
    (h : ∀ a ∈ l, ∀ b, f b a = g b a) (b : β) : l.foldlM f b = l.foldlM g b := by
  induction l generalizing b with
  | nil => rfl
  | cons a l ih => simp_all

variable {x : Except ε α}

/-- What follows a computation matters for its result only. -/
theorem except_bind_congr {f g : α → Except ε β} (h : ∀ a, x = .ok a → f a = g a) :
    x >>= f = x >>= g := by
  cases x with
  | error e => rfl
  | ok a => exact h a rfl

/-- A sequence of pure computations succeeds if both do. -/
theorem except_bind_ok {f : α → Except ε β} : (x >>= f) = .ok b ↔ ∃ a, x = .ok a ∧ f a = .ok b := by
  cases x with
  | error e =>
    refine ⟨fun h => ?_, fun ⟨a, h, _⟩ => ?_⟩
    · cases h
    · cases h
  | ok a =>
    refine ⟨fun h => ⟨a, rfl, h⟩, fun ⟨a', h, h'⟩ => ?_⟩
    cases h
    exact h'

theorem except_map_ok {f : α → β} : x.map f = .ok b ↔ ∃ a, x = .ok a ∧ f a = b := by
  cases x with
  | error e =>
    refine ⟨fun h => ?_, fun ⟨a, h, _⟩ => ?_⟩
    · cases h
    · cases h
  | ok a =>
    refine ⟨fun h => ⟨a, rfl, Except.ok.inj h⟩, fun ⟨a', h, h'⟩ => ?_⟩
    cases h
    exact congrArg Except.ok h'

/-- The results of a pure loop are results of its body. -/
theorem except_mapM_ok {f : α → Except ε β} : ∀ {l : List α} {bs : List β},
    l.mapM f = .ok bs → ∀ b ∈ bs, ∃ a ∈ l, f a = .ok b
  | [], bs, h, b, hb => by
      rw [mapM_nil] at h
      cases h
      cases hb
  | a :: l, bs, h, b, hb => by
      rw [mapM_cons] at h
      obtain ⟨b₀, hhead, h⟩ := except_bind_ok.mp h
      obtain ⟨bs', htail, h⟩ := except_bind_ok.mp h
      cases h
      rcases mem_cons.mp hb with rfl | hb
      · exact ⟨a, .head _, hhead⟩
      · obtain ⟨a', ha', hrun⟩ := except_mapM_ok htail b hb
        exact ⟨a', .tail a ha', hrun⟩

theorem except_toOption_eq_some {a : α} : x.toOption = some a ↔ x = .ok a := by
  cases x <;> simp [Except.toOption]

theorem except_isOk_iff : x.isOk = true ↔ ∃ a, x = .ok a := by
  cases x <;> simp [Except.isOk, Except.toBool]

/-- Every element of a pure loop has its result. -/
theorem except_mapM_mem {f : α → Except ε β} : ∀ {l : List α} {bs : List β},
    l.mapM f = .ok bs → ∀ a ∈ l, ∃ b ∈ bs, f a = .ok b
  | a :: l, bs, h, a', ha' => by
      rw [mapM_cons] at h
      obtain ⟨b₀, hhead, h⟩ := except_bind_ok.mp h
      obtain ⟨bs', htail, h⟩ := except_bind_ok.mp h
      cases h
      rcases mem_cons.mp ha' with rfl | ha'
      · exact ⟨b₀, .head _, hhead⟩
      · obtain ⟨b, hb, hrun⟩ := except_mapM_mem htail a' ha'
        exact ⟨b, .tail b₀ hb, hrun⟩

/-- Every element of a pure fold that succeeds has been a step. -/
theorem except_foldlM_mem {f : β → α → Except ε β} {b b' : β} (h : l.foldlM f b = .ok b') {a : α}
    (ha : a ∈ l) : ∃ c c', f c a = .ok c' := by
  induction l generalizing b with
  | nil => cases ha
  | cons a' l ih =>
    obtain ⟨c, hstep, hrest⟩ := except_bind_ok.mp h
    rcases mem_cons.mp ha with rfl | ha
    · exact ⟨b, c, hstep⟩
    · exact ih hrest ha

/-- A pure fold succeeds if every step does and keeps an invariant. -/
theorem except_foldlM_total {f : β → α → Except ε β} {I : β → Prop}
    (h : ∀ a ∈ l, ∀ b, I b → ∃ b', f b a = .ok b' ∧ I b') {b : β} (hb : I b) :
    ∃ b', l.foldlM f b = .ok b' := by
  induction l generalizing b with
  | nil => exact ⟨b, rfl⟩
  | cons a l ih =>
    obtain ⟨b₁, hstep, hb₁⟩ := h a (.head _) b hb
    rw [foldlM_cons, hstep]
    exact ih (fun a' ha' => h a' (.tail a ha')) hb₁

/-- What a pure filter keeps. -/
theorem except_filterM_ok {p : α → Except ε Bool} {kept : List α} (h : l.filterM p = .ok kept)
    (a : α) : a ∈ kept ↔ a ∈ l ∧ p a = .ok true := by
  -- the loop collects in reverse
  have hloop : ∀ (l acc out : List α), l.filterAuxM p acc = .ok out →
      (a ∈ out ↔ a ∈ acc ∨ a ∈ l ∧ p a = .ok true) := by
    intro l
    induction l with
    | nil =>
      intro acc out hrun
      cases hrun
      simp
    | cons b l ih =>
      intro acc out hrun
      obtain ⟨keep, hkeep, hrest⟩ := except_bind_ok.mp hrun
      rw [ih _ _ hrest]
      cases keep with
      | true => grind
      | false => grind
  obtain ⟨out, hout, hkept⟩ := except_bind_ok.mp h
  cases hkept
  rw [mem_reverse, hloop l [] out hout]
  simp

theorem exec_map (f : α → β) (m : Fallible σ ε α) (s : σ) :
    (f <$> m).exec s = ((m.exec s).1.map f, (m.exec s).2) := by
  rw [map_eq_pure_bind, exec_bind]
  rcases m.exec s with ⟨_ | a, t⟩ <;> rfl

theorem forM_flatMap (l : List α) (f : α → List β) (body : β → Fallible σ ε PUnit) :
    (l.flatMap f).forM body = l.forM fun a => (f a).forM body := by
  induction l with
  | nil => rfl
  | cons a l ih => simp_all

/-! ### What holds after success -/

/-- `Q s a s'` holds whenever the computation succeeds with `a` from `s` in `s'`. -/
def Ensures (m : Fallible σ ε α) (Q : σ → α → σ → Prop) : Prop :=
  ∀ s a s', m.exec s = (.ok a, s') → Q s a s'

theorem Ensures.bind {P : σ → α → σ → Prop} {Q : σ → β → σ → Prop} (hm : m.Ensures P)
    (hf : ∀ a, (f a).Ensures fun t b s' => ∀ s, P s a t → Q s b s') : (m >>= f).Ensures Q := by
  intro s b s' h
  rw [exec_bind] at h
  rcases hrun : m.exec s with ⟨e | a, t⟩
  · rw [hrun] at h
    cases h
  · rw [hrun] at h
    exact hf a t b s' h s (hm s a t hrun)

/-- The results of a loop are results of its body. -/
theorem mapM_ok : ∀ {l : List α} {s s' : σ} {bs : List β},
    (l.mapM f).exec s = (.ok bs, s') →
      ∀ b ∈ bs, ∃ a ∈ l, ∃ t t', (f a).exec t = (.ok b, t')
  | [], s, s', bs, h, b, hb => by
      rw [mapM_nil] at h
      cases h
      cases hb
  | a :: l, s, s', bs, h, b, hb => by
      rw [mapM_cons] at h
      obtain ⟨b₀, t, hhead, h⟩ := bind_ok.mp h
      obtain ⟨bs', t', htail, h⟩ := bind_ok.mp h
      cases h
      rcases mem_cons.mp hb with rfl | hb
      · exact ⟨a, .head _, s, t, hhead⟩
      · obtain ⟨a', ha', hrun⟩ := mapM_ok htail b hb
        exact ⟨a', .tail a ha', hrun⟩

/-! ### Where success leads -/

/-- Success leads from a state only to states that `R` relates to it. -/
def Leads (m : Fallible σ ε α) (R : σ → σ → Prop) : Prop :=
  ∀ s a s', m.exec s = (.ok a, s') → R s s'

variable {body : α → Fallible σ ε PUnit}

namespace Leads

variable {R : σ → σ → Prop} [IsPreorder σ R]

theorem bind {m : Fallible σ ε α} {f : α → Fallible σ ε β} (hm : m.Leads R)
    (hf : ∀ a, (f a).Leads R) : (m >>= f).Leads R := by
  intro s b s' h
  obtain ⟨a, t, hrun, hrest⟩ := bind_ok.mp h
  exact trans_of R (hm s a t hrun) (hf a t b s' hrest)

theorem ofExcept (r : Except ε α) : (ofExcept r : Fallible σ ε α).Leads R := by
  intro s a s' h
  cases h
  exact refl_of R s

theorem pure (a : α) : (pure a : Fallible σ ε α).Leads R := Leads.ofExcept (.ok a)

theorem throw (e : ε) : (throw e : Fallible σ ε α).Leads R := Leads.ofExcept (.error e)

theorem get : (MonadState.get : Fallible σ ε σ).Leads R := by
  intro s a s' h
  cases h
  exact refl_of R s

omit [IsPreorder σ R] in
theorem modify {f : σ → σ} (h : ∀ s, R s (f s)) : (modify f : Fallible σ ε PUnit).Leads R := by
  intro s a s' hrun
  cases hrun
  exact h s

theorem forM :
    ∀ {l : List α}, (∀ a ∈ l, (body a).Leads R) → (l.forM body).Leads R
  | [], _ => Leads.pure _
  | a :: l, hbody => by
      change (body a >>= fun _ => l.forM body).Leads R
      exact (hbody a mem_cons_self).bind fun _ =>
        forM fun b hb => hbody b (mem_cons_of_mem a hb)

theorem mapM {f : α → Fallible σ ε β} :
    ∀ {l : List α}, (∀ a ∈ l, (f a).Leads R) → (l.mapM f).Leads R
  | [], _ => by
      rw [mapM_nil]
      exact Leads.pure _
  | a :: l, hf => by
      rw [mapM_cons]
      exact (hf a mem_cons_self).bind fun _ =>
        (mapM fun b hb => hf b (mem_cons_of_mem a hb)).bind fun _ => Leads.pure _

theorem foldlM {f : β → α → Fallible σ ε β} :
    ∀ {l : List α} {b : β}, (∀ b, ∀ a ∈ l, (f b a).Leads R) → (l.foldlM f b).Leads R
  | [], b, _ => Leads.pure b
  | a :: l, b, hf => by
      rw [foldlM_cons]
      exact (hf b a mem_cons_self).bind fun _ =>
        foldlM fun b' a' ha' => hf b' a' (mem_cons_of_mem a ha')

end Leads

/-! ### What no outcome changes -/

/-- The computation leaves `view` as it was, whether it succeeds or not. -/
def Keeps (m : Fallible σ ε α) (view : σ → V) : Prop := ∀ s, view (m.exec s).2 = view s

variable {view : σ → V}

theorem Keeps.ensures (hm : m.Keeps view) : m.Ensures fun s _ s' => view s' = view s := by
  intro s a s' h
  have hs := hm s
  rw [h] at hs
  exact hs

theorem Keeps.bind (hm : m.Keeps view) (hf : ∀ a, (f a).Keeps view) : (m >>= f).Keeps view := by
  intro s
  rw [exec_bind]
  have hs := hm s
  rcases hrun : m.exec s with ⟨e | a, t⟩
  · rw [hrun] at hs
    exact hs
  · rw [hrun] at hs
    exact (hf a t).trans hs

theorem Keeps.ofExcept (r : Except ε α) (view : σ → V) :
    (ofExcept r : Fallible σ ε α).Keeps view := fun _ => rfl

theorem Keeps.get (view : σ → V) : (MonadState.get : Fallible σ ε σ).Keeps view := fun _ => rfl

theorem Keeps.pure (a : α) (view : σ → V) : (pure a : Fallible σ ε α).Keeps view := fun _ => rfl

theorem Keeps.forM (hbody : ∀ a, (body a).Keeps view) :
    ∀ l : List α, (l.forM body).Keeps view
  | [] => Keeps.pure _ view
  | a :: l => by
      change (body a >>= fun _ => l.forM body).Keeps _
      exact (hbody a).bind fun _ => Keeps.forM hbody l

theorem Keeps.foldlM {f : β → α → Fallible σ ε β} (hf : ∀ b a, (f b a).Keeps view) :
    ∀ {l : List α} {b : β}, (l.foldlM f b).Keeps view
  | [], b => Keeps.pure b view
  | a :: l, b => by
      rw [foldlM_cons]
      exact (hf b a).bind fun _ => Keeps.foldlM hf

/-! ### What failure leaves alone -/

/-- The computation leaves `view` as it was when it fails. -/
def Spares (m : Fallible σ ε α) (view : σ → V) : Prop :=
  ∀ s e s', m.exec s = (.error e, s') → view s' = view s

theorem Keeps.spares (hm : m.Keeps view) : m.Spares view := by
  intro s e s' h
  have hs := hm s
  rw [h] at hs
  exact hs

/-- What comes before the failure must keep the view. -/
theorem Spares.bind (hm : m.Keeps view) (hf : ∀ a, (f a).Spares view) : (m >>= f).Spares view := by
  intro s e s' h
  rcases bind_error.mp h with h | ⟨a, t, hrun, hrest⟩
  · exact hm.spares s e s' h
  · have hs := hm s
    rw [hrun] at hs
    exact (hf a t e s' hrest).trans hs

/-- A result that is only repackaged. -/
theorem Spares.bind_pure (hm : m.Spares view) (g : α → β) :
    (m >>= fun a => Pure.pure (g a)).Spares view := by
  intro s e s' h
  rcases bind_error.mp h with h | ⟨a, t, -, h⟩
  · exact hm s e s' h
  · cases h

/-- What cannot fail spares everything. -/
theorem Spares.of_ok (h : ∀ s, ∃ a t, m.exec s = (.ok a, t)) : m.Spares view := by
  intro s e s' hrun
  obtain ⟨a, t, hok⟩ := h s
  rw [hok] at hrun
  cases hrun

end Fallible
