import Hausboot.Lib.Prog

/-! # Relating Programs

    `Agrees` compares two computations that may fail: both return, with related
    values, or both fail, with related errors. `Keeps` says what holds between
    the states before and after any run of a program, however it ends. -/

namespace Prog

/-! ## Section 1: Two computations -/

section Agrees

universe u u' u'' v v'

variable {ε : Type u} {ε' : Type u'} {α α' : Type v} {β β' : Type v'}

def Agrees (E : ε → ε' → Prop) (R : α → β → Prop) : Except ε α → Except ε' β → Prop
  | .ok a, .ok b => R a b
  | .error e, .error e' => E e e'
  | _, _ => False

variable {E : ε → ε' → Prop} {R : α → β → Prop} {S : α' → β' → Prop} {x : Except ε α}
  {y : Except ε' β}

theorem agrees_ok {b : β} : Agrees E R x (.ok b) ↔ ∃ a, x = .ok a ∧ R a b := by
  cases x with
  | ok a => simp [Agrees]
  | error e => simp [Agrees]

theorem agrees_error {e' : ε'} :
    Agrees E R x (.error e' : Except ε' β) ↔ ∃ e, x = .error e ∧ E e e' := by
  cases x with
  | ok a => simp [Agrees]
  | error e => simp [Agrees]

/-- Sequencing: the continuations have to agree on related values. -/
theorem Agrees.bind {f : α → Except ε α'} {g : β → Except ε' β'} (h : Agrees E R x y)
    (hf : ∀ a b, R a b → Agrees E S (f a) (g b)) : Agrees E S (x >>= f) (y >>= g) := by
  cases y with
  | ok b =>
    rw [agrees_ok] at h
    obtain ⟨a, rfl, hab⟩ := h
    exact hf a b hab
  | error e' =>
    rw [agrees_error] at h
    obtain ⟨e, rfl, he⟩ := h
    exact he

theorem Agrees.mapError {ε'' : Type u''} {E : ε → ε'' → Prop} {g : ε' → ε''}
    (h : Agrees (fun e e' => E e (g e')) R x y) : Agrees E R x (y.mapError g) := by
  cases y with
  | ok b =>
    rw [agrees_ok] at h
    obtain ⟨a, rfl, hab⟩ := h
    exact hab
  | error e' =>
    rw [agrees_error] at h
    obtain ⟨e, rfl, he⟩ := h
    exact he

end Agrees

/-! ## Section 2: What a program keeps -/

section Keeps

variable {ε σ α β : Type} {P : σ → σ → Prop}

def Keeps (P : σ → σ → Prop) (x : EStateM ε σ α) : Prop :=
  ∀ s, Holds x s (fun _ s' => P s s') fun _ s' => P s s'

theorem keeps_pure (hrefl : ∀ s, P s s) (a : α) : Keeps P (pure a : EStateM ε σ α) :=
  fun s => holds_pure (hrefl s)

theorem keeps_throw (hrefl : ∀ s, P s s) (e : ε) : Keeps P (throw e : EStateM ε σ α) :=
  fun s => holds_throw (hrefl s)

theorem keeps_modify {f : σ → σ} (h : ∀ s, P s (f s)) :
    Keeps P (modify f : EStateM ε σ PUnit) :=
  fun s => holds_modify (h s)

theorem Keeps.bind (htrans : ∀ s₁ s₂ s₃, P s₁ s₂ → P s₂ s₃ → P s₁ s₃) {x : EStateM ε σ α}
    {f : α → EStateM ε σ β} (hx : Keeps P x) (hf : ∀ a, Keeps P (f a)) : Keeps P (x >>= f) := by
  intro s
  apply holds_bind
  refine (hx s).mono (fun a s₁ h₁ => ?_) fun _ _ h => h
  exact (hf a s₁).mono (fun _ _ h₂ => htrans _ _ _ h₁ h₂) fun _ _ h₂ => htrans _ _ _ h₁ h₂

end Keeps

/-! ## Section 3: Runs that raise an exception -/

theorem bind_eq_error {ε σ α β : Type} {x : EStateM ε σ α} {f : α → EStateM ε σ β} {s s' : σ}
    {e : ε} : (x >>= f) s = .error e s' ↔
      x s = .error e s' ∨ ∃ a s₁, x s = .ok a s₁ ∧ f a s₁ = .error e s' := by
  show EStateM.bind x f s = .error e s' ↔ _
  unfold EStateM.bind
  cases hx : x s with
  | ok a s₁ => simp
  | error e₁ s₁ => simp

end Prog
