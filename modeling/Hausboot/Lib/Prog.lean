import Mathlib.Tactic.Common

/-! # Programs with State and Exceptions

    Reasoning about `EStateM` programs. `Holds x s Q E` says that `x`, run in
    state `s`, either returns with `Q` or raises an exception with `E`; the
    state at the exception is kept, so that `E` can speak about what an aborted
    program leaves behind. The rules follow the structure of a program. -/

namespace Prog

variable {ε σ α β : Type}

/-- Both ends of a run of `x` from `s`. -/
def Holds (x : EStateM ε σ α) (s : σ) (Q : α → σ → Prop) (E : ε → σ → Prop) : Prop :=
  match x s with
  | .ok a s' => Q a s'
  | .error e s' => E e s'

/-! ## Section 1: Rules -/

theorem Holds.of_ok {x : EStateM ε σ α} {s s' : σ} {a : α} {Q : α → σ → Prop} {E : ε → σ → Prop}
    (h : Holds x s Q E) (hx : x s = .ok a s') : Q a s' := by
  unfold Holds at h
  rwa [hx] at h

theorem Holds.of_error {x : EStateM ε σ α} {s s' : σ} {e : ε} {Q : α → σ → Prop}
    {E : ε → σ → Prop} (h : Holds x s Q E) (hx : x s = .error e s') : E e s' := by
  unfold Holds at h
  rwa [hx] at h

/-- A run that cannot raise an exception returns. -/
theorem Holds.total {x : EStateM ε σ α} {s : σ} {Q : α → σ → Prop}
    (h : Holds x s Q fun _ _ => False) : ∃ a s', x s = .ok a s' ∧ Q a s' := by
  unfold Holds at h
  cases hx : x s with
  | ok a s' =>
    rw [hx] at h
    exact ⟨a, s', rfl, h⟩
  | error e s' =>
    rw [hx] at h
    exact h.elim

theorem holds_of_ok {x : EStateM ε σ α} {s s' : σ} {a : α} {Q : α → σ → Prop} {E : ε → σ → Prop}
    (hx : x s = .ok a s') (h : Q a s') : Holds x s Q E := by
  unfold Holds
  rwa [hx]

theorem holds_of_error {x : EStateM ε σ α} {s s' : σ} {e : ε} {Q : α → σ → Prop}
    {E : ε → σ → Prop} (hx : x s = .error e s') (h : E e s') : Holds x s Q E := by
  unfold Holds
  rwa [hx]

theorem Holds.mono {x : EStateM ε σ α} {s : σ} {Q Q' : α → σ → Prop} {E E' : ε → σ → Prop}
    (h : Holds x s Q E) (hQ : ∀ a s', Q a s' → Q' a s') (hE : ∀ e s', E e s' → E' e s') :
    Holds x s Q' E' := by
  unfold Holds at h ⊢
  split
  · next hx =>
    rw [hx] at h
    exact hQ _ _ h
  · next hx =>
    rw [hx] at h
    exact hE _ _ h

/-- Two descriptions of the same run. -/
theorem Holds.and {x : EStateM ε σ α} {s : σ} {Q Q' : α → σ → Prop} {E E' : ε → σ → Prop}
    (h : Holds x s Q E) (h' : Holds x s Q' E') :
    Holds x s (fun a s' => Q a s' ∧ Q' a s') (fun e s' => E e s' ∧ E' e s') := by
  unfold Holds at h h' ⊢
  cases hx : x s with
  | ok a s' =>
    rw [hx] at h h'
    exact ⟨h, h'⟩
  | error e s' =>
    rw [hx] at h h'
    exact ⟨h, h'⟩

theorem holds_pure {a : α} {s : σ} {Q : α → σ → Prop} {E : ε → σ → Prop} (h : Q a s) :
    Holds (pure a) s Q E := h

theorem holds_throw {e : ε} {s : σ} {Q : α → σ → Prop} {E : ε → σ → Prop} (h : E e s) :
    Holds (throw e) s Q E := h

theorem holds_get {s : σ} {Q : σ → σ → Prop} {E : ε → σ → Prop} (h : Q s s) :
    Holds get s Q E := h

theorem holds_modify {s : σ} {f : σ → σ} {Q : PUnit → σ → Prop} {E : ε → σ → Prop}
    (h : Q ⟨⟩ (f s)) : Holds (modify f) s Q E := h

/-- Sequencing: what `f` needs is what `x` has to establish. -/
theorem holds_bind {x : EStateM ε σ α} {f : α → EStateM ε σ β} {s : σ} {Q : β → σ → Prop}
    {E : ε → σ → Prop} (h : Holds x s (fun a s' => Holds (f a) s' Q E) E) :
    Holds (x >>= f) s Q E := by
  unfold Holds at h
  show Holds (EStateM.bind x f) s Q E
  unfold Holds EStateM.bind
  cases hx : x s with
  | ok a s' =>
    rw [hx] at h
    exact h
  | error e s' =>
    rw [hx] at h
    exact h

/-! ## Section 2: Runs that return -/

theorem bind_eq_ok {x : EStateM ε σ α} {f : α → EStateM ε σ β} {s s' : σ} {b : β} :
    (x >>= f) s = .ok b s' ↔ ∃ a s₁, x s = .ok a s₁ ∧ f a s₁ = .ok b s' := by
  show EStateM.bind x f s = .ok b s' ↔ _
  unfold EStateM.bind
  cases hx : x s with
  | ok a s₁ => simp
  | error e s₁ => simp

theorem pure_eq_ok {a b : α} {s s' : σ} :
    (pure a : EStateM ε σ α) s = .ok b s' ↔ a = b ∧ s = s' := by
  show EStateM.Result.ok a s = .ok b s' ↔ _
  simp

/-- The same for computations without a state. -/
theorem except_bind_eq_ok {x : Except ε α} {f : α → Except ε β} {b : β} :
    x >>= f = .ok b ↔ ∃ a, x = .ok a ∧ f a = .ok b := by
  cases x with
  | ok a => simp [bind, Except.bind]
  | error e => simp [bind, Except.bind]

theorem except_map_eq_ok {x : Except ε α} {f : α → β} {b : β} :
    x.map f = .ok b ↔ ∃ a, x = .ok a ∧ f a = b := by
  cases x with
  | ok a => simp [Except.map]
  | error e => simp [Except.map]

/-! ## Section 3: Evaluated runs -/

/-- What a run returns with, for tests of a run by evaluation. -/
def result : EStateM.Result ε σ α → Option (α × σ)
  | .ok a s => some (a, s)
  | .error _ _ => none

theorem result_eq_some {r : EStateM.Result ε σ α} {a : α} {s : σ} :
    result r = some (a, s) ↔ r = .ok a s := by
  cases r with
  | ok a' s' => simp [result]
  | error e s' => simp [result]

theorem toOption_eq_some {x : Except ε α} {a : α} : x.toOption = some a ↔ x = .ok a := by
  cases x with
  | ok a' => simp [Except.toOption]
  | error e => simp [Except.toOption]

end Prog
