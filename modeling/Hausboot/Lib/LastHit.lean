import Mathlib.Data.List.Perm.Basic

/-! # Loops that Keep the Last Hit

    A loop that overwrites its result at each hit ends with the value of the
    last one, so that the order of the list matters: the result is the same for
    every order if and only if all hits have the same value. -/

namespace LastHit

variable {α β : Type*} {p : α → Bool} {f : α → β} {init : β} {l l' : List α}

/-- The value of the last element that is hit, or `init` if there is none. -/
def lastHit (p : α → Bool) (f : α → β) (init : β) : List α → β
  | [] => init
  | e :: l => lastHit p f (if p e then f e else init) l

theorem lastHit_concat {e : α} (he : p e = true) : lastHit p f init (l ++ [e]) = f e := by
  induction l generalizing init with
  | nil => simp [lastHit, he]
  | cons x l ih => exact ih

/-- Either nothing is hit, or the result is the value of a hit. -/
theorem lastHit_cases (p : α → Bool) (f : α → β) (init : β) (l : List α) :
    ((∀ e ∈ l, p e = false) ∧ lastHit p f init l = init) ∨
    ∃ e ∈ l, p e = true ∧ lastHit p f init l = f e := by
  induction l generalizing init with
  | nil => exact .inl ⟨by simp, rfl⟩
  | cons x l ih =>
    rcases ih (if p x then f x else init) with ⟨hnone, hrest⟩ | ⟨e, he, hhit, hrest⟩
    · by_cases hx : p x = true
      · rw [if_pos hx] at hrest
        exact .inr ⟨x, List.mem_cons_self, hx, by rw [lastHit, if_pos hx, hrest]⟩
      · rw [if_neg hx] at hrest
        refine .inl ⟨?_, by rw [lastHit, if_neg hx, hrest]⟩
        intro e he
        rcases List.mem_cons.mp he with rfl | he
        · exact Bool.eq_false_iff.mpr hx
        · exact hnone e he
    · exact .inr ⟨e, List.mem_cons_of_mem x he, hhit, hrest⟩

/-- If all hits have one value, it is the result. -/
theorem lastHit_eq {e : α} (he : e ∈ l) (hhit : p e = true)
    (hsame : ∀ e' ∈ l, p e' = true → f e' = f e) : lastHit p f init l = f e := by
  rcases lastHit_cases p f init l with ⟨hnone, -⟩ | ⟨e', he', hhit', hres⟩
  · rw [hnone e he] at hhit
    cases hhit
  · rw [hres, hsame e' he' hhit']

/-- Any hit can be the last one. -/
theorem exists_perm_lastHit {e : α} (he : e ∈ l) (hhit : p e = true) :
    ∃ l', l'.Perm l ∧ lastHit p f init l' = f e := by
  obtain ⟨l₁, l₂, rfl⟩ := List.append_of_mem he
  refine ⟨l₁ ++ l₂ ++ [e], ?_, lastHit_concat hhit⟩
  rw [List.append_assoc]
  exact (@List.perm_append_comm α l₂ [e]).append_left l₁

/-- **Order**: the result does not depend on it if and only if all hits have
    the same value. -/
theorem lastHit_perm_iff :
    (∀ l', l'.Perm l → lastHit p f init l' = lastHit p f init l) ↔
      ∀ e ∈ l, p e = true → ∀ e' ∈ l, p e' = true → f e' = f e := by
  constructor
  · intro hperm e he hhit e' he' hhit'
    obtain ⟨l₁, hl₁, hlast⟩ : ∃ l₁, l₁.Perm l ∧ lastHit p f init l₁ = f e :=
      exists_perm_lastHit he hhit
    obtain ⟨l₂, hl₂, hlast'⟩ : ∃ l₂, l₂.Perm l ∧ lastHit p f init l₂ = f e' :=
      exists_perm_lastHit he' hhit'
    rw [← hlast, ← hlast', hperm l₁ hl₁, hperm l₂ hl₂]
  · intro hsame l' hl'
    rcases lastHit_cases p f init l with ⟨hnone, hres⟩ | ⟨e, he, hhit, hres⟩
    · -- nothing is hit, in any order
      rw [hres]
      rcases lastHit_cases p f init l' with ⟨-, hres'⟩ | ⟨e, he, hhit, -⟩
      · exact hres'
      · rw [hnone e (hl'.mem_iff.mp he)] at hhit
        cases hhit
    · rw [hres]
      apply lastHit_eq (hl'.mem_iff.mpr he) hhit
      intro e' he' hhit'
      exact hsame e he hhit e' (hl'.mem_iff.mp he') hhit'

end LastHit
