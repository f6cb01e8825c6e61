import Mathlib.Data.List.Basic
import Mathlib.Data.List.Pairwise
import Mathlib.Logic.Function.Basic

/-! # Moves in Sequence

    A move copies the value at one address to another. A sequence of moves
    works on one memory, so a move can destroy what a later one reads. It does
    not if no later source and no later target is a target before it; then
    every target holds what its source held at the start. The order of the
    sequence, forward or backward, is left open. -/

namespace Moves

variable {α β : Type}

/-! ## Section 1: Sequences of moves -/

/-- No target is read or written again. A move is a target and a source. -/
def Safe (moves : List (α × α)) : Prop := moves.Pairwise fun p q => q.2 ≠ p.1 ∧ q.1 ≠ p.1

/-- The moves of a loop, one for each value of its counter. -/
def counted (n : Nat) (d s : Nat → α) : List (α × α) := (List.range n).map fun i => (d i, s i)

theorem counted_succ (n : Nat) (d s : Nat → α) :
    counted (n + 1) d s = (d 0, s 0) :: counted n (fun i => d (i + 1)) (fun i => s (i + 1)) := by
  simp [counted, List.range_succ_eq_map, Function.comp_def]

theorem safe_counted {n : Nat} {d s : Nat → α}
    (h : ∀ i j, i < j → j < n → s j ≠ d i ∧ d j ≠ d i) : Safe (counted n d s) := by
  apply List.pairwise_map.mpr
  apply List.Pairwise.imp_of_mem _ List.pairwise_lt_range
  intro i j _ hj hij
  exact h i j hij (List.mem_range.mp hj)

/-! ## Section 2: Running them -/

variable [DecidableEq α]

/-- The memory after the moves. -/
def run (m : α → β) : List (α × α) → α → β
  | [] => m
  | (d, s) :: moves => run (Function.update m d (m s)) moves

/-- What is no target keeps its value. -/
theorem run_of_not_target {moves : List (α × α)} {a : α} (h : ∀ p ∈ moves, a ≠ p.1) (m : α → β) :
    run m moves a = m a := by
  induction moves generalizing m with
  | nil => rfl
  | cons p moves ih =>
    have hp : a ≠ p.1 := h p (by simp)
    have hrest := ih (fun q hq => h q (by simp [hq])) (Function.update m p.1 (m p.2))
    rw [run, hrest, Function.update_of_ne hp]

/-- **Safe moves**: every target holds what its source held at the start. -/
theorem run_of_safe {moves : List (α × α)} (hsafe : Safe moves) {p : α × α} (hp : p ∈ moves)
    (m : α → β) : run m moves p.1 = m p.2 := by
  induction moves generalizing m with
  | nil => simp at hp
  | cons q moves ih =>
    have hafter := (List.pairwise_cons.mp hsafe).1
    rw [run]
    rcases List.mem_cons.mp hp with heq | hmem
    · -- the first move: no later one writes its target
      subst heq
      rw [run_of_not_target (fun r hr => (hafter r hr).2.symm), Function.update_self]
    · -- a later move: the first one leaves its source alone
      rw [ih (List.pairwise_cons.mp hsafe).2 hmem, Function.update_of_ne (hafter p hmem).1]

/-- A loop whose rounds are safe moves everything. -/
theorem run_counted {n : Nat} {d s : Nat → α}
    (h : ∀ i j, i < j → j < n → s j ≠ d i ∧ d j ≠ d i) (m : α → β) {i : Nat} (hi : i < n) :
    run m (counted n d s) (d i) = m (s i) :=
  run_of_safe (safe_counted h) (List.mem_map.mpr ⟨i, List.mem_range.mpr hi, rfl⟩) m

theorem run_counted_frame {n : Nat} {d s : Nat → α} {a : α} (h : ∀ i < n, a ≠ d i) (m : α → β) :
    run m (counted n d s) a = m a := by
  apply run_of_not_target
  intro p hp
  obtain ⟨i, hi, heq⟩ := List.mem_map.mp hp
  subst heq
  exact h i (List.mem_range.mp hi)

end Moves
