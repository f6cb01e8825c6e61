import Mathlib.Data.List.TakeWhile

/-! # Maximal Runs Between Separators

    `runs p l` are the maximal runs of elements of `l` without `p`, in order.
    Scanners that skip separators and then take what is in front of the next
    one compute them, however many separators there are and wherever they
    stand. -/

namespace Runs

variable {α : Type*} {p : α → Bool} {c : α} {l : List α}

/-- The maximal runs of elements that are no separators. -/
def runs (p : α → Bool) (l : List α) : List (List α) := (l.splitOnP p).filter fun r => !r.isEmpty

theorem runs_nil : runs p [] = [] := rfl

theorem runs_cons_sep (hc : p c = true) : runs p (c :: l) = runs p l := by
  have hsplit := List.splitOnP_append_cons ([] : List α) l hc
  rw [List.nil_append, List.splitOnP_nil] at hsplit
  rw [runs, hsplit]
  rfl

/-- No run crosses a separator. -/
theorem runs_append_sep (l l' : List α) (hc : p c = true) :
    runs p (l ++ c :: l') = runs p l ++ runs p l' := by
  rw [runs, List.splitOnP_append_cons l l' hc, List.filter_append]
  rfl

/-- Separators in front make no run. -/
theorem runs_dropWhile (p : α → Bool) (l : List α) : runs p (l.dropWhile p) = runs p l := by
  induction l with
  | nil => rfl
  | cons c l ih =>
    by_cases hc : p c = true
    · rw [List.dropWhile_cons_of_pos hc, ih, runs_cons_sep hc]
    · rw [List.dropWhile_cons_of_neg hc]

/-- Behind a run there is a separator, or nothing. -/
theorem behind_run (p : α → Bool) (l : List α) :
    l.dropWhile (!p ·) = [] ∨ ∃ sep rest, l.dropWhile (!p ·) = sep :: rest ∧ p sep = true := by
  have hhead := List.head?_dropWhile_not (!p ·) l
  cases hrest : l.dropWhile (!p ·) with
  | nil => exact .inl rfl
  | cons sep rest =>
    rw [hrest] at hhead
    exact .inr ⟨sep, rest, rfl, by simpa using hhead⟩

/-- A run goes up to the next separator, or to the end. -/
theorem runs_cons (hc : p c = false) :
    runs p (c :: l) = (c :: l.takeWhile (!p ·)) :: runs p (l.dropWhile (!p ·)) := by
  have hrun : ∀ x ∈ c :: l.takeWhile (!p ·), p x = false := by
    intro x hx
    rcases List.mem_cons.mp hx with rfl | hx
    · exact hc
    · simpa using List.mem_takeWhile_imp hx
  have happend : c :: l = (c :: l.takeWhile (!p ·)) ++ l.dropWhile (!p ·) := by
    rw [List.cons_append, List.takeWhile_append_dropWhile]
  rcases behind_run p l with hrest | ⟨sep, rest, hrest, hsep⟩
  · rw [hrest, List.append_nil] at happend
    rw [hrest, runs, happend, List.splitOnP_eq_singleton hrun]
    rfl
  · rw [hrest] at happend
    rw [hrest, runs_cons_sep hsep, runs, happend,
      List.splitOnP_append_cons_of_forall_mem hrun sep hsep]
    rfl

/-- The separator that ends a run need not be looked at again. -/
theorem runs_drop_one (p : α → Bool) (l : List α) :
    runs p ((l.dropWhile (!p ·)).drop 1) = runs p (l.dropWhile (!p ·)) := by
  rcases behind_run p l with hrest | ⟨sep, rest, hrest, hsep⟩
  · rw [hrest, List.drop_nil]
  · rw [hrest, List.drop_one, List.tail_cons, runs_cons_sep hsep]

/-- A run consists of elements of the list. -/
theorem mem_of_mem_runs {r : List α} {x : α} (hr : r ∈ runs p l) (hx : x ∈ r) : x ∈ l := by
  induction hn : l.length using Nat.strong_induction_on generalizing l with
  | _ n ih =>
    cases l with
    | nil => cases hr
    | cons c l =>
      rw [List.length_cons] at hn
      by_cases hc : p c = true
      · rw [runs_cons_sep hc] at hr
        exact List.mem_cons_of_mem _ (ih _ (by omega) hr rfl)
      rw [runs_cons (Bool.eq_false_iff.mpr hc)] at hr
      rcases List.mem_cons.mp hr with rfl | hr
      · rcases List.mem_cons.mp hx with rfl | hx
        · exact List.mem_cons_self
        · exact List.mem_cons_of_mem _ (List.takeWhile_subset _ hx)
      · have hle := (List.dropWhile_sublist (l := l) (!p ·)).length_le
        have hmem := ih _ (by omega) hr rfl
        exact List.mem_cons_of_mem _ ((List.dropWhile_sublist _).mem hmem)

/-- So does whatever stands between two separators. -/
theorem mem_of_mem_splitOnP {r : List α} {x : α} (hr : r ∈ l.splitOnP p) (hx : x ∈ r) : x ∈ l := by
  apply mem_of_mem_runs (List.mem_filter.mpr ⟨hr, ?_⟩) hx
  cases r with
  | nil => cases hx
  | cons y r => rfl

end Runs
