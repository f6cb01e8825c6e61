import Mathlib.Data.List.Chain
import Mathlib.Data.List.Nodup
import Mathlib.Tactic.Common

/-! # Linked Chains

    Chains of links in a table: from a first element, follow `next` until an
    element satisfies `stop`. Every element on the way satisfies `ok`.

    `next` is a function, so a chain that ends visits no element twice, and
    the table determines the chain. -/

namespace ChainLib

variable {α : Type*} {next next' : α → α} {stop ok : α → Prop}

/-- Following `next` from an element visits the elements of the list and then
    reaches one that satisfies `stop`. -/
inductive Chain (next : α → α) (stop ok : α → Prop) : α → List α → Prop where
  | done {c : α} : stop c → Chain next stop ok c []
  | link {c : α} {l : List α} :
      ¬ stop c → ok c → Chain next stop ok (next c) l → Chain next stop ok c (c :: l)

namespace Chain

/-! ## Section 1: What a chain visits -/

theorem unique {c : α} {l l' : List α} (h : Chain next stop ok c l)
    (h' : Chain next stop ok c l') : l = l' := by
  induction h generalizing l' with
  | done hs =>
    cases h' with
    | done _ => rfl
    | link hns _ _ => exact absurd hs hns
  | link hns _ _ ih =>
    cases h' with
    | done hs => exact absurd hs hns
    | link _ _ h => rw [ih h]

theorem ok_of_mem {c x : α} {l : List α} (h : Chain next stop ok c l) (hx : x ∈ l) :
    ¬ stop x ∧ ok x := by
  induction h with
  | done _ => cases hx
  | link hns hok _ ih =>
    rcases List.mem_cons.mp hx with rfl | hx
    · exact ⟨hns, hok⟩
    · exact ih hx

/-- The chain of an element on the way is a part of the whole chain. -/
theorem of_mem {c x : α} {l : List α} (h : Chain next stop ok c l) (hx : x ∈ l) :
    ∃ l', Chain next stop ok x (x :: l') ∧ (x :: l').length ≤ l.length := by
  induction h with
  | done _ => cases hx
  | @link c l hns hok h ih =>
    rcases List.mem_cons.mp hx with rfl | hx
    · exact ⟨l, .link hns hok h, Nat.le_refl _⟩
    · obtain ⟨l', hl', hle⟩ := ih hx
      exact ⟨l', hl', Nat.le_succ_of_le hle⟩

/-- A chain that ends is acyclic. -/
theorem nodup {c : α} {l : List α} (h : Chain next stop ok c l) : l.Nodup := by
  induction h with
  | done _ => exact List.nodup_nil
  | @link c l hns hok h ih =>
    refine List.nodup_cons.mpr ⟨fun hmem => ?_, ih⟩
    -- the chain from the second visit on would be the whole chain, and shorter
    obtain ⟨l', hl', hle⟩ := h.of_mem hmem
    have heq : c :: l = c :: l' := (Chain.link hns hok h).unique hl'
    rw [← heq, List.length_cons] at hle
    omega

/-- A chain does not depend on the links of elements that it does not visit. -/
theorem congr {c : α} {l : List α} (h : Chain next stop ok c l)
    (hnext : ∀ x ∈ l, next' x = next x) : Chain next' stop ok c l := by
  induction h with
  | done hs => exact .done hs
  | @link c l hns hok h ih =>
    refine .link hns hok ?_
    rw [hnext c (by simp)]
    exact ih fun x hx => hnext x (by simp [hx])

/-- The chain behind an element can be replaced by another one. -/
theorem splice {c last x : α} {pre l : List α} (h : Chain next stop ok c (pre ++ [last]))
    (hpre : ∀ y ∈ pre, next' y = next y) (hlast : next' last = x)
    (hx : Chain next' stop ok x l) : Chain next' stop ok c (pre ++ last :: l) := by
  induction pre generalizing c with
  | nil =>
    cases h with
    | link hns hok _ => exact .link hns hok (hlast.symm ▸ hx)
  | cons y pre ih =>
    cases h with
    | link hns hok h =>
      apply Chain.link hns hok
      rw [hpre y (by simp)]
      exact ih h fun z hz => hpre z (by simp [hz])

end Chain

/-! ## Section 2: Parts of a walk -/

/-- Following `next` from `c` visits the elements of the list, all of which
    satisfy `ok`, and then gets to `d`. The walk may come back to where it has
    been. -/
inductive Segment (next : α → α) (ok : α → Prop) : α → List α → α → Prop where
  | nil (c : α) : Segment next ok c [] c
  | cons {c d : α} {l : List α} :
      ok c → Segment next ok (next c) l d → Segment next ok c (c :: l) d

namespace Segment

theorem ok_of_mem {c d x : α} {l : List α} (h : Segment next ok c l d) (hx : x ∈ l) : ok x := by
  induction h with
  | nil _ => cases hx
  | cons hok _ ih =>
    rcases List.mem_cons.mp hx with rfl | hx
    · exact hok
    · exact ih hx

/-- Behind an element comes another one of the walk, or its end. -/
theorem next_mem {c d x : α} {l : List α} (h : Segment next ok c l d) (hx : x ∈ l) :
    next x ∈ l ∨ next x = d := by
  induction h with
  | nil _ => cases hx
  | @cons c d l hok h ih =>
    rcases List.mem_cons.mp hx with rfl | hx
    · cases h with
      | nil _ => exact .inr rfl
      | cons _ _ => exact .inl (by simp)
    · rcases ih hx with hmem | hd
      · exact .inl (List.mem_cons_of_mem _ hmem)
      · exact .inr hd

/-- The walk up to an element that it visits. -/
theorem upTo {c d x : α} {p q : List α} (h : Segment next ok c (p ++ x :: q) d) :
    Segment next ok c p x := by
  induction p generalizing c with
  | nil =>
    cases h with
    | cons _ _ => exact .nil _
  | cons y p ih =>
    cases h with
    | cons hok h => exact .cons hok (ih h)

theorem imp {ok' : α → Prop} {c d : α} {l : List α} (h : Segment next ok c l d)
    (himp : ∀ x ∈ l, ok' x) : Segment next ok' c l d := by
  induction h with
  | nil c => exact .nil c
  | cons _ _ ih =>
    obtain ⟨hc, hl⟩ := List.forall_mem_cons.mp himp
    exact .cons hc (ih hl)

theorem snoc {c d : α} {l : List α} (h : Segment next ok c l d) (hd : ok d) :
    Segment next ok c (l ++ [d]) (next d) := by
  induction h with
  | nil c => exact .cons hd (.nil _)
  | cons hok _ ih => exact .cons hok (ih hd)

/-- The first element that a list has for the second time. -/
theorem exists_repeat {l : List α} (h : ¬ l.Nodup) :
    ∃ p x q, l = p ++ x :: q ∧ x ∈ p ∧ p.Nodup := by
  induction l using List.reverseRecOn with
  | nil => exact absurd List.nodup_nil h
  | append_singleton l y ih =>
    by_cases hl : l.Nodup
    · refine ⟨l, y, [], rfl, ?_, hl⟩
      by_contra hy
      exact h (List.nodup_append'.mpr
        ⟨hl, List.nodup_singleton y, List.disjoint_singleton.mpr hy⟩)
    · obtain ⟨p, x, q, rfl, hx, hp⟩ := ih hl
      exact ⟨p, x, q ++ [y], by simp, hx, hp⟩

/-- A walk that visits some element twice runs in a circle: a first part of it
    leads back to an element of that part. -/
theorem circle {c d : α} {l : List α} (h : Segment next ok c l d) (hdup : ¬ l.Nodup) :
    ∃ p x, Segment next ok c p x ∧ x ∈ p ∧ p <+: l ∧ p.Nodup := by
  obtain ⟨p, x, q, rfl, hx, hp⟩ := exists_repeat hdup
  exact ⟨p, x, h.upTo, hx, List.prefix_append _ _, hp⟩

end Segment

end ChainLib
