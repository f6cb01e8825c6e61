import Mathlib.Data.List.Nodup
import Mathlib.Logic.Equiv.Basic

/-! # Ledgers of Owned Objects

    Holders that own at most one object each. An object is created into the
    hands of a holder, changes hands by a swap, and ends by being deleted or
    released. In a linear ledger no object has two holders, no object ends
    twice, and none is lost. -/

/-- How an object ends. -/
inductive Ledger.Fate where
  | deleted
  | released
deriving DecidableEq

/-- Objects are numbered in the order of their creation. `gone` lists the
    objects that have ended. -/
structure Ledger (Holder : Type) where
  held : Holder → Option Nat
  created : Nat
  gone : List (Nat × Ledger.Fate)

namespace Ledger

variable {Holder : Type}

structure Linear (l : Ledger Holder) : Prop where
  unique : ∀ x y obj, l.held x = some obj → l.held y = some obj → x = y
  live : ∀ x obj, l.held x = some obj → obj < l.created ∧ ∀ fate, (obj, fate) ∉ l.gone
  once : (l.gone.map Prod.fst).Nodup
  gone_lt : ∀ obj fate, (obj, fate) ∈ l.gone → obj < l.created
  accounted : ∀ obj < l.created, (∃ fate, (obj, fate) ∈ l.gone) ∨ ∃ x, l.held x = some obj

/-- The ledger before anything was created. -/
def empty : Ledger Holder := ⟨fun _ => none, 0, []⟩

theorem linear_empty : (empty : Ledger Holder).Linear where
  unique _ _ _ h := nomatch h
  live _ _ h := nomatch h
  once := List.nodup_nil
  gone_lt _ _ h := nomatch h
  accounted _ h := absurd h (Nat.not_lt_zero _)

variable [DecidableEq Holder]

/-- A new object, in the hands of `x`. -/
def create (l : Ledger Holder) (x : Holder) : Ledger Holder :=
  { l with held := Function.update l.held x (some l.created), created := l.created + 1 }

/-- Two holders exchange what they hold. -/
def swap (l : Ledger Holder) (x y : Holder) : Ledger Holder :=
  { l with held := l.held ∘ Equiv.swap x y }

/-- What `x` holds comes to its end. -/
def retire (l : Ledger Holder) (x : Holder) (fate : Fate) : Ledger Holder :=
  { l with
    held := Function.update l.held x none
    gone := l.gone ++ (l.held x).toList.map fun obj => (obj, fate) }

theorem Linear.create {l : Ledger Holder} (h : l.Linear) {x : Holder} (hx : l.held x = none) :
    (l.create x).Linear := by
  -- whoever holds an object either holds the new one or held it before
  have hcases : ∀ y obj, (l.create x).held y = some obj →
      (y = x ∧ obj = l.created) ∨ (y ≠ x ∧ l.held y = some obj) := by
    intro y obj hy
    by_cases hyx : y = x
    · subst hyx
      simp only [Ledger.create, Function.update_self, Option.some.injEq] at hy
      exact .inl ⟨rfl, hy.symm⟩
    · simp only [Ledger.create, Function.update_of_ne hyx] at hy
      exact .inr ⟨hyx, hy⟩
  have hfresh : ∀ y, l.held y ≠ some l.created :=
    fun y hy => Nat.lt_irrefl _ (h.live y _ hy).1
  constructor
  · intro y z obj hy hz
    rcases hcases y obj hy with ⟨hyx, hobj⟩ | ⟨-, hy⟩
    · rcases hcases z obj hz with ⟨hzx, -⟩ | ⟨-, hz⟩
      · rw [hyx, hzx]
      · exact absurd (hobj ▸ hz) (hfresh z)
    · rcases hcases z obj hz with ⟨-, hobj⟩ | ⟨-, hz⟩
      · exact absurd (hobj ▸ hy) (hfresh y)
      · exact h.unique y z obj hy hz
  · intro y obj hy
    rcases hcases y obj hy with ⟨-, hobj⟩ | ⟨-, hy⟩
    · subst hobj
      exact ⟨Nat.lt_succ_self _, fun fate hgone => Nat.lt_irrefl _ (h.gone_lt _ fate hgone)⟩
    · exact ⟨Nat.lt_succ_of_lt (h.live y obj hy).1, (h.live y obj hy).2⟩
  · exact h.once
  · intro obj fate hgone
    exact Nat.lt_succ_of_lt (h.gone_lt obj fate hgone)
  · intro obj hlt
    rcases Nat.lt_succ_iff_lt_or_eq.mp hlt with hlt | heq
    · rcases h.accounted obj hlt with hgone | ⟨y, hy⟩
      · exact .inl hgone
      · have hyx : y ≠ x := by
          intro heq
          rw [heq, hx] at hy
          cases hy
        refine .inr ⟨y, ?_⟩
        simp only [Ledger.create, Function.update_of_ne hyx]
        exact hy
    · refine .inr ⟨x, ?_⟩
      simp only [Ledger.create, Function.update_self, heq]

theorem Linear.swap {l : Ledger Holder} (h : l.Linear) (x y : Holder) : (l.swap x y).Linear where
  unique a b obj ha hb := (Equiv.swap x y).injective (h.unique _ _ obj ha hb)
  live a obj ha := h.live _ obj ha
  once := h.once
  gone_lt := h.gone_lt
  accounted obj hlt := by
    rcases h.accounted obj hlt with hgone | ⟨a, ha⟩
    · exact .inl hgone
    · refine .inr ⟨Equiv.swap x y a, ?_⟩
      show l.held (Equiv.swap x y (Equiv.swap x y a)) = some obj
      rw [Equiv.swap_apply_self]
      exact ha

theorem Linear.retire {l : Ledger Holder} (h : l.Linear) (x : Holder) (fate : Fate) :
    (l.retire x fate).Linear := by
  -- the other holders keep what they hold
  have hkeeps : ∀ y obj, (l.retire x fate).held y = some obj → y ≠ x ∧ l.held y = some obj := by
    intro y obj hy
    by_cases hyx : y = x
    · subst hyx
      simp [Ledger.retire] at hy
    · simp only [Ledger.retire, Function.update_of_ne hyx] at hy
      exact ⟨hyx, hy⟩
  have hgone : ∀ obj fate', (obj, fate') ∈ (l.retire x fate).gone →
      (obj, fate') ∈ l.gone ∨ l.held x = some obj := by
    intro obj fate' hmem
    rcases List.mem_append.mp hmem with hmem | hmem
    · exact .inl hmem
    · obtain ⟨obj', hobj', heq⟩ := List.mem_map.mp hmem
      rw [Option.mem_toList] at hobj'
      have hobj : obj' = obj := congrArg Prod.fst heq
      exact .inr (hobj ▸ hobj')
  constructor
  · intro y z obj hy hz
    exact h.unique y z obj (hkeeps y obj hy).2 (hkeeps z obj hz).2
  · intro y obj hy
    obtain ⟨hyx, hy⟩ := hkeeps y obj hy
    refine ⟨(h.live y obj hy).1, ?_⟩
    intro fate' hmem
    rcases hgone obj fate' hmem with hmem | hx
    · exact (h.live y obj hy).2 fate' hmem
    · exact hyx (h.unique y x obj hy hx)
  · show ((l.gone ++ (l.held x).toList.map fun obj => (obj, fate)).map Prod.fst).Nodup
    cases hx : l.held x with
    | none => simpa using h.once
    | some obj =>
      rw [Option.toList_some, List.map_singleton, List.map_append]
      refine List.nodup_append.mpr ⟨h.once, List.nodup_singleton _, ?_⟩
      intro a ha b hb heq
      obtain ⟨⟨a', fate'⟩, hmem, ha⟩ := List.mem_map.mp ha
      have hb : b = obj := by simpa using hb
      have ha : a' = a := ha
      rw [ha, heq, hb] at hmem
      exact (h.live x obj hx).2 fate' hmem
  · intro obj fate' hmem
    rcases hgone obj fate' hmem with hmem | hx
    · exact h.gone_lt obj fate' hmem
    · exact (h.live x obj hx).1
  · intro obj hlt
    rcases h.accounted obj hlt with ⟨fate', hmem⟩ | ⟨y, hy⟩
    · exact .inl ⟨fate', List.mem_append_left _ hmem⟩
    · by_cases hyx : y = x
      · subst hyx
        refine .inl ⟨fate, List.mem_append_right _ ?_⟩
        rw [hy]
        simp
      · refine .inr ⟨y, ?_⟩
        simp only [Ledger.retire, Function.update_of_ne hyx]
        exact hy

/-- What can happen to a ledger. -/
inductive Step (l : Ledger Holder) : Ledger Holder → Prop
  | stay : Step l l
  | create (x : Holder) (hx : l.held x = none) : Step l (l.create x)
  | swap (x y : Holder) : Step l (l.swap x y)
  | retire (x : Holder) (fate : Fate) : Step l (l.retire x fate)

theorem Linear.step {l l' : Ledger Holder} (h : l.Linear) (hstep : l.Step l') : l'.Linear := by
  cases hstep with
  | stay => exact h
  | create x hx => exact h.create hx
  | swap x y => exact h.swap x y
  | retire x fate => exact h.retire x fate

end Ledger
