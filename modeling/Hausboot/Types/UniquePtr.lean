import Hausboot.Lib.Ledger

/-! # UniquePtr

    `types/UniquePtr.h`, for any number of variables in any order of
    operations. Which variable owns which object is kept by the moves, the
    swap of the move assignment and the deletions. `operator==` tells whether
    a pointer owns something; `operator!=` has the same body and tells the
    opposite of what it should. -/

open Ledger

namespace Hausboot

/-! ## Section 1: The code -/

/-- A `UniquePtr<T>`. Objects stand for their addresses. -/
structure UniquePtr (Ty : Type) where
  elem : Ty
  raw : Option Nat

namespace UniquePtr

variable {Var Ty : Type}

/-- `operator== (std::nullptr_t)` -/
def eqNull (p : UniquePtr Ty) : Bool := p.raw == none

/-- `operator!= (std::nullptr_t)` -/
def neNull (p : UniquePtr Ty) : Bool := p.raw == none

/-- The variables in scope, the number of objects created so far, and what was
    deleted or given out by `Release`. -/
structure State (Var Ty : Type) where
  vars : Var → Option (UniquePtr Ty)
  created : Nat
  gone : List (Nat × Fate)

namespace State

/-- No variables and no objects. -/
def init : State Var Ty := ⟨fun _ => none, 0, []⟩

/-- The pointer in a variable. -/
def raw (s : State Var Ty) (x : Var) : Option Nat := (s.vars x).bind UniquePtr.raw

/-- `delete` and handing out. Of the null pointer, nothing happens. -/
def retire (s : State Var Ty) (r : Option Nat) (fate : Fate) : State Var Ty :=
  { s with gone := s.gone ++ r.toList.map fun obj => (obj, fate) }

variable [DecidableEq Var]

/-- The start of a variable's life. -/
def construct (s : State Var Ty) (x : Var) (p : UniquePtr Ty) : State Var Ty :=
  { s with vars := Function.update s.vars x (some p) }

/-- `x._raw = r` -/
def setRaw (s : State Var Ty) (x : Var) (r : Option Nat) : State Var Ty :=
  { s with vars := Function.update s.vars x ((s.vars x).map fun p => { p with raw := r }) }

/-- `UniquePtr()` and `UniquePtr(std::nullptr_t)` -/
def null (s : State Var Ty) (x : Var) (T : Ty) : State Var Ty := s.construct x ⟨T, none⟩

/-- `MakeUnique<T>` -/
def makeUnique (s : State Var Ty) (x : Var) (T : Ty) : State Var Ty :=
  let obj := s.created
  { s with created := s.created + 1 }.construct x ⟨T, some obj⟩

/-- `UniquePtr(UniquePtr<T> &&o)` -/
def moveConstruct (s : State Var Ty) (x : Var) (T : Ty) (o : Var) : State Var Ty :=
  (s.construct x ⟨T, s.raw o⟩).setRaw o none

/-- `Release` -/
def release (s : State Var Ty) (x : Var) : Option Nat × State Var Ty :=
  let temp := s.raw x
  (temp, s.setRaw x none)

/-- `UniquePtr(UniquePtr<U> &&o)` -/
def convertConstruct (s : State Var Ty) (x : Var) (T : Ty) (o : Var) : State Var Ty :=
  let released := s.release o
  released.2.construct x ⟨T, released.1⟩

/-- `operator= (UniquePtr<T> &&o)` -/
def moveAssign (s : State Var Ty) (x o : Var) : State Var Ty :=
  let temp := s.raw x
  let s := s.setRaw x (s.raw o)
  s.setRaw o temp

/-- `operator= (std::nullptr_t)` -/
def assignNull (s : State Var Ty) (x : Var) : State Var Ty :=
  (s.retire (s.raw x) .deleted).setRaw x none

/-- `~UniquePtr()`, at the end of the variable's life. -/
def destroy (s : State Var Ty) (x : Var) : State Var Ty :=
  let s := s.retire (s.raw x) .deleted
  { s with vars := Function.update s.vars x none }

end State

inductive Op (Var Ty : Type) where
  | null (x : Var) (T : Ty)
  | makeUnique (x : Var) (T : Ty)
  | moveConstruct (x o : Var)
  | convertConstruct (x : Var) (T : Ty) (o : Var)
  | moveAssign (x o : Var)
  | assignNull (x : Var)
  | release (x : Var)
  | destroy (x : Var)

section Step

variable [DecidableEq Var] [DecidableEq Ty] (isBaseOf : Ty → Ty → Bool)

/-- One operation, if it compiles: a variable is constructed before it is used
    and not twice, the types of a move and of a move assignment agree, and
    those of a conversion are related. -/
def step (s : State Var Ty) : Op Var Ty → Option (State Var Ty)
  | .null x T => if (s.vars x).isSome then none else some (s.null x T)
  | .makeUnique x T => if (s.vars x).isSome then none else some (s.makeUnique x T)
  | .moveConstruct x o => do
    let p ← s.vars o
    if (s.vars x).isSome then none else some (s.moveConstruct x p.elem o)
  | .convertConstruct x T o => do
    let p ← s.vars o
    if (s.vars x).isSome || !isBaseOf T p.elem then none else some (s.convertConstruct x T o)
  | .moveAssign x o => do
    let p ← s.vars x
    let q ← s.vars o
    if p.elem = q.elem then some (s.moveAssign x o) else none
  | .assignNull x => if (s.vars x).isSome then some (s.assignNull x) else none
  | .release x =>
    -- the caller now has the object
    if (s.vars x).isSome then some ((s.release x).2.retire (s.release x).1 .released) else none
  | .destroy x => if (s.vars x).isSome then some (s.destroy x) else none

/-- The states that a sequence of operations reaches. -/
inductive Reachable : State Var Ty → Prop
  | init : Reachable State.init
  | step {s s' : State Var Ty} (op : Op Var Ty) : Reachable s → step isBaseOf s op = some s' →
      Reachable s'

end Step

/-! ## Section 2: What it should do -/

namespace State

variable (s : State Var Ty)

def deleted : List Nat := (s.gone.filter fun p => p.2 = .deleted).map Prod.fst

def released : List Nat := (s.gone.filter fun p => p.2 = .released).map Prod.fst

/-- Ownership is linear. -/
structure Owned : Prop where
  heldOnce : ∀ x y obj, s.raw x = some obj → s.raw y = some obj → x = y
  deletedOnce : s.deleted.Nodup
  notHeld : ∀ x obj, s.raw x = some obj → obj ∉ s.deleted
  allDeleted : (∀ x, s.vars x = none) → ∀ obj < s.created, obj ∈ s.deleted ∨ obj ∈ s.released

/-- `p == nullptr` holds exactly when `p` owns nothing. -/
def EqTellsTruth : Prop := ∀ x p, s.vars x = some p → (p.eqNull = true ↔ p.raw = none)

/-- `p != nullptr` holds exactly when `p` owns an object. -/
def NeTellsTruth : Prop :=
  ∀ x p, s.vars x = some p → (p.neNull = true ↔ ∃ obj, p.raw = some obj)

/-- The ledger of a state: the variables are the holders. -/
def ledger : Ledger Var := ⟨s.raw, s.created, s.gone⟩

end State

/-! ## Section 3: The operations on the ledger -/

section Refine

variable {s s' : State Var Ty} {x o : Var}

theorem raw_of_vars_none (h : s.vars x = none) : s.raw x = none := by
  rw [State.raw, h, Option.bind_none]

/-- Two ledgers agree if the holders, the count and the ends do. -/
theorem ledger_eq {l : Ledger Var} (hraw : s.raw = l.held) (hcreated : s.created = l.created)
    (hgone : s.gone = l.gone) : s.ledger = l := by
  rw [State.ledger, hraw, hcreated, hgone]

variable [DecidableEq Var]

theorem raw_construct (s : State Var Ty) (x : Var) (p : UniquePtr Ty) :
    (s.construct x p).raw = Function.update s.raw x p.raw := by
  funext y
  unfold State.construct State.raw
  by_cases hyx : y = x
  · subst hyx
    simp
  · simp [Function.update_of_ne hyx]

theorem raw_setRaw (h : (s.vars x).isSome) (r : Option Nat) :
    (s.setRaw x r).raw = Function.update s.raw x r := by
  obtain ⟨p, hp⟩ := Option.isSome_iff_exists.mp h
  funext y
  unfold State.setRaw State.raw
  by_cases hyx : y = x
  · subst hyx
    simp [hp]
  · simp [Function.update_of_ne hyx]

/-- An assignment to the pointer keeps the variables alive. -/
theorem isSome_setRaw (y : Var) (r : Option Nat) :
    ((s.setRaw x r).vars y).isSome = (s.vars y).isSome := by
  unfold State.setRaw
  by_cases hyx : y = x
  · subst hyx
    simp
  · simp [Function.update_of_ne hyx]

theorem isSome_construct {y : Var} (h : (s.vars y).isSome) (x : Var) (p : UniquePtr Ty) :
    ((s.construct x p).vars y).isSome := by
  unfold State.construct
  by_cases hyx : y = x
  · subst hyx
    simp
  · simpa [Function.update_of_ne hyx] using h

theorem ledger_null (h : s.vars x = none) (T : Ty) : (s.null x T).ledger = s.ledger := by
  apply ledger_eq _ rfl rfl
  rw [State.null, raw_construct, ← raw_of_vars_none h]
  exact Function.update_eq_self x s.raw

theorem ledger_makeUnique (s : State Var Ty) (x : Var) (T : Ty) :
    (s.makeUnique x T).ledger = s.ledger.create x := by
  apply ledger_eq _ rfl rfl
  exact raw_construct _ x _

/-- Moving into a new variable is an exchange with nothing. -/
theorem ledger_moveConstruct (hx : s.vars x = none) (ho : (s.vars o).isSome) (T : Ty) :
    (s.moveConstruct x T o).ledger = s.ledger.swap x o := by
  apply ledger_eq _ rfl rfl
  show (s.moveConstruct x T o).raw = s.raw ∘ Equiv.swap x o
  rw [State.moveConstruct, raw_setRaw (isSome_construct ho x _), raw_construct, Equiv.swap_comm,
    Equiv.comp_swap_eq_update, raw_of_vars_none hx]

theorem ledger_convertConstruct (hx : s.vars x = none) (ho : (s.vars o).isSome) (T : Ty) :
    (s.convertConstruct x T o).ledger = s.ledger.swap x o := by
  apply ledger_eq _ rfl rfl
  show ((s.setRaw o none).construct x ⟨T, s.raw o⟩).raw = s.raw ∘ Equiv.swap x o
  rw [raw_construct, raw_setRaw ho, Equiv.comp_swap_eq_update, raw_of_vars_none hx]

/-- This includes the assignment of a variable to itself. -/
theorem ledger_moveAssign (hx : (s.vars x).isSome) (ho : (s.vars o).isSome) :
    (s.moveAssign x o).ledger = s.ledger.swap x o := by
  have halive : ((s.setRaw x (s.raw o)).vars o).isSome := by rwa [isSome_setRaw]
  apply ledger_eq _ rfl rfl
  show ((s.setRaw x (s.raw o)).setRaw o (s.raw x)).raw = s.raw ∘ Equiv.swap x o
  rw [raw_setRaw halive, raw_setRaw hx, Equiv.swap_comm, Equiv.comp_swap_eq_update]

theorem ledger_assignNull (hx : (s.vars x).isSome) :
    (s.assignNull x).ledger = s.ledger.retire x .deleted :=
  ledger_eq (raw_setRaw hx none) rfl rfl

theorem ledger_release (hx : (s.vars x).isSome) :
    ((s.release x).2.retire (s.release x).1 .released).ledger = s.ledger.retire x .released :=
  ledger_eq (raw_setRaw hx none) rfl rfl

theorem ledger_destroy (s : State Var Ty) (x : Var) :
    (s.destroy x).ledger = s.ledger.retire x .deleted := by
  apply ledger_eq _ rfl rfl
  funext y
  show (Function.update s.vars x none y).bind UniquePtr.raw = Function.update s.raw x none y
  by_cases hyx : y = x
  · subst hyx
    simp
  · simp [Function.update_of_ne hyx, State.raw]

variable [DecidableEq Ty] {isBaseOf : Ty → Ty → Bool}

/-- **Every operation** is a step of the ledger. -/
theorem step_ledger {op : Op Var Ty} (h : step isBaseOf s op = some s') :
    s.ledger.Step s'.ledger := by
  have hdead : ∀ {x : Var}, ¬(s.vars x).isSome = true → s.vars x = none :=
    fun h => Option.not_isSome_iff_eq_none.mp h
  cases op with
  | null x T =>
    obtain ⟨hx, heq⟩ := Option.ite_none_left_eq_some.mp h
    rw [← Option.some.inj heq, ledger_null (hdead hx)]
    exact .stay
  | makeUnique x T =>
    obtain ⟨hx, heq⟩ := Option.ite_none_left_eq_some.mp h
    rw [← Option.some.inj heq, ledger_makeUnique]
    exact .create x (raw_of_vars_none (hdead hx))
  | moveConstruct x o =>
    obtain ⟨p, hp, h⟩ := Option.bind_eq_some_iff.mp h
    obtain ⟨hx, heq⟩ := Option.ite_none_left_eq_some.mp h
    rw [← Option.some.inj heq, ledger_moveConstruct (hdead hx) (by simp [hp])]
    exact .swap x o
  | convertConstruct x T o =>
    obtain ⟨p, hp, h⟩ := Option.bind_eq_some_iff.mp h
    obtain ⟨hx, heq⟩ := Option.ite_none_left_eq_some.mp h
    rw [Bool.or_eq_true, not_or] at hx
    rw [← Option.some.inj heq, ledger_convertConstruct (hdead hx.1) (by simp [hp])]
    exact .swap x o
  | moveAssign x o =>
    obtain ⟨p, hp, h⟩ := Option.bind_eq_some_iff.mp h
    obtain ⟨q, hq, h⟩ := Option.bind_eq_some_iff.mp h
    obtain ⟨-, heq⟩ := Option.ite_none_right_eq_some.mp h
    rw [← Option.some.inj heq, ledger_moveAssign (by simp [hp]) (by simp [hq])]
    exact .swap x o
  | assignNull x =>
    obtain ⟨hx, heq⟩ := Option.ite_none_right_eq_some.mp h
    rw [← Option.some.inj heq, ledger_assignNull hx]
    exact .retire x .deleted
  | release x =>
    obtain ⟨hx, heq⟩ := Option.ite_none_right_eq_some.mp h
    rw [← Option.some.inj heq, ledger_release hx]
    exact .retire x .released
  | destroy x =>
    obtain ⟨-, heq⟩ := Option.ite_none_right_eq_some.mp h
    rw [← Option.some.inj heq, ledger_destroy]
    exact .retire x .deleted

theorem Reachable.linear (h : Reachable isBaseOf s) : s.ledger.Linear := by
  induction h with
  | init => exact linear_empty
  | step op _ hstep ih => exact ih.step (step_ledger hstep)

end Refine

/-! ## Section 4: Every reachable state -/

/-- Linear ownership, read off the ledger. -/
theorem owned_of_linear {s : State Var Ty} (h : s.ledger.Linear) : s.Owned := by
  have hmem : ∀ {obj fate}, (obj, fate) ∈ s.gone →
      obj ∈ (s.gone.filter fun p => p.2 = fate).map Prod.fst := by
    intro obj fate hgone
    exact List.mem_map.mpr ⟨(obj, fate), List.mem_filter.mpr ⟨hgone, by simp⟩, rfl⟩
  constructor
  · exact h.unique
  · exact h.once.sublist (List.filter_sublist.map Prod.fst)
  · intro x obj hx hdel
    obtain ⟨⟨obj', fate⟩, hgone, heq⟩ := List.mem_map.mp hdel
    have heq : obj' = obj := heq
    exact (h.live x obj hx).2 fate (heq ▸ (List.mem_filter.mp hgone).1)
  · intro hnone obj hlt
    rcases h.accounted obj hlt with ⟨fate, hgone⟩ | ⟨x, hx⟩
    · cases fate with
      | deleted => exact .inl (hmem hgone)
      | released => exact .inr (hmem hgone)
    · have hraw : s.raw x = some obj := hx
      rw [State.raw, hnone x] at hraw
      cases hraw

theorem eqTellsTruth (s : State Var Ty) : s.EqTellsTruth := by
  intro x p _
  rw [eqNull, beq_iff_eq]

/-- The two operators are the same. -/
theorem neTellsTruth_iff (s : State Var Ty) : s.NeTellsTruth ↔ ∀ x, s.vars x = none := by
  constructor
  · intro h x
    cases hp : s.vars x with
    | none => rfl
    | some p =>
      have htruth := h x p hp
      rw [neNull, beq_iff_eq] at htruth
      cases hraw : p.raw with
      | none => simp [hraw] at htruth
      | some obj => simp [hraw] at htruth
  · intro h x p hp
    rw [h x] at hp
    cases hp

variable [DecidableEq Var] [DecidableEq Ty]

/-- **`UniquePtr`**: in every reachable state, ownership is linear, `==` tells
    the truth, and `!=` tells it if and only if there is no variable. -/
theorem uniquePtr_iff (isBaseOf : Ty → Ty → Bool) (s : State Var Ty) (h : Reachable isBaseOf s) :
    s.Owned ∧ s.EqTellsTruth ∧ (s.NeTellsTruth ↔ ∀ x, s.vars x = none) :=
  ⟨owned_of_linear h.linear, eqTellsTruth s, neTellsTruth_iff s⟩

/-- The state after one `MakeUnique`. -/
def oneOwner : State Nat Nat := State.init.makeUnique 0 0

theorem reachable_oneOwner : Reachable (fun T U => T == U) oneOwner :=
  .step (.makeUnique 0 0) .init rfl

theorem uniquePtr_iff_oneOwner : oneOwner.Owned ∧ oneOwner.EqTellsTruth ∧
    (oneOwner.NeTellsTruth ↔ ∀ x, oneOwner.vars x = none) :=
  uniquePtr_iff (fun T U => T == U) oneOwner reachable_oneOwner

/-- The pointer owns an object, and `!=` says that it does not. -/
theorem neNull_oneOwner : Reachable (fun T U => T == U) oneOwner ∧
    oneOwner.vars 0 = some ⟨0, some 0⟩ ∧ neNull (⟨0, some 0⟩ : UniquePtr Nat) = false ∧
    ¬oneOwner.NeTellsTruth := by
  have hvar : oneOwner.vars 0 = some ⟨0, some 0⟩ := rfl
  refine ⟨reachable_oneOwner, hvar, rfl, ?_⟩
  intro h
  have htruth := (h 0 _ hvar).mpr ⟨0, rfl⟩
  cases htruth

end UniquePtr

end Hausboot
