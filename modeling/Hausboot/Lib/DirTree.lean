import Mathlib.Data.List.Basic
import Mathlib.Logic.Function.Basic

/-! # Trees of Named Directories

    Directories are numbered in the order in which they are made; number 0 is
    the root. An item of a directory answers to names, and stands for a
    directory or for a file. A path is followed from item to item.

    Directories only get longer. So as long as each of them can be listed, a
    path that leads somewhere keeps leading there (`walk_grows`). -/

namespace DirTree

/-- What an item stands for: a directory, by its number, or a file. -/
inductive Node (δ : Type*) where
  | dir (i : ℕ)
  | file (d : δ)
deriving DecidableEq

/-- A directory among the first `n` ones, or a file. -/
def Node.Below {δ : Type*} (x : Node δ) (n : ℕ) : Prop := ∀ j, x = .dir j → j < n

/-- Why a path leads nowhere. -/
inductive Stop (ν ε : Type*) where
  | notDirectory
  | missing (name : ν)
  | unreadable (e : ε)
deriving DecidableEq

/-- How items of type `α` are read: the names they answer to, and what they
    stand for. -/
structure Items (α ν δ : Type*) where
  answers : α → ν → Bool
  node : α → Node δ

/-- The directories below `count`. Each lists its items, or cannot be listed. -/
structure Tree (α ε : Type*) where
  count : ℕ
  list : ℕ → Except ε (List α)

variable {α ν δ ε : Type*}

namespace Tree

/-! ## Section 1: Following a path -/

section Walk

variable (I : Items α ν δ) (t : Tree α ε)

/-- One component of a path: the first item that answers to it. -/
def enter (x : Node δ) (name : ν) : Except (Stop ν ε) (Node δ) :=
  match x with
  | .file _ => .error .notDirectory
  | .dir i =>
    match t.list i with
    | .error e => .error (.unreadable e)
    | .ok as =>
      match as.find? (I.answers · name) with
      | some a => .ok (I.node a)
      | none => .error (.missing name)

def walk : List ν → Node δ → Except (Stop ν ε) (Node δ)
  | [], x => .ok x
  | name :: path, x => do walk path (← t.enter I x name)

variable {I t}

theorem enter_eq_ok {x y : Node δ} {name : ν} :
    t.enter I x name = .ok y ↔
      ∃ i as a, x = .dir i ∧ t.list i = .ok as ∧ as.find? (I.answers · name) = some a ∧
        I.node a = y := by
  cases x with
  | file d => simp [enter]
  | dir i =>
    cases hlist : t.list i with
    | error e => simp [enter, hlist]
    | ok as =>
      cases hfind : as.find? (I.answers · name) with
      | none => simp [enter, hlist, hfind]
      | some a => simp [enter, hlist, hfind]

theorem enter_dir {i : ℕ} {as : List α} (h : t.list i = .ok as) (name : ν) :
    t.enter I (.dir i) name =
      (as.find? (I.answers · name)).elim (.error (.missing name)) fun a => .ok (I.node a) := by
  rw [enter, h]
  dsimp only
  cases as.find? (I.answers · name) with
  | none => rfl
  | some a => rfl

end Walk

/-! ## Section 2: Making items and directories -/

variable (t : Tree α ε)

/-- The item `a` comes behind the items of directory `i`. -/
def add (i : ℕ) (a : α) : Tree α ε :=
  { t with list := Function.update t.list i ((t.list i).map (· ++ [a])) }

/-- A directory with these items gets the next number. -/
def grow (as : List α) : Tree α ε where
  count := t.count + 1
  list := Function.update t.list t.count (.ok as)

/-- From now on, directory `i` cannot be listed. -/
def spoil (i : ℕ) (e : ε) : Tree α ε :=
  { t with list := Function.update t.list i (.error e) }

@[simp] theorem count_add (i : ℕ) (a : α) : (t.add i a).count = t.count := rfl
@[simp] theorem count_grow (as : List α) : (t.grow as).count = t.count + 1 := rfl
@[simp] theorem count_spoil (i : ℕ) (e : ε) : (t.spoil i e).count = t.count := rfl

@[simp] theorem list_add_self (i : ℕ) (a : α) :
    (t.add i a).list i = (t.list i).map (· ++ [a]) := by
  simp [add]

@[simp] theorem list_grow_self (as : List α) : (t.grow as).list t.count = .ok as := by
  simp [grow]

@[simp] theorem list_spoil_self (i : ℕ) (e : ε) : (t.spoil i e).list i = .error e := by
  simp [spoil]

variable {t} {i j : ℕ}

theorem list_add_ne (h : j ≠ i) (a : α) : (t.add i a).list j = t.list j := by
  simp [add, h]

theorem list_grow_ne (h : j ≠ t.count) (as : List α) : (t.grow as).list j = t.list j := by
  simp [grow, h]

theorem list_spoil_ne (h : j ≠ i) (e : ε) : (t.spoil i e).list j = t.list j := by
  simp [spoil, h]

/-! ## Section 3: Proper trees -/

/-- No item leads to a number that is not in use. -/
structure Proper (I : Items α ν δ) (t : Tree α ε) : Prop where
  root : 0 < t.count
  unused : ∀ i, t.count ≤ i → t.list i = .ok []
  closed : ∀ i as, t.list i = .ok as → ∀ a ∈ as, (I.node a).Below t.count

namespace Proper

variable {I : Items α ν δ}

theorem add (h : t.Proper I) (hi : i < t.count) {a : α} (ha : (I.node a).Below t.count) :
    (t.add i a).Proper I where
  root := h.root
  unused j hj := by
    rw [count_add] at hj
    rw [list_add_ne (by omega), h.unused j hj]
  closed j as has b hb := by
    by_cases hji : j = i
    · subst hji
      rw [list_add_self] at has
      cases hlist : t.list j with
      | error e =>
        rw [hlist] at has
        cases has
      | ok bs =>
        rw [hlist] at has
        cases has
        rcases List.mem_append.mp hb with hb | hb
        · exact h.closed j bs hlist b hb
        · rw [List.mem_singleton.mp hb]
          exact ha
    · rw [list_add_ne hji] at has
      exact h.closed j as has b hb

theorem grow (h : t.Proper I) {as : List α} (has : ∀ a ∈ as, (I.node a).Below (t.count + 1)) :
    (t.grow as).Proper I where
  root := Nat.succ_pos _
  unused j hj := by
    rw [count_grow] at hj
    rw [list_grow_ne (by omega), h.unused j (by omega)]
  closed j bs hbs b hb := by
    by_cases hj : j = t.count
    · subst hj
      rw [list_grow_self] at hbs
      cases hbs
      exact has b hb
    · rw [list_grow_ne hj] at hbs
      intro k hk
      exact Nat.lt_succ_of_lt (h.closed j bs hbs b hb k hk)

theorem spoil (h : t.Proper I) (hi : i < t.count) (e : ε) : (t.spoil i e).Proper I where
  root := h.root
  unused j hj := by
    rw [count_spoil] at hj
    rw [list_spoil_ne (by omega), h.unused j hj]
  closed j as has := by
    by_cases hji : j = i
    · subst hji
      rw [list_spoil_self] at has
      cases has
    · rw [list_spoil_ne hji] at has
      exact h.closed j as has

/-- A path leads to directories that are there. -/
theorem walk (h : t.Proper I) {path : List ν} {x y : Node δ} (hx : x.Below t.count)
    (hw : t.walk I path x = .ok y) : y.Below t.count := by
  induction path generalizing x with
  | nil =>
    cases hw
    exact hx
  | cons name path ih =>
    cases henter : t.enter I x name with
    | error e =>
      rw [Tree.walk, henter] at hw
      cases hw
    | ok z =>
      rw [Tree.walk, henter] at hw
      rw [enter_eq_ok] at henter
      obtain ⟨j, as, a, -, hlist, hfind, rfl⟩ := henter
      exact ih (h.closed j as hlist a (List.mem_of_find?_eq_some hfind)) hw

end Proper

/-! ## Section 4: Growing -/

/-- Each directory that could be listed lists the same items first. -/
def Grows (t t' : Tree α ε) : Prop :=
  ∀ i as, t.list i = .ok as → ∃ bs, t'.list i = .ok (as ++ bs)

variable {t' t'' : Tree α ε}

theorem Grows.refl (t : Tree α ε) : t.Grows t :=
  fun _ as h => ⟨[], by rw [h, List.append_nil]⟩

theorem Grows.trans (h : t.Grows t') (h' : t'.Grows t'') : t.Grows t'' := by
  intro i as has
  obtain ⟨bs, hbs⟩ := h i as has
  obtain ⟨cs, hcs⟩ := h' i _ hbs
  exact ⟨bs ++ cs, by rw [hcs, List.append_assoc]⟩

theorem grows_add (t : Tree α ε) (i : ℕ) (a : α) : t.Grows (t.add i a) := by
  intro j as has
  by_cases hj : j = i
  · subst hj
    exact ⟨[a], by rw [list_add_self, has]; rfl⟩
  · exact ⟨[], by rw [list_add_ne hj, has, List.append_nil]⟩

theorem grows_grow {I : Items α ν δ} (h : t.Proper I) (as : List α) : t.Grows (t.grow as) := by
  intro j bs hbs
  by_cases hj : j = t.count
  · subst hj
    rw [h.unused _ (Nat.le_refl _)] at hbs
    cases hbs
    exact ⟨as, by rw [list_grow_self, List.nil_append]⟩
  · exact ⟨[], by rw [list_grow_ne hj, hbs, List.append_nil]⟩

variable {I : Items α ν δ}

theorem enter_grows (h : t.Grows t') {x y : Node δ} {name : ν} (he : t.enter I x name = .ok y) :
    t'.enter I x name = .ok y := by
  rw [enter_eq_ok] at he ⊢
  obtain ⟨i, as, a, rfl, hlist, hfind, hnode⟩ := he
  obtain ⟨bs, hbs⟩ := h i as hlist
  refine ⟨i, as ++ bs, a, rfl, hbs, ?_, hnode⟩
  rw [List.find?_append, hfind, Option.some_or]

/-- **Paths stay**: what a path leads to, it leads to in every tree that has
    grown out of this one. -/
theorem walk_grows (h : t.Grows t') {path : List ν} {x y : Node δ}
    (hw : t.walk I path x = .ok y) : t'.walk I path x = .ok y := by
  induction path generalizing x with
  | nil => exact hw
  | cons name path ih =>
    cases henter : t.enter I x name with
    | error e =>
      rw [walk, henter] at hw
      cases hw
    | ok z =>
      rw [walk, henter] at hw
      rw [walk, enter_grows h henter]
      exact ih hw

end Tree

end DirTree
