import Mathlib.Data.List.Basic
import Mathlib.Data.List.Induction
import Mathlib.Data.List.Nodup
import Mathlib.Data.List.Pairwise
import Mathlib.Tactic.Common

/-! # Exit Handlers

    `__cxa_atexit` and `__cxa_finalize` of `lib/cxxabi/cxxabi.cpp`. A handler
    should run once, and handlers should run in the reverse order of their
    registration. The branch for a single function takes what it ran out of the
    table; the branch for all functions does not, and they run again in the next
    call that reaches them.

    Destructors are opaque: what they do to other data is left out, and they do
    not register handlers themselves. -/

namespace Hausboot.Cxxabi

variable {Fn Obj : Type}

/-! ## Section 1: The code -/

/-- `atexit_func_entry_t` -/
structure Entry (Fn Obj : Type) where
  destructor : Option Fn
  obj : Obj

/-- The call of a destructor, with the index of its entry. -/
structure Call (Fn Obj : Type) where
  index : Nat
  destructor : Fn
  obj : Obj

/-- `ATEXIT_MAX_FUNCS` -/
def atexitMaxFuncs : Nat := 32

/-- `__cxa_atexit`. The table is the part of `atexitFuncs` below
    `atexitCount`. -/
def atexit (t : List (Entry Fn Obj)) (f : Option Fn) (objptr : Obj) :
    Int × List (Entry Fn Obj) :=
  if t.length ≥ atexitMaxFuncs then (-1, t) else (0, t ++ [⟨f, objptr⟩])

/-- The loop of `__cxa_finalize(nullptr)`, with `i` entries to go. -/
def finalizeAll (t : List (Entry Fn Obj)) : Nat → List (Call Fn Obj)
  | 0 => []
  | i + 1 =>
    match t[i]? with
    | some ⟨some d, obj⟩ => ⟨i, d, obj⟩ :: finalizeAll t i
    | _ => finalizeAll t i

section Code

variable [DecidableEq Fn]

/-- The loop of `__cxa_finalize(f)`, with `i` entries to go. -/
def finalizeOnly (f : Fn) : Nat → List (Entry Fn Obj) → List (Call Fn Obj) × List (Entry Fn Obj)
  | 0, t => ([], t)
  | i + 1, t =>
    match t[i]? with
    | some ⟨some d, obj⟩ =>
      if d = f then
        let rest := finalizeOnly f i (t.set i ⟨none, obj⟩)
        (⟨i, d, obj⟩ :: rest.1, rest.2)
      else finalizeOnly f i t
    | _ => finalizeOnly f i t

/-- `__cxa_finalize`: the destructors it calls, and the table it leaves. -/
def finalize (t : List (Entry Fn Obj)) : Option Fn → List (Call Fn Obj) × List (Entry Fn Obj)
  | none => (finalizeAll t t.length, t)
  | some f => finalizeOnly f t.length t

inductive Op (Fn Obj : Type) where
  | atexit (f : Option Fn) (objptr : Obj)
  | finalize (f : Option Fn)

/-- The table, and all calls so far. -/
structure State (Fn Obj : Type) where
  table : List (Entry Fn Obj)
  calls : List (Call Fn Obj)

def step (s : State Fn Obj) : Op Fn Obj → State Fn Obj
  | .atexit f objptr => { s with table := (atexit s.table f objptr).2 }
  | .finalize f => ⟨(finalize s.table f).2, s.calls ++ (finalize s.table f).1⟩

def run (ops : List (Op Fn Obj)) : State Fn Obj := ops.foldl step ⟨[], []⟩

theorem run_concat (ops : List (Op Fn Obj)) (op : Op Fn Obj) :
    run (ops ++ [op]) = step (run ops) op := by
  rw [run, List.foldl_append, List.foldl_cons, List.foldl_nil, run]

end Code

/-! ## Section 2: What exit handlers should do -/

def Op.registration : Op Fn Obj → Option (Entry Fn Obj)
  | .atexit f objptr => some ⟨f, objptr⟩
  | .finalize _ => none

/-- The registrations that succeed, without a look at the table. -/
def registered (ops : List (Op Fn Obj)) : List (Entry Fn Obj) :=
  (ops.filterMap Op.registration).take atexitMaxFuncs

theorem registered_atexit (ops : List (Op Fn Obj)) (f : Option Fn) (objptr : Obj) :
    registered (ops ++ [.atexit f objptr]) =
      if (registered ops).length < atexitMaxFuncs then
        registered ops ++ [{ destructor := f, obj := objptr }]
      else registered ops := by
  unfold registered
  rw [List.filterMap_append, List.length_take]
  generalize ops.filterMap Op.registration = es
  show (es ++ [_]).take atexitMaxFuncs = _
  split
  · rw [List.take_of_length_le (by rw [List.length_append, List.length_singleton]; omega),
      List.take_of_length_le (by omega)]
  · rw [List.take_append_of_le_length (by omega)]

theorem registered_finalize (ops : List (Op Fn Obj)) (f : Option Fn) :
    registered (ops ++ [.finalize f]) = registered ops := by
  unfold registered
  rw [List.filterMap_append]
  show (_ ++ []).take atexitMaxFuncs = _
  rw [List.append_nil]

section Spec

variable [DecidableEq Fn]

/-- The registrations that have run. -/
def ran (ops : List (Op Fn Obj)) : List Nat := (run ops).calls.map Call.index

/-- After `ops`, a finalize call with `f` has to make this call: of a
    registration that matches and has not run. -/
def Due (ops : List (Op Fn Obj)) (f : Option Fn) (c : Call Fn Obj) : Prop :=
  (registered ops)[c.index]? = some ⟨some c.destructor, c.obj⟩ ∧
  (f = none ∨ f = some c.destructor) ∧ c.index ∉ ran ops

/-- No handler runs twice, and each finalize call makes the calls that are due,
    in the reverse order of registration. -/
structure OnceInReverse (ops : List (Op Fn Obj)) : Prop where
  once : (ran ops).Nodup
  due : ∀ pre f post, ops = pre ++ .finalize f :: post →
    ∀ c, c ∈ (finalize (run pre).table f).1 ↔ Due pre f c
  reverse : ∀ pre f post, ops = pre ++ .finalize f :: post →
    ((finalize (run pre).table f).1.map Call.index).Pairwise (· > ·)

/-- The destructor was registered, and no call was for it since then. -/
def Pending (ops : List (Op Fn Obj)) (d : Fn) : Prop :=
  ∃ pre objptr post, ops = pre ++ .atexit (some d) objptr :: post ∧
    (registered pre).length < atexitMaxFuncs ∧ .finalize (some d) ∉ post

/-- A call for all functions comes when a destructor is pending, and a later
    call is for all functions again or for that one. -/
def Repeats (ops : List (Op Fn Obj)) : Prop :=
  ∃ pre mid post g d, ops = (pre ++ .finalize none :: mid) ++ .finalize g :: post ∧
    Pending pre d ∧ (g = none ∨ g = some d)

end Spec

/-! ## Section 3: One finalize call -/

section Loops

variable {t : List (Entry Fn Obj)} {n : Nat} {c : Call Fn Obj}

theorem mem_finalizeAll :
    c ∈ finalizeAll t n ↔ c.index < n ∧ t[c.index]? = some ⟨some c.destructor, c.obj⟩ := by
  induction n with
  | zero => simp [finalizeAll]
  | succ n ih =>
    unfold finalizeAll
    split
    · next d obj hentry =>
      rw [List.mem_cons, ih]
      constructor
      · intro h
        rcases h with heq | ⟨hlt, hc⟩
        · subst heq
          exact ⟨Nat.lt_succ_self n, hentry⟩
        · exact ⟨Nat.lt_succ_of_lt hlt, hc⟩
      · intro h
        rcases Nat.lt_succ_iff_lt_or_eq.mp h.1 with hlt | heq
        · exact .inr ⟨hlt, h.2⟩
        · -- the entry of this round
          left
          obtain ⟨i, d', obj'⟩ := c
          have heq : i = n := heq
          subst heq
          have hsame := hentry.symm.trans h.2
          simp only [Option.some.injEq, Entry.mk.injEq] at hsame
          rw [hsame.1, hsame.2]
    · next hentry =>
      rw [ih]
      constructor
      · intro h
        exact ⟨Nat.lt_succ_of_lt h.1, h.2⟩
      · intro h
        rcases Nat.lt_succ_iff_lt_or_eq.mp h.1 with hlt | heq
        · exact ⟨hlt, h.2⟩
        · exact absurd (heq ▸ h.2) (hentry _ _)

theorem finalizeAll_reverse : ((finalizeAll t n).map Call.index).Pairwise (· > ·) := by
  induction n with
  | zero => exact .nil
  | succ n ih =>
    unfold finalizeAll
    split
    · refine List.pairwise_cons.mpr ⟨?_, ih⟩
      intro i hi
      obtain ⟨c, hc, heq⟩ := List.mem_map.mp hi
      rw [mem_finalizeAll] at hc
      exact heq ▸ hc.1
    · exact ih

/-- A round that clears its entry leaves the entries below it alone. -/
theorem getElem?_set_of_lt {i : Nat} (h : i < n) (e : Entry Fn Obj) : (t.set n e)[i]? = t[i]? :=
  List.getElem?_set_ne (Nat.ne_of_gt h)

variable [DecidableEq Fn] {f : Fn}

theorem mem_finalizeOnly :
    c ∈ (finalizeOnly f n t).1 ↔
      c.index < n ∧ t[c.index]? = some ⟨some c.destructor, c.obj⟩ ∧ c.destructor = f := by
  induction n generalizing t with
  | zero => simp [finalizeOnly]
  | succ n ih =>
    -- an entry that is passed over is not one of the calls
    have hskip : (∀ obj, t[n]? ≠ some ⟨some f, obj⟩) →
        (c ∈ (finalizeOnly f n t).1 ↔ c.index < n + 1 ∧
          t[c.index]? = some ⟨some c.destructor, c.obj⟩ ∧ c.destructor = f) := by
      intro hne
      rw [ih]
      constructor
      · intro h
        exact ⟨Nat.lt_succ_of_lt h.1, h.2⟩
      · intro h
        obtain ⟨hlt, hentry, hd⟩ := h
        rcases Nat.lt_succ_iff_lt_or_eq.mp hlt with hlt | heq
        · exact ⟨hlt, hentry, hd⟩
        · rw [heq, hd] at hentry
          exact absurd hentry (hne c.obj)
    unfold finalizeOnly
    split
    · next d obj hentry =>
      split
      · next hd =>
        subst hd
        rw [List.mem_cons, ih]
        constructor
        · intro h
          rcases h with heq | ⟨hlt, hc, hd⟩
          · subst heq
            exact ⟨Nat.lt_succ_self n, hentry, rfl⟩
          · rw [getElem?_set_of_lt hlt] at hc
            exact ⟨Nat.lt_succ_of_lt hlt, hc, hd⟩
        · intro h
          obtain ⟨hlt, hc, hd⟩ := h
          rcases Nat.lt_succ_iff_lt_or_eq.mp hlt with hlt | heq
          · rw [getElem?_set_of_lt hlt]
            exact .inr ⟨hlt, hc, hd⟩
          · left
            rw [heq, hentry] at hc
            obtain ⟨i, d', obj'⟩ := c
            simp only [Option.some.injEq, Entry.mk.injEq] at heq hc
            rw [heq, ← hc.1, hc.2]
      · next hd =>
        apply hskip
        intro obj' heq
        rw [hentry] at heq
        simp only [Option.some.injEq, Entry.mk.injEq] at heq
        exact hd heq.1
    · next hentry =>
      exact hskip fun obj' => hentry f obj'

theorem finalizeOnly_reverse : ((finalizeOnly f n t).1.map Call.index).Pairwise (· > ·) := by
  induction n generalizing t with
  | zero => exact .nil
  | succ n ih =>
    unfold finalizeOnly
    split
    · split
      · refine List.pairwise_cons.mpr ⟨?_, ih⟩
        intro i hi
        obtain ⟨c, hc, heq⟩ := List.mem_map.mp hi
        rw [mem_finalizeOnly] at hc
        exact heq ▸ hc.1
      · exact ih
    · exact ih

/-- What a finalize call does to an entry of the table. -/
def clear (f : Option Fn) (e : Entry Fn Obj) : Entry Fn Obj :=
  if f ≠ none ∧ e.destructor = f then { e with destructor := none } else e

theorem getElem?_finalizeOnly (i : Nat) :
    (finalizeOnly f n t).2[i]? = if i < n then t[i]?.map (clear (some f)) else t[i]? := by
  induction n generalizing t with
  | zero => rfl
  | succ n ih =>
    have hskip : t[n]?.map (clear (some f)) = t[n]? →
        (finalizeOnly f n t).2[i]? =
          if i < n + 1 then t[i]?.map (clear (some f)) else t[i]? := by
      intro hkeep
      rw [ih]
      rcases Nat.lt_trichotomy i n with hlt | heq | hgt
      · rw [if_pos hlt, if_pos (by omega)]
      · rw [if_neg (by omega), if_pos (by omega), heq, hkeep]
      · rw [if_neg (by omega), if_neg (by omega)]
    unfold finalizeOnly
    split
    · next d obj hentry =>
      have hn : n < t.length := (List.getElem?_eq_some_iff.mp hentry).1
      split
      · next hd =>
        subst hd
        rw [ih]
        rcases Nat.lt_trichotomy i n with hlt | heq | hgt
        · rw [if_pos hlt, if_pos (by omega), getElem?_set_of_lt hlt]
        · subst heq
          rw [if_neg (by omega), if_pos (by omega), List.getElem?_set_self hn, hentry]
          simp [clear]
        · rw [if_neg (by omega), if_neg (by omega), List.getElem?_set_ne (by omega)]
      · next hd =>
        apply hskip
        rw [hentry]
        simp [clear, hd]
    · next hentry =>
      apply hskip
      cases htn : t[n]? with
      | none => rfl
      | some e =>
        have hd : e.destructor ≠ some f := by
          intro heq
          apply hentry f e.obj
          rw [htn, ← heq]
        simp [clear, hd]

end Loops

variable [DecidableEq Fn]

theorem mem_finalize {t : List (Entry Fn Obj)} {f : Option Fn} {c : Call Fn Obj} :
    c ∈ (finalize t f).1 ↔
      t[c.index]? = some ⟨some c.destructor, c.obj⟩ ∧ (f = none ∨ f = some c.destructor) := by
  have hlt : t[c.index]? = some ⟨some c.destructor, c.obj⟩ → c.index < t.length :=
    fun h => (List.getElem?_eq_some_iff.mp h).1
  cases f with
  | none =>
    rw [finalize, mem_finalizeAll]
    constructor
    · intro h
      exact ⟨h.2, .inl rfl⟩
    · intro h
      exact ⟨hlt h.1, h.1⟩
  | some f =>
    rw [finalize, mem_finalizeOnly]
    constructor
    · intro h
      exact ⟨h.2.1, .inr (congrArg some h.2.2.symm)⟩
    · intro h
      have hf : some f = some c.destructor := by simpa using h.2
      exact ⟨hlt h.1, h.1, (Option.some.inj hf).symm⟩

theorem finalize_reverse (t : List (Entry Fn Obj)) (f : Option Fn) :
    ((finalize t f).1.map Call.index).Pairwise (· > ·) := by
  cases f with
  | none => exact finalizeAll_reverse
  | some f => exact finalizeOnly_reverse

theorem finalize_table (t : List (Entry Fn Obj)) (f : Option Fn) :
    (finalize t f).2 = t.map (clear f) := by
  apply List.ext_getElem?
  intro i
  rw [List.getElem?_map]
  cases f with
  | none =>
    have hclear : (clear none : Entry Fn Obj → Entry Fn Obj) = id := by
      funext e
      exact if_neg (by simp)
    rw [finalize, hclear, Option.map_id]
    rfl
  | some f =>
    rw [finalize, getElem?_finalizeOnly]
    split
    · rfl
    · next h =>
      rw [List.getElem?_eq_none (Nat.le_of_not_lt h)]
      rfl

/-- A destructor that is still there after the call was there before. -/
theorem of_clear {t : List (Entry Fn Obj)} {f : Option Fn} {i : Nat} {e : Entry Fn Obj}
    (h : (t.map (clear f))[i]? = some e) (hd : e.destructor ≠ none) :
    t[i]? = some e ∧ (f = none ∨ f ≠ e.destructor) := by
  rw [List.getElem?_map, Option.map_eq_some_iff] at h
  obtain ⟨e', he', heq⟩ := h
  unfold clear at heq
  split at heq
  · subst heq
    exact absurd rfl hd
  · next hkeep =>
    subst heq
    refine ⟨he', ?_⟩
    by_cases hf : f = none
    · exact .inl hf
    · exact .inr fun heq => hkeep ⟨hf, heq.symm⟩

/-! ## Section 4: Over a run -/

section Concat

variable (ops : List (Op Fn Obj)) (f : Option Fn) (objptr : Obj)

theorem run_atexit : run (ops ++ [.atexit f objptr]) =
    { run ops with table := (atexit (run ops).table f objptr).2 } := run_concat ops _

theorem run_finalize : run (ops ++ [.finalize f]) =
    ⟨(run ops).table.map (clear f), (run ops).calls ++ (finalize (run ops).table f).1⟩ := by
  rw [run_concat, step, finalize_table]

theorem ran_atexit : ran (ops ++ [.atexit f objptr]) = ran ops := by
  rw [ran, run_atexit, ran]

theorem ran_finalize : ran (ops ++ [.finalize f]) =
    ran ops ++ (finalize (run ops).table f).1.map Call.index := by
  rw [ran, run_finalize, List.map_append, ran]

end Concat

/-- What one operation does to an entry with a destructor: it stays, unless
    the call is for that destructor, and a registration adds one at the end. -/
theorem entry_concat_iff (ops : List (Op Fn Obj)) (op : Op Fn Obj) (i : Nat) (d : Fn) (obj : Obj) :
    (run (ops ++ [op])).table[i]? = some ⟨some d, obj⟩ ↔
      ((run ops).table[i]? = some ⟨some d, obj⟩ ∧ op ≠ .finalize (some d)) ∨
      (op = .atexit (some d) obj ∧ i = (run ops).table.length ∧
        (run ops).table.length < atexitMaxFuncs) := by
  cases op with
  | atexit f objptr =>
    rw [run_atexit]
    unfold atexit
    by_cases hfull : (run ops).table.length ≥ atexitMaxFuncs
    · rw [if_pos hfull]
      simp [Nat.not_lt.mpr hfull]
    · rw [if_neg hfull]
      rcases Nat.lt_trichotomy i (run ops).table.length with hlt | heq | hgt
      · rw [List.getElem?_append_left hlt]
        simp [Nat.ne_of_lt hlt]
      · -- the entry of this registration
        subst heq
        rw [List.getElem?_concat_length, List.getElem?_eq_none (Nat.le_refl _)]
        simp [Nat.lt_of_not_le hfull]
      · rw [List.getElem?_eq_none (by rw [List.length_append, List.length_singleton]; omega),
          List.getElem?_eq_none (by omega)]
        simp [Nat.ne_of_gt hgt]
  | finalize f =>
    rw [run_finalize]
    constructor
    · intro h
      obtain ⟨hbefore, hf⟩ := of_clear h (by simp)
      refine .inl ⟨hbefore, ?_⟩
      intro heq
      have hfd : f = some d := Op.finalize.inj heq
      rcases hf with hnone | hne
      · rw [hnone] at hfd
        cases hfd
      · exact hne hfd
    · intro h
      rcases h with ⟨hbefore, hne⟩ | ⟨heq, -⟩
      · rw [List.getElem?_map, hbefore, Option.map_some, clear, if_neg]
        intro hcleared
        exact hne (congrArg Op.finalize hcleared.2.symm)
      · cases heq

/-- How the table follows the registrations. -/
structure Tracks (ops : List (Op Fn Obj)) : Prop where
  length : (run ops).table.length = (registered ops).length
  kept : ∀ (i : Nat) (e : Entry Fn Obj), (run ops).table[i]? = some e → e.destructor ≠ none →
    (registered ops)[i]? = some e
  fresh : ∀ i : Nat, i ∉ ran ops → (run ops).table[i]? = (registered ops)[i]?
  ran_lt : ∀ i ∈ ran ops, i < (registered ops).length

theorem Tracks.atexit {ops : List (Op Fn Obj)} (h : Tracks ops) (f : Option Fn) (objptr : Obj) :
    Tracks (ops ++ [.atexit f objptr]) := by
  have hlen := h.length
  by_cases hfull : (registered ops).length < atexitMaxFuncs
  · -- the same entry goes to the end of both lists
    have htable : (run (ops ++ [.atexit f objptr])).table = (run ops).table ++ [⟨f, objptr⟩] := by
      rw [run_atexit, Cxxabi.atexit, if_neg (by omega)]
    have hreg := registered_atexit ops f objptr
    rw [if_pos hfull] at hreg
    constructor
    · rw [htable, hreg, List.length_append, List.length_append, hlen]
    · intro i e he hd
      rw [htable] at he
      rw [hreg]
      by_cases hi : i < (registered ops).length
      · rw [List.getElem?_append_left (by omega)] at he
        rw [List.getElem?_append_left hi]
        exact h.kept i e he hd
      · rw [List.getElem?_append_right (by omega), hlen] at he
        rw [List.getElem?_append_right (by omega)]
        exact he
    · intro i hi
      rw [ran_atexit] at hi
      rw [htable, hreg]
      by_cases hlt : i < (registered ops).length
      · rw [List.getElem?_append_left (by omega), List.getElem?_append_left hlt]
        exact h.fresh i hi
      · rw [List.getElem?_append_right (by omega), List.getElem?_append_right (by omega), hlen]
    · intro i hi
      rw [ran_atexit] at hi
      rw [hreg, List.length_append]
      exact Nat.lt_add_right _ (h.ran_lt i hi)
  · have htable : (run (ops ++ [.atexit f objptr])).table = (run ops).table := by
      rw [run_atexit, Cxxabi.atexit, if_pos (by omega)]
    have hreg := registered_atexit ops f objptr
    rw [if_neg hfull] at hreg
    constructor
    · rw [htable, hreg, hlen]
    · rw [htable, hreg]
      exact h.kept
    · rw [ran_atexit, htable, hreg]
      exact h.fresh
    · rw [ran_atexit, hreg]
      exact h.ran_lt

theorem Tracks.finalize {ops : List (Op Fn Obj)} (h : Tracks ops) (f : Option Fn) :
    Tracks (ops ++ [.finalize f]) := by
  have htable : (run (ops ++ [.finalize f])).table = (run ops).table.map (clear f) := by
    rw [run_finalize]
  have hlen := h.length
  constructor
  · rw [htable, registered_finalize, List.length_map, hlen]
  · intro i e he hd
    rw [htable] at he
    rw [registered_finalize]
    exact h.kept i e (of_clear he hd).1 hd
  · intro i hi
    rw [ran_finalize, List.mem_append, not_or] at hi
    rw [htable, registered_finalize, List.getElem?_map, ← h.fresh i hi.1]
    cases hentry : (run ops).table[i]? with
    | none => rfl
    | some e =>
      -- an entry that is cleared was called
      rw [Option.map_some, clear, if_neg]
      intro hcleared
      obtain ⟨hf, hd⟩ := hcleared
      obtain ⟨d, hfd⟩ := Option.ne_none_iff_exists'.mp hf
      apply hi.2
      have hcall : (⟨i, d, e.obj⟩ : Call Fn Obj) ∈ (Cxxabi.finalize (run ops).table f).1 := by
        rw [mem_finalize]
        refine ⟨?_, .inr hfd⟩
        rw [hentry, ← hfd, ← hd]
      exact List.mem_map.mpr ⟨_, hcall, rfl⟩
  · intro i hi
    rw [ran_finalize, List.mem_append] at hi
    rw [registered_finalize]
    rcases hi with hi | hi
    · exact h.ran_lt i hi
    · obtain ⟨c, hc, heq⟩ := List.mem_map.mp hi
      rw [mem_finalize] at hc
      have hlt := (List.getElem?_eq_some_iff.mp hc.1).1
      rw [← heq, ← hlen]
      exact hlt

theorem tracks_run (ops : List (Op Fn Obj)) : Tracks ops := by
  induction ops using List.reverseRecOn with
  | nil => exact ⟨rfl, by simp [run], by simp [run, registered], by simp [ran, run]⟩
  | append_singleton ops op ih =>
    cases op with
    | atexit f objptr => exact ih.atexit f objptr
    | finalize f => exact ih.finalize f

/-- The table never outgrows its array. -/
theorem length_table_le (ops : List (Op Fn Obj)) : (run ops).table.length ≤ atexitMaxFuncs := by
  rw [(tracks_run ops).length, registered]
  exact List.length_take_le _ _

/-- A registration counts if and only if `__cxa_atexit` returns zero. -/
theorem atexit_eq_zero_iff (ops : List (Op Fn Obj)) (f : Option Fn) (objptr : Obj) :
    (atexit (run ops).table f objptr).1 = 0 ↔
      registered (ops ++ [.atexit f objptr]) =
        registered ops ++ [{ destructor := f, obj := objptr }] := by
  have hlen := (tracks_run ops).length
  rw [registered_atexit]
  unfold atexit
  by_cases hfull : (registered ops).length < atexitMaxFuncs
  · rw [if_neg (by omega), if_pos hfull]
    simp
  · rw [if_pos (by omega), if_neg hfull]
    simp

/-- The pending destructors are those in the table. -/
theorem pending_iff (ops : List (Op Fn Obj)) (d : Fn) :
    Pending ops d ↔ ∃ (i : Nat) (obj : Obj), (run ops).table[i]? = some ⟨some d, obj⟩ := by
  constructor
  · intro h
    obtain ⟨pre, objptr, post, hops, hroom, hnone⟩ := h
    subst hops
    rw [← (tracks_run pre).length] at hroom
    refine ⟨(run pre).table.length, objptr, ?_⟩
    -- the entry is made, and no operation after it clears it
    induction post using List.reverseRecOn with
    | nil => exact (entry_concat_iff pre _ _ d objptr).mpr (.inr ⟨rfl, rfl, hroom⟩)
    | append_singleton post op ih =>
      rw [List.mem_append, not_or, List.mem_singleton] at hnone
      rw [← List.cons_append, ← List.append_assoc]
      exact (entry_concat_iff _ op _ d objptr).mpr (.inl ⟨ih hnone.1, Ne.symm hnone.2⟩)
  · intro h
    obtain ⟨i, obj, hentry⟩ := h
    induction ops using List.reverseRecOn with
    | nil => simp [run] at hentry
    | append_singleton ops op ih =>
      rcases (entry_concat_iff ops op i d obj).mp hentry with ⟨hbefore, hop⟩ | ⟨hop, -, hroom⟩
      · obtain ⟨pre, objptr, post, hops, hpre, hnone⟩ := ih hbefore
        refine ⟨pre, objptr, post ++ [op], by rw [hops]; simp, hpre, ?_⟩
        rw [List.mem_append, not_or, List.mem_singleton]
        exact ⟨hnone, Ne.symm hop⟩
      · rw [(tracks_run ops).length] at hroom
        exact ⟨ops, obj, [], by rw [hop], hroom, by simp⟩

/-- A finalize call makes the calls that are due, and maybe others. -/
theorem mem_finalize_of_due {ops : List (Op Fn Obj)} {f : Option Fn} {c : Call Fn Obj}
    (h : Due ops f c) : c ∈ (finalize (run ops).table f).1 := by
  obtain ⟨hreg, hmatch, hran⟩ := h
  rw [← (tracks_run ops).fresh _ hran] at hreg
  rw [mem_finalize]
  exact ⟨hreg, hmatch⟩

theorem due_of_mem_finalize {ops : List (Op Fn Obj)} {f : Option Fn} {c : Call Fn Obj}
    (h : c ∈ (finalize (run ops).table f).1) (hran : c.index ∉ ran ops) : Due ops f c := by
  rw [mem_finalize] at h
  obtain ⟨hentry, hmatch⟩ := h
  exact ⟨(tracks_run ops).kept _ _ hentry (by simp), hmatch, hran⟩

/-! ## Section 5: When handlers run again -/

/-- An entry that has run and is still there was run by a call for all
    functions. -/
theorem stale_entry {ops : List (Op Fn Obj)} {i : Nat} {d : Fn} {obj : Obj} (hran : i ∈ ran ops)
    (hentry : (run ops).table[i]? = some ⟨some d, obj⟩) :
    ∃ pre mid, ops = pre ++ .finalize none :: mid ∧ (run pre).table[i]? = some ⟨some d, obj⟩ := by
  induction ops using List.reverseRecOn with
  | nil => simp [ran, run] at hran
  | append_singleton ops op ih =>
    have hcases := (entry_concat_iff ops op i d obj).mp hentry
    -- an earlier call is still one after this operation
    have hlater : i ∈ ran ops → (run ops).table[i]? = some ⟨some d, obj⟩ →
        ∃ pre mid, ops ++ [op] = pre ++ .finalize none :: mid ∧
          (run pre).table[i]? = some ⟨some d, obj⟩ := by
      intro hran hbefore
      obtain ⟨pre, mid, heq, hpre⟩ := ih hran hbefore
      exact ⟨pre, mid ++ [op], by rw [heq, List.append_assoc]; rfl, hpre⟩
    cases op with
    | atexit f objptr =>
      rw [ran_atexit] at hran
      rcases hcases with ⟨hbefore, -⟩ | ⟨-, hi, -⟩
      · exact hlater hran hbefore
      · -- a new entry has not run
        have hlt := (tracks_run ops).ran_lt i hran
        rw [hi, (tracks_run ops).length] at hlt
        exact absurd hlt (Nat.lt_irrefl _)
    | finalize f =>
      rw [ran_finalize, List.mem_append] at hran
      obtain ⟨hbefore, hne⟩ := hcases.resolve_right fun h => nomatch h.1
      rcases hran with hran | hran
      · exact hlater hran hbefore
      · -- the call of this step left the entry in the table
        obtain ⟨c, hc, heq⟩ := List.mem_map.mp hran
        rw [mem_finalize] at hc
        obtain ⟨hentry', hmatch⟩ := hc
        rw [heq, hbefore] at hentry'
        simp only [Option.some.injEq, Entry.mk.injEq] at hentry'
        have hnone : f = none := by
          apply hmatch.resolve_right
          intro hsome
          exact hne (congrArg Op.finalize (hsome.trans (congrArg some hentry'.1.symm)))
        subst hnone
        exact ⟨ops, [], rfl, hbefore⟩

/-- If no call repeats what has run, no handler runs twice. -/
theorem nodup_ran {ops : List (Op Fn Obj)}
    (h : ∀ pre f post, ops = pre ++ .finalize f :: post →
      ∀ c ∈ (finalize (run pre).table f).1, c.index ∉ ran pre) : (ran ops).Nodup := by
  induction ops using List.reverseRecOn with
  | nil => exact List.nodup_nil
  | append_singleton ops op ih =>
    have hbefore := ih fun pre f post heq => h pre f (post ++ [op]) (by rw [heq]; simp)
    cases op with
    | atexit f objptr => rwa [ran_atexit]
    | finalize f =>
      have hnow := h ops f [] rfl
      rw [ran_finalize]
      refine List.nodup_append.mpr ⟨hbefore, ?_, ?_⟩
      · exact (finalize_reverse _ f).imp fun hgt => Nat.ne_of_gt hgt
      · intro i hi j hj heq
        obtain ⟨c, hc, hj⟩ := List.mem_map.mp hj
        exact hnow c hc (by rw [hj, ← heq]; exact hi)

theorem ran_mono (ops mid : List (Op Fn Obj)) {i : Nat} (h : i ∈ ran ops) : i ∈ ran (ops ++ mid) := by
  induction mid using List.reverseRecOn with
  | nil => rwa [List.append_nil]
  | append_singleton mid op ih =>
    rw [← List.append_assoc]
    cases op with
    | atexit f objptr => rwa [ran_atexit]
    | finalize f =>
      rw [ran_finalize]
      exact List.mem_append_left _ ih

/-- As long as all calls are due, an entry that has run and is still there
    stays. -/
theorem stale_stays {ops : List (Op Fn Obj)} (mid post : List (Op Fn Obj)) {i : Nat} {d : Fn}
    {obj : Obj}
    (hdue : ∀ pre f post', ops ++ mid ++ post = pre ++ .finalize f :: post' →
      ∀ c ∈ (finalize (run pre).table f).1, Due pre f c)
    (hran : i ∈ ran ops) (hentry : (run ops).table[i]? = some ⟨some d, obj⟩) :
    (run (ops ++ mid)).table[i]? = some ⟨some d, obj⟩ := by
  induction mid using List.reverseRecOn generalizing post with
  | nil => rwa [List.append_nil]
  | append_singleton mid op ih =>
    have hbefore := ih (op :: post) (by
      intro pre f post' heq
      exact hdue pre f post' (by rw [← heq]; simp))
    rw [← List.append_assoc]
    refine (entry_concat_iff _ op i d obj).mpr (.inl ⟨hbefore, ?_⟩)
    intro hop
    -- a call that clears it would not be due
    have hcall : (⟨i, d, obj⟩ : Call Fn Obj) ∈ (finalize (run (ops ++ mid)).table (some d)).1 := by
      rw [mem_finalize]
      exact ⟨hbefore, .inr rfl⟩
    have hnot := hdue (ops ++ mid) (some d) post (by rw [hop]; simp) _ hcall
    exact hnot.2.2 (ran_mono ops mid hran)

/-- **Exit handlers** run once and in reverse if and only if no call for all
    functions that reaches a handler is followed by another call that does. -/
theorem onceInReverse_iff (ops : List (Op Fn Obj)) : OnceInReverse ops ↔ ¬Repeats ops := by
  constructor
  · intro h hrepeats
    obtain ⟨pre, mid, post, g, d, hops, hpending, hg⟩ := hrepeats
    obtain ⟨i, obj, hentry⟩ := (pending_iff pre d).mp hpending
    have hsplit : pre ++ .finalize none :: mid = (pre ++ [.finalize none]) ++ mid := by simp
    rw [hsplit] at hops
    -- the first call runs the handler and leaves it in the table
    have hcall : (⟨i, d, obj⟩ : Call Fn Obj) ∈ (finalize (run pre).table none).1 := by
      rw [mem_finalize]
      exact ⟨hentry, .inl rfl⟩
    have hran : i ∈ ran (pre ++ [.finalize none]) := by
      rw [ran_finalize]
      exact List.mem_append_right _ (List.mem_map.mpr ⟨_, hcall, rfl⟩)
    have hleft := (entry_concat_iff pre (.finalize none) i d obj).mpr (.inl ⟨hentry, by simp⟩)
    have hstays := stale_stays mid (.finalize g :: post)
      (fun pre' f post' heq c hc => (h.due pre' f post' (hops.trans heq) c).mp hc) hran hleft
    -- so the second call runs it again
    have hagain : (⟨i, d, obj⟩ : Call Fn Obj) ∈
        (finalize (run (pre ++ [.finalize none] ++ mid)).table g).1 := by
      rw [mem_finalize]
      exact ⟨hstays, hg⟩
    have hnot := (h.due _ g post hops _).mp hagain
    exact hnot.2.2 (ran_mono _ mid hran)
  · intro hno
    have hnew : ∀ pre f post, ops = pre ++ .finalize f :: post →
        ∀ c ∈ (finalize (run pre).table f).1, c.index ∉ ran pre := by
      intro pre f post hops c hc hran
      rw [mem_finalize] at hc
      obtain ⟨hentry, hmatch⟩ := hc
      obtain ⟨pre', mid, heq, hbefore⟩ := stale_entry hran hentry
      exact hno ⟨pre', mid, post, f, c.destructor, by rw [← heq]; exact hops,
        (pending_iff pre' _).mpr ⟨c.index, c.obj, hbefore⟩, hmatch⟩
    exact {
      once := nodup_ran hnew
      due := fun pre f post hops c =>
        ⟨fun hc => due_of_mem_finalize hc (hnew pre f post hops c hc), mem_finalize_of_due⟩
      reverse := fun pre f _ _ => finalize_reverse _ f }

/-- Two calls for all functions, as at the end of a program that calls
    `__cxa_finalize` by hand. -/
def twice : List (Op Nat Nat) := [.atexit (some 1) 7, .finalize none, .finalize none]

theorem onceInReverse_twice : ran twice = [0, 0] ∧ ¬OnceInReverse twice := by
  have hran : ran twice = [0, 0] := rfl
  refine ⟨hran, ?_⟩
  intro h
  have hnodup := h.once
  rw [hran] at hnodup
  exact absurd hnodup (by decide)

end Hausboot.Cxxabi
