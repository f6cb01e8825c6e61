import Mathlib.Tactic.Common

/-! # Programs that Ask

    A program that gets its input by requests, as a tree: it is done, or it
    asks and goes on with the answer. `run` lets a stateful server answer;
    `Outcome` follows the tree along any answers that a relation allows.

    What one request does to the server is thus proved once, and carries over
    to every program. -/

namespace QueryLib

inductive Query (ι : Type) (ρ : ι → Type) (α : Type) where
  | done (a : α)
  | ask (i : ι) (k : ρ i → Query ι ρ α)

variable {ι σ α β : Type} {ρ : ι → Type}

namespace Query

/-! ## Section 1: Running a program -/

def bind : Query ι ρ α → (α → Query ι ρ β) → Query ι ρ β
  | done a, f => f a
  | ask i k, f => ask i fun r => (k r).bind f

/-- The result of a program whose requests `serve` answers, and the state that
    the server is left in. -/
def run (serve : σ → (i : ι) → ρ i × σ) : σ → Query ι ρ α → α × σ
  | s, done a => (a, s)
  | s, ask i k => run serve (serve s i).2 (k (serve s i).1)

/-- Each request is made in a server state that meets `C`. -/
def Meets (serve : σ → (i : ι) → ρ i × σ) (C : σ → ι → Prop) : σ → Query ι ρ α → Prop
  | _, done _ => True
  | s, ask i k => C s i ∧ Meets serve C (serve s i).2 (k (serve s i).1)

/-- The program can end with a result when `ok` says which answers it gets. -/
inductive Outcome (ok : (i : ι) → ρ i → Prop) : Query ι ρ α → α → Prop where
  | done (a : α) : Outcome ok (done a) a
  | ask {i : ι} {k : ρ i → Query ι ρ α} {r : ρ i} {a : α} :
      ok i r → Outcome ok (k r) a → Outcome ok (ask i k) a

/-- Every request that the program can make satisfies `P`. -/
def Asks (P : ι → Prop) : Query ι ρ α → Prop
  | done _ => True
  | ask i k => P i ∧ ∀ r, Asks P (k r)

/-- An answer that `bad` describes ends the program, with a result in `B`. -/
def Strict (bad : (i : ι) → ρ i → Prop) (B : α → Prop) : Query ι ρ α → Prop
  | done _ => True
  | ask i k => (∀ r, bad i r → ∃ a, k r = done a ∧ B a) ∧ ∀ r, Strict bad B (k r)

variable {serve : σ → (i : ι) → ρ i × σ}

instance Meets.decidable {C : σ → ι → Prop} [∀ s i, Decidable (C s i)] :
    ∀ (q : Query ι ρ α) (s : σ), Decidable (q.Meets serve C s)
  | done _, _ => .isTrue trivial
  | ask i k, s =>
    @instDecidableAnd _ _ _ (Meets.decidable (k (serve s i).1) (serve s i).2)

theorem run_bind (q : Query ι ρ α) (f : α → Query ι ρ β) (s : σ) :
    run serve s (q.bind f) = run serve (run serve s q).2 (f (run serve s q).1) := by
  induction q generalizing s with
  | done a => rfl
  | ask i k ih => exact ih (serve s i).1 (serve s i).2

/-! ## Section 2: Sequencing -/

theorem Asks.bind {P : ι → Prop} {q : Query ι ρ α} {f : α → Query ι ρ β} (hq : q.Asks P)
    (hf : ∀ a, (f a).Asks P) : (q.bind f).Asks P := by
  induction q with
  | done a => exact hf a
  | ask i k ih => exact ⟨hq.1, fun r => ih r (hq.2 r)⟩

/-- A program goes on strictly when it stops on the results that a bad answer
    leads to. -/
theorem Strict.bind {bad : (i : ι) → ρ i → Prop} {B : α → Prop} {B' : β → Prop}
    {q : Query ι ρ α} {f : α → Query ι ρ β} (hq : q.Strict bad B)
    (hB : ∀ a, B a → ∃ b, f a = done b ∧ B' b) (hf : ∀ a, (f a).Strict bad B') :
    (q.bind f).Strict bad B' := by
  induction q with
  | done a => exact hf a
  | ask i k ih =>
    refine ⟨fun r hr => ?_, fun r => ih r (hq.2 r)⟩
    obtain ⟨a, ha, hBa⟩ := hq.1 r hr
    obtain ⟨b, hb, hBb⟩ := hB a hBa
    refine ⟨b, ?_, hBb⟩
    show (k r).bind f = done b
    rw [ha]
    exact hb

/-! ## Section 3: Invariants of the server -/

/-- An invariant that each request keeps holds when the program is done. -/
theorem run_inv {Inv : σ → Prop} {C : σ → ι → Prop} {q : Query ι ρ α} {s : σ} (hs : Inv s)
    (hq : q.Meets serve C s) (hstep : ∀ s i, Inv s → C s i → Inv (serve s i).2) :
    Inv (run serve s q).2 := by
  induction q generalizing s with
  | done a => exact hs
  | ask i k ih => exact ih _ (hstep s i hs hq.1) hq.2

theorem meets_of_forall {C : σ → ι → Prop} (h : ∀ s i, C s i) (q : Query ι ρ α) (s : σ) :
    q.Meets serve C s := by
  induction q generalizing s with
  | done a => trivial
  | ask i k ih => exact ⟨h s i, ih _ _⟩

/-- What holds of every request holds of those that are made. -/
theorem Asks.meets {P : ι → Prop} {C : σ → ι → Prop} {q : Query ι ρ α} (h : q.Asks P)
    (hC : ∀ s i, P i → C s i) (s : σ) : q.Meets serve C s := by
  induction q generalizing s with
  | done a => trivial
  | ask i k ih => exact ⟨hC s i h.1, ih _ (h.2 _) _⟩

theorem Meets.bind {C : σ → ι → Prop} {q : Query ι ρ α} {f : α → Query ι ρ β} {s : σ}
    (hq : q.Meets serve C s) (hf : (f (run serve s q).1).Meets serve C (run serve s q).2) :
    (q.bind f).Meets serve C s := by
  induction q generalizing s with
  | done a => exact hf
  | ask i k ih => exact ⟨hq.1, ih _ hq.2 hf⟩

/-- The same both ways, where a request that breaks the invariant is answered
    by something that ends the program. -/
theorem run_inv_iff {Inv : σ → Prop} {C : σ → ι → Prop} {P : ι → Prop}
    {bad : (i : ι) → ρ i → Prop} {B : α → Prop} {q : Query ι ρ α} {s : σ} (hs : Inv s)
    (hasks : q.Asks P) (hstrict : q.Strict bad B)
    (hstep : ∀ s i, Inv s → P i → (Inv (serve s i).2 ↔ C s i))
    (hbad : ∀ s i, Inv s → P i → ¬ C s i → bad i (serve s i).1) :
    Inv (run serve s q).2 ↔ q.Meets serve C s := by
  induction q generalizing s with
  | done a => exact ⟨fun _ => trivial, fun _ => hs⟩
  | ask i k ih =>
    by_cases hC : C s i
    · have hinv := (hstep s i hs hasks.1).mpr hC
      exact (ih _ hinv (hasks.2 _) (hstrict.2 _)).trans ⟨fun h => ⟨hC, h⟩, fun h => h.2⟩
    · -- the program is done right after this request
      obtain ⟨a, ha, -⟩ := hstrict.1 _ (hbad s i hs hasks.1 hC)
      have hinv : ¬ Inv (serve s i).2 := fun h => hC ((hstep s i hs hasks.1).mp h)
      show Inv (run serve (serve s i).2 (k (serve s i).1)).2 ↔ _
      rw [ha]
      exact ⟨fun h => absurd h hinv, fun h => absurd h.1 hC⟩

/-- The result of a run follows the answers that the server gives under its
    invariant. -/
theorem run_outcome {Inv : σ → Prop} {C : σ → ι → Prop} {P : ι → Prop}
    {ok : (i : ι) → ρ i → Prop} {q : Query ι ρ α} {s : σ} (hs : Inv s)
    (hasks : q.Asks P) (hq : q.Meets serve C s)
    (hstep : ∀ s i, Inv s → P i → C s i → Inv (serve s i).2)
    (hok : ∀ s i, Inv s → P i → C s i → ok i (serve s i).1) :
    q.Outcome ok (run serve s q).1 := by
  induction q generalizing s with
  | done a => exact .done a
  | ask i k ih =>
    exact .ask (hok s i hs hasks.1 hq.1)
      (ih _ (hstep s i hs hasks.1 hq.1) (hasks.2 _) hq.2)

theorem Outcome.mono {ok ok' : (i : ι) → ρ i → Prop} {q : Query ι ρ α} {a : α}
    (h : q.Outcome ok a) (hok : ∀ i r, ok i r → ok' i r) : q.Outcome ok' a := by
  induction h with
  | done a => exact .done a
  | ask hr _ ih => exact .ask (hok _ _ hr) ih

/-- Results outside `B` are those of runs without a bad answer. -/
theorem Outcome.of_strict {ok bad : (i : ι) → ρ i → Prop} {B : α → Prop} {q : Query ι ρ α}
    {a : α} (h : q.Outcome ok a) (hq : q.Strict bad B) (ha : ¬ B a) :
    q.Outcome (fun i r => ok i r ∧ ¬ bad i r) a := by
  induction h with
  | done a => exact .done a
  | @ask i k r a hok h ih =>
    refine .ask ⟨hok, fun hbad => ?_⟩ (ih (hq.2 r) ha)
    obtain ⟨b, hb, hB⟩ := hq.1 r hbad
    rw [hb] at h
    cases h
    exact ha hB

end Query

end QueryLib
