import Mathlib.Order.Basic
import Mathlib.Order.Defs.LinearOrder
import Mathlib.Order.Lattice
import Mathlib.Data.List.Chain
import Mathlib.Tactic.Common

/-! # Tilings of an Interval by Tagged Segments

    An interval `[a, b)` of a linear order is cut into consecutive
    non-empty segments, each either `used` or not. This is the view an
    allocator, an extent map or a partition table has of its range.

    * `Tiles a l b`: the segments of `l` tile `[a, b)` from left to right.
    * `Merged l`: no two neighbours are both unused.
    * `merged_unique`: a merged tiling is determined by its used segments.
      This is what makes the order of releases irrelevant. -/

namespace Tiling

variable {α : Type*}

/-- A segment `[start, stop)` and whether it is in use. -/
structure Segment (α : Type*) where
  start : α
  stop : α
  used : Bool
  deriving DecidableEq, Repr

/-- The segments of the list tile `[a, b)`. -/
def Tiles [LT α] : α → List (Segment α) → α → Prop
  | a, [], b => a = b
  | a, s :: l, b => s.start = a ∧ a < s.stop ∧ Tiles s.stop l b

/-- No two neighbouring segments are both unused. -/
def Merged (l : List (Segment α)) : Prop :=
  l.IsChain fun s t => s.used = true ∨ t.used = true

/-! ## Section 1: Structure of a tiling -/

theorem merged_cons {s : Segment α} {l : List (Segment α)} (h : Merged (s :: l)) : Merged l := by
  cases l with
  | nil => exact .nil
  | cons t l => exact (List.isChain_cons_cons.mp h).2

/-- Behind an unused segment of a merged tiling comes a used one, or the end. -/
theorem merged_after_free {s t : Segment α} {l : List (Segment α)} (h : Merged (s :: t :: l))
    (hs : s.used = false) : t.used = true := by
  have := (List.isChain_cons_cons.mp h).1
  simpa [hs] using this

section structure_lemmas
variable [LT α] {a b : α}

@[simp] theorem tiles_nil : Tiles a [] b ↔ a = b := Iff.rfl

@[simp] theorem tiles_cons {s : Segment α} {l : List (Segment α)} :
    Tiles a (s :: l) b ↔ s.start = a ∧ a < s.stop ∧ Tiles s.stop l b := Iff.rfl

theorem tiles_append {l₁ l₂ : List (Segment α)} :
    Tiles a (l₁ ++ l₂) b ↔ ∃ c, Tiles a l₁ c ∧ Tiles c l₂ b := by
  induction l₁ generalizing a with
  | nil => simp
  | cons s l₁ ih =>
    simp only [List.cons_append, tiles_cons, ih]
    constructor
    · rintro ⟨h1, h2, c, h3, h4⟩; exact ⟨c, ⟨h1, h2, h3⟩, h4⟩
    · rintro ⟨c, ⟨h1, h2, h3⟩, h4⟩; exact ⟨h1, h2, c, h3, h4⟩

/-- Replacing a run of segments by another tiling of the same range. -/
theorem Tiles.replace {l₁ l l₂ : List (Segment α)} (h : Tiles a (l₁ ++ l ++ l₂) b)
    (l' : List (Segment α)) (hr : ∀ c d, Tiles c l d → Tiles c l' d) : Tiles a (l₁ ++ l' ++ l₂) b := by
  simp only [tiles_append] at h ⊢
  obtain ⟨d, ⟨c, h1, h2⟩, h3⟩ := h
  exact ⟨d, ⟨c, h1, hr c d h2⟩, h3⟩

/-- Changing only the tag of a segment. -/
theorem Tiles.retag {l₁ l₂ : List (Segment α)} {s : Segment α} (h : Tiles a (l₁ ++ s :: l₂) b)
    (u : Bool) : Tiles a (l₁ ++ { s with used := u } :: l₂) b := by
  simpa using Tiles.replace (l := [s]) (by simpa using h) [{ s with used := u }]
    (fun c d hs => hs)

end structure_lemmas

/-! ## Section 2: Order facts -/

section order_lemmas
variable [LinearOrder α] {a b : α}

theorem Tiles.le {l : List (Segment α)} (h : Tiles a l b) : a ≤ b := by
  induction l generalizing a with
  | nil => exact le_of_eq h
  | cons s l ih => exact le_trans (le_of_lt h.2.1) (ih h.2.2)

theorem Tiles.bounds {l : List (Segment α)} (h : Tiles a l b) :
    ∀ s ∈ l, a ≤ s.start ∧ s.start < s.stop ∧ s.stop ≤ b := by
  induction l generalizing a with
  | nil => simp
  | cons t l ih =>
    obtain ⟨hst, hlt, hrest⟩ := h
    intro s hs
    rcases List.mem_cons.mp hs with rfl | hs
    · exact ⟨le_of_eq hst.symm, hst ▸ hlt, hrest.le⟩
    · obtain ⟨h1, h2, h3⟩ := ih hrest s hs
      exact ⟨le_trans (le_of_lt hlt) h1, h2, h3⟩

/-- Segments of a tiling do not overlap, and stand in increasing order. -/
theorem Tiles.pairwise {l : List (Segment α)} (h : Tiles a l b) :
    l.Pairwise fun s t => s.stop ≤ t.start := by
  induction l generalizing a with
  | nil => exact .nil
  | cons s l ih =>
    exact List.pairwise_cons.mpr ⟨fun t ht => (h.2.2.bounds t ht).1, ih h.2.2⟩

/-- Two different segments of a tiling lie apart. -/
theorem Tiles.apart {l : List (Segment α)} (h : Tiles a l b) {s t : Segment α}
    (hs : s ∈ l) (ht : t ∈ l) (hne : s ≠ t) : s.stop ≤ t.start ∨ t.stop ≤ s.start := by
  induction l generalizing a with
  | nil => cases hs
  | cons r l ih =>
    rcases List.mem_cons.mp hs with hsr | hs' <;> rcases List.mem_cons.mp ht with htr | ht'
    · exact absurd (hsr.trans htr.symm) hne
    · exact .inl (hsr ▸ (h.2.2.bounds t ht').1)
    · exact .inr (htr ▸ (h.2.2.bounds s hs').1)
    · exact ih h.2.2 hs' ht'

/-- Two segments of a tiling with the same start are the same segment. -/
theorem Tiles.eq_of_start_eq {l : List (Segment α)} (h : Tiles a l b) {s t : Segment α}
    (hs : s ∈ l) (ht : t ∈ l) (hst : s.start = t.start) : s = t := by
  induction l generalizing a with
  | nil => cases hs
  | cons r l ih =>
    have hlater : ∀ q ∈ l, r.start < q.start := by
      intro q hq
      rw [h.1]
      exact lt_of_lt_of_le h.2.1 (h.2.2.bounds q hq).1
    rcases List.mem_cons.mp hs with hsr | hs' <;> rcases List.mem_cons.mp ht with htr | ht'
    · rw [hsr, htr]
    · exact absurd (hsr ▸ hst) (ne_of_lt (hlater t ht'))
    · exact absurd (htr ▸ hst) (ne_of_gt (hlater s hs'))
    · exact ih h.2.2 hs' ht'

theorem Tiles.nodup {l : List (Segment α)} (h : Tiles a l b) : l.Nodup := by
  induction l generalizing a with
  | nil => exact List.nodup_nil
  | cons s l ih =>
    refine List.nodup_cons.mpr ⟨fun hs => ?_, ih h.2.2⟩
    exact absurd (h.2.2.bounds s hs).1 (not_le_of_gt (h.1 ▸ h.2.1))

/-- Splitting a segment at an inner point. -/
theorem Tiles.split {l₁ l₂ : List (Segment α)} {s : Segment α} {c : α} {u v : Bool}
    (h : Tiles a (l₁ ++ s :: l₂) b) (hlo : s.start < c) (hhi : c < s.stop) :
    Tiles a (l₁ ++ ⟨s.start, c, u⟩ :: ⟨c, s.stop, v⟩ :: l₂) b := by
  have := Tiles.replace (l := [s]) (by simpa using h) [⟨s.start, c, u⟩, ⟨c, s.stop, v⟩]
    (by rintro x y ⟨rfl, _, rfl⟩; exact ⟨rfl, hlo, rfl, hhi, rfl⟩)
  simpa using this

/-- Joining two neighbours. -/
theorem Tiles.join {l₁ l₂ : List (Segment α)} {s t : Segment α} {u : Bool}
    (h : Tiles a (l₁ ++ s :: t :: l₂) b) : Tiles a (l₁ ++ ⟨s.start, t.stop, u⟩ :: l₂) b := by
  have := Tiles.replace (l := [s, t]) (by simpa using h) [⟨s.start, t.stop, u⟩]
    (by rintro x y ⟨rfl, h1, h2, h3, rfl⟩; exact ⟨rfl, lt_trans h1 h3, rfl⟩)
  simpa using this

/-! ## Section 3: Merged tilings are canonical -/

/-- A segment whose start lies strictly before `a` does not occur in a tiling from `a`. -/
theorem Tiles.not_mem_of_lt {l : List (Segment α)} (h : Tiles a l b) {s : Segment α}
    (hlt : s.start < a) : s ∉ l :=
  fun hs => absurd (h.bounds s hs).1 (not_le_of_gt hlt)

/-- What follows the unused first segment starts with the first used one. -/
theorem stop_of_free_head {s : Segment α} {l : List (Segment α)} (h : Tiles a (s :: l) b)
    (hm : Merged (s :: l)) (hs : s.used = false) :
    s.stop = ((l.filter Segment.used).head?.map Segment.start).getD b := by
  cases l with
  | nil => simpa using h.2.2
  | cons t l =>
    have ht : t.used = true := merged_after_free hm hs
    simp [ht, h.2.2.1]

/-- **Canonical form**: two merged tilings of the same interval with the same
    used segments are equal. -/
theorem merged_unique {l l' : List (Segment α)} (h : Tiles a l b) (h' : Tiles a l' b)
    (hm : Merged l) (hm' : Merged l')
    (heq : l.filter Segment.used = l'.filter Segment.used) : l = l' := by
  induction l generalizing a l' with
  | nil =>
    cases l' with
    | nil => rfl
    | cons t l' =>
      obtain rfl : a = b := h
      exact absurd h'.2.2.le (not_le_of_gt h'.2.1)
  | cons s l ih =>
    cases l' with
    | nil =>
      obtain rfl : a = b := h'
      exact absurd h.2.2.le (not_le_of_gt h.2.1)
    | cons t l' =>
      have hhead : s = t := by
        cases hs : s.used <;> cases ht : t.used
        · -- both unused: they end where the first used segment starts
          have hstop : s.stop = t.stop := by
            rw [stop_of_free_head h hm hs, stop_of_free_head h' hm' ht]
            simpa [hs, ht] using congrArg (fun q => (q.head?.map Segment.start).getD b) heq
          have hstart : s.start = t.start := h.1.trans h'.1.symm
          cases s; cases t; simp_all
        · -- `t` is used and starts at `a`, but everything used in `l` starts later
          have hmem : t ∈ l := by
            have : t ∈ l.filter Segment.used := by simp [hs, ht] at heq; simp [heq]
            exact List.mem_of_mem_filter this
          have hlt : t.start < s.stop := h'.1 ▸ h.2.1
          exact absurd hmem (h.2.2.not_mem_of_lt hlt)
        · have hmem : s ∈ l' := by
            have : s ∈ l'.filter Segment.used := by simp [hs, ht] at heq; simp [← heq]
            exact List.mem_of_mem_filter this
          have hlt : s.start < t.stop := h.1 ▸ h'.2.1
          exact absurd hmem (h'.2.2.not_mem_of_lt hlt)
        · simp [hs, ht] at heq
          exact heq.1
      subst hhead
      have hrest : l.filter Segment.used = l'.filter Segment.used := by
        cases hs : s.used <;> simpa [hs] using heq
      rw [ih h.2.2 h'.2.2 (merged_cons hm) (merged_cons hm') hrest]

/-- A merged tiling without used segments is one single segment. -/
theorem merged_all_free {l : List (Segment α)} (hab : a < b) (h : Tiles a l b) (hm : Merged l)
    (hfree : ∀ s ∈ l, s.used = false) : l = [⟨a, b, false⟩] := by
  refine merged_unique h ⟨rfl, hab, rfl⟩ hm (.singleton _) ?_
  have : l.filter Segment.used = [] := by
    rw [List.filter_eq_nil_iff]
    intro s hs
    simp [hfree s hs]
  simp [this]

end order_lemmas

/-- An unused segment of a merged list has used neighbours, so any merged list
    may take its place. -/
theorem Merged.replace_free {l₁ l l₂ : List (Segment α)} {s : Segment α}
    (h : Merged (l₁ ++ s :: l₂)) (hs : s.used = false) (hl : Merged l) :
    Merged (l₁ ++ l ++ l₂) := by
  obtain ⟨h1, h2, hleft⟩ := List.isChain_append.mp h
  have hl₂ : ∀ y ∈ l₂.head?, y.used = true := by
    intro y hy
    cases l₂ with
    | nil => cases hy
    | cons t l₂ =>
      obtain rfl : t = y := by simpa using hy
      exact merged_after_free h2 hs
  have hl₁ : ∀ x ∈ l₁.getLast?, x.used = true := by
    intro x hx
    simpa [hs] using hleft x hx s (by simp)
  have hrest : Merged l₂ := merged_cons h2
  refine List.isChain_append.mpr ⟨List.isChain_append.mpr ⟨h1, hl, ?_⟩, hrest, ?_⟩
  · intro x hx _ _
    exact .inl (hl₁ x hx)
  · intro _ _ y hy
    exact .inr (hl₂ y hy)

end Tiling
