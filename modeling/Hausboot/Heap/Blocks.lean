import Hausboot.Lib.Tiling
import Hausboot.Heap.Model

/-! # The stage2 Heap: Block Lists

    The abstract view of the heap: the range `[heap, heapEnd)` is tiled by
    blocks, each header together with its payload, and a block is in use or
    free. `Repr h bs` says that the memory of `h` stores the block list `bs`.

    Each `HeapEntry` operation gets one lemma here that says what it does to
    the block list. The loops of `malloc` and `free` follow in `Refine`. -/

open Tiling

namespace Hausboot

/-- A heap block: header and payload, from `start` up to `stop`. -/
abbrev Block : Type := Segment Nat

/-- `Size()` of the block's header. -/
def payload (s : Block) : Nat := s.stop - s.start - HeapEntry.sizeof

open HeapEntry

/-- The headers of the listed blocks are what memory holds. -/
def Stored (m : Store) (bs : List Block) : Prop :=
  ∀ s ∈ bs, next m s.start = s.stop ∧ flags m s.start = s.used.toNat

/-- Blocks tile the range, 4-aligned, each with room for its header. -/
structure Shape (a b : Nat) (bs : List Block) : Prop where
  tiles : Tiles a bs b
  aligned : ∀ s ∈ bs, s.start % 4 = 0 ∧ s.stop % 4 = 0
  room : ∀ s ∈ bs, s.start + sizeof ≤ s.stop
  fits : b < 2 ^ 32

/-- The memory of `h` represents the block list `bs`. -/
structure Repr (h : Heap) (bs : List Block) : Prop where
  shape : Shape h.heap h.heapEnd bs
  stored : Stored h.mem bs

/-! ## Section 1: Reading headers -/

theorem Shape.stop_le {a b : Nat} {bs : List Block} (hs : Shape a b bs) {s : Block}
    (hmem : s ∈ bs) : s.stop < 2 ^ 32 :=
  Nat.lt_of_le_of_lt (hs.tiles.bounds s hmem).2.2 hs.fits

theorem Stored.size_eq {a b : Nat} {bs : List Block} {m : Store} (hm : Stored m bs)
    (hs : Shape a b bs) {s : Block} (hmem : s ∈ bs) : size m s.start = payload s := by
  have hroom := hs.room s hmem
  have hlt := hs.stop_le hmem
  simp only [sizeof] at hroom
  simp only [size, (hm s hmem).1, sizeof, payload]
  rw [sub32_of_le (by omega) hlt, sub32_of_le (by omega) (by omega)]

theorem isFree_of_flags {m : Store} {e : Nat} {u : Bool} (h : flags m e = u.toNat) :
    isFree m e = !u := by
  cases u <;> simp [isFree, FlagField.isSet, reserved, h]

theorem Stored.isFree_eq {bs : List Block} {m : Store} (hm : Stored m bs) {s : Block}
    (hmem : s ∈ bs) : isFree m s.start = !s.used :=
  isFree_of_flags (hm s hmem).2

theorem stored_nil (m : Store) : Stored m [] := by simp [Stored]

theorem stored_append {m : Store} {l₁ l₂ : List Block} :
    Stored m (l₁ ++ l₂) ↔ Stored m l₁ ∧ Stored m l₂ := by
  simp only [Stored, List.mem_append]
  constructor
  · intro h; exact ⟨fun s hs => h s (.inl hs), fun s hs => h s (.inr hs)⟩
  · rintro ⟨h1, h2⟩ s (hs | hs)
    · exact h1 s hs
    · exact h2 s hs

theorem stored_cons {m : Store} {s : Block} {l : List Block} :
    Stored m (s :: l) ↔ (next m s.start = s.stop ∧ flags m s.start = s.used.toNat) ∧ Stored m l := by
  simp [Stored]

/-- Memory that agrees on the headers stores the same blocks. -/
theorem Stored.congr {m m' : Store} {l : List Block} (h : Stored m l)
    (hag : ∀ s ∈ l, ∀ i, s.start ≤ i → i < s.start + sizeof → m' i = m i) : Stored m' l := by
  intro s hs
  have hs8 : ∀ i, s.start ≤ i → i < s.start + 8 → m' i = m i := hag s hs
  have hn : next m' s.start = next m s.start :=
    Store.readLE_congr fun i h1 h2 => hs8 i h1 (by omega)
  have hf : flags m' s.start = flags m s.start :=
    Store.readLE_congr fun i h1 h2 => hs8 i (by omega) (by omega)
  rw [hn, hf]
  exact h s hs

/-- What a change inside one block leaves alone: the headers of all others. -/
theorem Stored.change_inside {a b : Nat} {l₁ l₂ : List Block} {s : Block} {m : Store}
    (hm : Stored m (l₁ ++ s :: l₂)) (hs : Shape a b (l₁ ++ s :: l₂)) (m' : Store)
    (hag : ∀ i, i < s.start ∨ s.stop ≤ i → m' i = m i) : Stored m' l₁ ∧ Stored m' l₂ := by
  have hpw := List.pairwise_append.mp hs.tiles.pairwise
  obtain ⟨hm₁, hm₂⟩ := stored_append.mp hm
  refine ⟨hm₁.congr fun t ht i h1 h2 => ?_, (stored_cons.mp hm₂).2.congr fun t ht i h1 h2 => ?_⟩
  · have := hpw.2.2 t ht s (by simp)
    have := hs.room t (by simp [ht])
    exact hag i (by omega)
  · have := (List.pairwise_cons.mp hpw.2.1).1 t ht
    exact hag i (by omega)

/-! ## Section 2: Writing headers -/

theorem next_setNext (m : Store) (e : Nat) {n : Nat} (hn : n < 2 ^ 32) :
    next (setNext m e n) e = n := by
  rw [next, setNext, Store.readLE_writeLE_same]
  exact Nat.mod_eq_of_lt (by omega)

@[simp] theorem flags_setNext (m : Store) (e n : Nat) : flags (setNext m e n) e = flags m e :=
  Store.readLE_writeLE_disjoint (Or.inr (Nat.le_refl _))

@[simp] theorem next_setFlags (m : Store) (e f : Nat) : next (setFlags m e f) e = next m e :=
  Store.readLE_writeLE_disjoint (Or.inl (Nat.le_refl _))

theorem flags_setFlags (m : Store) (e : Nat) {f : Nat} (hf : f < 2 ^ 32) :
    flags (setFlags m e f) e = f := by
  rw [flags, setFlags, Store.readLE_writeLE_same]
  exact Nat.mod_eq_of_lt (by omega)

theorem setNext_outside {m : Store} {e n i : Nat} (h : i < e ∨ e + sizeof ≤ i) :
    setNext m e n i = m i :=
  Store.write_apply_of_not_mem (by simp only [ByteLib.length_leBytes, sizeof] at *; omega)

theorem setFlags_outside {m : Store} {e f i : Nat} (h : i < e ∨ e + sizeof ≤ i) :
    setFlags m e f i = m i :=
  Store.write_apply_of_not_mem (by simp only [ByteLib.length_leBytes, sizeof] at *; omega)

theorem init_outside {m : Store} {e n i : Nat} (h : i < e ∨ e + sizeof ≤ i) :
    init m e n i = m i := by
  rw [init, setFlags_outside h, setNext_outside h]

theorem init_header (m : Store) (e : Nat) {n : Nat} (hn : n < 2 ^ 32) :
    next (init m e n) e = n ∧ flags (init m e n) e = 0 := by
  rw [init, next_setFlags, next_setNext m e hn, flags_setFlags _ _ (by decide)]
  exact ⟨rfl, rfl⟩

/-- The header at `e` does not see writes that start at a later block. -/
theorem header_congr (m m' : Store) (e : Nat)
    (h : ∀ i, e ≤ i → i < e + sizeof → m' i = m i) : next m' e = next m e ∧ flags m' e = flags m e := by
  have h8 : ∀ i, e ≤ i → i < e + 8 → m' i = m i := h
  exact ⟨Store.readLE_congr fun i h1 h2 => h8 i h1 (by omega),
    Store.readLE_congr fun i h1 h2 => h8 i (by omega) (by omega)⟩

/-! ## Section 3: Shapes -/

/-- A run of blocks may be replaced by another tiling of its range, made of
    aligned blocks with room for their headers. -/
theorem Shape.replace {a b : Nat} {l₁ l l₂ : List Block} (h : Shape a b (l₁ ++ l ++ l₂))
    (l' : List Block) (ht : Tiles a (l₁ ++ l' ++ l₂) b)
    (hl : ∀ s ∈ l', (s.start % 4 = 0 ∧ s.stop % 4 = 0) ∧ s.start + sizeof ≤ s.stop) :
    Shape a b (l₁ ++ l' ++ l₂) := by
  have hmem : ∀ s ∈ l₁ ++ l' ++ l₂, s ∈ l₁ ++ l ++ l₂ ∨ s ∈ l' := by
    intro s hs
    simp only [List.mem_append] at hs ⊢
    tauto
  refine ⟨ht, fun s hs => ?_, fun s hs => ?_, h.fits⟩
  · rcases hmem s hs with hs | hs
    · exact h.aligned s hs
    · exact (hl s hs).1
  · rcases hmem s hs with hs | hs
    · exact h.room s hs
    · exact (hl s hs).2

theorem Shape.retag {a b : Nat} {l₁ l₂ : List Block} {s : Block} (h : Shape a b (l₁ ++ s :: l₂))
    (u : Bool) : Shape a b (l₁ ++ { s with used := u } :: l₂) := by
  have := h.aligned s (by simp)
  have := h.room s (by simp)
  simpa using Shape.replace (l := [s]) (by simpa using h) [{ s with used := u }]
    (by simpa using h.tiles.retag u) (by simp_all)

theorem Shape.join {a b : Nat} {l₁ l₂ : List Block} {s t : Block}
    (h : Shape a b (l₁ ++ s :: t :: l₂)) : Shape a b (l₁ ++ ⟨s.start, t.stop, false⟩ :: l₂) := by
  have hs := h.room s (by simp)
  have ht := h.room t (by simp)
  have hst : s.stop ≤ t.start := by
    have := (List.pairwise_append.mp h.tiles.pairwise).2.1
    exact (List.pairwise_cons.mp this).1 t (by simp)
  have hal := (h.aligned s (by simp)).1
  have har := (h.aligned t (by simp)).2
  simpa using Shape.replace (l := [s, t]) (by simpa using h) [⟨s.start, t.stop, false⟩]
    (by simpa using h.tiles.join) (by simp_all; omega)

theorem Shape.split {a b c : Nat} {l₁ l₂ : List Block} {s : Block} {u v : Bool}
    (h : Shape a b (l₁ ++ s :: l₂)) (hc : c % 4 = 0) (hlo : s.start + sizeof ≤ c)
    (hhi : c + sizeof ≤ s.stop) : Shape a b (l₁ ++ ⟨s.start, c, u⟩ :: ⟨c, s.stop, v⟩ :: l₂) := by
  have hal := h.aligned s (by simp)
  have ht : Tiles a (l₁ ++ ⟨s.start, c, u⟩ :: ⟨c, s.stop, v⟩ :: l₂) b :=
    h.tiles.split (by simp only [sizeof] at *; omega) (by simp only [sizeof] at *; omega)
  simpa using Shape.replace (l := [s]) (by simpa using h) [⟨s.start, c, u⟩, ⟨c, s.stop, v⟩]
    (by simpa using ht) (by simp_all)

end Hausboot
