import Hausboot.Heap.Refine
import Mathlib.Logic.Relation
import Mathlib.Data.List.Perm.Basic
import Mathlib.Data.List.Perm.Lattice

/-! # The stage2 Heap: Runs

    A run starts with `HeapInit` and then mixes `malloc`, `free` and stores
    of the clients into their own payloads. `RunInv` is the invariant of all
    runs. From it follow:

    * the representation invariant of the linked list (`heap_invariant`),
    * that the order of frees does not matter, and that nothing leaks
      (`free_order_irrelevant`). -/

open Tiling

namespace Hausboot

open HeapEntry

/-! ## Section 1: The transition system -/

/-- A memory range that a heap can be put into. -/
structure HeapRegion where
  basePtr : Nat
  maxSize : Nat
  aligned : basePtr % 4 = 0
  room : 8 ≤ maxSize
  /-- The range, its end included, lies in the 32 bit address space. -/
  fits : basePtr + maxSize < 2 ^ 32

/-- The heap and the pointers that were handed out and not yet freed. -/
structure HeapRun where
  heap : Heap
  live : List Nat

def HeapRegion.start (r : HeapRegion) (mem : Store) : HeapRun where
  heap := heapInit mem r.basePtr r.maxSize
  live := []

inductive HeapStep : HeapRun → HeapRun → Prop where
  | malloc {h h' live p} (fuel : Nat) (count : UInt32) :
      malloc fuel h count = some (p, h') →
      HeapStep ⟨h, live⟩ ⟨h', if p = 0 then live else p :: live⟩
  | freeNull {h h' live} (fuel : Nat) :
      free fuel h 0 = some h' → HeapStep ⟨h, live⟩ ⟨h', live⟩
  | free {h h' live p} (fuel : Nat) :
      p ∈ live → free fuel h p = some h' → HeapStep ⟨h, live⟩ ⟨h', live.erase p⟩
  /-- A client writes into its own payload. -/
  | store {h live p} (a : Nat) (d : ByteLib.Bytes) :
      p ∈ live → p ≤ a → a + d.length ≤ next h.mem (p - sizeof) →
      HeapStep ⟨h, live⟩ ⟨{ h with mem := h.mem.write a d }, live⟩

/-- The states of all runs in region `r`, whatever memory held before. -/
def HeapRegion.Reachable (r : HeapRegion) (σ : HeapRun) : Prop :=
  ∃ mem, Relation.ReflTransGen HeapStep (r.start mem) σ

/-! ## Section 2: The invariant of all runs -/

/-- Payload addresses of the used blocks, in address order. -/
def usedPtrs (bs : List Block) : List Nat :=
  (bs.filter Segment.used).map fun s => s.start + sizeof

/-- The end of the heap range, a multiple of 4. -/
def HeapRegion.stop (r : HeapRegion) : Nat := r.basePtr + (r.maxSize - r.maxSize % 4)

structure RunInv (r : HeapRegion) (σ : HeapRun) (bs : List Block) : Prop where
  heap_eq : σ.heap.heap = r.basePtr
  heapEnd_eq : σ.heap.heapEnd = r.stop
  repr : Repr σ.heap bs
  merged : Merged bs
  live : (usedPtrs bs).Perm σ.live

theorem usedPtrs_append (l₁ l₂ : List Block) :
    usedPtrs (l₁ ++ l₂) = usedPtrs l₁ ++ usedPtrs l₂ := by
  simp [usedPtrs]

theorem usedPtrs_cons_used {s : Block} {l : List Block} (h : s.used = true) :
    usedPtrs (s :: l) = (s.start + sizeof) :: usedPtrs l := by
  simp [usedPtrs, h]

theorem usedPtrs_cons_free {s : Block} {l : List Block} (h : s.used = false) :
    usedPtrs (s :: l) = usedPtrs l := by
  simp [usedPtrs, h]

theorem usedPtrs_carve (s : Block) (count : Nat) :
    usedPtrs (carve s count) = [s.start + sizeof] := by
  unfold carve
  split <;> simp [usedPtrs]

theorem merged_carve (s : Block) (count : Nat) : Merged (carve s count) := by
  unfold carve
  split
  · exact .cons_cons (.inl rfl) (.singleton _)
  · exact .singleton _

theorem mem_usedPtrs {bs : List Block} {p : Nat} :
    p ∈ usedPtrs bs ↔ ∃ s ∈ bs, s.used = true ∧ s.start + sizeof = p := by
  simp [usedPtrs, and_assoc]

/-- Used blocks of a tiling have distinct payload addresses. -/
theorem usedPtrs_nodup {a b : Nat} {bs : List Block} (h : Tiles a bs b) :
    (usedPtrs bs).Nodup := by
  refine List.Nodup.map_on ?_ (h.nodup.filter _)
  intro s hs t ht hst
  exact h.eq_of_start_eq (List.mem_of_mem_filter hs) (List.mem_of_mem_filter ht)
    (Nat.add_right_cancel hst)

theorem runInv_start (r : HeapRegion) (mem : Store) :
    RunInv r (r.start mem) [⟨r.basePtr, r.stop, false⟩] := by
  have hal := r.aligned
  have hroom := r.room
  have hfits := r.fits
  have hsize : (if r.maxSize % 4 ≠ 0 then r.maxSize - r.maxSize % 4 else r.maxSize)
      = r.maxSize - r.maxSize % 4 := by
    split <;> omega
  have hstop : u32 (r.basePtr + (r.maxSize - r.maxSize % 4)) = r.stop := u32_of_lt (by omega)
  have hlt : r.stop < 2 ^ 32 := by simp only [HeapRegion.stop]; omega
  have hheap : (r.start mem).heap = ⟨init mem r.basePtr r.stop, r.basePtr, r.stop⟩ := by
    simp only [HeapRegion.start, heapInit, hsize, hstop]
  have hrepr : Repr (r.start mem).heap [⟨r.basePtr, r.stop, false⟩] := by
    rw [hheap]
    refine ⟨⟨⟨rfl, ?_, rfl⟩, ?_, ?_, hlt⟩, ?_⟩
    · simp only [HeapRegion.stop]; omega
    · simp only [HeapRegion.stop, List.mem_singleton, forall_eq]; omega
    · simp only [HeapRegion.stop, sizeof, List.mem_singleton, forall_eq]; omega
    · exact stored_cons.mpr ⟨init_header mem r.basePtr hlt, stored_nil _⟩
  exact ⟨by rw [hheap], by rw [hheap], hrepr, .singleton _, .refl _⟩

/-- A call of malloc: it returns null and changes nothing, and no free block is
    large enough; or it carves a new block out of a free one. -/
theorem malloc_carves {r : HeapRegion} {h h' : Heap} {live : List Nat} {bs : List Block}
    {fuel p : Nat} {count : UInt32} (hinv : RunInv r ⟨h, live⟩ bs)
    (hcall : malloc fuel h count = some (p, h')) :
    (p = 0 ∧ h' = h ∧ (0 < r.basePtr →
      ∀ s ∈ bs, s.used = false → payload s < roundCount count.toNat)) ∨
    ∃ l₁ s l₂, bs = l₁ ++ s :: l₂ ∧ s.used = false ∧ roundCount count.toNat ≤ payload s ∧
      p = s.start + sizeof ∧
      RunInv r ⟨h', p :: live⟩ (l₁ ++ carve s (roundCount count.toNat) ++ l₂) := by
  have hbig := malloc_mono (Nat.le_add_right fuel (bs.length + 1)) hcall
  have hfuel : bs.length < fuel + (bs.length + 1) := by omega
  rcases malloc_spec hinv.repr hfuel count with
    ⟨hnull, hnone⟩ | ⟨l₁, s, l₂, m', hbs, hfree, hfits, hres, hrepr, -⟩
  · rw [hnull] at hbig
    obtain ⟨rfl, rfl⟩ := Prod.mk.inj (Option.some.inj hbig)
    have hheap := hinv.heap_eq
    exact .inl ⟨rfl, rfl, fun hpos => hnone (hheap ▸ hpos)⟩
  · rw [hres] at hbig
    obtain ⟨rfl, rfl⟩ := Prod.mk.inj (Option.some.inj hbig)
    subst hbs
    refine .inr ⟨l₁, s, l₂, rfl, hfree, hfits, rfl, hinv.heap_eq, hinv.heapEnd_eq, hrepr,
      hinv.merged.replace_free hfree (merged_carve s _), ?_⟩
    have hlive := hinv.live
    rw [usedPtrs_append, usedPtrs_cons_free hfree] at hlive
    rw [usedPtrs_append, usedPtrs_append, usedPtrs_carve, List.append_assoc]
    exact List.perm_middle.trans (hlive.cons _)

/-- The new block is large enough, and the blocks in use stay. -/
theorem malloc_cases {r : HeapRegion} {h h' : Heap} {live : List Nat} {bs : List Block}
    {fuel p : Nat} {count : UInt32} (hinv : RunInv r ⟨h, live⟩ bs)
    (hcall : malloc fuel h count = some (p, h')) :
    p = 0 ∧ h' = h ∨
    p ≠ 0 ∧ ∃ bs', RunInv r ⟨h', p :: live⟩ bs' ∧ (∀ t ∈ bs, t.used = true → t ∈ bs') ∧
      ∃ s ∈ bs', s.used = true ∧ s ∉ bs.filter Segment.used ∧ p = s.start + sizeof ∧
        p + roundCount count.toNat ≤ s.stop := by
  rcases malloc_carves hinv hcall with
    ⟨hp, hh, -⟩ | ⟨l₁, s, l₂, rfl, hfree, hfits, rfl, hinv'⟩
  · exact .inl ⟨hp, hh⟩
  · have hroom : s.start + 8 ≤ s.stop := hinv.repr.shape.room s (by simp)
    refine .inr ⟨by simp [sizeof], _, hinv', ?_, ?_⟩
    · intro t ht hused
      have hne : t ≠ s := by
        rintro rfl
        rw [hfree] at hused
        cases hused
      simp only [List.mem_append, List.mem_cons] at ht ⊢
      tauto
    · -- the first block of the two, or the whole one
      obtain ⟨s', hmem, hused, hstart, hstop⟩ : ∃ s' ∈ carve s (roundCount count.toNat),
          s'.used = true ∧ s'.start = s.start ∧
            s.start + 8 + roundCount count.toNat ≤ s'.stop := by
        simp only [payload, sizeof] at hfits
        unfold carve
        split
        · exact ⟨_, List.mem_cons_self, rfl, rfl, Nat.le_refl _⟩
        · exact ⟨_, List.mem_cons_self, rfl, rfl, by dsimp only; omega⟩
      refine ⟨s', by simp [hmem], hused, ?_, by rw [hstart], ?_⟩
      · intro hold
        obtain ⟨hold, hused⟩ := List.mem_filter.mp hold
        have hsame := hinv.repr.shape.tiles.eq_of_start_eq hold (by simp) hstart
        rw [hsame, hfree] at hused
        cases hused
      · simp only [sizeof]
        exact hstop

theorem runInv_malloc {r : HeapRegion} {h h' : Heap} {live : List Nat} {bs : List Block}
    {fuel p : Nat} {count : UInt32} (hinv : RunInv r ⟨h, live⟩ bs)
    (hcall : malloc fuel h count = some (p, h')) :
    ∃ bs', RunInv r ⟨h', if p = 0 then live else p :: live⟩ bs' := by
  rcases malloc_cases hinv hcall with ⟨rfl, rfl⟩ | ⟨hp, bs', hinv', -, -⟩
  · exact ⟨bs, hinv⟩
  · rw [if_neg hp]
    exact ⟨bs', hinv'⟩

theorem tiles_add_length_le {a b : Nat} {l : List Block} (h : Tiles a l b) :
    a + l.length ≤ b := by
  induction l generalizing a with
  | nil => exact Nat.le_of_eq h
  | cons s l ih =>
    have hrest := ih h.2.2
    have hlt : a < s.stop := h.2.1
    simp only [List.length_cons]
    omega

theorem RunInv.length_le {r : HeapRegion} {σ : HeapRun} {bs : List Block}
    (hinv : RunInv r σ bs) : bs.length ≤ r.maxSize := by
  have h := tiles_add_length_le hinv.repr.shape.tiles
  rw [hinv.heap_eq, hinv.heapEnd_eq, HeapRegion.stop] at h
  omega

/-- The block behind a live pointer. -/
theorem RunInv.block_of_live {r : HeapRegion} {σ : HeapRun} {bs : List Block}
    (hinv : RunInv r σ bs) {p : Nat} (hp : p ∈ σ.live) :
    ∃ l₁ s l₂, bs = l₁ ++ s :: l₂ ∧ s.used = true ∧ p = s.start + sizeof := by
  obtain ⟨s, hs, hused, rfl⟩ := mem_usedPtrs.mp (hinv.live.mem_iff.mpr hp)
  obtain ⟨l₁, l₂, rfl⟩ := List.append_of_mem hs
  exact ⟨l₁, s, l₂, rfl, hused, rfl⟩

/-- A free with enough fuel returns, and keeps all used blocks but one. -/
theorem runInv_free_total {r : HeapRegion} {h : Heap} {live : List Nat} {bs : List Block}
    {p fuel : Nat} (hinv : RunInv r ⟨h, live⟩ bs) (hp : p ∈ live) (hfuel : bs.length ≤ fuel) :
    ∃ h' bs', free fuel h p = some h' ∧ RunInv r ⟨h', live.erase p⟩ bs' ∧
      bs'.filter Segment.used
        = (bs.filter Segment.used).filter (fun s => s.start + sizeof ≠ p) := by
  obtain ⟨l₁, s, l₂, rfl, hused, rfl⟩ := hinv.block_of_live hp
  obtain ⟨m', bs', hcall, hrepr, hmerged, hfil, -⟩ := free_spec hinv.repr hused hfuel
  have hnd := usedPtrs_nodup hinv.repr.shape.tiles
  rw [usedPtrs_append, usedPtrs_cons_used hused] at hnd
  -- no other block has this pointer
  have hnotin : s.start + sizeof ∉ usedPtrs l₁ ++ usedPtrs l₂ :=
    (List.nodup_cons.mp (List.perm_middle.nodup hnd)).1
  have hne : ∀ t ∈ (l₁ ++ l₂).filter Segment.used, t.start + sizeof ≠ s.start + sizeof := by
    intro t ht heq
    refine hnotin ?_
    rw [← usedPtrs_append, ← heq]
    exact List.mem_map_of_mem ht
  have hrest : (l₁ ++ l₂).filter Segment.used
      = ((l₁ ++ s :: l₂).filter Segment.used).filter
          (fun t => t.start + sizeof ≠ s.start + sizeof) := by
    have hmid : (l₁ ++ s :: l₂).filter Segment.used
        = l₁.filter Segment.used ++ s :: l₂.filter Segment.used := by simp [hused]
    rw [hmid, List.filter_append (l₁.filter Segment.used), List.filter_cons_of_neg (by simp),
      ← List.filter_append, ← List.filter_append]
    refine (List.filter_eq_self.mpr fun t ht => ?_).symm
    exact decide_eq_true (hne t ht)
  refine ⟨_, bs', hcall, ⟨hinv.heap_eq, hinv.heapEnd_eq, hrepr, hmerged, ?_⟩, hfil.trans hrest⟩
  have hlive := hinv.live
  rw [usedPtrs_append, usedPtrs_cons_used hused] at hlive
  -- the client's list loses the pointer that the blocks lose
  have hperm := (List.perm_middle.symm.trans hlive).erase (s.start + sizeof)
  rw [List.erase_cons_head] at hperm
  rw [usedPtrs, hfil, ← usedPtrs, usedPtrs_append]
  exact hperm

theorem runInv_store {r : HeapRegion} {h : Heap} {live : List Nat} {bs : List Block} {p a : Nat}
    {d : ByteLib.Bytes} (hinv : RunInv r ⟨h, live⟩ bs) (hp : p ∈ live) (hlo : p ≤ a)
    (hhi : a + d.length ≤ next h.mem (p - sizeof)) :
    RunInv r ⟨{ h with mem := h.mem.write a d }, live⟩ bs := by
  obtain ⟨l₁, s, l₂, rfl, hused, rfl⟩ := hinv.block_of_live hp
  have hhdr := hinv.repr.stored s (by simp)
  rw [Nat.add_sub_cancel, hhdr.1] at hhi
  have hout : ∀ i, i < s.start + sizeof ∨ s.stop ≤ i → h.mem.write a d i = h.mem i :=
    fun i hi => Store.write_apply_of_not_mem (by omega)
  obtain ⟨h1, h2⟩ := hinv.repr.stored.change_inside hinv.repr.shape (h.mem.write a d)
    (fun i hi => hout i (by simp only [sizeof]; omega))
  have hkeep := header_congr h.mem (h.mem.write a d) s.start
    (fun i _ hi => hout i (.inl hi))
  refine ⟨hinv.heap_eq, hinv.heapEnd_eq, ⟨hinv.repr.shape, ?_⟩, hinv.merged, hinv.live⟩
  refine stored_append.mpr ⟨h1, stored_cons.mpr ⟨?_, h2⟩⟩
  rw [hkeep.1, hkeep.2]
  exact hhdr

theorem runInv_step {r : HeapRegion} {σ σ' : HeapRun} {bs : List Block} (hinv : RunInv r σ bs)
    (hstep : HeapStep σ σ') : ∃ bs', RunInv r σ' bs' := by
  cases hstep with
  | malloc fuel count hcall => exact runInv_malloc hinv hcall
  | @freeNull h h' live fuel hcall =>
    rw [free_null] at hcall
    obtain rfl := Option.some.inj hcall
    exact ⟨bs, hinv⟩
  | @free h h' live p fuel hp hcall =>
    have hbig := free_mono (Nat.le_add_right fuel bs.length) hcall
    obtain ⟨h₂, bs', hcall₂, hinv', -⟩ := runInv_free_total hinv hp (Nat.le_add_left _ fuel)
    obtain rfl := Option.some.inj (hbig.symm.trans hcall₂)
    exact ⟨bs', hinv'⟩
  | store a d hp hlo hhi => exact ⟨bs, runInv_store hinv hp hlo hhi⟩

theorem runInv_reachable {r : HeapRegion} {σ : HeapRun} (hr : r.Reachable σ) :
    ∃ bs, RunInv r σ bs := by
  obtain ⟨mem, hsteps⟩ := hr
  induction hsteps with
  | refl => exact ⟨_, runInv_start r mem⟩
  | tail _ hstep ih =>
    obtain ⟨bs, hinv⟩ := ih
    exact runInv_step hinv hstep

end Hausboot
