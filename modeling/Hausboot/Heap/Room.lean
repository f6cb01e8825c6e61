import Hausboot.Heap.Runs

/-! # The stage2 Heap: How Much Room There Is

    A heap in a given region is determined by its blocks in use. Where these
    stand one behind the other at the front of the region, `malloc` puts the
    next block behind them, as long as there is room for it and its header. -/

open Tiling

namespace Hausboot

open HeapEntry

variable {r : HeapRegion} {h h' : Heap} {us : List Block} {fuel p : Nat} {count : UInt32}

/-- The heap of region `r` with these blocks in use. -/
def InUse (r : HeapRegion) (h : Heap) (us : List Block) : Prop :=
  ∃ bs live, RunInv r ⟨h, live⟩ bs ∧ bs.filter Segment.used = us

/-- The blocks are in use and fill the region from its front up to `e`. -/
structure Stacked (r : HeapRegion) (us : List Block) (e : Nat) : Prop where
  tiles : Tiles r.basePtr us e
  used : ∀ s ∈ us, s.used = true

/-! ## Section 1: Block lists from the blocks in use -/

theorem inUse_start (r : HeapRegion) (mem : Store) :
    InUse r (heapInit mem r.basePtr r.maxSize) [] :=
  ⟨_, _, runInv_start r mem, rfl⟩

theorem stacked_nil (r : HeapRegion) : Stacked r [] r.basePtr :=
  ⟨rfl, by simp⟩

theorem Stacked.snoc {e : Nat} (hs : Stacked r us e) {s : Block} (hstart : s.start = e)
    (hlt : e < s.stop) (hused : s.used = true) : Stacked r (us ++ [s]) s.stop where
  tiles := tiles_append.mpr ⟨e, hs.tiles, hstart, hlt, rfl⟩
  used := by
    intro t ht
    rcases List.mem_append.mp ht with ht | ht
    · exact hs.used t ht
    · rw [List.mem_singleton.mp ht]
      exact hused

theorem Stacked.filter {e : Nat} (hs : Stacked r us e) : us.filter Segment.used = us :=
  List.filter_eq_self.mpr hs.used

theorem merged_of_used {l : List Block} (h : ∀ s ∈ l, s.used = true) : Merged l := by
  induction l with
  | nil => exact .nil
  | cons s l ih =>
    have hrest := ih fun t ht => h t (List.mem_cons_of_mem _ ht)
    cases l with
    | nil => exact .singleton s
    | cons t l => exact .cons_cons (.inl (h s List.mem_cons_self)) hrest

/-- A list of blocks that fits the blocks in use is the one of the heap. -/
theorem InUse.blocks (hu : InUse r h us) {l : List Block} (ht : Tiles r.basePtr l r.stop)
    (hm : Merged l) (hl : l.filter Segment.used = us) : ∃ live, RunInv r ⟨h, live⟩ l := by
  obtain ⟨bs, live, hinv, hbs⟩ := hu
  have ht' := hinv.repr.shape.tiles
  rw [hinv.heap_eq, hinv.heapEnd_eq] at ht'
  obtain rfl := merged_unique ht' ht hinv.merged hm (hbs.trans hl.symm)
  exact ⟨live, hinv⟩

/-- Behind a stack of blocks there is one free block, or nothing. -/
theorem InUse.blocks_stacked (hu : InUse r h us) {e : Nat} (hs : Stacked r us e)
    (he : e ≤ r.stop) :
    (e < r.stop ∧ ∃ live, RunInv r ⟨h, live⟩ (us ++ [⟨e, r.stop, false⟩])) ∨
    (e = r.stop ∧ ∃ live, RunInv r ⟨h, live⟩ us) := by
  have hmerged := merged_of_used hs.used
  rcases Nat.lt_or_eq_of_le he with hlt | rfl
  · refine .inl ⟨hlt, hu.blocks ?_ ?_ ?_⟩
    · exact tiles_append.mpr ⟨e, hs.tiles, rfl, hlt, rfl⟩
    · refine List.isChain_append.mpr ⟨hmerged, .singleton _, ?_⟩
      intro x hx _ _
      exact .inl (hs.used x (List.mem_of_getLast? hx))
    · rw [List.filter_append, hs.filter, List.filter_cons_of_neg (by simp), List.filter_nil,
        List.append_nil]
  · exact .inr ⟨rfl, hu.blocks hs.tiles hmerged hs.filter⟩

/-- A stack of blocks, a gap, one more block, and what is left behind it. -/
theorem InUse.blocks_gap {d : Nat} {s : Block} (hu : InUse r h (us ++ [s])) (hs : Stacked r us d)
    (hgap : d < s.start) (hlt : s.start < s.stop) (hused : s.used = true) (hstop : s.stop ≤ r.stop) :
    ∃ live tail, RunInv r ⟨h, live⟩ (us ++ ⟨d, s.start, false⟩ :: s :: tail) ∧
      (s.stop < r.stop → ⟨s.stop, r.stop, false⟩ ∈ tail) := by
  -- what is left is one free block, or nothing
  obtain ⟨tail, htiles, hmerged, hfree, hmem⟩ : ∃ tail, Tiles s.stop tail r.stop ∧
      Merged (s :: tail) ∧ tail.filter Segment.used = [] ∧
      (s.stop < r.stop → ⟨s.stop, r.stop, false⟩ ∈ tail) := by
    rcases Nat.lt_or_eq_of_le hstop with hlt | heq
    · exact ⟨[⟨s.stop, r.stop, false⟩], ⟨rfl, hlt, rfl⟩, .cons_cons (.inl hused) (.singleton _),
        rfl, by simp⟩
    · exact ⟨[], heq, .singleton s, rfl, by omega⟩
  have hlist : ∃ live, RunInv r ⟨h, live⟩ (us ++ ⟨d, s.start, false⟩ :: s :: tail) := by
    apply hu.blocks
    · exact tiles_append.mpr ⟨d, hs.tiles, rfl, hgap, rfl, hlt, htiles⟩
    · refine List.isChain_append.mpr ⟨merged_of_used hs.used, .cons_cons (.inr hused) hmerged, ?_⟩
      intro x hx _ _
      exact .inl (hs.used x (List.mem_of_getLast? hx))
    · rw [List.filter_append, hs.filter, List.filter_cons_of_neg (by simp),
        List.filter_cons_of_pos hused, hfree]
  obtain ⟨live, hinv⟩ := hlist
  exact ⟨live, tail, hinv, hmem⟩

/-! ## Section 2: malloc and free -/

/-- Where a block for `c` bytes behind `e` ends: a rest that is too small for a
    header and four bytes goes to it. -/
def blockEnd (r : HeapRegion) (e c : Nat) : Nat :=
  if e + 8 + c + 12 ≤ r.stop then e + 8 + c else r.stop

/-- The block that is carved out of the free one behind `e`. -/
theorem filter_carve {e c : Nat} (hroom : e + 8 + c ≤ r.stop) :
    (carve ⟨e, r.stop, false⟩ c).filter Segment.used = [⟨e, blockEnd r e c, true⟩] := by
  by_cases hrest : e + 8 + c + 12 ≤ r.stop
  · rw [carve_of_room (by simp only [payload, sizeof]; omega), blockEnd, if_pos hrest]
    rfl
  · rw [carve_of_tight (by simp only [payload, sizeof]; omega), blockEnd, if_neg hrest]
    rfl

/-- The last block of a list is its first free one. -/
theorem append_last_free {l₁ l₂ : List Block} {s : Block} (hus : ∀ t ∈ us, t.used = true)
    (hfree : s.used = false) (h : us ++ [s] = l₁ ++ s :: l₂) : l₁ = us ∧ l₂ = [] := by
  rcases List.append_eq_append_iff.mp h with ⟨a, rfl, ha⟩ | ⟨c, rfl, hc⟩
  · cases a with
    | nil =>
      obtain ⟨-, rfl⟩ := List.cons.inj ha
      exact ⟨by simp, rfl⟩
    | cons x a => simp at ha
  · cases c with
    | nil =>
      obtain ⟨-, rfl⟩ := List.cons.inj hc
      exact ⟨by simp, rfl⟩
    | cons x c =>
      -- `s` would be one of the blocks in use
      obtain ⟨rfl, -⟩ := List.cons.inj hc
      rw [hus s (by simp)] at hfree
      cases hfree

/-- `malloc` behind a stack of blocks. -/
theorem InUse.malloc_stacked (hu : InUse r h us) {e : Nat} (hs : Stacked r us e) (he : e ≤ r.stop)
    (hpos : 0 < r.basePtr) (hcall : malloc fuel h count = some (p, h')) :
    (r.stop < e + 8 + roundCount count.toNat ∧ p = 0 ∧ h' = h) ∨
    (e + 8 + roundCount count.toNat ≤ r.stop ∧ p = e + 8 ∧
      InUse r h' (us ++ [⟨e, blockEnd r e (roundCount count.toNat), true⟩])) := by
  rcases hu.blocks_stacked hs he with ⟨hlt, live, hinv⟩ | ⟨rfl, live, hinv⟩
  · have hroom : e + 8 ≤ r.stop := hinv.repr.shape.room ⟨e, r.stop, false⟩ (by simp)
    rcases malloc_carves hinv hcall with ⟨hp, hh, hnone⟩ | ⟨l₁, s, l₂, hbs, hfree, hfits, hp, hinv'⟩
    · have hsmall := hnone hpos ⟨e, r.stop, false⟩ (by simp) rfl
      simp only [payload, sizeof] at hsmall
      exact .inl ⟨by omega, hp, hh⟩
    · -- the only free block is the last one
      have hlast : s = ⟨e, r.stop, false⟩ := by
        have hmem : s ∈ us ++ [⟨e, r.stop, false⟩] := hbs ▸ by simp
        rcases List.mem_append.mp hmem with hmem | hmem
        · rw [hs.used s hmem] at hfree
          cases hfree
        · exact List.mem_singleton.mp hmem
      subst hlast
      obtain ⟨rfl, rfl⟩ := append_last_free hs.used rfl hbs
      simp only [payload, sizeof] at hfits
      refine .inr ⟨by omega, hp, _, _, hinv', ?_⟩
      rw [List.append_nil, List.filter_append, hs.filter, filter_carve (by omega)]
  · refine .inl ⟨by omega, ?_⟩
    rcases malloc_carves hinv hcall with ⟨hp, hh, -⟩ | ⟨l₁, s, l₂, hbs, hfree, -⟩
    · exact ⟨hp, hh⟩
    · rw [hs.used s (hbs ▸ by simp)] at hfree
      cases hfree

theorem Stacked.push {e c : Nat} (hs : Stacked r us e) (hroom : e + 8 + c ≤ r.stop) :
    Stacked r (us ++ [⟨e, blockEnd r e c, true⟩]) (blockEnd r e c) := by
  have hlt : e < blockEnd r e c := by
    unfold blockEnd
    split
    · omega
    · omega
  exact hs.snoc (s := ⟨e, blockEnd r e c, true⟩) rfl hlt rfl

theorem blockEnd_le {e c : Nat} : blockEnd r e c ≤ r.stop := by
  unfold blockEnd
  split
  · omega
  · omega

theorem lt_blockEnd {e c : Nat} (h : e < r.stop) : e < blockEnd r e c := by
  unfold blockEnd
  split
  · omega
  · exact h

theorem blockEnd_of_room {e c : Nat} (h : e + 8 + c + 12 ≤ r.stop) : blockEnd r e c = e + 8 + c :=
  if_pos h

/-- `malloc` behind a stack of blocks, with room for more than the block. -/
theorem InUse.malloc_push (hu : InUse r h us) {e c : Nat} (hs : Stacked r us e)
    (hpos : 0 < r.basePtr) (hc : roundCount count.toNat = c) (hroom : e + 8 + c + 12 ≤ r.stop)
    (hcall : malloc fuel h count = some (p, h')) :
    p = e + 8 ∧ ∃ us', InUse r h' us' ∧ Stacked r us' (e + 8 + c) := by
  rcases hu.malloc_stacked hs (by omega) hpos hcall with ⟨hfull, -⟩ | ⟨-, hp, hu'⟩
  · omega
  · have hs' := hs.push (c := c) (by omega)
    rw [hc] at hu'
    rw [blockEnd_of_room hroom] at hs' hu'
    exact ⟨hp, _, hu', hs'⟩

/-- `free` takes one block out. -/
theorem InUse.free_block {pre post : List Block} {s : Block} (hu : InUse r h (pre ++ s :: post))
    (hcall : free fuel h (s.start + sizeof) = some h') : InUse r h' (pre ++ post) := by
  obtain ⟨bs, live, hinv, hbs⟩ := hu
  have hmem : s ∈ bs.filter Segment.used := hbs ▸ by simp
  have hlive : s.start + sizeof ∈ live := by
    obtain ⟨hs, hused⟩ := List.mem_filter.mp hmem
    exact hinv.live.mem_iff.mp (mem_usedPtrs.mpr ⟨s, hs, hused, rfl⟩)
  have hbig := free_mono (Nat.le_add_right fuel bs.length) hcall
  obtain ⟨h₂, bs', hcall₂, hinv', hfil⟩ := runInv_free_total hinv hlive (Nat.le_add_left _ fuel)
  obtain rfl := Option.some.inj (hbig.symm.trans hcall₂)
  refine ⟨bs', _, hinv', ?_⟩
  -- no other block starts where `s` does
  have hother : ∀ t ∈ pre ++ post, t.start + sizeof ≠ s.start + sizeof := by
    intro t ht heq
    have hsub : ∀ x ∈ pre ++ s :: post, x ∈ bs := fun x hx =>
      List.mem_of_mem_filter (hbs.symm ▸ hx)
    have hts : t = s := hinv.repr.shape.tiles.eq_of_start_eq (hsub t (by simp at ht ⊢; tauto))
      (hsub s (by simp)) (Nat.add_right_cancel heq)
    have hnd : (pre ++ s :: post).Nodup := hbs ▸ hinv.repr.shape.tiles.nodup.filter _
    have hnot := (List.nodup_cons.mp (List.perm_middle.nodup hnd)).1
    exact hnot (hts ▸ ht)
  rw [hfil, hbs, List.filter_append, List.filter_cons_of_neg (by simp), ← List.filter_append]
  exact List.filter_eq_self.mpr fun t ht => decide_eq_true (hother t ht)

theorem InUse.free_last {pre : List Block} {s : Block} (hu : InUse r h (pre ++ [s]))
    (hcall : free fuel h (s.start + sizeof) = some h') : InUse r h' pre := by
  have hrest := hu.free_block hcall
  rwa [List.append_nil] at hrest

/-! ## Section 3: Two calls in a row -/

/-- A free block with room for `n` bytes. -/
def HasRoom (bs : List Block) (n : Nat) : Prop := ∃ s ∈ bs, s.used = false ∧ n ≤ payload s

theorem malloc_ne_zero {live : List Nat} {bs : List Block} (hinv : RunInv r ⟨h, live⟩ bs)
    (hpos : 0 < r.basePtr) (hroom : HasRoom bs (roundCount count.toNat))
    (hcall : malloc fuel h count = some (p, h')) : p ≠ 0 := by
  obtain ⟨t, ht, hfree, hle⟩ := hroom
  rcases malloc_carves hinv hcall with ⟨-, -, hnone⟩ | ⟨l₁, s, l₂, -, -, -, rfl, -⟩
  · exact absurd (hnone hpos t ht hfree) (Nat.not_lt.mpr hle)
  · exact Nat.succ_ne_zero _

/-- What is left after a call, wherever it takes its block from. -/
theorem room_after_malloc {live : List Nat} {bs : List Block} {n : Nat}
    (hinv : RunInv r ⟨h, live⟩ bs) (hpos : 0 < r.basePtr) (hn : 4 ≤ n)
    (hroom : HasRoom bs (roundCount count.toNat + 8 + n))
    (hcall : malloc fuel h count = some (p, h')) :
    ∃ bs' live', RunInv r ⟨h', live'⟩ bs' ∧ HasRoom bs' n := by
  obtain ⟨t, ht, hfree, hle⟩ := hroom
  rcases malloc_carves hinv hcall with ⟨-, -, hnone⟩ | ⟨l₁, s, l₂, rfl, hsfree, hfits, -, hinv'⟩
  · have hsmall := hnone hpos t ht hfree
    omega
  · refine ⟨_, _, hinv', ?_⟩
    rcases List.mem_append.mp ht with ht | ht
    · exact ⟨t, by simp [ht], hfree, by omega⟩
    rcases List.mem_cons.mp ht with rfl | ht
    · -- the rest of the block itself
      refine ⟨⟨t.start + 8 + roundCount count.toNat, t.stop, false⟩, ?_, rfl, ?_⟩
      · rw [carve_of_room (by omega)]
        simp
      · simp only [payload, sizeof] at hle ⊢
        omega
    · exact ⟨t, by simp [ht], hfree, by omega⟩

/-! ## Section 4: A block that is given back

    Wherever `malloc` puts a block, `free` takes it out again and leaves the
    other blocks in use. -/

/-- The block behind `p` is in use besides the given ones. -/
def Borrowed (r : HeapRegion) (us : List Block) (p : Nat) (h : Heap) : Prop :=
  ∃ pre s post, us = pre ++ post ∧ p = s.start + sizeof ∧ InUse r h (pre ++ s :: post)

theorem filter_used_carve (s : Block) (c : Nat) :
    ∃ t : Block, (carve s c).filter Segment.used = [t] ∧ t.start = s.start := by
  unfold carve
  split
  · exact ⟨_, rfl, rfl⟩
  · exact ⟨_, rfl, rfl⟩

theorem InUse.borrow (hu : InUse r h us) (hcall : malloc fuel h count = some (p, h')) :
    (p = 0 ∧ h' = h) ∨ (p ≠ 0 ∧ Borrowed r us p h') := by
  obtain ⟨bs, live, hinv, rfl⟩ := hu
  rcases malloc_carves hinv hcall with ⟨hp, hh, -⟩ | ⟨l₁, s, l₂, rfl, hfree, -, rfl, hinv'⟩
  · exact .inl ⟨hp, hh⟩
  · obtain ⟨t, ht, hstart⟩ := filter_used_carve s (roundCount count.toNat)
    refine .inr ⟨Nat.succ_ne_zero _, l₁.filter Segment.used, t, l₂.filter Segment.used, ?_, ?_, ?_⟩
    · simp [List.filter_append, hfree]
    · rw [hstart]
    · refine ⟨_, _, hinv', ?_⟩
      simp [List.filter_append, ht]

theorem Borrowed.free (hb : Borrowed r us p h) (hcall : free fuel h p = some h') :
    InUse r h' us := by
  obtain ⟨pre, s, post, rfl, rfl, hu⟩ := hb
  exact hu.free_block hcall

/-! ## Section 5: Calls end

    No block list is longer than the heap. -/

theorem InUse.malloc_ends (hu : InUse r h us) (hfuel : r.maxSize < fuel) (count : UInt32) :
    ∃ p h', malloc fuel h count = some (p, h') := by
  obtain ⟨bs, live, hinv, -⟩ := hu
  have hle := hinv.length_le
  rcases malloc_spec hinv.repr (Nat.lt_of_le_of_lt hle hfuel) count with
    ⟨hnull, -⟩ | ⟨_, _, _, _, _, _, _, hsome, -⟩
  · exact ⟨_, _, hnull⟩
  · exact ⟨_, _, hsome⟩

theorem InUse.free_ends {pre post : List Block} {s : Block} (hu : InUse r h (pre ++ s :: post))
    (hfuel : r.maxSize ≤ fuel) :
    ∃ h', free fuel h (s.start + sizeof) = some h' ∧ InUse r h' (pre ++ post) := by
  have hfree : ∃ h', free fuel h (s.start + sizeof) = some h' := by
    obtain ⟨bs, live, hinv, hbs⟩ := hu
    have hmem : s ∈ bs.filter Segment.used := hbs ▸ by simp
    obtain ⟨hs, hused⟩ := List.mem_filter.mp hmem
    have hlive := hinv.live.mem_iff.mp (mem_usedPtrs.mpr ⟨s, hs, hused, rfl⟩)
    obtain ⟨h', -, hcall, -⟩ := runInv_free_total hinv hlive (hinv.length_le.trans hfuel)
    exact ⟨h', hcall⟩
  obtain ⟨h', hcall⟩ := hfree
  exact ⟨h', hcall, hu.free_block hcall⟩

/-- Where there is room behind the stack, a call gets it. -/
theorem InUse.malloc_room (hu : InUse r h us) {e : Nat} (hs : Stacked r us e)
    (hpos : 0 < r.basePtr) (hroom : e + 8 + roundCount count.toNat ≤ r.stop)
    (hfuel : r.maxSize < fuel) :
    ∃ h', malloc fuel h count = some (e + 8, h') ∧
      InUse r h' (us ++ [⟨e, blockEnd r e (roundCount count.toNat), true⟩]) := by
  obtain ⟨p, h', hcall⟩ := hu.malloc_ends hfuel count
  rcases hu.malloc_stacked hs (by omega) hpos hcall with ⟨hfull, -⟩ | ⟨-, rfl, hu'⟩
  · omega
  · exact ⟨h', hcall, hu'⟩

/-- A buffer behind the stack that is given back at once. -/
theorem InUse.buffer (hu : InUse r h us) {e : Nat} (hs : Stacked r us e) (hpos : 0 < r.basePtr)
    (hroom : e + 8 + roundCount count.toNat ≤ r.stop) (hfuel : r.maxSize < fuel) :
    ∃ h₁ h₂, malloc fuel h count = some (e + 8, h₁) ∧ free fuel h₁ (e + 8) = some h₂ ∧
      InUse r h₂ us := by
  obtain ⟨h₁, hmalloc, hu₁⟩ := hu.malloc_room hs hpos hroom hfuel
  obtain ⟨h₂, hfree, hu₂⟩ := hu₁.free_ends (Nat.le_of_lt hfuel)
  rw [List.append_nil] at hu₂
  exact ⟨h₁, h₂, hmalloc, hfree, hu₂⟩

end Hausboot
