import Hausboot.Heap.Runs

/-! # The stage2 Heap: What a Call Leaves Alone

    Headers are stored between the payloads, and `malloc` puts a new one into
    the middle of a former payload. All of them lie in blocks that are free
    before the call or that the call frees, so the payloads in use and the
    memory around the heap keep their bytes. -/

open Tiling

namespace Hausboot

open HeapEntry

/-- The address lies in the payload behind the pointer. -/
def InPayload (m : Store) (p i : Nat) : Prop := p ≤ i ∧ i < p + size m (p - sizeof)

/-- What a call leaves alone: the payloads behind the pointers, their sizes
    included, and all memory around the heap. -/
structure LeavesAlone (h h' : Heap) (ptrs : List Nat) : Prop where
  payload : ∀ p ∈ ptrs, ∀ i, InPayload h.mem p i → h'.mem i = h.mem i
  size : ∀ p ∈ ptrs, size h'.mem (p - sizeof) = size h.mem (p - sizeof)
  outside : ∀ i, i < h.heap ∨ h.heapEnd ≤ i → h'.mem i = h.mem i

/-! ## Section 1: Addresses outside the free blocks -/

theorem outsideFree_of_used {a b i : Nat} {bs : List Block} (ht : Tiles a bs b) {t : Block}
    (hmem : t ∈ bs) (hused : t.used = true) (hlo : t.start ≤ i) (hhi : i < t.stop) :
    OutsideFree bs i := by
  intro s hs hfree
  have hne : s ≠ t := by
    intro heq
    rw [heq, hused] at hfree
    cases hfree
  rcases ht.apart hs hmem hne with h | h
  · exact .inr (Nat.le_trans h hlo)
  · exact .inl (Nat.lt_of_lt_of_le hhi h)

theorem outsideFree_of_range {a b i : Nat} {bs : List Block} (ht : Tiles a bs b)
    (hi : i < a ∨ b ≤ i) : OutsideFree bs i := by
  intro s hs _
  have hbounds := ht.bounds s hs
  omega

/-- `malloc` writes to free blocks only. -/
theorem malloc_frame {r : HeapRegion} {σ : HeapRun} {bs : List Block} (hinv : RunInv r σ bs)
    {fuel p : Nat} {count : UInt32} {h' : Heap} (hcall : malloc fuel σ.heap count = some (p, h')) :
    ∀ i, OutsideFree bs i → h'.mem i = σ.heap.mem i := by
  have hbig := malloc_mono (Nat.le_add_right fuel (bs.length + 1)) hcall
  rcases malloc_spec hinv.repr (show bs.length < fuel + (bs.length + 1) by omega) count with
    ⟨hnull, -⟩ | ⟨l₁, s, l₂, m', rfl, hfree, -, hres, -, hframe⟩
  · rw [hnull] at hbig
    obtain ⟨-, rfl⟩ := Prod.mk.inj (Option.some.inj hbig)
    exact fun _ _ => rfl
  · rw [hres] at hbig
    obtain ⟨-, rfl⟩ := Prod.mk.inj (Option.some.inj hbig)
    intro i hi
    exact hframe i (hi s (by simp) hfree)

/-- `free` writes to free blocks and to the one that it frees. -/
theorem free_frame {r : HeapRegion} {σ : HeapRun} {l₁ l₂ : List Block} {s : Block}
    (hinv : RunInv r σ (l₁ ++ s :: l₂)) (hused : s.used = true) {fuel : Nat} {h' : Heap}
    (hcall : free fuel σ.heap (s.start + sizeof) = some h') :
    ∀ i, OutsideFree (l₁ ++ s :: l₂) i → i < s.start ∨ s.stop ≤ i → h'.mem i = σ.heap.mem i := by
  have hbig := free_mono (Nat.le_add_right fuel (l₁ ++ s :: l₂).length) hcall
  obtain ⟨m', bs', hres, -, -, -, hframe⟩ := free_spec hinv.repr hused (Nat.le_add_left _ fuel)
  rw [hres] at hbig
  obtain rfl := Option.some.inj hbig
  intro i hi hs
  apply hframe i
  intro t ht hfree
  simp only [List.mem_append, List.mem_cons] at ht
  rcases ht with ht | rfl | ht
  · exact hi t (by simp [ht]) hfree
  · exact hs
  · exact hi t (by simp [ht]) hfree

/-! ## Section 2: The calls -/

/-- The block of a live pointer, and its payload. -/
theorem RunInv.payload_of_live {r : HeapRegion} {σ : HeapRun} {bs : List Block}
    (hinv : RunInv r σ bs) {p : Nat} (hp : p ∈ σ.live) :
    ∃ s ∈ bs, s.used = true ∧ p = s.start + sizeof ∧ next σ.heap.mem s.start = s.stop ∧
      ∀ i, InPayload σ.heap.mem p i → s.start ≤ i ∧ i < s.stop := by
  obtain ⟨l₁, s, l₂, rfl, hused, rfl⟩ := hinv.block_of_live hp
  have hmem : s ∈ l₁ ++ s :: l₂ := by simp
  have hsize := hinv.repr.stored.size_eq hinv.repr.shape hmem
  have hroom : s.start + 8 ≤ s.stop := hinv.repr.shape.room s hmem
  refine ⟨s, hmem, hused, rfl, (hinv.repr.stored s hmem).1, ?_⟩
  intro i hi
  unfold InPayload at hi
  rw [Nat.add_sub_cancel, hsize, payload, sizeof] at hi
  omega

/-- Memory that keeps the bytes of a used block keeps its payload. -/
theorem leavesAlone_of_blocks {r : HeapRegion} {σ : HeapRun} {bs : List Block}
    (hinv : RunInv r σ bs) {h' : Heap} {ptrs : List Nat} (hsub : ∀ p ∈ ptrs, p ∈ σ.live)
    (hblock : ∀ s ∈ bs, s.used = true → s.start + sizeof ∈ ptrs →
      ∀ i, s.start ≤ i → i < s.stop → h'.mem i = σ.heap.mem i)
    (houtside : ∀ i, i < σ.heap.heap ∨ σ.heap.heapEnd ≤ i → h'.mem i = σ.heap.mem i) :
    LeavesAlone σ.heap h' ptrs := by
  refine ⟨?_, ?_, houtside⟩
  · intro p hp i hi
    obtain ⟨s, hmem, hused, rfl, -, hin⟩ := hinv.payload_of_live (hsub p hp)
    obtain ⟨hlo, hhi⟩ := hin i hi
    exact hblock s hmem hused hp i hlo hhi
  · intro p hp
    obtain ⟨s, hmem, hused, rfl, -, -⟩ := hinv.payload_of_live (hsub p hp)
    have hroom := hinv.repr.shape.room s hmem
    have hkeep := header_congr σ.heap.mem h'.mem s.start
      (fun i hlo hhi => hblock s hmem hused hp i hlo (Nat.lt_of_lt_of_le hhi hroom))
    rw [Nat.add_sub_cancel, HeapEntry.size, HeapEntry.size, hkeep.1]

/-- **The heap keeps its hands off user data**: in every reachable state, and
    whatever the payloads hold, a call of `malloc` changes no byte of a live
    payload, a call of `free` none of a payload that stays live, and neither of
    them one around the heap. -/
theorem heap_leaves_alone (r : HeapRegion) (σ : HeapRun) (hr : r.Reachable σ) :
    (∀ fuel count p h', malloc fuel σ.heap count = some (p, h') →
      LeavesAlone σ.heap h' σ.live) ∧
    (∀ fuel p h', p = 0 ∨ p ∈ σ.live → free fuel σ.heap p = some h' →
      LeavesAlone σ.heap h' (σ.live.erase p)) := by
  obtain ⟨bs, hinv⟩ := runInv_reachable hr
  have htiles := hinv.repr.shape.tiles
  constructor
  · intro fuel count p h' hcall
    have hframe := malloc_frame hinv hcall
    apply leavesAlone_of_blocks hinv (fun q hq => hq)
    · intro s hs hused _ i hlo hhi
      exact hframe i (outsideFree_of_used htiles hs hused hlo hhi)
    · intro i hi
      exact hframe i (outsideFree_of_range htiles hi)
  · intro fuel p h' hp hcall
    have hsub : ∀ q ∈ σ.live.erase p, q ∈ σ.live := fun q hq => List.mem_of_mem_erase hq
    rcases hp with rfl | hp
    · rw [free_null] at hcall
      obtain rfl := Option.some.inj hcall
      exact ⟨fun _ _ _ _ => rfl, fun _ _ => rfl, fun _ _ => rfl⟩
    · obtain ⟨l₁, s, l₂, rfl, hused, rfl⟩ := hinv.block_of_live hp
      have hframe := free_frame hinv hused hcall
      have hnodup : σ.live.Nodup := hinv.live.nodup (usedPtrs_nodup htiles)
      apply leavesAlone_of_blocks hinv hsub
      · intro t ht htused hlive i hlo hhi
        -- the block that is freed is another one
        have hne : t ≠ s := by
          intro heq
          rw [heq] at hlive
          exact hnodup.not_mem_erase hlive
        apply hframe i (outsideFree_of_used htiles ht htused hlo hhi)
        rcases htiles.apart ht (show s ∈ l₁ ++ s :: l₂ by simp) hne with h | h
        · exact .inl (Nat.lt_of_lt_of_le hhi h)
        · exact .inr (Nat.le_trans h hlo)
      · intro i hi
        have hbounds := htiles.bounds s (by simp)
        exact hframe i (outsideFree_of_range htiles hi) (by omega)

/-- The second of two allocations in a 64 byte heap. -/
theorem heap_leaves_alone_second :
    ∃ h h' : Heap, malloc 3 h 8 = some (4116, h') ∧ LeavesAlone h h' [4104] := by
  let r : HeapRegion := ⟨4096, 64, by decide, by decide, by decide⟩
  have hptr₁ : (malloc 2 (r.start fun _ => 0).heap 4).map Prod.fst = some 4104 := by decide
  have hptr₂ : ((malloc 2 (r.start fun _ => 0).heap 4).bind fun x => malloc 3 x.2 8).map Prod.fst
      = some 4116 := by decide
  obtain ⟨⟨p, h₁⟩, hcall₁, rfl⟩ := Option.map_eq_some_iff.mp hptr₁
  rw [hcall₁] at hptr₂
  obtain ⟨⟨p, h₂⟩, hcall₂, rfl⟩ := Option.map_eq_some_iff.mp hptr₂
  have hreach : r.Reachable ⟨h₁, [4104]⟩ := ⟨_, .single (.malloc 2 4 hcall₁)⟩
  exact ⟨h₁, h₂, hcall₂, (heap_leaves_alone r ⟨h₁, [4104]⟩ hreach).1 3 8 4116 h₂ hcall₂⟩

end Hausboot
