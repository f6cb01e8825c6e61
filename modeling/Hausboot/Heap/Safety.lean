import Hausboot.Heap.Runs

/-! # The stage2 Heap: Safety Theorems

    The invariant of all runs, read off memory: what a walk along `_next`
    sees in every reachable state, and what a set of frees leaves behind. -/

open Tiling

namespace Hausboot

open HeapEntry

/-! ## Section 1: Walking the linked list -/

/-- Following `_next` from `a` visits the entries `es` and then reaches `b`. -/
def Follows (m : Store) : Nat → List Nat → Nat → Prop
  | a, [], b => a = b
  | a, e :: es, b => e = a ∧ a ≠ b ∧ Follows m (next m a) es b

/-- The representation invariant of the heap, in terms of the linked list. -/
structure HeapInvariant (σ : HeapRun) (es : List Nat) : Prop where
  /-- The walk along `_next` ends at `heapEnd`. -/
  follows : Follows σ.heap.mem σ.heap.heap es σ.heap.heapEnd
  aligned : ∀ e ∈ es, e % 4 = 0
  /-- Addresses increase, with room for a header in each block. -/
  spaced : (es ++ [σ.heap.heapEnd]).IsChain fun e f => e + sizeof ≤ f
  /-- Each payload ends where the next block starts. -/
  tiles : ∀ e ∈ es, e + sizeof + size σ.heap.mem e = next σ.heap.mem e
  /-- Reserved blocks and live pointers correspond one to one. -/
  reserved : ((es.filter fun e => !isFree σ.heap.mem e).map (· + sizeof)).Perm σ.live
  live_nodup : σ.live.Nodup
  /-- No address belongs to two live payloads. -/
  disjoint : ∀ p ∈ σ.live, ∀ q ∈ σ.live, p ≠ q → ∀ i,
    ¬ (p ≤ i ∧ i < p + size σ.heap.mem (p - sizeof) ∧
       q ≤ i ∧ i < q + size σ.heap.mem (q - sizeof))
  /-- No two neighbouring blocks are both free. -/
  merged : es.IsChain fun e f => ¬ (isFree σ.heap.mem e ∧ isFree σ.heap.mem f)

theorem follows_of_stored {m : Store} {b : Nat} :
    ∀ {a : Nat} {bs : List Block}, Tiles a bs b → Stored m bs →
      Follows m a (bs.map Segment.start) b
  | _, [], h, _ => h
  | a, s :: bs, ⟨hs, hlt, htl⟩, hm => by
    refine ⟨hs, Nat.ne_of_lt (Nat.lt_of_lt_of_le hlt htl.le), ?_⟩
    rw [← hs, (hm s (by simp)).1]
    exact follows_of_stored htl (stored_cons.mp hm).2

theorem spaced_of_shape {a b : Nat} {bs : List Block} (h : Shape a b bs) :
    (bs.map Segment.start ++ [b]).IsChain fun e f => e + sizeof ≤ f := by
  obtain ⟨ht, -, hroom, -⟩ := h
  induction bs generalizing a with
  | nil => exact .singleton _
  | cons s bs ih =>
    have hs : s.start + sizeof ≤ s.stop := hroom s (by simp)
    have hrest := ih ht.2.2 (fun t h => hroom t (by simp [h]))
    cases bs with
    | nil =>
      obtain rfl : s.stop = b := ht.2.2
      exact .cons_cons hs hrest
    | cons t bs =>
      have hts : t.start = s.stop := ht.2.2.1
      exact .cons_cons (hts ▸ hs) hrest

/-- In a stored list, an entry is reserved exactly if its block is used. -/
theorem reserved_filter {m : Store} {bs : List Block} (hm : Stored m bs) :
    ((bs.map Segment.start).filter fun e => !isFree m e).map (· + sizeof) = usedPtrs bs := by
  rw [List.filter_map, usedPtrs, List.map_map]
  have : bs.filter ((fun e => !isFree m e) ∘ Segment.start) = bs.filter Segment.used :=
    List.filter_congr fun s hs => by simp [hm.isFree_eq hs]
  rw [this]
  rfl

theorem RunInv.payload_bounds {r : HeapRegion} {σ : HeapRun} {bs : List Block}
    (hinv : RunInv r σ bs) {p : Nat} (hp : p ∈ σ.live) :
    ∃ s ∈ bs, p = s.start + sizeof ∧ p + size σ.heap.mem (p - sizeof) = s.stop := by
  obtain ⟨s, hs, -, rfl⟩ := mem_usedPtrs.mp (hinv.live.mem_iff.mpr hp)
  have hroom := hinv.repr.shape.room s hs
  refine ⟨s, hs, rfl, ?_⟩
  rw [Nat.add_sub_cancel, hinv.repr.stored.size_eq hinv.repr.shape hs, payload]
  omega

theorem RunInv.disjoint {r : HeapRegion} {σ : HeapRun} {bs : List Block} (hinv : RunInv r σ bs)
    {p q : Nat} (hp : p ∈ σ.live) (hq : q ∈ σ.live) (hne : p ≠ q) (i : Nat) :
    ¬ (p ≤ i ∧ i < p + size σ.heap.mem (p - sizeof) ∧
       q ≤ i ∧ i < q + size σ.heap.mem (q - sizeof)) := by
  obtain ⟨s, hs, hps, hpe⟩ := hinv.payload_bounds hp
  obtain ⟨t, ht, hqt, hqe⟩ := hinv.payload_bounds hq
  have hst : s ≠ t := by rintro rfl; exact hne (hps.trans hqt.symm)
  have horder := hinv.repr.shape.tiles.apart hs ht hst
  omega

theorem heapInvariant_of_runInv {r : HeapRegion} {σ : HeapRun} {bs : List Block}
    (hinv : RunInv r σ bs) : HeapInvariant σ (bs.map Segment.start) where
  follows := follows_of_stored hinv.repr.shape.tiles hinv.repr.stored
  aligned e he := by
    obtain ⟨s, hs, rfl⟩ := List.mem_map.mp he
    exact (hinv.repr.shape.aligned s hs).1
  spaced := spaced_of_shape hinv.repr.shape
  tiles e he := by
    obtain ⟨s, hs, rfl⟩ := List.mem_map.mp he
    have hroom := hinv.repr.shape.room s hs
    rw [hinv.repr.stored.size_eq hinv.repr.shape hs, (hinv.repr.stored s hs).1, payload]
    omega
  reserved := by
    rw [reserved_filter hinv.repr.stored]
    exact hinv.live
  live_nodup := hinv.live.nodup (usedPtrs_nodup hinv.repr.shape.tiles)
  disjoint p hp q hq hne := hinv.disjoint hp hq hne
  merged := by
    refine (List.isChain_map _).mpr (hinv.merged.imp_of_mem_imp fun s t hs ht hor => ?_)
    rw [hinv.repr.stored.isFree_eq hs, hinv.repr.stored.isFree_eq ht]
    rcases hor with h | h <;> simp [h]

/-- **Representation invariant**: in every reachable state the linked list is
    in order, and the next call of `malloc` or `free` returns. -/
theorem heap_invariant (r : HeapRegion) (σ : HeapRun) (hr : r.Reachable σ) :
    (∃ es, HeapInvariant σ es) ∧
    (∀ count, ∃ fuel res, malloc fuel σ.heap count = some res) ∧
    (∀ p, p = 0 ∨ p ∈ σ.live → ∃ fuel h', free fuel σ.heap p = some h') := by
  obtain ⟨bs, hinv⟩ := runInv_reachable hr
  refine ⟨⟨_, heapInvariant_of_runInv hinv⟩, fun count => ?_, fun p hp => ?_⟩
  · rcases malloc_spec hinv.repr (Nat.lt_succ_self _) count with ⟨hnull, -⟩ | ⟨_, _, _, _, _, _, _, hres, _⟩
    · exact ⟨_, _, hnull⟩
    · exact ⟨_, _, hres⟩
  · rcases hp with rfl | hp
    · exact ⟨0, _, free_null 0 σ.heap⟩
    · obtain ⟨h', -, hcall, -⟩ := runInv_free_total hinv hp (Nat.le_refl _)
      exact ⟨_, h', hcall⟩

/-- The invariant after one `malloc(4)` on a heap of 64 bytes. -/
theorem heap_invariant_after_malloc :
    ∃ σ : HeapRun, σ.live = [4104] ∧ ∃ es, HeapInvariant σ es := by
  let r : HeapRegion := ⟨4096, 64, by decide, by decide, by decide⟩
  have hptr : (malloc 2 (r.start fun _ => 0).heap 4).map Prod.fst = some 4104 := by decide
  obtain ⟨⟨p, h'⟩, hcall, rfl⟩ := Option.map_eq_some_iff.mp hptr
  have hstep : HeapStep (r.start fun _ => 0) ⟨h', [4104]⟩ := .malloc 2 4 hcall
  have hreach : r.Reachable ⟨h', [4104]⟩ := ⟨_, .single hstep⟩
  exact ⟨_, rfl, (heap_invariant r _ hreach).1⟩

/-! ## Section 2: Freeing a set of allocations -/

/-- Free the listed pointers one after the other. -/
def freeAll (fuel : Nat) : List Nat → Heap → Option Heap
  | [], h => some h
  | p :: ps, h => do
    let h ← free fuel h p
    freeAll fuel ps h

/-- The block list of a heap as the walk along `_next` shows it: address,
    `Size()` and the reserved flag of each entry. -/
def HasBlocks (h : Heap) (bl : List (Nat × Nat × Bool)) : Prop :=
  ∃ es, Follows h.mem h.heap es h.heapEnd ∧
    bl = es.map fun e => (e, size h.mem e, !isFree h.mem e)

theorem freeAll_mono {fuel fuel' : Nat} (hle : fuel ≤ fuel') :
    ∀ {ps : List Nat} {h h' : Heap}, freeAll fuel ps h = some h' → freeAll fuel' ps h = some h'
  | [], _, _, hf => hf
  | p :: ps, h, h', hf => by
    cases hcall : free fuel h p with
    | none => simp [freeAll, hcall] at hf
    | some h₁ =>
      simp only [freeAll, hcall, free_mono hle hcall] at hf ⊢
      exact freeAll_mono hle hf

/-- Freeing a list of live pointers returns; what stays in use are the other
    blocks, unmoved. -/
theorem runInv_freeAll {r : HeapRegion} {fuel : Nat} :
    ∀ {ps : List Nat} {σ : HeapRun} {bs : List Block}, RunInv r σ bs → ps.Nodup →
      (∀ p ∈ ps, p ∈ σ.live) → r.maxSize ≤ fuel →
      ∃ h' live' bs', freeAll fuel ps σ.heap = some h' ∧ RunInv r ⟨h', live'⟩ bs' ∧
        bs'.filter Segment.used
          = (bs.filter Segment.used).filter (fun s => s.start + sizeof ∉ ps)
  | [], σ, bs, hinv, _, _, _ => by
    refine ⟨σ.heap, σ.live, bs, rfl, hinv, ?_⟩
    simp
  | p :: ps, σ, bs, hinv, hnd, hlive, hfuel => by
    have hlen : bs.length ≤ fuel := Nat.le_trans hinv.length_le hfuel
    obtain ⟨h₁, bs₁, hcall, hinv₁, hfil₁⟩ := runInv_free_total hinv (hlive p (by simp)) hlen
    have hp : p ∉ ps := (List.nodup_cons.mp hnd).1
    have hlive₁ : ∀ q ∈ ps, q ∈ σ.live.erase p := fun q hq =>
      (List.mem_erase_of_ne (by rintro rfl; exact hp hq)).mpr (hlive q (by simp [hq]))
    obtain ⟨h', live', bs', hrest, hinv', hfil'⟩ :=
      runInv_freeAll hinv₁ (List.nodup_cons.mp hnd).2 hlive₁ hfuel
    refine ⟨h', live', bs', ?_, hinv', ?_⟩
    · simp only [freeAll, hcall]
      exact hrest
    · rw [hfil', hfil₁, List.filter_filter]
      refine List.filter_congr fun s _ => ?_
      simp [Bool.and_comm]

theorem Repr.hasBlocks {h : Heap} {bs : List Block} (hr : Repr h bs) :
    HasBlocks h (bs.map fun s => (s.start, payload s, s.used)) := by
  refine ⟨_, follows_of_stored hr.shape.tiles hr.stored, ?_⟩
  rw [List.map_map]
  refine List.map_congr_left fun s hs => ?_
  simp [hr.stored.size_eq hr.shape hs, hr.stored.isFree_eq hs]

theorem hasBlocks_of_runInv {r : HeapRegion} {σ : HeapRun} {bs : List Block}
    (hinv : RunInv r σ bs) :
    HasBlocks σ.heap (bs.map fun s => (s.start, payload s, s.used)) :=
  hinv.repr.hasBlocks

theorem Follows.unique {m : Store} {b : Nat} :
    ∀ {a : Nat} {es es' : List Nat}, Follows m a es b → Follows m a es' b → es = es'
  | _, [], [], _, _ => rfl
  | _, [], _ :: _, h, h' => absurd h h'.2.1
  | _, _ :: _, [], h, h' => absurd h' h.2.1
  | a, e :: es, e' :: es', ⟨he, _, h⟩, ⟨he', _, h'⟩ => by
    rw [he, he', h.unique h']

/-- The memory of a heap determines its block list. -/
theorem HasBlocks.unique {h : Heap} {bl bl' : List (Nat × Nat × Bool)} (hb : HasBlocks h bl)
    (hb' : HasBlocks h bl') : bl = bl' := by
  obtain ⟨es, hes, rfl⟩ := hb
  obtain ⟨es', hes', rfl⟩ := hb'
  rw [hes.unique hes']

/-- Block lists of one region with the same used blocks are the same. -/
theorem RunInv.unique {r : HeapRegion} {σ σ' : HeapRun} {bs bs' : List Block}
    (h : RunInv r σ bs) (h' : RunInv r σ' bs')
    (hused : bs.filter Segment.used = bs'.filter Segment.used) : bs = bs' := by
  have ht := h.repr.shape.tiles
  have ht' := h'.repr.shape.tiles
  rw [h.heap_eq, h.heapEnd_eq] at ht
  rw [h'.heap_eq, h'.heapEnd_eq] at ht'
  exact merged_unique ht ht' h.merged h'.merged hused

/-- With nothing live, the heap is one free block again. -/
theorem RunInv.all_freed {r : HeapRegion} {σ : HeapRun} {bs : List Block} (h : RunInv r σ bs)
    (hlive : σ.live = []) : bs = [⟨r.basePtr, r.stop, false⟩] := by
  have ht := h.repr.shape.tiles
  rw [h.heap_eq, h.heapEnd_eq] at ht
  have hlt : r.basePtr < r.stop := by
    have := r.room
    simp only [HeapRegion.stop]
    omega
  have hnone : usedPtrs bs = [] := (hlive ▸ h.live).eq_nil
  refine merged_all_free hlt ht h.merged fun s hs => ?_
  by_contra hused
  have hmem : s.start + sizeof ∈ usedPtrs bs := mem_usedPtrs.mpr ⟨s, hs, by simpa using hused, rfl⟩
  rw [hnone] at hmem
  cases hmem

/-- **Order of frees**: any two orders of freeing a set of live allocations
    return and leave the same block list; and whenever everything has been
    freed, the block list is the one that `HeapInit` made. -/
theorem free_order_irrelevant (r : HeapRegion) (σ : HeapRun) (hr : r.Reachable σ) :
    (∀ ps qs : List Nat, ps.Nodup → (∀ p ∈ ps, p ∈ σ.live) → ps.Perm qs →
      (∃ fuel h₁ h₂, freeAll fuel ps σ.heap = some h₁ ∧ freeAll fuel qs σ.heap = some h₂) ∧
      ∀ fuel₁ fuel₂ h₁ h₂, freeAll fuel₁ ps σ.heap = some h₁ → freeAll fuel₂ qs σ.heap = some h₂ →
        ∃ bl, HasBlocks h₁ bl ∧ HasBlocks h₂ bl) ∧
    (σ.live = [] → ∀ mem, ∃ a n, HasBlocks σ.heap [(a, n, false)] ∧
      HasBlocks (heapInit mem r.basePtr r.maxSize) [(a, n, false)]) := by
  obtain ⟨bs, hinv⟩ := runInv_reachable hr
  refine ⟨fun ps qs hnd hlive hperm => ?_, fun hlive mem => ?_⟩
  · have hlive' : ∀ q ∈ qs, q ∈ σ.live := fun q hq => hlive q (hperm.mem_iff.mpr hq)
    have hrun : ∀ fuel, r.maxSize ≤ fuel → ∃ h₁ h₂ bl, freeAll fuel ps σ.heap = some h₁ ∧
        freeAll fuel qs σ.heap = some h₂ ∧ HasBlocks h₁ bl ∧ HasBlocks h₂ bl := by
      intro fuel hfuel
      obtain ⟨h₁, _, bs₁, hcall₁, hinv₁, hfil₁⟩ := runInv_freeAll hinv hnd hlive hfuel
      obtain ⟨h₂, _, bs₂, hcall₂, hinv₂, hfil₂⟩ :=
        runInv_freeAll hinv (hperm.nodup hnd) hlive' hfuel
      -- both heaps are merged and have the same used blocks
      have hsame : bs₁ = bs₂ := by
        refine hinv₁.unique hinv₂ (hfil₁.trans (Eq.trans ?_ hfil₂.symm))
        exact List.filter_congr fun s _ => by simp [hperm.mem_iff]
      exact ⟨h₁, h₂, _, hcall₁, hcall₂, hasBlocks_of_runInv hinv₁, hsame ▸ hasBlocks_of_runInv hinv₂⟩
    refine ⟨?_, fun fuel₁ fuel₂ h₁ h₂ hc₁ hc₂ => ?_⟩
    · obtain ⟨h₁, h₂, -, hcall₁, hcall₂, -⟩ := hrun r.maxSize (Nat.le_refl _)
      exact ⟨_, h₁, h₂, hcall₁, hcall₂⟩
    · obtain ⟨k₁, k₂, bl, hcall₁, hcall₂, hb₁, hb₂⟩ :=
        hrun (fuel₁ + fuel₂ + r.maxSize) (by omega)
      obtain rfl := Option.some.inj ((freeAll_mono (by omega) hc₁).symm.trans hcall₁)
      obtain rfl := Option.some.inj ((freeAll_mono (by omega) hc₂).symm.trans hcall₂)
      exact ⟨bl, hb₁, hb₂⟩
  · have hbs := hasBlocks_of_runInv hinv
    rw [hinv.all_freed hlive] at hbs
    exact ⟨_, _, hbs, hasBlocks_of_runInv (runInv_start r mem)⟩

/-- Two blocks of a 64 byte heap, freed in both orders. -/
theorem free_order_irrelevant_two :
    ∃ fuel, ∃ h h₁ h₂ : Heap, ∃ bl, freeAll fuel [4104, 4116] h = some h₁ ∧
      freeAll fuel [4116, 4104] h = some h₂ ∧ HasBlocks h₁ bl ∧ HasBlocks h₂ bl := by
  let r : HeapRegion := ⟨4096, 64, by decide, by decide, by decide⟩
  have hptr₁ : (malloc 2 (r.start fun _ => 0).heap 4).map Prod.fst = some 4104 := by decide
  have hptr₂ : ((malloc 2 (r.start fun _ => 0).heap 4).bind fun x => malloc 3 x.2 8).map Prod.fst
      = some 4116 := by decide
  obtain ⟨⟨p, h₁⟩, hcall₁, rfl⟩ := Option.map_eq_some_iff.mp hptr₁
  rw [hcall₁] at hptr₂
  obtain ⟨⟨p, h₂⟩, hcall₂, rfl⟩ := Option.map_eq_some_iff.mp hptr₂
  have hstep₁ : HeapStep (r.start fun _ => 0) ⟨h₁, [4104]⟩ := .malloc 2 4 hcall₁
  have hstep₂ : HeapStep ⟨h₁, [4104]⟩ ⟨h₂, [4116, 4104]⟩ := .malloc 3 8 hcall₂
  have hreach : r.Reachable ⟨h₂, [4116, 4104]⟩ := ⟨_, .tail (.single hstep₁) hstep₂⟩
  obtain ⟨⟨fuel, k₁, k₂, hf₁, hf₂⟩, hsame⟩ := (free_order_irrelevant r _ hreach).1
    [4104, 4116] [4116, 4104] (by decide) (by simp) (by decide)
  obtain ⟨bl, hb₁, hb₂⟩ := hsame fuel fuel k₁ k₂ hf₁ hf₂
  exact ⟨fuel, h₂, k₁, k₂, bl, hf₁, hf₂, hb₁, hb₂⟩

end Hausboot
