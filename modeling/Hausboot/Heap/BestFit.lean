import Hausboot.Heap.Safety
import Mathlib.Data.List.MinMax

/-! # The stage2 Heap: Which Block a Request Gets

    The search loop of `malloc` keeps a running minimum. On block lists it is
    the first minimum, by payload, of the free blocks that are large enough
    (`findFit_eq`), so that:

    * a request fails only if every free block is too small for it, and
      otherwise takes the best fit (`malloc_best_fit`),
    * the payload is as large as the request, unless the request was rounded
      up past the end of the 32 bit range (`malloc_payload_iff`). -/

open Tiling

namespace Hausboot

open HeapEntry

/-! ## Section 1: The best fit of a block list -/

/-- The blocks that a request may take. -/
def fits (count : Nat) (s : Block) : Bool := !s.used && decide (count ≤ payload s)

/-- The first of the smallest ones. -/
def bestFit (count : Nat) (bs : List Block) : Option Block :=
  (bs.filter (fits count)).argmin payload

/-- The entry as a pointer; there is none at address 0. -/
def entryPtr : Option Block → Nat
  | none => 0
  | some s => s.start

theorem fits_iff {count : Nat} {s : Block} :
    fits count s = true ↔ s.used = false ∧ count ≤ payload s := by
  simp [fits]

theorem bestFit_mem {count : Nat} {bs : List Block} {s : Block} (h : bestFit count bs = some s) :
    s ∈ bs ∧ fits count s = true :=
  List.mem_filter.mp (List.argmin_mem h)

theorem bestFit_eq_none {count : Nat} {bs : List Block} :
    bestFit count bs = none ↔ ∀ s ∈ bs, s.used = false → payload s < count := by
  rw [bestFit, List.argmin_eq_none, List.filter_eq_nil_iff]
  simp only [fits_iff, not_and, Nat.not_le]

/-- One more block: it is taken if it fits and is smaller than the best so far. -/
theorem bestFit_concat (count : Nat) (bs : List Block) (s : Block) :
    bestFit count (bs ++ [s]) =
      if fits count s ∧ ∀ t, bestFit count bs = some t → payload s < payload t then some s
      else bestFit count bs := by
  by_cases hfit : fits count s = true
  · simp only [bestFit, List.filter_append, List.filter_cons_of_pos hfit, List.filter_nil,
      List.argmin_concat, hfit, true_and]
    cases List.argmin payload (bs.filter (fits count)) with
    | none => simp
    | some t => simp
  · rw [if_neg (fun h => hfit h.1)]
    simp only [bestFit, List.filter_append, List.filter_cons_of_neg hfit, List.filter_nil,
      List.append_nil]

/-- Among the fitting blocks it has the smallest payload, and among those the
    lowest address. -/
theorem bestFit_le {count : Nat} {bs : List Block} {s t : Block}
    (hsorted : bs.Pairwise fun s t => s.start ≤ t.start) (h : bestFit count bs = some s)
    (ht : t ∈ bs) (hfit : fits count t = true) :
    payload s < payload t ∨ payload s = payload t ∧ s.start ≤ t.start := by
  -- from the front, as the loop goes
  induction bs using List.reverseRecOn generalizing s with
  | nil => cases ht
  | append_singleton bs x ih =>
    obtain ⟨hbefore, -, hlast⟩ := List.pairwise_append.mp hsorted
    rw [bestFit_concat] at h
    split at h
    · next hpick =>
      obtain rfl := Option.some.inj h
      rcases List.mem_append.mp ht with ht | ht
      · -- what was best before the last block is larger than it
        cases hprev : bestFit count bs with
        | none =>
          rw [bestFit_eq_none] at hprev
          rw [fits_iff] at hfit
          have hsmall := hprev t ht hfit.1
          have hlarge := hfit.2
          omega
        | some u =>
          have hlt := hpick.2 u hprev
          have hle := ih hbefore hprev ht
          omega
      · obtain rfl := List.mem_singleton.mp ht
        exact .inr ⟨rfl, Nat.le_refl _⟩
    · next hkeep =>
      rcases List.mem_append.mp ht with ht | ht
      · exact ih hbefore h ht
      · obtain rfl := List.mem_singleton.mp ht
        have hmem := (bestFit_mem h).1
        have hstart := hlast s hmem t (List.mem_singleton.mpr rfl)
        -- the last block was not smaller than the best before it
        have hle : payload s ≤ payload t := by
          by_contra hlt
          apply hkeep
          refine ⟨hfit, ?_⟩
          intro u hu
          rw [h] at hu
          obtain rfl := Option.some.inj hu
          omega
        omega

/-! ## Section 2: The search loop keeps it -/

theorem entryPtr_eq_zero {a b count : Nat} {bs : List Block} (hs : Shape a b bs) (hpos : 0 < a) :
    entryPtr (bestFit count bs) = 0 ↔ bestFit count bs = none := by
  cases hbest : bestFit count bs with
  | none => simp [entryPtr]
  | some s =>
    have hle := (hs.tiles.bounds s (bestFit_mem hbest).1).1
    have hne : s.start ≠ 0 := by omega
    simp [entryPtr, hne]

/-- The body of the loop, at the block behind the ones it has seen. -/
theorem betterFit_eq {a b count : Nat} {m : Store} {l₁ l₂ : List Block} {s : Block}
    (hs : Shape a b (l₁ ++ s :: l₂)) (hm : Stored m (l₁ ++ s :: l₂)) (hpos : 0 < a) :
    betterFit m count s.start (entryPtr (bestFit count l₁))
      = entryPtr (bestFit count (l₁ ++ [s])) := by
  have hmem : s ∈ l₁ ++ s :: l₂ := by simp
  have hfit : (isFree m s.start && decide (count ≤ size m s.start)) = fits count s := by
    rw [hm.isFree_eq hmem, hm.size_eq hs hmem, fits]
  rw [betterFit, hfit, bestFit_concat]
  cases hbest : bestFit count l₁ with
  | none =>
    -- a null `found` takes the first block that fits
    by_cases hs : fits count s = true
    · simp [entryPtr, hs]
    · simp [entryPtr, hs]
  | some t =>
    have ht : t ∈ l₁ ++ s :: l₂ := by simp [(bestFit_mem hbest).1]
    have hne : t.start ≠ 0 := by
      have hle := (hs.tiles.bounds t ht).1
      omega
    have hsizes : size m s.start = payload s ∧ size m t.start = payload t :=
      ⟨hm.size_eq hs hmem, hm.size_eq hs ht⟩
    simp only [entryPtr, hne, hsizes, decide_false, Bool.false_or, Bool.and_eq_true,
      decide_eq_true_eq, Option.some.injEq, forall_eq']
    split <;> rfl

/-- The loop returns the best fit of the whole list. -/
theorem findFit_eq {a b count : Nat} {m : Store} (hpos : 0 < a) :
    ∀ (l₂ l₁ : List Block) (c fuel : Nat), Shape a b (l₁ ++ l₂) → Stored m (l₁ ++ l₂) →
      Tiles c l₂ b → l₂.length < fuel →
      findFit fuel m b count c (entryPtr (bestFit count l₁))
        = some (entryPtr (bestFit count (l₁ ++ l₂)))
  | [], l₁, c, fuel + 1, _, _, htiles, _ => by
    have hend : c = b := htiles
    rw [findFit, if_pos hend, List.append_nil]
  | s :: l₂, l₁, c, fuel + 1, hs, hm, htiles, hfuel => by
    obtain ⟨hc, hlt, hrest⟩ := htiles
    have hne : c ≠ b := Nat.ne_of_lt (Nat.lt_of_lt_of_le hlt hrest.le)
    have hnext : next m c = s.stop := hc ▸ (hm s (by simp)).1
    have hbody : betterFit m count c (entryPtr (bestFit count l₁))
        = entryPtr (bestFit count (l₁ ++ [s])) := hc ▸ betterFit_eq hs hm hpos
    have hassoc : l₁ ++ s :: l₂ = (l₁ ++ [s]) ++ l₂ := by simp
    rw [findFit, if_neg hne, hnext, hbody, hassoc]
    rw [hassoc] at hs hm
    exact findFit_eq hpos l₂ (l₁ ++ [s]) s.stop fuel hs hm hrest (by simpa using hfuel)

theorem malloc_eq {h : Heap} {bs : List Block} (hr : Repr h bs) (hpos : 0 < h.heap) {fuel : Nat}
    (hfuel : bs.length < fuel) (count : UInt32) :
    (bestFit (roundCount count.toNat) bs = none ∧ malloc fuel h count = some (0, h)) ∨
    ∃ l₁ s l₂ mem', bs = l₁ ++ s :: l₂ ∧ bestFit (roundCount count.toNat) bs = some s ∧
      malloc fuel h count = some (s.start + sizeof, { h with mem := mem' }) ∧
      Repr { h with mem := mem' } (l₁ ++ carve s (roundCount count.toNat) ++ l₂) ∧
      ∀ i, i < s.start ∨ s.stop ≤ i → mem' i = h.mem i := by
  -- the loop starts with a null pointer and no block seen
  have hfind : findFit fuel h.mem h.heapEnd (roundCount count.toNat) h.heap 0
      = some (entryPtr (bestFit (roundCount count.toNat) bs)) :=
    findFit_eq hpos bs [] h.heap fuel hr.shape hr.stored hr.shape.tiles hfuel
  cases hbest : bestFit (roundCount count.toNat) bs with
  | none =>
    left
    rw [hbest] at hfind
    exact ⟨rfl, by simp [malloc, hfind, entryPtr]⟩
  | some s =>
    right
    obtain ⟨hmem, hfit⟩ := bestFit_mem hbest
    rw [fits_iff] at hfit
    obtain ⟨hfree, hle⟩ := hfit
    have hne : entryPtr (some s) ≠ 0 := by
      rw [← hbest, Ne, entryPtr_eq_zero hr.shape hpos, hbest]
      simp
    obtain ⟨l₁, l₂, rfl⟩ := List.append_of_mem hmem
    obtain ⟨m', hres, hst, hframe⟩ := reserve_spec hr.shape hr.stored hfree hle
    refine ⟨l₁, s, l₂, m', rfl, rfl, ?_, ⟨hr.shape.carve (roundCount_mod _), hst⟩, hframe⟩
    rw [hbest] at hfind
    simp only [entryPtr] at hne hfind
    simp [malloc, hfind, hne, hres]

/-! ## Section 3: Best fit, as the walk along the list shows it -/

/-- The free entry at `a` with payload `n` is the best fit: no free entry that
    is large enough is smaller, and none of the same size stands before it. -/
def IsBestFit (bl : List (Nat × Nat × Bool)) (count a n : Nat) : Prop :=
  (a, n, false) ∈ bl ∧ count ≤ n ∧
    ∀ a' n', (a', n', false) ∈ bl → count ≤ n' → n < n' ∨ n = n' ∧ a ≤ a'

/-- What becomes of the free entry: its first bytes are reserved, and what is
    left is a free entry, if it has at least 12 bytes. -/
def takeFrom (a n count : Nat) : List (Nat × Nat × Bool) :=
  if 12 ≤ n - count then [(a, count, true), (a + 8 + count, n - count - 8, false)]
  else [(a, n, true)]

/-- A block as the walk shows it. -/
def entryOf (s : Block) : Nat × Nat × Bool := (s.start, payload s, s.used)

theorem map_entryOf_carve (s : Block) (count : Nat) :
    (carve s count).map entryOf = takeFrom s.start (payload s) count := by
  by_cases hrest : 12 ≤ payload s - count
  · rw [carve_of_room hrest, takeFrom, if_pos hrest]
    have hused : payload ⟨s.start, s.start + 8 + count, true⟩ = count := by
      simp only [payload, sizeof]
      omega
    have hfree : payload ⟨s.start + 8 + count, s.stop, false⟩ = payload s - count - 8 := by
      simp only [payload, sizeof]
      omega
    simp [entryOf, hused, hfree]
  · rw [carve_of_tight hrest, takeFrom, if_neg hrest]
    simp [entryOf, payload]

theorem mem_map_entryOf {bs : List Block} {a n : Nat} {u : Bool} :
    (a, n, u) ∈ bs.map entryOf ↔ ∃ s ∈ bs, s.start = a ∧ payload s = n ∧ s.used = u := by
  simp [entryOf]

theorem sorted_of_tiles {a b : Nat} {bs : List Block} (h : Tiles a bs b) :
    bs.Pairwise fun s t => s.start ≤ t.start := by
  refine h.pairwise.imp_of_mem ?_
  intro s t hs _ hst
  have hlt := (h.bounds s hs).2.1
  omega

theorem isBestFit_of_bestFit {a b count : Nat} {bs : List Block} {s : Block} (hs : Shape a b bs)
    (h : bestFit count bs = some s) : IsBestFit (bs.map entryOf) count s.start (payload s) := by
  obtain ⟨hmem, hfit⟩ := bestFit_mem h
  rw [fits_iff] at hfit
  obtain ⟨hfree, hle⟩ := hfit
  refine ⟨?_, hle, ?_⟩
  · rw [mem_map_entryOf]
    exact ⟨s, hmem, rfl, rfl, hfree⟩
  · intro a' n' hmem' hle'
    rw [mem_map_entryOf] at hmem'
    obtain ⟨t, ht, rfl, rfl, hfree'⟩ := hmem'
    apply bestFit_le (sorted_of_tiles hs.tiles) h ht
    rw [fits_iff]
    exact ⟨hfree', hle'⟩

/-- **Best fit**: a request fails only if every free block is too small for it.
    Otherwise it takes the lowest of the smallest blocks that are large enough,
    leaves a free rest of at least 12 bytes, and nothing else changes. -/
theorem malloc_best_fit (r : HeapRegion) (σ : HeapRun) (hr : r.Reachable σ) (hpos : 0 < r.basePtr)
    (count : UInt32) (bl : List (Nat × Nat × Bool)) (hbl : HasBlocks σ.heap bl) :
    (∃ fuel res, malloc fuel σ.heap count = some res) ∧
    ∀ fuel p h', malloc fuel σ.heap count = some (p, h') →
      (p = 0 ↔ ∀ a n, (a, n, false) ∈ bl → n < roundCount count.toNat) ∧
      (p = 0 → h' = σ.heap) ∧
      (p ≠ 0 → ∃ bl₁ a n bl₂, bl = bl₁ ++ (a, n, false) :: bl₂ ∧
        IsBestFit bl (roundCount count.toNat) a n ∧ p = a + sizeof ∧
        HasBlocks h' (bl₁ ++ takeFrom a n (roundCount count.toNat) ++ bl₂) ∧
        ∀ i, i < a ∨ a + sizeof + n ≤ i → h'.mem i = σ.heap.mem i) := by
  refine ⟨(heap_invariant r σ hr).2.1 count, ?_⟩
  intro fuel p h' hcall
  obtain ⟨bs, hinv⟩ := runInv_reachable hr
  obtain rfl : bl = bs.map entryOf := hbl.unique hinv.repr.hasBlocks
  have hheap : 0 < σ.heap.heap := hinv.heap_eq ▸ hpos
  have hbig := malloc_mono (Nat.le_add_right fuel (bs.length + 1)) hcall
  rcases malloc_eq hinv.repr hheap (show bs.length < fuel + (bs.length + 1) by omega) count with
    ⟨hbest, hnull⟩ | ⟨l₁, s, l₂, m', hbs, hbest, hres, hrepr, hframe⟩
  · rw [hnull] at hbig
    obtain ⟨rfl, rfl⟩ := Prod.mk.inj (Option.some.inj hbig)
    have hsmall : ∀ a n, (a, n, false) ∈ bs.map entryOf → n < roundCount count.toNat := by
      intro a n hmem
      rw [mem_map_entryOf] at hmem
      obtain ⟨s, hs, rfl, rfl, hfree⟩ := hmem
      rw [bestFit_eq_none] at hbest
      exact hbest s hs hfree
    exact ⟨by simpa using hsmall, fun _ => rfl, fun h0 => absurd rfl h0⟩
  · rw [hres] at hbig
    obtain ⟨rfl, rfl⟩ := Prod.mk.inj (Option.some.inj hbig)
    have hfits := isBestFit_of_bestFit hinv.repr.shape hbest
    have hne : s.start + sizeof ≠ 0 := Nat.succ_ne_zero _
    refine ⟨⟨fun h0 => absurd h0 hne, ?_⟩, fun h0 => absurd h0 hne, ?_⟩
    · -- the block that was taken is large enough
      intro hsmall
      have hlt := hsmall s.start (payload s) hfits.1
      have hle := hfits.2.1
      omega
    · intro _
      have hroom : s.start + 8 ≤ s.stop := hinv.repr.shape.room s (bestFit_mem hbest).1
      obtain ⟨-, hfit⟩ := bestFit_mem hbest
      rw [fits_iff] at hfit
      have hfree := hfit.1
      have hblocks : HasBlocks _ ((l₁ ++ carve s (roundCount count.toNat) ++ l₂).map entryOf) :=
        hrepr.hasBlocks
      rw [List.map_append, List.map_append, map_entryOf_carve] at hblocks
      refine ⟨l₁.map entryOf, s.start, payload s, l₂.map entryOf, ?_, hfits, rfl, hblocks, ?_⟩
      · rw [hbs, List.map_append, List.map_cons, entryOf, hfree]
      · intro i hi
        simp only [payload, sizeof] at hi
        exact hframe i (by omega)

/-- A request for 5 bytes in an empty heap of 64 bytes takes 8 of them. -/
theorem malloc_best_fit_first :
    ∃ bl h' fuel, malloc fuel (heapInit (fun _ => 0) 4096 64) 5 = some (4104, h') ∧
      IsBestFit bl 8 4096 56 ∧ HasBlocks h' (takeFrom 4096 56 8) := by
  let r : HeapRegion := ⟨4096, 64, by decide, by decide, by decide⟩
  have hreach : r.Reachable (r.start fun _ => 0) := ⟨_, .refl⟩
  have hblocks := hasBlocks_of_runInv (runInv_start r fun _ => 0)
  have hpayload : payload ⟨r.basePtr, r.stop, false⟩ = 56 := by decide
  rw [List.map_singleton, hpayload] at hblocks
  have hround : roundCount (5 : UInt32).toNat = 8 := by decide
  obtain ⟨⟨fuel, ⟨p, h'⟩, hcall⟩, hspec⟩ :=
    malloc_best_fit r _ hreach (by decide) 5 _ hblocks
  obtain ⟨hnull, -, htake⟩ := hspec fuel p h' hcall
  rw [hround] at hnull htake
  have hp : p ≠ 0 := by
    intro h0
    have hsmall := hnull.mp h0 4096 56 List.mem_cons_self
    exact absurd hsmall (by decide)
  obtain ⟨bl₁, a, n, bl₂, hbl, hfit, rfl, hb, -⟩ := htake hp
  -- there is only one block to take
  cases bl₁ with
  | nil =>
    obtain ⟨hhead, rfl⟩ := List.cons.inj hbl
    obtain ⟨rfl, hn⟩ := Prod.mk.inj hhead
    obtain ⟨rfl, -⟩ := Prod.mk.inj hn
    exact ⟨_, h', fuel, hcall, hfit, by simpa using hb⟩
  | cons x bl₁ => simp at hbl

/-! ## Section 4: Is the payload as large as the request? -/

/-- Whatever a call returns, the block behind it has the requested bytes. -/
def Granted (h : Heap) (count : UInt32) : Prop :=
  ∀ fuel p h', malloc fuel h count = some (p, h') → p ≠ 0 →
    count.toNat ≤ size h'.mem (p - sizeof)

/-- The three counts whose rounding leaves the 32 bit range. -/
theorem roundCount_eq_zero {count : UInt32} (h : 2 ^ 32 - 4 < count.toNat) :
    roundCount count.toNat = 0 := by
  have hlt : count.toNat < 2 ^ 32 := count.toNat_lt
  have hmod : count.toNat % 4 ≠ 0 := by omega
  rw [roundCount, if_pos hmod, u32]
  omega

theorem le_roundCount {count : Nat} (h : count ≤ 2 ^ 32 - 4) : count ≤ roundCount count := by
  unfold roundCount
  split
  · rw [u32_of_lt (by omega)]
    omega
  · exact Nat.le_refl _

/-- A request that was rounded to 0 gets the first of the smallest blocks, and
    less than 12 bytes of it. -/
theorem size_of_empty_request {h : Heap} {bs : List Block} (hr : Repr h bs) (hpos : 0 < h.heap)
    {count : UInt32} (hzero : roundCount count.toNat = 0) {s : Block} (hs : s ∈ bs)
    (hfree : s.used = false) :
    ∃ fuel p h', malloc fuel h count = some (p, h') ∧ p ≠ 0 ∧ size h'.mem (p - sizeof) < 12 := by
  rcases malloc_eq hr hpos (Nat.lt_succ_self _) count with
    ⟨hbest, -⟩ | ⟨l₁, t, l₂, m', -, -, hres, hrepr, -⟩
  · -- every free block is large enough for nothing
    rw [bestFit_eq_none] at hbest
    have hlt := hbest s hs hfree
    omega
  · refine ⟨_, _, _, hres, Nat.succ_ne_zero _, ?_⟩
    rw [Nat.add_sub_cancel]
    rw [hzero] at hrepr
    by_cases hrest : 8 + 4 ≤ payload t - 0
    · rw [carve_of_room hrest] at hrepr
      have hsize := hrepr.stored.size_eq hrepr.shape
        (show (⟨t.start, t.start + 8 + 0, true⟩ : Block) ∈ _ by simp)
      have hnone : payload ⟨t.start, t.start + 8 + 0, true⟩ = 0 := by
        simp only [payload, sizeof]
        omega
      dsimp only at hsize
      rw [hsize, hnone]
      omega
    · rw [carve_of_tight hrest] at hrepr
      have hsize := hrepr.stored.size_eq hrepr.shape
        (show ({ t with used := true } : Block) ∈ _ by simp)
      dsimp only at hsize
      rw [hsize, show payload { t with used := true } = payload t from rfl]
      omega

/-- **What a request gets**: as many bytes as it asked for, unless it asked for
    one of the last three counts of the 32 bit range and there is a free block. -/
theorem malloc_payload_iff (r : HeapRegion) (σ : HeapRun) (hr : r.Reachable σ)
    (hpos : 0 < r.basePtr) (count : UInt32) :
    Granted σ.heap count ↔
      count.toNat ≤ 2 ^ 32 - 4 ∨ ∀ bl, HasBlocks σ.heap bl → ∀ a n, (a, n, false) ∉ bl := by
  obtain ⟨bs, hinv⟩ := runInv_reachable hr
  have hheap : 0 < σ.heap.heap := hinv.heap_eq ▸ hpos
  constructor
  · intro hgranted
    by_contra hnot
    obtain ⟨hlarge, hsome⟩ := not_or.mp hnot
    apply hsome
    intro bl hbl a n hmem
    obtain rfl : bl = bs.map entryOf := hbl.unique hinv.repr.hasBlocks
    rw [mem_map_entryOf] at hmem
    obtain ⟨s, hs, -, -, hfree⟩ := hmem
    obtain ⟨fuel, p, h', hcall, hp, hsize⟩ := size_of_empty_request hinv.repr hheap
      (roundCount_eq_zero (Nat.lt_of_not_le hlarge)) hs hfree
    have hle := hgranted fuel p h' hcall hp
    omega
  · intro hcond fuel p h' hcall hp
    rcases malloc_cases hinv hcall with ⟨h0, -⟩ | ⟨-, bs', hinv', -, t, ht, -, -, rfl, hend⟩
    · exact absurd h0 hp
    · rcases hcond with hsmall | hfull
      · have hround := le_roundCount hsmall
        have hsize := hinv'.repr.stored.size_eq hinv'.repr.shape ht
        rw [Nat.add_sub_cancel, hsize, payload]
        omega
      · -- no free block, so nothing to return
        rcases malloc_carves hinv hcall with ⟨h0, -⟩ | ⟨l₁, s, l₂, rfl, hfree, -⟩
        · exact absurd h0 hp
        · have hnone := hfull _ hinv.repr.hasBlocks s.start (payload s)
          exact absurd (mem_map_entryOf.mpr ⟨s, by simp, rfl, rfl, hfree⟩) hnone

/-- The heap of 64 bytes, and a request of 16 bytes. -/
theorem malloc_payload_iff_small :
    Granted (heapInit (fun _ => 0) 4096 64) 16 := by
  let r : HeapRegion := ⟨4096, 64, by decide, by decide, by decide⟩
  have hreach : r.Reachable (r.start fun _ => 0) := ⟨_, .refl⟩
  exact (malloc_payload_iff r _ hreach (by decide) 16).mpr (.inl (by decide))

/-- In the same heap, a request of 2^32 - 3 bytes gets a block without payload. -/
theorem malloc_payload_none :
    ¬ ∀ (r : HeapRegion) (σ : HeapRun), r.Reachable σ → 0 < r.basePtr →
      ∀ count, Granted σ.heap count := by
  intro h
  let r : HeapRegion := ⟨4096, 64, by decide, by decide, by decide⟩
  have hreach : r.Reachable (r.start fun _ => 0) := ⟨_, .refl⟩
  have hptr : (malloc 2 (r.start fun _ => 0).heap 0xFFFFFFFD).map
      (fun x => (x.1, size x.2.mem 4096)) = some (4104, 0) := by decide
  obtain ⟨⟨p, h'⟩, hcall, heq⟩ := Option.map_eq_some_iff.mp hptr
  obtain ⟨rfl, hsize⟩ := Prod.mk.inj heq
  have hle := h r _ hreach (by decide) 0xFFFFFFFD 2 _ h' hcall (by decide)
  simp only [sizeof, Nat.reduceSub, hsize] at hle
  exact absurd hle (by decide)

end Hausboot
