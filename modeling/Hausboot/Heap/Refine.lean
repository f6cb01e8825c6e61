import Hausboot.Heap.Blocks

/-! # The stage2 Heap: malloc and free on Block Lists

    Each call of the code model refines an operation on the block list:

    * `malloc_spec`: the call either changes nothing and returns null, or it
      carves the payload out of one free block,
    * `free_spec`: the block behind the pointer is released, then neighbours
      are joined until the list is merged; used blocks stay as they are.

    Both also say that the loops end, given fuel for each block. -/

open Tiling

namespace Hausboot

open HeapEntry

/-! ## Section 1: Reserve and the search loop -/

/-- What `Reserve` makes of a free block: the used part, and the remainder
    when there is room for another header and four bytes. -/
def carve (s : Block) (count : Nat) : List Block :=
  if sizeof + 4 ≤ payload s - count then
    [⟨s.start, s.start + sizeof + count, true⟩, ⟨s.start + sizeof + count, s.stop, false⟩]
  else [{ s with used := true }]

theorem carve_of_room {s : Block} {count : Nat} (h : 8 + 4 ≤ payload s - count) :
    carve s count = [⟨s.start, s.start + 8 + count, true⟩, ⟨s.start + 8 + count, s.stop, false⟩] :=
  if_pos h

theorem carve_of_tight {s : Block} {count : Nat} (h : ¬ 8 + 4 ≤ payload s - count) :
    carve s count = [{ s with used := true }] :=
  if_neg h

theorem Shape.carve {a b count : Nat} {l₁ l₂ : List Block} {s : Block}
    (h : Shape a b (l₁ ++ s :: l₂)) (h4 : count % 4 = 0) :
    Shape a b (l₁ ++ carve s count ++ l₂) := by
  have hal := h.aligned s (by simp)
  unfold Hausboot.carve
  split
  · next hbig =>
    simp only [payload, sizeof] at hbig
    simpa using h.split (c := s.start + sizeof + count) (u := true) (v := false)
      (by simp only [sizeof]; omega) (by omega) (by simp only [sizeof]; omega)
  · simpa using h.retag true

theorem reserve_spec {a b count : Nat} {l₁ l₂ : List Block} {s : Block} {m : Store}
    (hs : Shape a b (l₁ ++ s :: l₂)) (hm : Stored m (l₁ ++ s :: l₂)) (hfree : s.used = false)
    (hc : count ≤ payload s) :
    ∃ m', reserve m s.start count = (s.start + sizeof, m') ∧
      Stored m' (l₁ ++ carve s count ++ l₂) ∧
      ∀ i, i < s.start ∨ s.stop ≤ i → m' i = m i := by
  have hmem : s ∈ l₁ ++ s :: l₂ := by simp
  have hroom : s.start + 8 ≤ s.stop := hs.room s hmem
  have hlt := hs.stop_le hmem
  have hhdr := hm s hmem
  have hptr : dataPtr s.start = s.start + 8 := u32_of_lt (by simp only [sizeof]; omega)
  have hent : u32 (s.start + 8 + count) = s.start + 8 + count := by
    apply u32_of_lt
    simp only [payload, sizeof] at hc
    omega
  have hflag : FlagField.set (flags m s.start) reserved = 1 := by
    rw [hhdr.2, hfree]
    rfl
  simp only [reserve, hm.size_eq hs hmem, hm.isFree_eq hmem, hfree, Bool.not_false, Bool.not_true,
    Bool.false_or, decide_eq_true_eq, if_neg (Nat.not_lt.mpr hc), hptr, sizeof, hhdr.1, hent]
  by_cases hbig : 8 + 4 ≤ payload s - count
  · -- the new header lies inside the payload, behind the requested bytes
    simp only [if_pos hbig, carve_of_room hbig]
    have hin : s.start + 8 + count + 8 ≤ s.stop := by
      simp only [payload, sizeof] at hbig
      omega
    have hentry := init_header m (s.start + 8 + count) hlt
    have hflags : flags (setNext (init m (s.start + 8 + count) s.stop) s.start
        (s.start + 8 + count)) s.start = flags m s.start := by
      rw [flags_setNext]
      exact (header_congr _ _ _ fun i h1 h2 =>
        init_outside (by simp only [sizeof] at *; omega)).2
    have hout : ∀ i, i < s.start ∨ s.start + 8 ≤ i → ∀ f,
        setFlags (setNext (init m (s.start + 8 + count) s.stop) s.start
          (s.start + 8 + count)) s.start f i = init m (s.start + 8 + count) s.stop i := by
      intro i hi f
      rw [setFlags_outside hi, setNext_outside hi]
    have houtside : ∀ i, i < s.start ∨ s.stop ≤ i → ∀ f,
        setFlags (setNext (init m (s.start + 8 + count) s.stop) s.start
          (s.start + 8 + count)) s.start f i = m i := by
      intro i hi f
      rw [hout i (by omega), init_outside (by simp only [sizeof]; omega)]
    refine ⟨_, rfl, ?_, fun i hi => houtside i hi _⟩
    obtain ⟨h1, h2⟩ := hm.change_inside hs _ (fun i hi => houtside i hi _)
    rw [hflags, hflag]
    refine stored_append.mpr ⟨stored_append.mpr ⟨h1, ?_⟩, h2⟩
    refine stored_cons.mpr ⟨⟨?_, ?_⟩, stored_cons.mpr ⟨?_, stored_nil _⟩⟩
    · rw [next_setFlags, next_setNext _ _ (by omega)]
    · rw [flags_setFlags _ _ (by decide)]
      rfl
    · have hkeep := header_congr (init m (s.start + 8 + count) s.stop)
        (setFlags (setNext (init m (s.start + 8 + count) s.stop) s.start (s.start + 8 + count))
          s.start 1) (s.start + 8 + count) (fun i h1 h2 => hout i (by omega) _)
      rw [hkeep.1, hkeep.2]
      exact hentry
  · simp only [if_neg hbig, carve_of_tight hbig, hflag]
    refine ⟨_, rfl, ?_, fun i hi => setFlags_outside (by simp only [sizeof]; omega)⟩
    obtain ⟨h1, h2⟩ := hm.change_inside hs (setFlags m s.start 1)
      (fun i hi => setFlags_outside (by simp only [sizeof]; omega))
    refine stored_append.mpr ⟨stored_append.mpr ⟨h1, ?_⟩, h2⟩
    refine stored_cons.mpr ⟨⟨?_, ?_⟩, stored_nil _⟩
    · rw [next_setFlags, hhdr.1]
    · rw [flags_setFlags _ _ (by decide)]
      rfl

/-- The search ends at the last block, and what it returns is either the
    candidate it started from or a free block that is large enough. -/
theorem findFit_spec (count : Nat) {a b : Nat} {m : Store} :
    ∀ {bs : List Block} (fuel found : Nat), Shape a b bs → Stored m bs → bs.length < fuel →
      ∃ r, findFit fuel m b count a found = some r ∧
        (r = found ∨ ∃ s ∈ bs, s.used = false ∧ count ≤ payload s ∧ r = s.start)
  | [], fuel + 1, found, hs, _, _ => by
    have hab : a = b := hs.tiles
    exact ⟨found, by simp [findFit, hab], .inl rfl⟩
  | s :: bs, fuel + 1, found, hs, hm, hfuel => by
    obtain ⟨hsa, hlt, htl⟩ := hs.tiles
    have hne : a ≠ b := Nat.ne_of_lt (Nat.lt_of_lt_of_le hlt htl.le)
    have hmem : s ∈ s :: bs := by simp
    have hnext : next m a = s.stop := hsa ▸ (hm s hmem).1
    have hsize : size m a = payload s := hsa ▸ hm.size_eq hs hmem
    have hfree : isFree m a = !s.used := hsa ▸ hm.isFree_eq hmem
    have hs' : Shape s.stop b bs :=
      ⟨htl, fun t ht => hs.aligned t (by simp [ht]), fun t ht => hs.room t (by simp [ht]), hs.fits⟩
    obtain ⟨r, hr, hcase⟩ := findFit_spec count fuel (betterFit m count a found)
      hs' (stored_cons.mp hm).2 (by simpa using hfuel)
    refine ⟨r, by rw [findFit, if_neg hne, hnext, hr], ?_⟩
    -- the answer is this block, an earlier one, or a later one
    rcases hcase with rfl | ⟨t, ht, h1, h2, h3⟩
    · unfold betterFit
      split
      · next hpick =>
        simp only [hfree, hsize, Bool.and_eq_true, Bool.not_eq_true', decide_eq_true_eq] at hpick
        exact .inr ⟨s, hmem, hpick.1.1, hpick.1.2, hsa.symm⟩
      · exact .inl rfl
    · exact .inr ⟨t, by simp [ht], h1, h2, h3⟩

/-- It does not miss a block that is large enough. -/
theorem findFit_ne_zero (count : Nat) {a b : Nat} {m : Store} :
    ∀ {bs : List Block} (fuel found : Nat), Shape a b bs → Stored m bs → 0 < a →
      (found ≠ 0 ∨ ∃ s ∈ bs, s.used = false ∧ count ≤ payload s) →
      findFit fuel m b count a found ≠ some 0
  | _, 0, found, _, _, _, _ => by
    intro h
    cases h
  | [], fuel + 1, found, hs, _, _, hfound => by
    have hab : a = b := hs.tiles
    have hne : found ≠ 0 := by
      rcases hfound with hne | ⟨s, hs, -⟩
      · exact hne
      · cases hs
    rw [findFit, if_pos hab]
    intro h
    exact hne (Option.some.inj h)
  | s :: bs, fuel + 1, found, hs, hm, hpos, hfound => by
    obtain ⟨hsa, hlt, htl⟩ := hs.tiles
    have hne : a ≠ b := Nat.ne_of_lt (Nat.lt_of_lt_of_le hlt htl.le)
    have hmem : s ∈ s :: bs := by simp
    have hnext : next m a = s.stop := hsa ▸ (hm s hmem).1
    have hsize : size m a = payload s := hsa ▸ hm.size_eq hs hmem
    have hfree : isFree m a = !s.used := hsa ▸ hm.isFree_eq hmem
    have hs' : Shape s.stop b bs :=
      ⟨htl, fun t ht => hs.aligned t (by simp [ht]), fun t ht => hs.room t (by simp [ht]), hs.fits⟩
    rw [findFit, if_neg hne, hnext]
    apply findFit_ne_zero count fuel _ hs' (stored_cons.mp hm).2 (by omega)
    by_cases hfit : s.used = false ∧ count ≤ payload s
    · -- from here on there is a candidate
      left
      unfold betterFit
      split
      · omega
      · next hpick =>
        simp only [hfree, hsize, hfit.1, Bool.not_false, Bool.true_and, Bool.and_eq_true,
          decide_eq_true_eq, hfit.2, true_and, Bool.or_eq_true, not_or] at hpick
        exact hpick.1
    · rcases hfound with hfound | ⟨t, ht, hfree', hle⟩
      · left
        unfold betterFit
        split
        · omega
        · exact hfound
      · rcases List.mem_cons.mp ht with rfl | ht
        · exact absurd ⟨hfree', hle⟩ hfit
        · exact .inr ⟨t, ht, hfree', hle⟩

theorem roundCount_mod (count : Nat) : roundCount count % 4 = 0 := by
  unfold roundCount
  split
  · simp only [u32]; omega
  · omega

/-- **malloc** on block lists. It returns null only if no free block is large
    enough. -/
theorem malloc_spec {h : Heap} {bs : List Block} (hr : Repr h bs) {fuel : Nat}
    (hfuel : bs.length < fuel) (count : UInt32) :
    (malloc fuel h count = some (0, h) ∧ (0 < h.heap →
      ∀ s ∈ bs, s.used = false → payload s < roundCount count.toNat)) ∨
    ∃ l₁ s l₂ mem', bs = l₁ ++ s :: l₂ ∧ s.used = false ∧ roundCount count.toNat ≤ payload s ∧
      malloc fuel h count = some (s.start + sizeof, { h with mem := mem' }) ∧
      Repr { h with mem := mem' } (l₁ ++ carve s (roundCount count.toNat) ++ l₂) ∧
      ∀ i, i < s.start ∨ s.stop ≤ i → mem' i = h.mem i := by
  obtain ⟨r, hfind, hcase⟩ :=
    findFit_spec (roundCount count.toNat) fuel 0 hr.shape hr.stored hfuel
  -- the null pointer stands for no fit; a payload lies behind its header
  by_cases h0 : r = 0
  · left
    refine ⟨by simp [malloc, hfind, h0], ?_⟩
    intro hpos s hs hfree
    by_contra hle
    apply findFit_ne_zero _ fuel 0 hr.shape hr.stored hpos
      (.inr ⟨s, hs, hfree, Nat.le_of_not_lt hle⟩)
    rw [hfind, h0]
  · right
    rcases hcase with hr0 | ⟨s, hmem, hfree, hle, rfl⟩
    · exact absurd hr0 h0
    obtain ⟨l₁, l₂, rfl⟩ := List.append_of_mem hmem
    obtain ⟨m', hres, hst, hframe⟩ := reserve_spec hr.shape hr.stored hfree hle
    refine ⟨l₁, s, l₂, m', rfl, hfree, hle, ?_, ⟨hr.shape.carve (roundCount_mod _), hst⟩, hframe⟩
    simp [malloc, hfind, h0, hres]

/-! ## Section 2: Release and consolidation -/

theorem release_spec {a b : Nat} {l₁ l₂ : List Block} {s : Block} {m : Store}
    (hs : Shape a b (l₁ ++ s :: l₂)) (hm : Stored m (l₁ ++ s :: l₂)) (hused : s.used = true) :
    Stored (release m s.start) (l₁ ++ { s with used := false } :: l₂) := by
  have hmem : s ∈ l₁ ++ s :: l₂ := by simp
  have hroom : s.start + 8 ≤ s.stop := hs.room s hmem
  have hflag : FlagField.clear 32 (flags m s.start) reserved = 0 := by
    rw [(hm s hmem).2, hused]
    rfl
  rw [release, hflag]
  obtain ⟨h1, h2⟩ := hm.change_inside hs (setFlags m s.start 0)
    (fun i hi => setFlags_outside (by simp only [sizeof]; omega))
  refine stored_append.mpr ⟨h1, stored_cons.mpr ⟨⟨?_, ?_⟩, h2⟩⟩
  · rw [next_setFlags, (hm s hmem).1]
  · rw [flags_setFlags _ _ (by decide)]
    rfl

theorem join_spec {a b : Nat} {l₁ l₂ : List Block} {s t : Block} {m : Store}
    (hs : Shape a b (l₁ ++ s :: t :: l₂)) (hm : Stored m (l₁ ++ s :: t :: l₂))
    (hfree : s.used = false) :
    Stored (setNext m s.start t.stop) (l₁ ++ ⟨s.start, t.stop, false⟩ :: l₂) := by
  have hmem : s ∈ l₁ ++ s :: t :: l₂ := by simp
  have hroom : s.start + 8 ≤ s.stop := hs.room s hmem
  have hlt : t.stop < 2 ^ 32 := hs.stop_le (by simp)
  obtain ⟨h1, h2⟩ := hm.change_inside hs (setNext m s.start t.stop)
    (fun i hi => setNext_outside (by simp only [sizeof]; omega))
  refine stored_append.mpr ⟨h1, stored_cons.mpr ⟨⟨?_, ?_⟩, (stored_cons.mp h2).2⟩⟩
  · exact next_setNext m s.start hlt
  · rw [flags_setNext, (hm s hmem).2, hfree]

/-- One pass finds the list merged, or joins the first unmerged pair. -/
theorem consolidatePass_spec {a b : Nat} {m : Store} :
    ∀ {l₂ : List Block} (l₁ : List Block) {s : Block} (fuel : Nat),
      Shape a b (l₁ ++ s :: l₂) → Stored m (l₁ ++ s :: l₂) → l₂.length < fuel →
      (consolidatePass fuel m b s.start = some (false, m) ∧ Merged (s :: l₂)) ∨
      ∃ k₁ x y k₂, l₁ ++ s :: l₂ = k₁ ++ x :: y :: k₂ ∧ x.used = false ∧ y.used = false ∧
        consolidatePass fuel m b s.start = some (true, setNext m x.start y.stop)
  | [], l₁, s, fuel + 1, hs, hm, _ => by
    left
    obtain ⟨c, _, hc⟩ := tiles_append.mp hs.tiles
    have hend : next m s.start = b := by
      rw [(hm s (by simp)).1]
      exact hc.2.2
    exact ⟨by simp [consolidatePass, hend], .singleton s⟩
  | t :: l₂, l₁, s, fuel + 1, hs, hm, hfuel => by
    obtain ⟨c, _, hc⟩ := tiles_append.mp hs.tiles
    have hts : t.start = s.stop := hc.2.2.1
    have hnext : next m s.start = t.start := by rw [(hm s (by simp)).1, hts]
    have hne : t.start ≠ b :=
      Nat.ne_of_lt (Nat.lt_of_lt_of_le (hts ▸ hc.2.2.2.1) hc.2.2.2.2.le)
    have hsf := hm.isFree_eq (show s ∈ l₁ ++ s :: t :: l₂ by simp)
    have htf := hm.isFree_eq (show t ∈ l₁ ++ s :: t :: l₂ by simp)
    have htn := (hm t (by simp)).1
    -- the first pair of unused neighbours is joined
    by_cases hboth : s.used = false ∧ t.used = false
    · right
      refine ⟨l₁, s, t, l₂, rfl, hboth.1, hboth.2, ?_⟩
      have htry : tryConsolidate m s.start = (true, setNext m s.start t.stop) := by
        rw [tryConsolidate, hnext, hsf, htf, hboth.1, hboth.2, htn]
        rfl
      rw [consolidatePass, hnext, if_neg hne, htry]
    · have htry : tryConsolidate m s.start = (false, m) := by
        have hnot : ¬ (isFree m s.start && isFree m t.start) = true := by
          simpa [hsf, htf] using hboth
        rw [tryConsolidate, hnext, if_neg hnot]
      have hskip : consolidatePass (fuel + 1) m b s.start = consolidatePass fuel m b t.start := by
        rw [consolidatePass, hnext, if_neg hne, htry]
      have hassoc : l₁ ++ s :: t :: l₂ = (l₁ ++ [s]) ++ t :: l₂ := by simp
      rcases consolidatePass_spec (l₁ ++ [s]) fuel (hassoc ▸ hs) (hassoc ▸ hm)
        (by simpa using hfuel) with ⟨hpass, hmerged⟩ | ⟨k₁, x, y, k₂, hk, hx, hy, hpass⟩
      · left
        refine ⟨hskip.trans hpass, List.isChain_cons_cons.mpr ⟨?_, hmerged⟩⟩
        by_cases hsu : s.used = false
        · exact .inr (by simpa using fun htu => hboth ⟨hsu, htu⟩)
        · exact .inl (by simpa using hsu)
      · right
        exact ⟨k₁, x, y, k₂, hassoc.trans hk, hx, hy, hskip.trans hpass⟩

/-- Joining two unused blocks keeps the list of used ones. -/
theorem filter_used_join {k₁ k₂ : List Block} {x y : Block} (hx : x.used = false)
    (hy : y.used = false) :
    (k₁ ++ ⟨x.start, y.stop, false⟩ :: k₂).filter Segment.used
      = (k₁ ++ x :: y :: k₂).filter Segment.used := by
  simp [List.filter_append, hx, hy]

/-- The address lies in no free block. -/
def OutsideFree (bs : List Block) (i : Nat) : Prop :=
  ∀ s ∈ bs, s.used = false → i < s.start ∨ s.stop ≤ i

/-- Joining two neighbours covers no address that neither of them covered. -/
theorem OutsideFree.join {a b i : Nat} {k₁ k₂ : List Block} {x y : Block}
    (h : OutsideFree (k₁ ++ x :: y :: k₂) i) (hs : Shape a b (k₁ ++ x :: y :: k₂))
    (hx : x.used = false) (hy : y.used = false) :
    OutsideFree (k₁ ++ ⟨x.start, y.stop, false⟩ :: k₂) i := by
  obtain ⟨c, -, hc⟩ := tiles_append.mp hs.tiles
  have hxy : y.start = x.stop := hc.2.2.1
  intro s hmem hfree
  simp only [List.mem_append, List.mem_cons] at hmem
  rcases hmem with hmem | rfl | hmem
  · exact h s (by simp [hmem]) hfree
  · have hxi := h x (by simp) hx
    have hyi := h y (by simp) hy
    show i < x.start ∨ y.stop ≤ i
    omega
  · exact h s (by simp [hmem]) hfree

/-- The outer loop joins neighbours until the list is merged. Each round
    removes one block, so as many rounds as there are blocks are enough. It
    writes to headers of free blocks only. -/
theorem consolidate_spec {a b : Nat} (fuel : Nat) :
    ∀ (rounds : Nat) {m : Store} {bs : List Block}, Shape a b bs → Stored m bs → bs ≠ [] →
      bs.length ≤ fuel → bs.length ≤ rounds →
      ∃ m' bs', consolidate fuel rounds m a b = some m' ∧ Shape a b bs' ∧ Stored m' bs' ∧
        Merged bs' ∧ bs'.filter Segment.used = bs.filter Segment.used ∧
        ∀ i, OutsideFree bs i → m' i = m i := by
  intro rounds
  induction rounds with
  | zero =>
    intro m bs _ _ hne _ hr
    exact absurd (List.length_pos_of_ne_nil hne) (by omega)
  | succ rounds ih =>
    intro m bs hs hm hne hfuel hr
    obtain ⟨s, l, rfl⟩ := List.exists_cons_of_ne_nil hne
    have hstart : s.start = a := hs.tiles.1
    rcases consolidatePass_spec [] fuel hs hm
      (by simp only [List.length_cons] at hfuel; omega) with ⟨hpass, hmerged⟩ | ⟨k₁, x, y, k₂, hk, hx, hy, hpass⟩
    · rw [hstart] at hpass
      exact ⟨m, s :: l, by simp [consolidate, hpass], hs, hm, hmerged, rfl, fun _ _ => rfl⟩
    · rw [hstart] at hpass
      simp only [List.nil_append] at hk
      rw [hk] at hs hm hfuel hr
      -- each round that joins a pair leaves one block less
      have hlen : (k₁ ++ (⟨x.start, y.stop, false⟩ : Block) :: k₂).length + 1
          = (k₁ ++ x :: y :: k₂).length := by simp; omega
      obtain ⟨m', bs', hcons, hs', hm', hmg, hfil, hframe⟩ := ih hs.join (join_spec hs hm hx)
        (by simp) (by omega) (by omega)
      refine ⟨m', bs', by simp [consolidate, hpass, hcons], hs', hm', hmg, ?_, ?_⟩
      · rw [hfil, filter_used_join hx hy, hk]
      · intro i hi
        rw [hk] at hi
        have hroom : x.start + 8 ≤ x.stop := hs.room x (by simp)
        have hxi := hi x (by simp) hx
        rw [hframe i (hi.join hs hx hy), setNext_outside (by simp only [sizeof]; omega)]

/-- **free** on block lists: a pointer to the payload of a used block. -/
theorem free_spec {h : Heap} {l₁ l₂ : List Block} {s : Block} (hr : Repr h (l₁ ++ s :: l₂))
    (hused : s.used = true) {fuel : Nat} (hfuel : (l₁ ++ s :: l₂).length ≤ fuel) :
    ∃ mem' bs', free fuel h (s.start + sizeof) = some { h with mem := mem' } ∧
      Repr { h with mem := mem' } bs' ∧ Merged bs' ∧
      bs'.filter Segment.used = (l₁ ++ l₂).filter Segment.used ∧
      ∀ i, OutsideFree (l₁ ++ { s with used := false } :: l₂) i → mem' i = h.mem i := by
  have hroom := hr.shape.room s (by simp)
  have hlt := hr.shape.stop_le (s := s) (by simp)
  -- the header in front of the payload
  have hptr : sub32 (s.start + sizeof) sizeof = s.start := by
    rw [sub32_of_le (by omega) (by omega)]
    omega
  obtain ⟨m', bs', hcons, hs', hm', hmg, hfil, hframe⟩ := consolidate_spec fuel fuel
    (hr.shape.retag false) (release_spec hr.shape hr.stored hused) (by simp)
    (by simpa using hfuel) (by simpa using hfuel)
  refine ⟨m', bs', ?_, ⟨hs', hm'⟩, hmg, ?_, ?_⟩
  · simp only [free, if_neg (show s.start + sizeof ≠ 0 by simp [sizeof]), hptr, hcons]
    rfl
  · rw [hfil]
    simp [List.filter_append]
  · intro i hi
    have hout := hi { s with used := false } (by simp) rfl
    dsimp only at hout
    rw [hframe i hi, release, setFlags_outside (by omega)]

/-! ## Section 3: Any fuel

    A call that returns within some fuel returns the same with more, so the
    two specifications hold for every call that returns at all. -/

theorem findFit_mono {m : Store} {b count : Nat} :
    ∀ {fuel fuel' it found r : Nat}, findFit fuel m b count it found = some r → fuel ≤ fuel' →
      findFit fuel' m b count it found = some r
  | fuel + 1, fuel' + 1, it, found, r, h, hle => by
    rw [findFit] at h ⊢
    split
    · next hend => simpa [hend] using h
    · next hend =>
      rw [if_neg hend] at h
      exact findFit_mono h (by omega)

theorem consolidatePass_mono {m : Store} {b : Nat} :
    ∀ {fuel fuel' ent : Nat} {r : Bool × Store}, consolidatePass fuel m b ent = some r →
      fuel ≤ fuel' → consolidatePass fuel' m b ent = some r := by
  intro fuel
  induction fuel generalizing m with
  | zero =>
    intro fuel' ent r h _
    cases h
  | succ fuel ih =>
    intro fuel' ent r h hle
    obtain ⟨fuel', rfl⟩ := Nat.exists_eq_succ_of_ne_zero (Nat.ne_zero_of_lt hle)
    rw [consolidatePass] at h ⊢
    split
    · next hend => simpa [hend] using h
    · next hend =>
      rw [if_neg hend] at h
      cases htry : tryConsolidate m ent with
      | mk merged m' =>
        rw [htry] at h
        cases merged with
        | true => exact h
        | false => exact ih h (by omega)

theorem consolidate_mono {b fuel fuel' : Nat} (hle : fuel ≤ fuel') :
    ∀ {rounds rounds' a : Nat} {m r : Store}, consolidate fuel rounds m a b = some r →
      rounds ≤ rounds' → consolidate fuel' rounds' m a b = some r
  | rounds + 1, rounds' + 1, a, m, r, h, hr => by
    rw [consolidate] at h ⊢
    cases hpass : consolidatePass fuel m b a with
    | none => simp [hpass] at h
    | some q =>
      obtain ⟨merged, m'⟩ := q
      rw [consolidatePass_mono hpass hle]
      rw [hpass] at h
      cases merged with
      | true => exact consolidate_mono hle h (Nat.le_of_succ_le_succ hr)
      | false => exact h

theorem malloc_mono {fuel fuel' : Nat} {h : Heap} {count : UInt32} {r : Nat × Heap}
    (hle : fuel ≤ fuel') (hm : malloc fuel h count = some r) : malloc fuel' h count = some r := by
  simp only [malloc] at hm ⊢
  cases hfind : findFit fuel h.mem h.heapEnd (roundCount count.toNat) h.heap 0 with
  | none => simp [hfind] at hm
  | some q =>
    rw [hfind] at hm
    simpa [findFit_mono hfind hle] using hm

theorem free_mono {fuel fuel' p : Nat} {h h' : Heap} (hle : fuel ≤ fuel')
    (hf : free fuel h p = some h') : free fuel' h p = some h' := by
  by_cases h0 : p = 0
  · simpa [free, h0] using hf
  · simp only [free, if_neg h0] at hf ⊢
    cases hcons : consolidate fuel fuel (release h.mem (sub32 p sizeof)) h.heap h.heapEnd with
    | none => simp [hcons] at hf
    | some q =>
      rw [hcons] at hf
      simpa [consolidate_mono hle hcons hle] using hf

theorem free_null (fuel : Nat) (h : Heap) : free fuel h 0 = some h := by simp [free]

end Hausboot
