import Hausboot.FatFs.Search

/-! # The stage2 FAT Driver: The Rounds of ReadAt

    The loop of `ReadAt` either lowers the offset by a whole cluster or copies
    up to the end of the current one, so a round lowers the sum of offset and
    length by the cluster size, whatever the FAT and the device say. That
    bounds the rounds; the clamp in front of the loop bounds the bytes, unless
    the recorded size is 0. -/

open ByteLib ChainLib

namespace Hausboot

namespace FatFs

variable {w : World} {v : Volume} {fs : FatFs}

/-! ## Section 1: Rounds -/

/-- What one round that succeeds does to the offset, the length and the
    output. -/
theorem readCluster_progress {fs' : FatFs} {cluster offset size offset' size' : Nat}
    {out out' : Bytes}
    (h : readCluster w v fs cluster offset size out = (true, offset', size', out', fs')) :
    (offset < v.bytesPerCluster ∧ offset' = 0 ∧ size' = size - (v.bytesPerCluster - offset) ∧
      ∃ window, out' = out ++ slice window offset (min (v.bytesPerCluster - offset) size)) ∨
    (v.bytesPerCluster ≤ offset ∧ offset' = offset - v.bytesPerCluster ∧ size' = size ∧
      out' = out) := by
  unfold readCluster at h
  by_cases hoff : offset < v.bytesPerCluster
  · rw [if_pos hoff] at h
    rcases hload : loadDataCluster w v fs cluster with ⟨ok, fs₁⟩
    rw [hload] at h
    cases ok with
    | false => cases h
    | true =>
      simp only [Prod.mk.injEq, true_and] at h
      obtain ⟨rfl, rfl, rfl, rfl⟩ := h
      exact .inl ⟨hoff, rfl, by omega, fs₁.dataWindow, rfl⟩
  · rw [if_neg hoff] at h
    simp only [Prod.mk.injEq, true_and] at h
    obtain ⟨rfl, rfl, rfl, -⟩ := h
    exact .inr ⟨by omega, rfl, rfl, rfl⟩

/-- A round that fails stores nothing. -/
theorem readCluster_out_of_fail {fs' : FatFs} {cluster offset size offset' size' : Nat}
    {out out' : Bytes}
    (h : readCluster w v fs cluster offset size out = (false, offset', size', out', fs')) :
    out' = out := by
  unfold readCluster at h
  by_cases hoff : offset < v.bytesPerCluster
  · rw [if_pos hoff] at h
    rcases hload : loadDataCluster w v fs cluster with ⟨ok, fs₁⟩
    rw [hload] at h
    cases ok with
    | false =>
      simp only [Prod.mk.injEq, true_and] at h
      exact h.2.2.1.symm
    | true => cases h
  · rw [if_neg hoff] at h
    cases h

/-- The loop ends once there was a round for each cluster that the range from
    the start of the chain to the end of the request covers. -/
theorem readLoop_ends (n : Nat) (fs : FatFs) (cluster offset size : Nat) (out : Bytes)
    (h : offset + size ≤ n * v.bytesPerCluster) (fuel : Nat) (hfuel : n < fuel) :
    ∃ r, readLoop w v fuel fs cluster offset size out = some r := by
  induction n generalizing fs cluster offset size out fuel with
  | zero =>
    obtain ⟨fuel, rfl⟩ : ∃ k, fuel = k + 1 := ⟨fuel - 1, by omega⟩
    obtain rfl : size = 0 := by omega
    exact ⟨_, by simp [readLoop]; rfl⟩
  | succ n ih =>
    obtain ⟨fuel, rfl⟩ : ∃ k, fuel = k + 1 := ⟨fuel - 1, by omega⟩
    unfold readLoop
    by_cases hdone : (size = 0 || cluster ≥ endOfChain) = true
    · exact ⟨_, if_pos hdone⟩
    rw [if_neg hdone]
    rcases hround : readCluster w v fs cluster offset size out with ⟨ok, offset', size', out', fs'⟩
    cases ok with
    | false => exact ⟨_, rfl⟩
    | true =>
      -- a cluster less is left, whether it was skipped or copied
      have hless : offset' + size' ≤ n * v.bytesPerCluster := by
        rw [Nat.succ_mul] at h
        rcases readCluster_progress hround with ⟨hlt, rfl, rfl, -⟩ | ⟨hle, rfl, rfl, -⟩
        · omega
        · omega
      dsimp only
      by_cases hleft : size' > 0
      · rw [if_pos hleft]
        rcases readFatIndex w v fs' cluster with ⟨next, fs''⟩
        cases next with
        | none => exact ⟨_, rfl⟩
        | some next => exact ih fs'' next offset' size' out' hless fuel (by omega)
      · rw [if_neg hleft]
        exact ih fs' cluster offset' size' out' hless fuel (by omega)

/-- An upper bound on the clusters that a range covers. -/
theorem range_le_clusters {a b s : Nat} (hs : 0 < s) : a + b ≤ (a / s + b / s + 2) * s := by
  have ha : a < (a / s + 1) * s := Nat.lt_mul_of_div_lt (Nat.lt_succ_self _) hs
  have hb : b < (b / s + 1) * s := Nat.lt_mul_of_div_lt (Nat.lt_succ_self _) hs
  have hsum : (a / s + b / s + 2) * s = (a / s + 1) * s + (b / s + 1) * s := by ring
  omega

/-- **ReadAt terminates**: whatever the FAT holds and whichever reads fail,
    its loop body runs at most once for each cluster size in the offset, once
    for each in the length and twice more. The loop takes one more unit of fuel
    than it has rounds. -/
theorem readAt_ends (w : World) (v : Volume) (hspc : 0 < v.super.sectorsPerCluster)
    (hsector : 0 < v.sectorSize) (fs : FatFs) (finfo : FatFile) (offset length fuel : Nat)
    (hfuel : offset / v.bytesPerCluster + length / v.bytesPerCluster + 2 < fuel) :
    ∃ ret data fs', readAt w v fuel fs finfo offset length = some (ret, data, fs') := by
  have hsize : 0 < v.bytesPerCluster := Nat.mul_pos hspc hsector
  have hrange := range_le_clusters (a := offset) (b := length) hsize
  unfold readAt
  by_cases hpos : finfo.size > 0
  · rw [if_pos hpos]
    by_cases hend : offset ≥ finfo.size
    · rw [if_pos hend]
      exact ⟨_, _, _, rfl⟩
    · rw [if_neg hend]
      obtain ⟨⟨ret, data, fs'⟩, hr⟩ := readLoop_ends (w := w) (v := v) _ fs finfo.cluster offset
        (min length (finfo.size - offset)) [] (by omega) fuel hfuel
      exact ⟨ret, data, fs', hr⟩
  · rw [if_neg hpos]
    obtain ⟨⟨ret, data, fs'⟩, hr⟩ := readLoop_ends (w := w) (v := v) _ fs finfo.cluster offset
      length [] hrange fuel hfuel
    exact ⟨ret, data, fs', hr⟩

/-- Two clusters from the third on, of a chain that runs in a circle. -/
theorem readAt_ends_circle :
    ∃ ret data fs', readAt reliable (sampleVolume [0, 0, 0, 3] fun _ => []) 7
      freshWindows ⟨3, 0, 0⟩ 1024 1024 =
        some (ret, data, fs') :=
  readAt_ends reliable _ (by decide) (by decide) _ _ _ _ _ (by decide)

/-! ## Section 2: Bytes -/

theorem i32_le (n : Nat) : i32 n ≤ n := by
  have hmod : n % 2 ^ 32 ≤ n := Nat.mod_le _ _
  unfold i32 Int.bmod
  rw [← Int.natCast_mod]
  dsimp only
  split <;> omega

/-- The loop only adds to the output, and no more than it was asked for. -/
theorem readLoop_grows {fuel : Nat} {cluster offset size : Nat} {out data : Bytes} {ret : Int}
    {fs' : FatFs} (h : readLoop w v fuel fs cluster offset size out = some (ret, data, fs')) :
    out <+: data ∧ data.length ≤ out.length + size ∧ ret ≤ data.length := by
  induction fuel generalizing fs cluster offset size out with
  | zero => cases h
  | succ fuel ih =>
    unfold readLoop at h
    by_cases hdone : (size = 0 || cluster ≥ endOfChain) = true
    · rw [if_pos hdone] at h
      simp only [Option.some.injEq, Prod.mk.injEq] at h
      obtain ⟨rfl, rfl, -⟩ := h
      exact ⟨List.prefix_refl _, Nat.le_add_right _ _, i32_le _⟩
    rw [if_neg hdone] at h
    rcases hround : readCluster w v fs cluster offset size out with
      ⟨ok, offset', size', out', fs₁⟩
    rw [hround] at h
    cases ok with
    | false =>
      simp only [Option.some.injEq, Prod.mk.injEq] at h
      obtain ⟨rfl, rfl, -⟩ := h
      rw [readCluster_out_of_fail hround]
      exact ⟨List.prefix_refl _, Nat.le_add_right _ _, by omega⟩
    | true =>
      -- what the round has stored and what is left make up the request
      have hround' : out <+: out' ∧ out'.length + size' ≤ out.length + size := by
        rcases readCluster_progress hround with ⟨-, -, rfl, window, rfl⟩ | ⟨-, -, rfl, rfl⟩
        · refine ⟨List.prefix_append _ _, ?_⟩
          rw [List.length_append, length_slice]
          omega
        · exact ⟨List.prefix_refl _, Nat.le_refl _⟩
      have hrest : ∀ {fs₂ : FatFs} {next : Nat},
          readLoop w v fuel fs₂ next offset' size' out' = some (ret, data, fs') →
          out <+: data ∧ data.length ≤ out.length + size ∧ ret ≤ data.length := by
        intro fs₂ next hloop
        obtain ⟨hpre, hlen, hret⟩ := ih hloop
        exact ⟨hround'.1.trans hpre, by omega, hret⟩
      dsimp only at h
      by_cases hleft : size' > 0
      · rw [if_pos hleft] at h
        rcases hnext : readFatIndex w v fs₁ cluster with ⟨next, fs₂⟩
        rw [hnext] at h
        cases next with
        | none =>
          simp only [Option.some.injEq, Prod.mk.injEq] at h
          obtain ⟨rfl, rfl, -⟩ := h
          exact ⟨hround'.1, by omega, by omega⟩
        | some next => exact hrest h
      · rw [if_neg hleft] at h
        exact hrest h

/-- The result stays within what the record of the file says. -/
def Within (finfo : FatFile) (offset : Nat) (ret : Int) (data : Bytes) : Prop :=
  ret ≤ (finfo.size - offset : Nat) ∧ data.length ≤ finfo.size - offset

/-- Following `n` links of the FAT from `c` leads to `d`. -/
def LeadsTo (v : Volume) (c n d : Nat) : Prop :=
  ∃ l, Segment v.fatEntry (fun x => x < endOfChain ∧ v.InTable x) c l d ∧ l.length = n

/-- The clamp applies, or nothing is asked for, or the links do not lead to a
    data cluster at the offset. -/
def Clamped (v : Volume) (finfo : FatFile) (offset length : Nat) : Prop :=
  finfo.size > 0 ∨ length = 0 ∨
    ∀ d, LeadsTo v finfo.cluster (offset / v.bytesPerCluster) d → d < 2 ∨ endOfChain ≤ d

theorem within_of_clamp {finfo : FatFile} (hpos : finfo.size > 0) {offset length fuel : Nat}
    {ret : Int} {data : Bytes} {fs' : FatFs}
    (h : readAt w v fuel fs finfo offset length = some (ret, data, fs')) :
    Within finfo offset ret data := by
  unfold readAt at h
  rw [if_pos hpos] at h
  by_cases hend : offset ≥ finfo.size
  · rw [if_pos hend] at h
    simp only [Option.some.injEq, Prod.mk.injEq] at h
    obtain ⟨rfl, rfl, -⟩ := h
    exact ⟨by omega, Nat.zero_le _⟩
  · rw [if_neg hend] at h
    obtain ⟨-, hlen, hret⟩ := readLoop_grows h
    rw [List.length_nil] at hlen
    exact ⟨by omega, by omega⟩

/-- One link is followed. -/
theorem readFatIndex_cases (hco : Coherent v fs) (c : Nat) :
    (readFatIndex w v fs c).1 = none ∨
    ((readFatIndex w v fs c).1 = some (v.fatEntry c) ∧ v.InTable c ∧
      Coherent v (readFatIndex w v fs c).2) := by
  cases hread : (readFatIndex w v fs c).1 with
  | none => exact .inl rfl
  | some e =>
    have hin : v.InTable c := by
      by_contra hout
      have hload : (loadFatSector w v fs (u32 (c * 4) / v.sectorSize)).1 = false := by
        unfold loadFatSector
        rw [if_pos (Nat.le_of_not_lt hout)]
      rw [((readFatIndex_snd w v fs c).2.mpr hload)] at hread
      cases hread
    have hco' : Coherent v (readFatIndex w v fs c).2 := by
      refine (coherent_serve_iff hco (.entry c)).1.mpr ?_
      by_contra hharm
      have hfail : (readFatIndex w v fs c).1 = none := (coherent_serve_iff hco (.entry c)).2 hharm
      rw [hfail] at hread
      cases hread
    exact .inr ⟨by rw [readFatIndex_honest hco hread], hin, hco'⟩

/-- Where the links lead to no data cluster, the loop delivers nothing. -/
theorem readLoop_nothing (hsize : 0 < v.bytesPerCluster) (hco : Coherent v fs) {fuel cluster offset size : Nat}
    {out data : Bytes} {ret : Int} {fs' : FatFs}
    (hno : ∀ d, LeadsTo v cluster (offset / v.bytesPerCluster) d → d < 2 ∨ endOfChain ≤ d)
    (h : readLoop w v fuel fs cluster offset size out = some (ret, data, fs')) : data = out := by
  induction fuel generalizing fs cluster offset with
  | zero => cases h
  | succ fuel ih =>
    unfold readLoop at h
    by_cases hdone : (size = 0 || cluster ≥ endOfChain) = true
    · rw [if_pos hdone] at h
      simp only [Option.some.injEq, Prod.mk.injEq] at h
      exact h.2.1.symm
    rw [if_neg hdone] at h
    simp only [Bool.or_eq_true, decide_eq_true_eq, not_or] at hdone
    by_cases hoff : offset < v.bytesPerCluster
    · -- the cluster at the offset is this one, and it is no data cluster
      have hlow := hno cluster ⟨[], .nil _, (Nat.div_eq_of_lt hoff).symm⟩
      have hround : readCluster w v fs cluster offset size out = (false, offset, size, out, fs) := by
        unfold readCluster loadDataCluster
        rw [if_pos hoff, if_pos (by omega)]
      rw [hround] at h
      simp only [Option.some.injEq, Prod.mk.injEq] at h
      exact h.2.1.symm
    · have hround : readCluster w v fs cluster offset size out =
          (true, offset - v.bytesPerCluster, size, out, fs) := by
        unfold readCluster
        rw [if_neg hoff]
      rw [hround] at h
      dsimp only at h
      rw [if_pos (by omega)] at h
      have hnext := readFatIndex_cases (w := w) hco cluster
      rcases hread : readFatIndex w v fs cluster with ⟨next, fs₁⟩
      rw [hread] at h hnext
      rcases hnext with hnone | ⟨hsome, hin, hco₁⟩
      · obtain rfl : next = none := hnone
        simp only [Option.some.injEq, Prod.mk.injEq] at h
        exact h.2.1.symm
      · obtain rfl : next = some (v.fatEntry cluster) := hsome
        refine ih hco₁ ?_ h
        intro d hd
        obtain ⟨l, hseg, hlen⟩ := hd
        apply hno d
        refine ⟨cluster :: l, .cons ⟨by omega, hin⟩ hseg, ?_⟩
        rw [List.length_cons, hlen, Nat.div_eq_sub_div hsize (Nat.le_of_not_lt hoff)]

/-- The loop follows the links up to the offset. -/
theorem readLoop_skip (hw : ¬ w.Faulty) (hco : Coherent v fs) {c d : Nat} {l : List Nat}
    (hseg : Segment v.fatEntry (fun x => x < endOfChain ∧ v.InTable x) c l d) {size : Nat}
    (hpos : 0 < size) (offset n : Nat) (out : Bytes) :
    ∃ fs', Coherent v fs' ∧
      readLoop w v (l.length + n) fs c (l.length * v.bytesPerCluster + offset) size out =
        readLoop w v n fs' d offset size out := by
  induction hseg generalizing fs with
  | nil c => exact ⟨fs, hco, by rw [List.length_nil, Nat.zero_mul, Nat.zero_add, Nat.zero_add]⟩
  | @cons c d l hc hseg ih =>
    obtain ⟨hstop, hin⟩ := hc
    have hread := readFatIndex_reliable (v := v) hw hco c
    rw [if_pos hin] at hread
    have hco' : Coherent v (readFatIndex w v fs c).2 := by
      rcases readFatIndex_cases (w := w) hco c with hnone | ⟨-, -, hco'⟩
      · rw [hnone] at hread
        cases hread
      · exact hco'
    obtain ⟨fs', hfs', hloop⟩ := ih hco'
    refine ⟨fs', hfs', ?_⟩
    rw [← hloop, List.length_cons, Nat.add_right_comm, Nat.succ_mul]
    conv_lhs => unfold readLoop
    have hdone : ¬ (size = 0 || c ≥ endOfChain) = true := by
      simp only [Bool.or_eq_true, decide_eq_true_eq]
      omega
    -- the offset lies behind this cluster
    have hround : readCluster w v fs c
        (l.length * v.bytesPerCluster + v.bytesPerCluster + offset) size out =
        (true, l.length * v.bytesPerCluster + offset, size, out, fs) := by
      unfold readCluster
      rw [if_neg (by omega)]
      congr 2
      omega
    rw [if_neg hdone, hround]
    dsimp only
    rw [if_pos hpos]
    rcases hnext : readFatIndex w v fs c with ⟨next, fs₁⟩
    rw [hnext] at hread
    obtain rfl : next = some (v.fatEntry c) := hread
    rfl

/-- From a data cluster the loop delivers something. -/
theorem readLoop_delivers (hw : ¬ w.Faulty) (hco : Coherent v fs) {c : Nat} (h2 : 2 ≤ c)
    (hstop : c < endOfChain) {offset size fuel : Nat} (hoff : offset < v.bytesPerCluster)
    (hpos : 0 < size) {out data : Bytes} {ret : Int} {fs' : FatFs}
    (h : readLoop w v fuel fs c offset size out = some (ret, data, fs')) :
    out.length < data.length := by
  cases fuel with
  | zero => cases h
  | succ fuel =>
    unfold readLoop at h
    have hdone : ¬ (size = 0 || c ≥ endOfChain) = true := by
      simp only [Bool.or_eq_true, decide_eq_true_eq]
      omega
    rcases loadDataCluster_spec (w := w) hco h2 hstop with ⟨fs₁, hload, -, hpre⟩ | ⟨hbad, -⟩
    swap
    · exact absurd hbad hw
    have hround : readCluster w v fs c offset size out =
        (true, 0, size - min (v.bytesPerCluster - offset) size,
          out ++ slice fs₁.dataWindow offset (min (v.bytesPerCluster - offset) size), fs₁) := by
      unfold readCluster
      rw [if_pos hoff, hload]
    have hwin : v.bytesPerCluster ≤ fs₁.dataWindow.length := by
      rw [← v.length_cluster c]
      exact hpre.length_le
    -- the first round reads a byte or more, and nothing is taken back
    have hmore : out.length <
        (out ++ slice fs₁.dataWindow offset (min (v.bytesPerCluster - offset) size)).length := by
      rw [List.length_append, length_slice]
      omega
    have hrest : ∀ {fs₂ : FatFs} {next : Nat}, readLoop w v fuel fs₂ next 0
        (size - min (v.bytesPerCluster - offset) size)
        (out ++ slice fs₁.dataWindow offset (min (v.bytesPerCluster - offset) size)) =
          some (ret, data, fs') → out.length < data.length := by
      intro fs₂ next hloop
      exact Nat.lt_of_lt_of_le hmore (readLoop_grows hloop).1.length_le
    rw [if_neg hdone, hround] at h
    dsimp only at h
    by_cases hleft : size - min (v.bytesPerCluster - offset) size > 0
    · rw [if_pos hleft] at h
      rcases hread : readFatIndex w v fs₁ c with ⟨next, fs₂⟩
      rw [hread] at h
      cases next with
      | none =>
        simp only [Option.some.injEq, Prod.mk.injEq] at h
        obtain ⟨-, rfl, -⟩ := h
        exact hmore
      | some next => exact hrest h
    · rw [if_neg hleft] at h
      exact hrest h

/-- **Recorded sizes**: a file with a recorded size is cut at it by any device
    and from any windows. A recorded size of 0 switches the clamp off, and then
    nothing is delivered only if there is no data cluster at the offset: with
    windows that agree with their tags this is enough, and on a device that
    never fails it is needed. -/
theorem readAt_within_iff (w : World) (v : Volume) (hsize : 0 < v.bytesPerCluster) (fs : FatFs)
    (finfo : FatFile) (offset length : Nat) :
    (finfo.size > 0 → ∀ fuel ret data fs',
      readAt w v fuel fs finfo offset length = some (ret, data, fs') →
        Within finfo offset ret data) ∧
    (Coherent v fs → Clamped v finfo offset length → ∀ fuel ret data fs',
      readAt w v fuel fs finfo offset length = some (ret, data, fs') →
        Within finfo offset ret data) ∧
    (Coherent v fs → ¬ w.Faulty →
      ((∀ fuel ret data fs', readAt w v fuel fs finfo offset length = some (ret, data, fs') →
        Within finfo offset ret data) ↔ Clamped v finfo offset length)) := by
  have hclamped : Coherent v fs → Clamped v finfo offset length → ∀ fuel ret data fs',
      readAt w v fuel fs finfo offset length = some (ret, data, fs') →
        Within finfo offset ret data := by
    intro hco hcl fuel ret data fs' h
    by_cases hpos : finfo.size > 0
    · exact within_of_clamp hpos h
    unfold readAt at h
    rw [if_neg hpos] at h
    obtain ⟨-, hlen, hret⟩ := readLoop_grows h
    have hnil : data.length = 0 := by
      rcases hcl with hpos' | rfl | hno
      · exact absurd hpos' hpos
      · rw [List.length_nil] at hlen
        omega
      · rw [readLoop_nothing hsize hco hno h, List.length_nil]
    exact ⟨by omega, by omega⟩
  refine ⟨fun hpos _ _ _ _ h => within_of_clamp hpos h, hclamped, ?_⟩
  intro hco hw
  refine ⟨?_, hclamped hco⟩
  intro hwithin
  by_contra hcl
  unfold Clamped at hcl
  push Not at hcl
  obtain ⟨hzero, hlength, d, ⟨l, hseg, hl⟩, h2, hstop⟩ := hcl
  -- a run that is long enough, split where the offset is reached
  obtain ⟨⟨ret, data, fs'⟩, hrun⟩ := readLoop_ends (w := w) (v := v) _ fs finfo.cluster offset
    length [] (range_le_clusters hsize)
    (l.length + (offset / v.bytesPerCluster + length / v.bytesPerCluster + 3)) (by omega)
  obtain ⟨fs₁, hco₁, hskip⟩ := readLoop_skip hw hco hseg (by omega : 0 < length)
    (offset % v.bytesPerCluster) (offset / v.bytesPerCluster + length / v.bytesPerCluster + 3) []
  rw [hl, Nat.div_add_mod'] at hskip
  have hmore := hrun
  rw [hl, hskip] at hmore
  have hsome := readLoop_delivers hw hco₁ h2 hstop (Nat.mod_lt _ hsize) (by omega) hmore
  have hread : readAt w v (l.length + (offset / v.bytesPerCluster +
      length / v.bytesPerCluster + 3)) fs finfo offset length = some (ret, data, fs') := by
    unfold readAt
    rw [if_neg (by omega), hrun]
  have hlen := (hwithin _ _ _ _ hread).2
  rw [List.length_nil] at hsome
  omega

/-- A file of one byte in a cluster that holds three. -/
theorem readAt_within_iff_short :
    ∃ ret data fs', readAt reliable (sampleVolume [] fun _ => str "OLD") 2 freshWindows
      ⟨3, 1, 0⟩ 0 3 = some (ret, data, fs') ∧ Within ⟨3, 1, 0⟩ 0 ret data := by
  have hrun : (readAt reliable (sampleVolume [] fun _ => str "OLD") 2 freshWindows
      ⟨3, 1, 0⟩ 0 3).isSome = true := by decide
  obtain ⟨⟨ret, data, fs'⟩, hread⟩ := Option.isSome_iff_exists.mp hrun
  have hwithin := ((readAt_within_iff reliable (sampleVolume [] fun _ => str "OLD") (by decide)
    freshWindows ⟨3, 1, 0⟩ 0 3).2.2 (Coherent.new _ _ _) not_faulty_reliable).mpr
    (.inl (by decide))
  exact ⟨ret, data, fs', hread, hwithin 2 ret data fs' hread⟩

/-- A file of recorded size 0 whose record names a cluster that is in use no
    more. -/
def emptyFile : Volume :=
  sampleVolume [0x0FFFFFF8, 0x0FFFFFFF, 0x0FFFFFFF, 0x0FFFFFFF] fun lba =>
    if lba = 2 then (sampleRecord (str "A") [] 3 0).raw
    else if lba = 3 then str "OLD" else []

/-- The driver finds the file and delivers what the cluster was left with. -/
theorem leftover_of_empty :
    ∃ finfo fs fs', findByPath reliable emptyFile 5 freshWindows (str "A") =
        some (.ok finfo, fs) ∧ FlagField.isSet finfo.flags FatDirent.directory = false ∧
      readAt reliable emptyFile 5 fs finfo 0 3 = some (3, str "OLD", fs') ∧
      ¬ Within finfo 0 3 (str "OLD") := by
  have hrun : ((findByPath reliable emptyFile 5 freshWindows (str "A")).bind fun r =>
      (readAt reliable emptyFile 5 r.2 ⟨3, 0, 0⟩ 0 3).map fun r' => (r.1, r'.1, r'.2.1)) =
      some (.ok ⟨3, 0, 0⟩, 3, str "OLD") := by
    decide
  obtain ⟨⟨found, fs⟩, hfind, hrun⟩ := Option.bind_eq_some_iff.mp hrun
  obtain ⟨⟨ret, data, fs'⟩, hread, hres⟩ := Option.map_eq_some_iff.mp hrun
  simp only [Prod.mk.injEq] at hres
  obtain ⟨rfl, rfl, rfl⟩ := hres
  refine ⟨⟨3, 0, 0⟩, fs, fs', hfind, by decide, hread, ?_⟩
  intro hwithin
  exact absurd hwithin.2 (by decide)

end FatFs

end Hausboot
