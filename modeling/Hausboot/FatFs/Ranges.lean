import Hausboot.FatFs.Search

/-! # The stage2 FAT Driver: Ranges of a File

    On a device that never fails, any calls leave the windows in agreement with
    their tags, so what `ReadAt` delivers does not depend on the calls before
    it, and neighbouring ranges of a file can be read one after the other. -/

open ByteLib ChainLib

namespace Hausboot

namespace FatFs

variable {w : World} {v : Volume} {fs : FatFs}

/-- The driver before and after some calls, each of which returned. -/
inductive Later (w : World) (v : Volume) : FatFs → FatFs → Prop where
  | refl (fs : FatFs) : Later w v fs fs
  | call {fuel : Nat} {fs fs₁ fs₂ : FatFs} {c : Call} {r : Reply} :
      Later w v fs fs₁ → c.exec w v fuel fs₁ = some (r, fs₂) → Later w v fs fs₂

/-- On a device that never fails, every load of a program is harmless. -/
theorem safe_reliable (hw : ¬ w.Faulty) (fuel : Nat) (fs : FatFs) (c : Call) :
    Safe w v fuel fs c := by
  have hmeets : ∀ {α : Type} (p : Plan α) (fs : FatFs),
      p.Meets (serve w v) (Harmless w v) fs := by
    intro α p
    induction p with
    | done a => exact fun _ => trivial
    | ask i k ih => exact fun fs => ⟨harmless_reliable hw fs i, ih _ _⟩
  exact hmeets _ fs

theorem Later.coherent {fs' : FatFs} (h : Later w v fs fs') (hw : ¬ w.Faulty)
    (hco : Coherent v fs) : Coherent v fs' := by
  induction h with
  | refl fs => exact hco
  | call _ hexec ih => exact (coherent_exec_iff (ih hco) hexec).mpr (safe_reliable hw _ _ _)

/-- The bytes from `offset` on of the clusters of a file, up to the end of the
    request, the recorded size or the end of the chain, whichever comes
    first. -/
def fileRange (v : Volume) (finfo : FatFile) (l : List Nat) (offset length : Nat) : Bytes :=
  ((v.content l).take (min (offset + length)
    (min finfo.size (l.length * v.bytesPerCluster)))).drop offset

theorem fileRange_eq {finfo : FatFile} (hpos : 0 < finfo.size) (l : List Nat)
    (offset length : Nat) :
    fileRange v finfo l offset length = slice (v.fileBytes finfo l) offset length := by
  have hlen := v.length_content l
  unfold fileRange Volume.fileBytes
  rw [if_pos hpos, slice, List.drop_take, List.drop_take, List.take_take,
    List.take_eq_take_iff, List.length_drop, hlen]
  omega

theorem length_fileRange_le (finfo : FatFile) (l : List Nat) (offset length : Nat) :
    (fileRange v finfo l offset length).length ≤ length := by
  simp only [fileRange, List.length_drop, List.length_take]
  omega

/-- Two neighbouring ranges make one. -/
theorem fileRange_add {finfo : FatFile} (hpos : 0 < finfo.size) (l : List Nat)
    (offset n m : Nat) :
    fileRange v finfo l offset n ++ fileRange v finfo l (offset + n) m =
      fileRange v finfo l offset (n + m) := by
  rw [fileRange_eq hpos, fileRange_eq hpos, fileRange_eq hpos, slice_add]

/-- One read of a range. -/
theorem readAt_range (hw : ¬ w.Faulty) (hco : Coherent v fs) {finfo : FatFile}
    (hpos : 0 < finfo.size) {l : List Nat} (hch : v.FsChain finfo.cluster l)
    (offset : Nat) {length : Nat} (hlength : length < 2 ^ 31) (fuel : Nat) :
    (readAt w v fuel fs finfo offset length = none ∧ fuel ≤ l.length) ∨
    ∃ fs', readAt w v fuel fs finfo offset length =
        some (((fileRange v finfo l offset length).length : Int),
          fileRange v finfo l offset length, fs') ∧ Coherent v fs' := by
  have hle := length_fileRange_le (v := v) finfo l offset length
  rcases readAt_spec (w := w) hch hco fuel offset length with
    hnone | ⟨data, fs', rfl, hread, hco'⟩ | ⟨hbad, -⟩
  · exact .inl hnone
  · rw [← fileRange_eq hpos] at hread
    rw [i32_of_lt (by omega)] at hread
    exact .inr ⟨fs', hread, hco'⟩
  · exact absurd hbad hw

/-- **ReadAt delivers the range**, from any windows that agree with their tags,
    and returns its length. Two neighbouring ranges, read one after the other
    with any calls in between, are the range that they make up. -/
theorem readAt_delivers_range (w : World) (v : Volume) (hw : ¬ w.Faulty) (fs : FatFs)
    (hco : Coherent v fs) (finfo : FatFile) (hpos : 0 < finfo.size) (l : List Nat)
    (hch : v.FsChain finfo.cluster l) :
    (∀ offset length fuel, length < 2 ^ 31 → l.length < fuel →
      ∃ fs', readAt w v fuel fs finfo offset length =
          some (((fileRange v finfo l offset length).length : Int),
            fileRange v finfo l offset length, fs') ∧ Coherent v fs') ∧
    (∀ o n m, n + m < 2 ^ 31 → ∀ fuel₁ fuel₂ fuel ret₁ ret₂ ret data₁ data₂ data fs₁ fs₂ fs₂' fs',
      readAt w v fuel₁ fs finfo o n = some (ret₁, data₁, fs₁) → Later w v fs₁ fs₂ →
      readAt w v fuel₂ fs₂ finfo (o + n) m = some (ret₂, data₂, fs₂') →
      readAt w v fuel fs finfo o (n + m) = some (ret, data, fs') →
        data₁ ++ data₂ = data ∧ ret₁ + ret₂ = ret) := by
  constructor
  · intro offset length fuel hlength hfuel
    rcases readAt_range hw hco hpos hch offset hlength fuel with ⟨-, hle⟩ | hread
    · omega
    · exact hread
  · intro o n m hnm fuel₁ fuel₂ fuel ret₁ ret₂ ret data₁ data₂ data fs₁ fs₂ fs₂' fs' h₁ hlater h₂ h
    -- each of the three reads that returned has delivered its range
    have hrange : ∀ {fs fs' : FatFs} {offset length fuel : Nat} {ret : Int} {data : Bytes},
        Coherent v fs → length < 2 ^ 31 →
        readAt w v fuel fs finfo offset length = some (ret, data, fs') →
        ret = (fileRange v finfo l offset length).length ∧
          data = fileRange v finfo l offset length ∧ Coherent v fs' := by
      intro fs fs' offset length fuel ret data hco hlength hread
      rcases readAt_range hw hco hpos hch offset hlength fuel with
        ⟨hnone, -⟩ | ⟨fs'', hsome, hco'⟩
      · rw [hnone] at hread
        cases hread
      · rw [hsome] at hread
        simp only [Option.some.injEq, Prod.mk.injEq] at hread
        obtain ⟨rfl, rfl, rfl⟩ := hread
        exact ⟨rfl, rfl, hco'⟩
    obtain ⟨rfl, rfl, hco₁⟩ := hrange hco (by omega) h₁
    obtain ⟨rfl, rfl, -⟩ := hrange (hlater.coherent hw hco₁) (by omega) h₂
    obtain ⟨rfl, rfl, -⟩ := hrange hco hnm h
    refine ⟨fileRange_add hpos l o n m, ?_⟩
    rw [← fileRange_add hpos, List.length_append]
    omega

/-- Three bytes of a file, of which the record counts two. -/
def twoOfThree : Volume :=
  sampleVolume [0x0FFFFFF8, 0x0FFFFFFF, 0x0FFFFFFF, 0x0FFFFFFF] fun _ => str "OLD"

theorem readAt_delivers_range_short :
    ∃ fs', readAt reliable twoOfThree 2 freshWindows ⟨3, 2, 0⟩ 0 3 =
      some (2, str "OL", fs') := by
  have hch : twoOfThree.FsChain 3 [3] :=
    .link (by decide) (by decide) (.done (by decide))
  obtain ⟨fs', hread, -⟩ := (readAt_delivers_range reliable twoOfThree not_faulty_reliable
    freshWindows (Coherent.new _ _ _) ⟨3, 2, 0⟩ (by decide) [3] hch).1 0 3 2 (by decide) (by decide)
  have hrange : fileRange twoOfThree ⟨3, 2, 0⟩ [3] 0 3 = str "OL" := by decide
  rw [hrange] at hread
  exact ⟨fs', hread⟩

end FatFs

end Hausboot
