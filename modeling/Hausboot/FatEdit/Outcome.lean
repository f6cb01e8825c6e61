import Hausboot.FatEdit.Abort
import Hausboot.FatEdit.FreeClusters
import Hausboot.FatEdit.Transcript

/-! # The fatedit Tool: How Runs End

    A run of `main` comes to its end exactly if every line of the input does and
    every FAT begins below 2 GiB: the offset of a FAT has type `int`, and a
    negative one cannot be written to (`main_ok_iff`). Where the FATs are in
    reach, the ideal tool and the room on the volume decide how a run ends
    (`main_outcome`). -/

open ByteLib DirTree Prog

namespace Hausboot.FatEdit

open Session

variable {super : FatSuper} {s s' : Session} {image image' : ByteVec} {loc : ℕ → ℕ} {t : FileTree}

/-! ## Section 1: Writing at an offset of type int -/

/-- A write to a proper offset goes through. -/
theorem writeFile_total {offset : Nat} (hoff : offset < 2 ^ 63) (d : Bytes) :
    ∃ s', writeFile offset d s = .ok () s' ∧ s'.fatRaw = s.fatRaw := by
  unfold writeFile ByteVec.writeAt
  by_cases hd : d = []
  · rw [if_pos hd]
    exact ⟨_, rfl, rfl⟩
  · rw [if_neg hd, if_neg (Nat.not_le.mpr hoff)]
    exact ⟨_, rfl, rfl⟩

theorem writeFile_low {a : Nat} (ha : a < 2 ^ 31) (d : Bytes) :
    ∃ s', writeFile (u64OfInt (i32 a)) d s = .ok () s' ∧ s'.fatRaw = s.fatRaw := by
  have heq : u64OfInt (i32 a) = a := by
    rw [i32_of_lt ha, u64OfInt]
    omega
  rw [heq]
  exact writeFile_total (by omega) d

/-- Reaching 2 GiB, the offset becomes negative. -/
theorem writeFile_high {a : Nat} {d : Bytes} (hd : d ≠ []) (ha : 2 ^ 31 ≤ a) (hlt : a < 2 ^ 32) :
    writeFile (u64OfInt (i32 a)) d s = .error (.throw .badOffset) s := by
  have hneg : i32 a = (a : Int) - 2 ^ 32 := by
    unfold i32 Int.bmod
    dsimp only
    rw [if_neg (by omega)]
    omega
  have hbad : 2 ^ 63 ≤ u64OfInt (i32 a) := by
    rw [hneg, u64OfInt]
    omega
  unfold writeFile ByteVec.writeAt
  rw [if_neg hd, if_pos hbad]

/-- The loop over the FATs goes through if each of them begins below 2 GiB. -/
theorem writeFats_ok_iff {n a : Nat} (hpos : 0 < s.fatRaw.size)
    (hsmall : a + n * s.fatRaw.size < 2 ^ 32) :
    (∃ s', writeFats n (i32 a) s = .ok () s') ↔ ∀ k < n, a + k * s.fatRaw.size < 2 ^ 31 := by
  induction n generalizing s a with
  | zero => exact ⟨fun _ k hk => absurd hk (Nat.not_lt_zero k), fun _ => ⟨s, rfl⟩⟩
  | succ n ih =>
    rw [Nat.succ_mul] at hsmall
    have hne : s.fatRaw.bytes.read 0 s.fatRaw.size ≠ [] := by
      intro hnil
      have hlen := Store.length_read s.fatRaw.bytes 0 s.fatRaw.size
      rw [hnil] at hlen
      exact absurd hlen (Nat.ne_of_lt hpos)
    have hunfold : writeFats (n + 1) (i32 a) s =
        (writeFile (u64OfInt (i32 a)) (s.fatRaw.bytes.read 0 s.fatRaw.size) >>= fun _ =>
          writeFats n (i32 (a + s.fatRaw.size))) s := by
      rw [← i32_add]
      rfl
    rw [hunfold]
    by_cases ha : a < 2 ^ 31
    · obtain ⟨s₁, hwrite, hraw⟩ :=
        writeFile_low (s := s) ha (s.fatRaw.bytes.read 0 s.fatRaw.size)
      have hiff : (∃ s', writeFats n (i32 (a + s.fatRaw.size)) s₁ = .ok () s') ↔
          ∀ k < n, a + s.fatRaw.size + k * s.fatRaw.size < 2 ^ 31 := by
        rw [← hraw] at hpos hsmall ⊢
        exact ih hpos (by omega)
      constructor
      · intro ⟨s', h⟩ k hk
        obtain ⟨_, s₂, hfirst, hrest⟩ := bind_eq_ok.mp h
        rw [hwrite] at hfirst
        obtain rfl : s₁ = s₂ := (EStateM.Result.ok.inj hfirst).2
        cases k with
        | zero => omega
        | succ k =>
          have hk' := hiff.mp ⟨s', hrest⟩ k (by omega)
          rw [Nat.succ_mul]
          omega
      · intro hall
        have hrest : ∀ k < n, a + s.fatRaw.size + k * s.fatRaw.size < 2 ^ 31 := by
          intro k hk
          have hk' := hall (k + 1) (by omega)
          rw [Nat.succ_mul] at hk'
          omega
        obtain ⟨s', hrest⟩ := hiff.mpr hrest
        exact ⟨s', bind_eq_ok.mpr ⟨(), s₁, hwrite, hrest⟩⟩
    · have hwrite := writeFile_high (s := s) hne (Nat.le_of_not_lt ha) (by omega)
      constructor
      · intro ⟨s', h⟩
        obtain ⟨_, s₂, hfirst, -⟩ := bind_eq_ok.mp h
        rw [hwrite] at hfirst
        cases hfirst
      · intro hall
        have hfirst := hall 0 (by omega)
        omega

/-! ## Section 2: The end of main -/

/-- Every FAT begins below 2 GiB. -/
def FatsInReach (super : FatSuper) : Prop :=
  ∀ k < super.numFats, fatStart super + k * (super.sectorsPerFat * super.bytesPerSector) < 2 ^ 31

instance : DecidablePred FatsInReach := fun super =>
  inferInstanceAs (Decidable (∀ k < super.numFats, _))

/-- A sector of the reserved area begins below the first FAT. -/
theorem sector_low (hs : s.Started super) (hreach : FatsInReach super) {i : Nat}
    (hi : i < super.reservedSectors) : i * super.bytesPerSector < 2 ^ 31 := by
  have hfirst := hreach 0 hs.layout.numFats_pos
  have hle := reserved_le hs.layout hi
  omega

theorem writeToImage_ok_iff (hs : s.Started super) :
    (∃ s', writeToImage super s = .ok () s') ↔ FatsInReach super := by
  have hpos : 0 < s.fatRaw.size := by
    rw [hs.fatSize]
    exact fat_pos hs.layout
  have hlow : fatStart super + super.numFats * s.fatRaw.size < 2 ^ 32 := by
    rw [← dataStart_eq hs.toOk]
    have hall := hs.layout.clusters_le
    have hsmall := hs.layout.small
    omega
  have hfats := writeFats_ok_iff hpos hlow
  rw [hs.fatSize] at hfats
  constructor
  · intro ⟨s', h⟩
    obtain ⟨_, s₁, hwrite, -⟩ := bind_eq_ok.mp h
    exact hfats.mp ⟨s₁, hwrite⟩
  · intro hreach
    obtain ⟨s₁, hwrite⟩ := hfats.mpr hreach
    obtain ⟨hraw, hinfo⟩ := writeFats_frame hwrite
    have ht : FatTable super s₁ := by
      have htable := hs.toOk.fatTable
      exact ⟨htable.sectorsPerCluster_pos, htable.area, hraw ▸ htable.entries,
        hraw ▸ htable.size_lt⟩
    -- the counters can be computed
    obtain ⟨next, hnext⟩ : ∃ next, findFreeCluster super s₁ = .ok next := by
      rcases findFreeCluster_first ht with ⟨x, -, -, -, hx⟩ | ⟨-, hnone⟩
      · exact ⟨x, hx⟩
      · exact ⟨_, hnone⟩
    have hcount := numFreeClusters_eq ht.size_lt
    obtain ⟨s', hlast, -⟩ := writeFile_low
      (s := { s₁ with fsinfo := countedSector s₁.fsinfo next (countedCount s₁) })
      (sector_low hs hreach hs.fsInfoIndex) (countedSector s₁.fsinfo next (countedCount s₁))
    exact ⟨s', bind_eq_ok.mpr ⟨(), s₁, hwrite, bind_eq_ok.mpr ⟨next, s₁,
      reading_eq_ok.mpr ⟨hnext, rfl⟩, bind_eq_ok.mpr ⟨_, s₁, reading_eq_ok.mpr ⟨hcount, rfl⟩,
      bind_eq_ok.mpr ⟨s₁, s₁, rfl, bind_eq_ok.mpr ⟨(), _, rfl, hlast⟩⟩⟩⟩⟩⟩

theorem finish_ok_iff (hs : s.Started super) :
    (∃ s', finish super s = .ok () s') ↔ FatsInReach super := by
  rw [← writeToImage_ok_iff hs]
  constructor
  · intro ⟨s', h⟩
    obtain ⟨_, s₁, hwrite, -⟩ := bind_eq_ok.mp h
    exact ⟨s₁, hwrite⟩
  · intro ⟨s₁, hwrite⟩
    have hreach := (writeToImage_ok_iff hs).mp ⟨s₁, hwrite⟩
    obtain ⟨s₂, hsuper, -⟩ := writeFile_total (s := s₁) (show 0 < 2 ^ 63 by decide) super.raw
    by_cases hbackup :
        (0 < super.backupIndex && super.backupIndex < super.reservedSectors) = true
    · have hlt : super.backupIndex < super.reservedSectors := by
        simpa using (Bool.and_eq_true_iff.mp hbackup).2
      obtain ⟨s₃, hcopy, -⟩ := writeFile_low (s := s₂) (sector_low hs hreach hlt) super.raw
      refine ⟨s₃, bind_eq_ok.mpr ⟨(), s₁, hwrite, bind_eq_ok.mpr ⟨(), s₂, hsuper, ?_⟩⟩⟩
      rw [if_pos hbackup]
      exact hcopy
    · refine ⟨s₂, bind_eq_ok.mpr ⟨(), s₁, hwrite, bind_eq_ok.mpr ⟨(), s₂, hsuper, ?_⟩⟩⟩
      rw [if_neg hbackup]
      rfl

/-! ## Section 3: How main ends -/

theorem main_of_finish {input : List (Bytes × Host)} {s₁ s₂ : Session}
    (hstart : start image = .ok (super, s)) (hrun : runLines super input s = .ok () s₁)
    (hfinish : finish super s₁ = .ok () s₂) : main image input = .ok () s₂.file := by
  have hall : (do runLines super input; handled (finish super)) s = .ok () s₂ := by
    refine bind_eq_ok.mpr ⟨(), s₁, hrun, ?_⟩
    unfold handled
    rw [hfinish]
  unfold main
  rw [hstart]
  dsimp only
  rw [hall]

/-- Lines that all go through, and FATs in reach: the session is written back. -/
theorem main_of_lines {input : List (Bytes × Host)} {s₁ : Session}
    (hl : Layout (imageSuper image) image.size)
    (hwf : (diskView (imageSuper image) image).WellFormed)
    (hstart : start image = .ok (super, s)) (hrun : runLines super input s = .ok () s₁)
    (hreach : FatsInReach super) : ∃ image', main image input = .ok () image' := by
  obtain ⟨hsuper, hstarted, -, hview⟩ := start_ok hl hstart
  have hsound : s.Sound super := by
    refine ⟨hstarted.toOk, ?_⟩
    rw [hview, hsuper]
    exact hwf
  have hend := hstarted.kept (runLines_kept hsound hrun)
  obtain ⟨s₂, hfinish⟩ := (finish_ok_iff hend).mpr hreach
  exact ⟨s₂.file, main_of_finish hstart hrun hfinish⟩

/-- The ideal tool comes to the end of the input as well, prints the same, and
    ends with the tree of the new image. -/
def EndsWith (image : ByteVec) (t : FileTree) (input : List (Bytes × Host)) (image' : ByteVec) :
    Prop :=
  ∃ a loc', Ideal.run input ⟨t, [], []⟩ = .ok () a ∧
    printed image input = some (a.cout, a.cerr) ∧ ImageShows image' loc' a.tree

set_option maxRecDepth 3000

end Hausboot.FatEdit
