import Hausboot.FatFs.Partition
import Hausboot.FatFs.Search

/-! # The stage2 FAT Driver: What Lies Behind the Partition

    The driver reads a partition through a device that has sectors behind it as
    well, and that may refuse them. Along chains inside the data area it never
    asks for one, so a search and a read do on the device what they do on the
    partition alone, where nothing fails. -/

open ByteLib ChainLib

namespace Hausboot

/-- The same storage, on a device that never fails. -/
def World.spotless (w : World) : World := { w with fault := fun _ _ => none }

theorem World.not_faulty_spotless (w : World) : ¬ w.spotless.Faulty :=
  fun ⟨_, _, hbad⟩ => hbad rfl

/-- The device delivers the sectors of the volume, as far as the volume goes:
    what is behind `SectorCount` may be anything, and reading it may fail. -/
structure World.Delivers (w : World) (v' v : Volume) : Prop where
  super : v'.super = v.super
  sectorSize : v'.sectorSize = v.sectorSize
  load : ∀ loads lba, lba < v.super.sectorCount → w.loadSector v' loads lba = (true, v.sector lba)

/-- A device that never fails delivers the volume itself. -/
theorem World.Delivers.of_reliable {w : World} (hw : ¬ w.Faulty) (v : Volume) : w.Delivers v v where
  super := rfl
  sectorSize := rfl
  load loads lba _ := by
    rcases FatFs.loadSector_cases w v loads lba with hload | ⟨hbad, -⟩
    · exact hload
    · exact absurd hbad hw

/-- All clusters of a chain lie in the data area. -/
def Volume.Confined (v : Volume) (l : List Nat) : Prop := ∀ c ∈ l, c < v.super.clusterCount + 2

/-- No chain is longer than the data area. -/
theorem Volume.Confined.length_le {v : Volume} {c : Nat} {l : List Nat} (hin : v.Confined l)
    (hch : v.FsChain c l) : l.length ≤ v.super.clusterCount + 2 := by
  have hle := hch.nodup.length_le_of_subset fun x hx => List.mem_range.mpr (hin x hx)
  rwa [List.length_range] at hle

namespace FatFs

variable {w : World} {v v' : Volume} {fs : FatFs}

/-! ## Section 1: One request -/

section Requests

variable (h : w.Delivers v' v)
include h

theorem bytesPerCluster_confined : v'.bytesPerCluster = v.bytesPerCluster := by
  rw [Volume.bytesPerCluster, h.super, h.sectorSize, Volume.bytesPerCluster]

theorem loadSector_confined (loads : List Nat) {lba : Nat} (hlba : lba < v.super.sectorCount) :
    w.loadSector v' loads lba = w.spotless.loadSector v loads lba := h.load loads lba hlba

theorem loadSectors_confined {lba n i : Nat} {fs : FatFs}
    (hlba : ∀ j < n, u32 (lba + (i + j)) < v.super.sectorCount) :
    loadSectors w v' lba i n fs = loadSectors w.spotless v lba i n fs := by
  induction n generalizing i fs with
  | zero => rfl
  | succ n ih =>
    have hfirst : u32 (lba + i) < v.super.sectorCount := hlba 0 (Nat.succ_pos n)
    have hrest : ∀ j < n, u32 (lba + (i + 1 + j)) < v.super.sectorCount := by
      intro j hj
      rw [show i + 1 + j = i + (j + 1) by omega]
      exact hlba (j + 1) (Nat.succ_lt_succ hj)
    rw [loadSectors, loadSectors, loadSector_confined h _ hfirst, h.sectorSize]
    dsimp only
    rw [ih hrest]

theorem loadDataCluster_confined (hsuper : v.super.Describes) {c : Nat}
    (hc : c < v.super.clusterCount + 2) :
    loadDataCluster w v' fs c = loadDataCluster w.spotless v fs c := by
  unfold loadDataCluster
  by_cases h2 : c < 2
  · rw [if_pos h2, if_pos h2]
  rw [if_neg h2, if_neg h2, h.super, loadSectors_confined h]
  intro j hj
  rw [Nat.zero_add]
  have hlt := hsuper.holds.sector_lt hc (Nat.le_of_not_lt h2) hj
  have hcount := v.super.sectorCount_lt
  rwa [hsuper.holds.clusterIndex2Sector_eq hc (Nat.le_of_not_lt h2), u32_of_lt (by omega)]

/-- FAT sectors are checked, so reading an entry never leaves the partition. -/
theorem readFatIndex_confined (hsuper : v.super.Describes) (c : Nat) :
    readFatIndex w v' fs c = readFatIndex w.spotless v fs c := by
  have hload : ∀ s, loadFatSector w v' fs s = loadFatSector w.spotless v fs s := by
    intro s
    unfold loadFatSector
    rw [h.super]
    by_cases hend : s ≥ v.super.sectorsPerFat
    · rw [if_pos hend, if_pos hend]
    · have hlt := hsuper.fat_lt (Nat.lt_of_not_le hend)
      have hcount := v.super.sectorCount_lt
      have hlba : u32 (v.super.reservedSectors + s) < v.super.sectorCount := by
        rwa [u32_of_lt (by omega)]
      dsimp only
      rw [loadSector_confined h _ hlba]
  unfold readFatIndex
  rw [h.sectorSize]
  dsimp only
  rw [hload]

/-! ## Section 2: Searches and reads -/

/-- **A search** along a chain in the data area. Where the windows are right,
    it goes from cluster to cluster of the chain. -/
theorem findLoop_confined (hsuper : v.super.Describes) (name : Bytes) {fuel c : Nat}
    {l : List Nat} (hch : v.FsChain c l) (hin : v.Confined l) (hco : Coherent v fs)
    (buffer : Bytes) :
    findLoop w v' name fuel fs c buffer = findLoop w.spotless v name fuel fs c buffer := by
  have hw := w.not_faulty_spotless
  induction fuel generalizing fs c l buffer with
  | zero => rfl
  | succ fuel ih =>
    unfold findLoop
    cases hch with
    | done hstop => rw [if_pos hstop, if_pos hstop]
    | @link c l hstop hc hch =>
      rw [if_neg hstop, if_neg hstop,
        loadDataCluster_confined h hsuper (hin c List.mem_cons_self)]
      rcases loadDataCluster_spec (w := w.spotless) hco hc.1 (Nat.lt_of_not_le hstop) with
        ⟨fs₁, hload, hco₁, -⟩ | ⟨hbad, -⟩
      swap
      · exact absurd hbad hw
      have hco₂ : Coherent v (readFatIndex w.spotless v fs₁ c).2 :=
        (coherent_serve_iff hco₁ (.entry c)).1.mpr (harmless_reliable hw fs₁ _)
      have hread := readFatIndex_reliable hw hco₁ c
      rw [hload]
      dsimp only
      rw [readFatIndex_confined h hsuper]
      generalize readFatIndex w.spotless v fs₁ c = answer at hco₂ hread ⊢
      obtain ⟨entry, fs₂⟩ := answer
      dsimp only at hco₂ hread
      cases entry with
      | none => rfl
      | some next =>
        -- the entry that was read is the next link of the chain
        have hnext : next = v.fatEntry c := by
          split at hread
          · exact Option.some.inj hread
          · cases hread
        have hentries : windowEntries v' fs₂ = windowEntries v fs₂ := by
          rw [windowEntries, bytesPerCluster_confined h, windowEntries]
        dsimp only
        rw [hentries, hnext]
        cases findEntry name buffer (windowEntries v fs₂) with
        | found e => rfl
        | last => rfl
        | more buffer' =>
          exact ih hch (fun x hx => hin x (List.mem_cons_of_mem _ hx)) hco₂ buffer'

theorem findInDirectory_confined (hsuper : v.super.Describes) {dir : FatFile} {l : List Nat}
    (hch : v.FsChain dir.cluster l) (hin : v.Confined l) (hco : Coherent v fs) (fuel : Nat)
    (name : Bytes) :
    findInDirectory w v' fuel fs dir name = findInDirectory w.spotless v fuel fs dir name := by
  unfold findInDirectory
  rw [findLoop_confined h hsuper name hch hin hco]
  rfl

theorem readCluster_confined (hsuper : v.super.Describes) {c : Nat}
    (hc : c < v.super.clusterCount + 2) (offset size : Nat) (out : Bytes) :
    readCluster w v' fs c offset size out = readCluster w.spotless v fs c offset size out := by
  unfold readCluster
  rw [bytesPerCluster_confined h, loadDataCluster_confined h hsuper hc]

/-- **A read** along a chain in the data area. -/
theorem readLoop_confined (hsuper : v.super.Describes) {fuel c : Nat} {l : List Nat}
    (hch : v.FsChain c l) (hin : v.Confined l) (hco : Coherent v fs) (offset size : Nat)
    (out : Bytes) :
    readLoop w v' fuel fs c offset size out = readLoop w.spotless v fuel fs c offset size out := by
  have hw := w.not_faulty_spotless
  induction fuel generalizing fs c l offset size out with
  | zero => rfl
  | succ fuel ih =>
    unfold readLoop
    by_cases hdone : (size = 0 || c ≥ endOfChain) = true
    · rw [if_pos hdone, if_pos hdone]
    rw [if_neg hdone, if_neg hdone]
    cases hch with
    | done hstop => exact absurd (by simp [hstop]) hdone
    | @link c l hstop hc hch =>
      rw [readCluster_confined h hsuper (hin c List.mem_cons_self)]
      rcases readCluster_spec (w := w.spotless) hco hc (Nat.lt_of_not_le hstop) offset size out
        (v.content l) with ⟨offset', size', d, fs₁, hread, hco₁, -⟩ | ⟨hbad, -⟩
      swap
      · exact absurd hbad hw
      rw [hread]
      dsimp only
      by_cases hleft : size' > 0
      · rw [if_pos hleft, if_pos hleft, readFatIndex_confined h hsuper]
        rcases readFatIndex_spec (w := w.spotless) hco₁ hc with ⟨fs₂, hfat, hco₂, -⟩ | ⟨hbad, -⟩
        · rw [hfat]
          exact ih hch (fun x hx => hin x (List.mem_cons_of_mem _ hx)) hco₂ _ _ _
        · exact absurd hbad hw
      · rw [if_neg hleft, if_neg hleft]
        -- nothing is left, and the loop returns in the next round
        obtain rfl : size' = 0 := by omega
        cases fuel with
        | zero => rfl
        | succ fuel => rfl

theorem readAt_confined (hsuper : v.super.Describes) {finfo : FatFile} {l : List Nat}
    (hch : v.FsChain finfo.cluster l) (hin : v.Confined l) (hco : Coherent v fs)
    (fuel offset size : Nat) :
    readAt w v' fuel fs finfo offset size = readAt w.spotless v fuel fs finfo offset size := by
  unfold readAt
  rw [readLoop_confined h hsuper hch hin hco, readLoop_confined h hsuper hch hin hco]

end Requests

end FatFs

end Hausboot
