import Hausboot.Fat.Geometry
import Hausboot.FatEdit.Model

/-! # The fatedit Tool: Cluster Addresses

    `ClusterFileOffset` returns 64 bits, but both factors of its product have
    32: the offset is taken modulo 2 ^ 32. So the addresses are right exactly
    on the volumes whose last cluster starts below 4 GiB. -/

open ByteLib

namespace Hausboot.FatEdit

variable {super : FatSuper} {count : Nat}

/-- The addresses of the data clusters are exact, the byte ranges of different
    clusters are disjoint, and all sectors of the reserved area and of the FATs
    end in front of them. -/
structure ExactAddresses (super : FatSuper) (count : Nat) : Prop where
  exact : ∀ n, 2 ≤ n → n < count + 2 → clusterFileOffset super n =
    (super.reservedSectors + super.numFats * super.sectorsPerFat +
      (n - 2) * super.sectorsPerCluster) * super.bytesPerSector
  disjoint : ∀ m n, 2 ≤ m → m < count + 2 → 2 ≤ n → n < count + 2 → m ≠ n →
    clusterFileOffset super m + bytesPerCluster super ≤ clusterFileOffset super n ∨
    clusterFileOffset super n + bytesPerCluster super ≤ clusterFileOffset super m
  apart : ∀ n, 2 ≤ n → n < count + 2 →
    ∀ sector < super.reservedSectors + super.numFats * super.sectorsPerFat,
      (sector + 1) * super.bytesPerSector ≤ clusterFileOffset super n

/-- Without bounds, the offset of a data cluster. -/
def clusterOffset (super : FatSuper) (n : Nat) : Nat :=
  (super.firstSector + (n - 2) * super.sectorsPerCluster) * super.bytesPerSector

/-- The code computes the offset modulo 2 ^ 32. -/
theorem clusterFileOffset_eq_u32 (h : super.Holds count) {n : Nat} (h2 : 2 ≤ n)
    (hn : n < count + 2) : clusterFileOffset super n = u32 (clusterOffset super n) := by
  rw [clusterFileOffset, h.clusterIndex2Sector_eq hn h2, clusterOffset]

theorem clusterOffset_mono {m n : Nat} (hmn : m ≤ n) :
    clusterOffset super m ≤ clusterOffset super n := by
  apply Nat.mul_le_mul_right
  exact Nat.add_le_add_left (Nat.mul_le_mul_right _ (by omega)) _

/-- The next cluster starts where a cluster ends. -/
theorem clusterOffset_succ {n : Nat} (h2 : 2 ≤ n) :
    clusterOffset super (n + 1) = clusterOffset super n + bytesPerCluster super := by
  rw [clusterOffset, clusterOffset, bytesPerCluster, show n + 1 - 2 = n - 2 + 1 by omega]
  ring

theorem exactAddresses_of_lt
    (hexact : ∀ n, 2 ≤ n → n < count + 2 → clusterFileOffset super n = clusterOffset super n) :
    ExactAddresses super count where
  exact := hexact
  disjoint := by
    intro m n hm2 hm hn2 hn hne
    rw [hexact m hm2 hm, hexact n hn2 hn]
    rcases Nat.lt_or_gt_of_ne hne with hlt | hlt
    · left
      rw [← clusterOffset_succ hm2]
      exact clusterOffset_mono hlt
    · right
      rw [← clusterOffset_succ hn2]
      exact clusterOffset_mono hlt
  apart := by
    intro n h2 hn sector hsector
    rw [hexact n h2 hn]
    apply Nat.mul_le_mul_right
    rw [FatSuper.firstSector]
    omega

/-- **Cluster addressing**: on a volume with `count` data clusters, the
    addresses are exact, disjoint and behind the FATs if and only if the last
    cluster starts below 4 GiB. -/
theorem exactAddresses_iff (h : super.Holds count) :
    ExactAddresses super count ↔ count = 0 ∨ clusterOffset super (count + 1) < 2 ^ 32 := by
  constructor
  · intro hexact
    rcases Nat.eq_zero_or_pos count with hzero | hcount
    · exact .inl hzero
    · right
      have hlast := hexact.exact (count + 1) (by omega) (by omega)
      rw [clusterFileOffset_eq_u32 h (by omega) (by omega)] at hlast
      rw [show clusterOffset super (count + 1) = u32 (clusterOffset super (count + 1)) from
        hlast.symm]
      exact u32_lt _
  · intro hcond
    apply exactAddresses_of_lt
    intro n h2 hn
    rw [clusterFileOffset_eq_u32 h h2 hn]
    apply u32_of_lt
    rcases hcond with hzero | hlast
    · omega
    · exact Nat.lt_of_le_of_lt (clusterOffset_mono (by omega)) hlast

/-- A volume of 8 GiB with clusters of 64 KiB. -/
def largeSuper : FatSuper where
  raw := List.replicate 11 0 ++ leBytes 2 512 ++ leBytes 1 128 ++ leBytes 2 32 ++ leBytes 1 2 ++
    List.replicate 15 0 ++ leBytes 4 16777216 ++ leBytes 4 1024 ++ List.replicate 4 0 ++
    leBytes 4 2 ++ leBytes 2 1 ++ List.replicate 462 0

/-- Half of its clusters are in reach of 32 bits. -/
theorem exactAddresses_half : ExactAddresses largeSuper 65000 := by
  have hholds : largeSuper.Holds 65000 := ⟨by decide, by decide⟩
  exact (exactAddresses_iff hholds).mpr (.inr (by decide))

/-- On the 8 GiB volume, data for cluster 65522 goes to the start of the
    first FAT. -/
theorem cluster_over_fat :
    largeSuper.Holds 131055 ∧ 0 < largeSuper.bytesPerSector ∧
    clusterFileOffset largeSuper 65522 = largeSuper.reservedSectors * largeSuper.bytesPerSector ∧
    ¬ ExactAddresses largeSuper 131055 := by
  have hover : clusterFileOffset largeSuper 65522 =
      largeSuper.reservedSectors * largeSuper.bytesPerSector := by decide
  refine ⟨⟨by decide, by decide⟩, by decide, hover, ?_⟩
  intro hexact
  -- the first sector of the FAT is the one that the cluster starts in
  have hapart := hexact.apart 65522 (by decide) (by decide) largeSuper.reservedSectors
    (by decide)
  rw [hover] at hapart
  exact absurd hapart (by decide)

end Hausboot.FatEdit
