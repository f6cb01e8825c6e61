import Hausboot.Fat.Super
import Mathlib.Tactic.Ring

/-! # FAT32 Geometry

    Where the parts of a volume lie, in sectors and without bounds: reserved
    area, FATs, data clusters. `Holds` says that a super block has room for so
    many data clusters; then the 32-bit sector arithmetic of
    `ClusterIndex2Sector` is exact on all of them. -/

namespace Hausboot

namespace FatSuper

variable {s : FatSuper}

/-- The first sector behind the reserved area and the FATs. -/
def firstSector (s : FatSuper) : Nat := s.reservedSectors + s.numFats * s.sectorsPerFat

/-- The super block describes a volume of `SectorCount` sectors. -/
structure Describes (s : FatSuper) : Prop where
  sectorsPerCluster_pos : 0 < s.sectorsPerCluster
  numFats_pos : 0 < s.numFats
  area : s.firstSector ≤ s.sectorCount

/-- Reserved area, FATs and `count` data clusters lie inside `SectorCount`. -/
structure Holds (s : FatSuper) (count : Nat) : Prop where
  sectorsPerCluster_pos : 0 < s.sectorsPerCluster
  area : s.firstSector + count * s.sectorsPerCluster ≤ s.sectorCount

/-- The number of data clusters that fit into `SectorCount`. -/
def clusterCount (s : FatSuper) : Nat := (s.sectorCount - s.firstSector) / s.sectorsPerCluster

theorem Describes.holds (h : s.Describes) : s.Holds s.clusterCount := by
  refine ⟨h.sectorsPerCluster_pos, ?_⟩
  have harea := h.area
  have hdiv : s.clusterCount * s.sectorsPerCluster ≤ s.sectorCount - s.firstSector :=
    Nat.div_mul_le_self _ _
  omega

/-- The sectors of the first FAT lie inside `SectorCount`. -/
theorem Describes.fat_lt (h : s.Describes) {i : Nat} (hi : i < s.sectorsPerFat) :
    s.reservedSectors + i < s.sectorCount := by
  have hone : s.sectorsPerFat ≤ s.numFats * s.sectorsPerFat :=
    Nat.le_mul_of_pos_left _ h.numFats_pos
  have harea := h.area
  rw [firstSector] at harea
  omega

namespace Holds

variable {count : Nat}

/-- The sectors of a data cluster lie behind the FATs and inside
    `SectorCount`. -/
theorem sector_lt (h : s.Holds count) {c i : Nat} (hc : c < count + 2) (h2 : 2 ≤ c)
    (hi : i < s.sectorsPerCluster) :
    s.firstSector + (c - 2) * s.sectorsPerCluster + i < s.sectorCount := by
  have hmul : (c - 2 + 1) * s.sectorsPerCluster ≤ count * s.sectorsPerCluster :=
    Nat.mul_le_mul_right _ (by omega)
  rw [Nat.succ_mul] at hmul
  have harea := h.area
  omega

/-- `ClusterIndex2Sector` does not overflow on a data cluster. -/
theorem clusterIndex2Sector_eq (h : s.Holds count) {c : Nat} (hc : c < count + 2) (h2 : 2 ≤ c) :
    s.clusterIndex2Sector c = s.firstSector + (c - 2) * s.sectorsPerCluster := by
  have hlast := h.sector_lt hc h2 h.sectorsPerCluster_pos
  have hcount := s.sectorCount_lt
  have hfats : u32 (s.numFats * s.sectorsPerFat) = s.numFats * s.sectorsPerFat := by
    apply u32_of_lt
    rw [firstSector] at hlast
    omega
  simp only [clusterIndex2Sector, hfats]
  rw [show s.reservedSectors + s.numFats * s.sectorsPerFat = s.firstSector from rfl,
    u32_of_lt (show s.firstSector < 2 ^ 32 by omega)]
  split
  · rw [show c - 2 = 0 by omega]
    omega
  · rw [u32_of_lt (show (c - 2) * s.sectorsPerCluster < 2 ^ 32 by omega),
      u32_of_lt (by omega), Nat.add_comm]

end Holds

end FatSuper

end Hausboot
