import Hausboot.Lib.Bytes
import Hausboot.Types

/-! # The FAT32 Super Block

    `fs/FatSuper.h`: the 512 raw bytes of the boot sector, the fields that
    the programs read from it, and the cluster addressing. Field offsets are
    those of the packed C++ class. -/

open ByteLib

namespace Hausboot

/-- First value of a FAT entry that ends a chain for `fatedit`. -/
def endMark : Nat := 0x0FFFFFF8

structure FatSuper where
  raw : Bytes

namespace FatSuper

/-- The unsigned field of `n` bytes at offset `off`. -/
def field (s : FatSuper) (off n : Nat) : Nat := leNat (slice s.raw off n)

def bytesPerSector (s : FatSuper) : Nat := s.field 11 2

def sectorsPerCluster (s : FatSuper) : Nat := s.field 13 1

def reservedSectors (s : FatSuper) : Nat := s.field 14 2

def numFats (s : FatSuper) : Nat := s.field 16 1

def sectorCount (s : FatSuper) : Nat := s.field 32 4

def sectorsPerFat (s : FatSuper) : Nat := s.field 36 4

def rootDirIndex (s : FatSuper) : Nat := s.field 44 4

def fsInfoIndex (s : FatSuper) : Nat := s.field 48 2

def backupIndex (s : FatSuper) : Nat := s.field 50 2

/-- Cluster number to sector number, in `uint32_t`. Everything up to cluster
    2 is the start of the data area. -/
def clusterIndex2Sector (s : FatSuper) (n : Nat) : Nat :=
  let first := u32 (s.reservedSectors + u32 (s.numFats * s.sectorsPerFat))
  if n ≤ 2 then first
  else u32 (u32 ((n - 2) * s.sectorsPerCluster) + first)

theorem clusterIndex2Sector_lt (s : FatSuper) (n : Nat) : s.clusterIndex2Sector n < 2 ^ 32 := by
  unfold clusterIndex2Sector
  dsimp only
  split
  · exact u32_lt _
  · exact u32_lt _

/-! ## Ranges of the fields -/

theorem field_lt (s : FatSuper) (off n : Nat) : s.field off n < 256 ^ n := by
  have h := leNat_lt (slice s.raw off n)
  have hlen : (slice s.raw off n).length ≤ n := by
    rw [length_slice]
    omega
  exact Nat.lt_of_lt_of_le h (Nat.pow_le_pow_right (by decide) hlen)

theorem bytesPerSector_lt (s : FatSuper) : s.bytesPerSector < 65536 := s.field_lt 11 2

theorem sectorsPerCluster_lt (s : FatSuper) : s.sectorsPerCluster < 256 := s.field_lt 13 1

theorem reservedSectors_lt (s : FatSuper) : s.reservedSectors < 65536 := s.field_lt 14 2

theorem sectorCount_lt (s : FatSuper) : s.sectorCount < 2 ^ 32 := s.field_lt 32 4

theorem sectorsPerFat_lt (s : FatSuper) : s.sectorsPerFat < 2 ^ 32 := s.field_lt 36 4

end FatSuper

end Hausboot
