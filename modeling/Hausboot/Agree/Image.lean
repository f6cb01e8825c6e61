import Hausboot.Agree.Chains
import Hausboot.Fat.Geometry
import Hausboot.FatEdit.View

/-! # Loader and Tool: One Image

    `fatedit` works on an image file; stage2 on a block device with 512-byte
    sectors. Here both look at the same image: the clusters of the device are
    where `fatedit` would like to find them, and the FAT that `fatedit` loads
    has the entries that stage2 reads. -/

open ByteLib

namespace Hausboot

open FatEdit (ByteVec Session)

def imageSector (image : ByteVec) (lba : Nat) : Bytes := image.bytes.read (lba * 512) 512

/-- The image as a block device. -/
def imageVolume (image : ByteVec) : Volume where
  super := imageSuper image
  sectorSize := 512
  sector := imageSector image
  sectorSize_lt := sectorBytes_lt
  length_sector lba := by rw [imageSector, Store.length_read]

@[simp] theorem imageVolume_super (image : ByteVec) :
    (imageVolume image).super = imageSuper image := rfl

@[simp] theorem imageVolume_sectorSize (image : ByteVec) : (imageVolume image).sectorSize = 512 := rfl

@[simp] theorem imageVolume_sector (image : ByteVec) :
    (imageVolume image).sector = imageSector image := by
  simp only [imageVolume]

/-- An image of a volume with 512-byte sectors. -/
structure ImageOk (image : ByteVec) : Prop where
  describes : (imageSuper image).Describes
  bytesPerSector : (imageSuper image).bytesPerSector = 512

namespace ImageOk

variable {image : ByteVec}

theorem bytesPerCluster_eq (h : ImageOk image) :
    (imageVolume image).bytesPerCluster = FatEdit.bytesPerCluster (imageSuper image) := by
  rw [FatEdit.bytesPerCluster, h.bytesPerSector]
  rfl

theorem bytesPerCluster_pos (h : ImageOk image) : 0 < (imageVolume image).bytesPerCluster :=
  Nat.mul_pos h.describes.sectorsPerCluster_pos (by show 0 < 512; decide)

/-- Neighbouring sectors are a window of the image. -/
theorem sectors_eq (image : ByteVec) {lba n : Nat} (h : lba + n ≤ 2 ^ 32) :
    (imageVolume image).sectors lba n = image.bytes.read (lba * 512) (n * 512) := by
  induction n with
  | zero => rfl
  | succ n ih =>
    rw [Volume.sectors_succ, ih (by omega), Nat.succ_mul, Store.read_add, u32_of_lt (by omega),
      imageVolume_sector, imageSector, Nat.add_mul]

/-- A data cluster of the device is where its offset points. -/
theorem cluster_eq (h : ImageOk image) {c : Nat} (hc : c < (imageSuper image).clusterCount + 2)
    (h2 : 2 ≤ c) :
    (imageVolume image).cluster c =
      image.bytes.read (FatEdit.clusterOffset (imageSuper image) c)
        (FatEdit.bytesPerCluster (imageSuper image)) := by
  have hpos := h.describes.sectorsPerCluster_pos
  have hlast := h.describes.holds.sector_lt hc h2
    (show (imageSuper image).sectorsPerCluster - 1 < _ by omega)
  have hcount := (imageSuper image).sectorCount_lt
  have hsector := h.describes.holds.clusterIndex2Sector_eq hc h2
  rw [Volume.cluster, imageVolume_super, hsector,
    sectors_eq image (by omega), FatEdit.clusterOffset, FatEdit.bytesPerCluster, h.bytesPerSector]

theorem fatSector_eq (h : ImageOk image) {i : Nat} (hi : i < (imageSuper image).sectorsPerFat) :
    (imageVolume image).fatSector i =
      image.bytes.read ((imageSuper image).reservedSectors * 512 + i * 512) 512 := by
  have hlt := h.describes.fat_lt hi
  have hcount := (imageSuper image).sectorCount_lt
  rw [Volume.fatSector, imageVolume_super, u32_of_lt (by omega), imageVolume_sector, imageSector, Nat.add_mul]

/-- The FAT entry of a cluster is where its index points. -/
theorem fatEntry_eq (h : ImageOk image) {c : Nat} (hc : (imageVolume image).InTable c) :
    (imageVolume image).fatEntry c =
      image.bytes.readLE ((imageSuper image).reservedSectors * 512 + u32 (c * 4)) 4 := by
  have hroom : u32 (c * 4) % 512 + 4 ≤ 512 := by
    rw [u32]
    omega
  have hsector : u32 (c * 4) / 512 < (imageSuper image).sectorsPerFat := hc
  have hsplit : u32 (c * 4) / 512 * 512 + u32 (c * 4) % 512 = u32 (c * 4) := Nat.div_add_mod' _ _
  rw [Volume.fatEntry, imageVolume_sectorSize, h.fatSector_eq hsector, Store.slice_read _ hroom,
    Nat.add_assoc, hsplit, Store.readLE]

/-- What `LoadFromImage` loads: the image, and the FAT as long as its size fits
    into 32 bits. -/
theorem load_spec (h : ImageOk image) {s : Session}
    (hload : FatEdit.loadFromImage (imageSuper image) image = .ok s) :
    s.file = image ∧ ∀ i n, i + n ≤ s.fatRaw.size → s.fatRaw.bytes.read i n =
      image.bytes.read ((imageSuper image).reservedSectors * 512 + i) n := by
  have hreserved := (imageSuper image).reservedSectors_lt
  obtain ⟨raw, hraw, hfile, hbytes, hsize⟩ := FatEdit.loadFromImage_ok hload
  refine ⟨hfile, ?_⟩
  intro i n hin
  rw [hsize] at hin
  have hoff : FatEdit.u64OfInt (i32 ((imageSuper image).reservedSectors * 512)) =
      (imageSuper image).reservedSectors * 512 := by
    rw [i32_of_lt (by omega), FatEdit.u64OfInt]
    omega
  rw [h.bytesPerSector, hoff] at hraw
  rw [h.bytesPerSector] at hin
  rw [hbytes, FatEdit.readAt_ok hraw, Store.read_write_copy _ _ hin]

/-- Where `fatedit` finds a FAT entry, it is the low part of what stage2
    reads. -/
theorem next_eq (h : ImageOk image) {s : Session}
    (hload : FatEdit.loadFromImage (imageSuper image) image = .ok s) {c e : Nat}
    (hc : (imageVolume image).InTable c) (hnext : FatEdit.nextClusterInFile s c = .ok e) :
    e = (imageVolume image).fatEntry c % 2 ^ 28 := by
  obtain ⟨-, hbytes⟩ := h.load_spec hload
  unfold FatEdit.nextClusterInFile at hnext
  dsimp only at hnext
  split at hnext
  · next hin =>
    cases hnext
    rw [h.fatEntry_eq hc, Store.readLE, Store.readLE, hbytes _ _ (by omega)]
  · cases hnext

end ImageOk

end Hausboot
