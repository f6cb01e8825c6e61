import Hausboot.Agree.Installed
import Hausboot.Bios.Tracks
import Hausboot.Mbr.Handover

/-! # Loader and Tools: From the BIOS to the Files

    The image lies in a partition of a disk. The boot sectors load each other
    by cylinder, head and sector, stage 2 loads sectors by their number; where
    the partition entry says the same in both ways, and the reserved sectors
    are in one track, all of them read the image. What `installfat` and
    `fatedit` have written is thus what stage 2 is entered with, and what it
    finds. -/

open ByteLib

namespace Hausboot

open FatEdit (ByteVec FileTree Ideal ImageShows diskView sessions)

/-! ## Section 1: The disk -/

/-- A disk with an image in the partition that is booted. -/
structure BootDisk (geom : DriveGeometry) (sectors : ℕ → Bytes) (ent : MBREntry)
    (image : ByteVec) : Prop where
  length : ∀ n, (sectors n).length = 512
  entry : (Mbr.table (sectors 0)).find? MBREntry.isBootable = some ent
  /-- Both addresses of the partition say the same. -/
  chs : ent.startAddressCHS = geom.packedCHS ent.startAddressLBA
  holds : ∀ i < (imageSuper image).sectorCount,
    sectors (ent.startAddressLBA + i) = imageSector image i
  inside : ent.startAddressLBA + (imageSuper image).sectorCount ≤ geom.total
  reserved : 0 < (imageSuper image).reservedSectors
  /-- The volume boot record does not calculate beyond the end of a track. -/
  track : ent.startAddressLBA % geom.sectorsPerTrack +
    (2 + Vbr.sectorLimit (imageSuper image)) ≤ geom.sectorsPerTrack

section Disk

variable {answer : Option (ℕ × ℕ)} {geom : DriveGeometry} {bios : Bios} {drive : UInt8}
  {sectors : ℕ → Bytes} {ent : MBREntry} {image : ByteVec} {memory : Store}

/-- Sectors behind one another in the partition. -/
theorem BootDisk.run (hdisk : BootDisk geom sectors ent image) {k n : ℕ}
    (h : k + n ≤ (imageSuper image).sectorCount) :
    ((List.range n).flatMap fun i => sectors (ent.startAddressLBA + k + i)) =
      image.bytes.read (k * 512) (n * 512) := by
  induction n with
  | zero => rw [Nat.zero_mul]; rfl
  | succ n ih =>
    rw [List.range_succ, List.flatMap_append, ih (by omega), List.flatMap_singleton,
      Nat.add_assoc, hdisk.holds (k + n) (by omega), imageSector, Nat.succ_mul, Store.read_add,
      Nat.add_mul]

/-- Where the partition begins. -/
theorem BootDisk.start_lt (hdisk : BootDisk geom sectors ent image)
    (hsuper : (imageSuper image).Describes) : ent.startAddressLBA < geom.total := by
  have hcount : (imageSuper image).reservedSectors ≤ (imageSuper image).sectorCount :=
    Nat.le_trans (Nat.le_add_right _ _) hsuper.area
  have hinside := hdisk.inside
  have hreserved := hdisk.reserved
  omega

variable (hgeom : BiosDisk.readDriveParameters answer = some geom)
  (hspt : geom.sectorsPerTrack ≠ 0) (hreads : ReadsTracks bios.int13 geom drive sectors)
  (hdisk : BootDisk geom sectors ent image) (hsuper : (imageSuper image).Describes)
include hgeom hspt hreads hdisk hsuper

/-- The master boot record loads the first sector of the partition. -/
theorem load_first : BiosDisk.loadSectors bios.int13 drive ent.startAddressCHS 1 =
    some (image.bytes.read 0 512) := by
  obtain ⟨-, hheads, -, -⟩ := readDriveParameters_bounds hgeom
  have hlt := hdisk.start_lt hsuper
  have hcount : (imageSuper image).reservedSectors ≤ (imageSuper image).sectorCount :=
    Nat.le_trans (Nat.le_add_right _ _) hsuper.area
  have hreserved := hdisk.reserved
  have hhas := DriveGeometry.has_position hheads (Nat.pos_of_ne_zero hspt) hlt
  have hposition := packedCHS_position hgeom hspt hlt
  rw [← hposition] at hhas
  have hload := hreads.loadSectors (c := geom.packedCHS ent.startAddressLBA) (Nat.le_refl 1)
    (by decide) hhas (Nat.succ_le_succ hhas.2.2.2)
  rw [hposition, geom.number_position_self, List.range_one, List.flatMap_singleton,
    hdisk.holds 0 (by omega)] at hload
  rw [hdisk.chs, hload, imageSector, Nat.zero_mul]

/-- The volume boot record loads the sectors of stage 2. -/
theorem load_reserved (h3 : 3 ≤ (imageSuper image).reservedSectors) :
    BiosDisk.loadSectors bios.int13 drive (Vbr.source ent) (Vbr.sectorLimit (imageSuper image)) =
      some (image.bytes.read (2 * 512) (Vbr.sectorLimit (imageSuper image) * 512)) := by
  have hcount : (imageSuper image).reservedSectors ≤ (imageSuper image).sectorCount :=
    Nat.le_trans (Nat.le_add_right _ _) hsuper.area
  have hlimit := Vbr.sectorLimit_eq (imageSuper image)
  have htrack := hdisk.track
  have hload := loadSectors_skip hgeom hspt hreads 2 (hdisk.start_lt hsuper)
    (show 1 ≤ Vbr.sectorLimit (imageSuper image) by omega) (by omega) (by omega)
  rw [Vbr.source, hdisk.chs, hload, hdisk.run (by omega)]

/-- **The boot sectors** enter stage 2 exactly if the first sector of the
    partition has its magic number and the volume boot record accepts what it
    loads, and then they hand over the image. -/
theorem bootSectors_iff (hreset : bios.reset drive = true)
    (hmem : memory.read bootSectorLocation 512 = sectors 0) :
    ((∃ entered, bootSectors bios drive memory = .ok entered) ↔
      Mbr.HasMagic (image.bytes.read 0 512) ∧
        Vbr.Enters (Install.readsFrom image.bytes) drive ent image.bytes) ∧
    ∀ entered, bootSectors bios drive memory = .ok entered →
      Vbr.HandsOver entered drive ent image.bytes := by
  have hboot : ent.isBootable = true := List.find?_some hdisk.entry
  obtain ⟨it, hend, hit, hstart⟩ :=
    Mbr.start_find bios drive (hdisk.length 0) hmem hdisk.entry
  have hload := load_first hgeom hspt hreads hdisk hsuper
  rw [Mbr.entryLoop_loads hit hboot hreset hload (Store.length_read _ _ _)] at hstart
  by_cases hmagic : Mbr.HasMagic (image.bytes.read 0 512)
  swap
  · rw [if_neg hmagic] at hstart
    have hrun : bootSectors bios drive memory = .error (.mbr .noMagic) := by
      rw [bootSectors, hstart]
    rw [hrun]
    exact ⟨iff_of_false (fun ⟨_, h⟩ => nomatch h) (fun h => hmagic h.1), fun _ h => nomatch h⟩
  rw [if_pos hmagic] at hstart
  generalize memory.write Mbr.location (sectors 0) = memory₁ at hit hstart
  -- the sector that is loaded does not reach to the table
  have hlen : (image.bytes.read 0 512).length = 512 := Store.length_read _ _ _
  have hent : Mbr.entryAt (memory₁.write bootSectorLocation (image.bytes.read 0 512)) it = ent := by
    rw [← hit, Mbr.entryAt, Store.read_write_disjoint (.inl hend), Mbr.entryAt]
  have hsame := Store.read_write_same memory₁ bootSectorLocation (image.bytes.read 0 512)
  rw [hlen] at hsame
  obtain ⟨hiff, hhands⟩ := Vbr.start_handsOver
    ⟨memory₁.write bootSectorLocation (image.bytes.read 0 512), drive, it⟩ image.bytes hsame hent
    (load_reserved hgeom hspt hreads hdisk hsuper)
  have hrun : ∀ entered, bootSectors bios drive memory = .ok entered ↔
      Vbr.start bios ⟨memory₁.write bootSectorLocation (image.bytes.read 0 512), drive, it⟩ =
        .ok entered := by
    intro entered
    rw [bootSectors, hstart]
    dsimp only
    cases Vbr.start bios ⟨memory₁.write bootSectorLocation (image.bytes.read 0 512), drive, it⟩ with
    | error e => simp
    | ok entered' => simp
  constructor
  · rw [and_iff_right hmagic, ← hiff]
    exact exists_congr hrun
  · intro entered h
    exact hhands entered ((hrun entered).mp h)

/-! ## Section 2: The device of stage 2 -/

omit hgeom hspt hreads hdisk hsuper in
/-- A sector fills its buffer. -/
theorem toSector_of_length {bs : Bytes} (h : bs.length = 512) : toSector bs = bs := by
  rw [toSector, List.take_left' h]

end Disk

namespace BIOSBlockDevice

/-- The sectors that a device has, behind a super block. -/
def volume (dev : BIOSBlockDevice) (int13 : Int13) (super : FatSuper) : Volume where
  super := super
  sectorSize := 512
  sector lba := toSector ((dev.loadSector int13 lba).getD [])
  sectorSize_lt := sectorBytes_lt
  length_sector lba := by
    unfold toSector
    rw [List.length_take, List.length_append, List.length_replicate]
    omega

/-- Where a read fails, the buffer holds anything. -/
def world (dev : BIOSBlockDevice) (int13 : Int13) (junk : ℕ → Bytes)
    (uninit : Storage → List ℕ → Bytes) : World where
  fault _ lba := if (dev.loadSector int13 lba).isSome then none else some (junk lba)
  uninit := uninit

/-- **The block device** delivers the image in its partition. -/
theorem delivers {answer : Option (ℕ × ℕ)} {geom : DriveGeometry} {int13 : Int13} {drive : UInt8}
    {sectors : ℕ → Bytes} {ent : MBREntry} {image : ByteVec}
    (hgeom : BiosDisk.readDriveParameters answer = some geom) (hspt : geom.sectorsPerTrack ≠ 0)
    (hreads : ReadsTracks int13 geom drive sectors) (hdisk : BootDisk geom sectors ent image) :
    ∃ dev, new answer drive ent.startAddressLBA = some dev ∧
      ∀ junk uninit, (dev.world int13 junk uninit).Delivers
        (dev.volume int13 (imageSuper image)) (imageVolume image) := by
  have hnew : new answer drive ent.startAddressLBA = some ⟨geom, ent.startAddressLBA, drive⟩ := by
    rw [new, hgeom, Option.map_some]
  refine ⟨_, hnew, fun junk uninit => ⟨rfl, rfl, fun loads lba hlba => ?_⟩⟩
  have hlba : lba < (imageSuper image).sectorCount := hlba
  have hinside := hdisk.inside
  rw [DriveGeometry.total, Nat.mul_assoc] at hinside
  have hload := loadSector_inside hnew hspt hreads.readsSectors
    (show ent.startAddressLBA + lba < geom.cylinders * geom.perCylinder from
      Nat.lt_of_lt_of_le (Nat.add_lt_add_left hlba _) hinside)
  rw [hdisk.holds lba hlba] at hload
  have hlen : (imageSector image lba).length = 512 := Store.length_read _ _ _
  rw [World.loadSector]
  simp only [world, volume, hload, Option.isSome_some, if_true, Option.getD_some,
    toSector_of_length hlen, imageVolume_sector]

end BIOSBlockDevice

/-! ## Section 3: From the tools to the running loader -/

namespace Install

variable {h : Host} {super : FatSuper} {fsinfo : Bytes} {s : State} {image' : ByteVec}
  {loc : ℕ → ℕ} {t : FileTree}

/-- The magic number of the image stays. -/
theorem magic_newSuper (hlen : super.raw.length = 512) (vbr : Bytes) :
    slice (newSuper super vbr).raw 510 2 = slice super.raw 510 2 := by
  have h1 := length_setBackupIndex hlen 0
  have h2 := length_setFsInfoIndex h1 1
  have h3 := length_setOEMName h2 (str "Goliath")
  have h4 := length_code h3 vbr
  have hcode := length_splice h4
  rw [newSuper, FatSuper.setBootCode, slice_splice_after (by rw [hcode, h3]; decide) (by decide),
    slice_splice_after h4 (by rw [List.length_take]; omega), FatSuper.setOEMName,
    slice_splice_after (by rw [h2, FatDirent.length_fixedLength]; decide)
      (by rw [FatDirent.length_fixedLength]; decide), FatSuper.setFsInfoIndex,
    slice_splice_after (by rw [h1, length_leBytes]; decide) (by rw [length_leBytes]; decide),
    FatSuper.setBackupIndex,
    slice_splice_after (by rw [hlen, length_leBytes]; decide) (by rw [length_leBytes]; decide)]

def bootEntry : MBREntry := ⟨[0x80, 0, 2, 0, 0x0C, 0, 16, 0] ++ leBytes 4 1 ++ leBytes 4 15⟩

def mbrSector : Bytes :=
  List.replicate 446 0 ++ bootEntry.raw ++ List.replicate 48 0 ++ leBytes 2 0xAA55

def diskSectors (image : ByteVec) (n : ℕ) : Bytes :=
  if n = 0 then mbrSector else imageSector image (n - 1)

def bootBios (image : ByteVec) : Bios where
  reset _ := true
  int13 := trackFirmware ⟨1, 1, 63⟩ (diskSectors image)

/-- The BIOS has loaded the first sector. -/
def bootMemory : Store := Store.write (fun _ => 0) bootSectorLocation mbrSector

set_option maxRecDepth 3000

theorem read_bootMemory : bootMemory.read bootSectorLocation 512 = mbrSector := by
  have hsame := Store.read_write_same (fun _ => 0) bootSectorLocation mbrSector
  have hlen : mbrSector.length = 512 := by decide
  simpa only [hlen, bootMemory] using hsame

theorem bootDisk_of_super {image : ByteVec} (hcount : (imageSuper image).sectorCount = 15)
    (hreserved : (imageSuper image).reservedSectors = 8) :
    BootDisk ⟨1, 1, 63⟩ (diskSectors image) bootEntry image where
  length n := by
    unfold diskSectors
    split
    · decide
    · exact Store.length_read _ _ _
  entry := by
    show (Mbr.table mbrSector).find? MBREntry.isBootable = some bootEntry
    rfl
  chs := by rfl
  holds i _ := by
    have hstart : bootEntry.startAddressLBA = 1 := rfl
    rw [hstart, diskSectors, if_neg (by omega), Nat.add_sub_cancel_left]
  inside := by
    rw [hcount]
    decide
  reserved := by
    rw [hreserved]
    decide
  track := by
    rw [Vbr.sectorLimit_eq, hreserved]
    decide

end Install

end Hausboot
