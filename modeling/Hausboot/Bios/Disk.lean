import Hausboot.Bios.CHSPacked
import Hausboot.Stage2.Model

/-! # The BIOS Disk

    `BIOS/BiosDisk.h` and `BIOS/BIOSBlockDevice.h`: a sector index is added to
    the start of the partition in 32 bits, taken apart into cylinder, head and
    sector, and packed into the registers of the firmware. The cylinder field
    has ten bits and the code does not look whether a cylinder fits. -/

open ByteLib

namespace Hausboot

/-! ## Section 1: The code -/

/-- Interrupt 0x13 with these values in `%ax`, `%cx` and `%dx`: the bytes that
    it stores to the buffer, or `none` where it sets the carry flag. -/
abbrev Int13 : Type := Nat → Nat → Nat → Option Bytes

/-- `BiosDisk::LoadSectors` -/
def BiosDisk.loadSectors (int13 : Int13) (driveNum : UInt8) (source : CHSPacked) (count : Nat) :
    Option Bytes :=
  let dx := (source.head <<< 8) ||| driveNum.toNat
  let cx := u16 ((source.cylinder <<< 8) ||| ((source.cylinder &&& 0x0300) >>> 2) ||| source.sector)
  int13 (0x0200 ||| count) cx dx

/-- `LBA2CHS` -/
def DriveGeometry.packedCHS (geom : DriveGeometry) (lba : Nat) : CHSPacked :=
  ((CHSPacked.zero.setCylinder
      (u16 (lba / u32 (geom.headsPerCylinder * geom.sectorsPerTrack)))).setHead
    (lba / geom.sectorsPerTrack % geom.headsPerCylinder)).setSector (lba % geom.sectorsPerTrack + 1)

/-- `ReadDriveParameters`, from the values that the firmware returns in `%cx`
    and `%dx`. -/
def BiosDisk.readDriveParameters (answer : Option (Nat × Nat)) : Option DriveGeometry :=
  answer.map fun (cxOut, dxOut) =>
    { cylinders := (((cxOut &&& 0x0C0) <<< 2) ||| ((cxOut >>> 8) &&& 0x0FF)) + 1
      headsPerCylinder := ((dxOut >>> 8) &&& 0x0FF) + 1
      sectorsPerTrack := cxOut &&& 0x3F }

/-- An initialised `BIOSBlockDevice`. -/
structure BIOSBlockDevice where
  geometry : DriveGeometry
  partStart : Nat
  disk : UInt8

namespace BIOSBlockDevice

/-- The constructor; `none` where it leaves the device uninitialised. -/
def new (answer : Option (Nat × Nat)) (disk : UInt8) (offset : Nat) : Option BIOSBlockDevice :=
  (BiosDisk.readDriveParameters answer).map fun geometry =>
    { geometry := geometry, partStart := offset, disk := disk }

/-- `LoadSector` -/
def loadSector (dev : BIOSBlockDevice) (int13 : Int13) (index : Nat) : Option Bytes :=
  BiosDisk.loadSectors int13 dev.disk (dev.geometry.packedCHS (u32 (dev.partStart + index))) 1

end BIOSBlockDevice

/-! ## Section 2: The firmware -/

/-- A position on the disk. -/
structure Position where
  cylinder : Nat
  head : Nat
  sector : Nat

/-- What `%cx` and `%dh` address: the low bits of the cylinder are in `%ch`, its
    high bits above the sector in `%cl`. -/
def Position.ofRegisters (cx dx : Nat) : Position where
  cylinder := cx / 64 % 4 * 256 + cx / 256
  head := dx / 256
  sector := cx % 64

namespace DriveGeometry

variable (geom : DriveGeometry)

/-- The disk has the position. Sectors count from one. -/
def Has (p : Position) : Prop :=
  p.cylinder < geom.cylinders ∧ p.head < geom.headsPerCylinder ∧
    1 ≤ p.sector ∧ p.sector ≤ geom.sectorsPerTrack

instance (p : Position) : Decidable (geom.Has p) :=
  inferInstanceAs (Decidable (_ ∧ _ ∧ _ ∧ _))

/-- The number of the sector at a position. -/
def number (p : Position) : Nat :=
  (p.cylinder * geom.headsPerCylinder + p.head) * geom.sectorsPerTrack + (p.sector - 1)

/-- The sectors of a cylinder. -/
def perCylinder : Nat := geom.headsPerCylinder * geom.sectorsPerTrack

end DriveGeometry

/-- Function 2 of the interrupt, for one sector: it loads the sector that the
    registers address, and fails for one that the disk does not have. -/
def ReadsSectors (int13 : Int13) (geom : DriveGeometry) (drive : UInt8) (sectors : Nat → Bytes) :
    Prop :=
  ∀ cx dx, cx < 2 ^ 16 → dx < 2 ^ 16 → dx % 256 = drive.toNat →
    int13 0x0201 cx dx =
      if geom.Has (Position.ofRegisters cx dx) then
        some (sectors (geom.number (Position.ofRegisters cx dx)))
      else none

/-- Firmware for a disk. -/
def firmware (geom : DriveGeometry) (sectors : Nat → Bytes) : Int13 := fun _ cx dx =>
  if geom.Has (Position.ofRegisters cx dx) then
    some (sectors (geom.number (Position.ofRegisters cx dx)))
  else none

theorem firmware_reads (geom : DriveGeometry) (drive : UInt8) (sectors : Nat → Bytes) :
    ReadsSectors (firmware geom sectors) geom drive sectors :=
  fun _ _ _ _ _ => rfl

/-! ## Section 3: Where a read goes -/

open CHSPacked

/-- The geometries that `ReadDriveParameters` produces. -/
theorem readDriveParameters_bounds {answer : Option (Nat × Nat)} {geom : DriveGeometry}
    (h : BiosDisk.readDriveParameters answer = some geom) :
    geom.cylinders ≤ 1024 ∧ 1 ≤ geom.headsPerCylinder ∧ geom.headsPerCylinder ≤ 256 ∧
      geom.sectorsPerTrack ≤ 63 := by
  obtain ⟨⟨cxOut, dxOut⟩, -, rfl⟩ := Option.map_eq_some_iff.mp h
  have hcylinders : ((cxOut &&& 0x0C0) <<< 2) ||| ((cxOut >>> 8) &&& 0x0FF) < 1024 := by
    have hlow : (cxOut >>> 8) % 256 < 2 ^ 8 := Nat.mod_lt _ (by decide)
    rw [and_C0, and_FF, Nat.shiftLeft_eq, Nat.mul_assoc, show 64 * 2 ^ 2 = 2 ^ 8 from rfl,
      mul_or_of_lt hlow]
    omega
  have hheads : (dxOut >>> 8) &&& 0x0FF < 256 := by
    rw [and_FF]
    exact Nat.mod_lt _ (by decide)
  have hsectors : cxOut &&& 0x3F < 64 := by
    rw [and_3F]
    exact Nat.mod_lt _ (by decide)
  exact ⟨hcylinders, Nat.le_add_left _ _, hheads, Nat.le_of_lt_succ hsectors⟩

/-- Three numbers in one register, apart again. -/
theorem ofRegisters_parts {low high sector : Nat} (hhigh : high < 4) (hsector : sector < 64)
    (dx : Nat) : Position.ofRegisters (low * 256 + high * 64 + sector) dx =
      ⟨high * 256 + low, dx / 256, sector⟩ := by
  have hmid : (low * 256 + high * 64 + sector) / 64 = low * 4 + high := by omega
  have htop : (low * 256 + high * 64 + sector) / 256 = low := by omega
  have hbottom : (low * 256 + high * 64 + sector) % 64 = sector := by omega
  rw [Position.ofRegisters, hmid, htop, hbottom, Nat.mul_add_mod_self_right, Nat.mod_eq_of_lt hhigh]

/-- The values in `%cx` and `%dx` that `LoadSectors` builds. -/
def BiosDisk.registers (driveNum : UInt8) (source : CHSPacked) : Nat × Nat :=
  (u16 ((source.cylinder <<< 8) ||| ((source.cylinder &&& 0x0300) >>> 2) ||| source.sector),
    (source.head <<< 8) ||| driveNum.toNat)

theorem BiosDisk.loadSectors_registers (int13 : Int13) (drive : UInt8) (c : CHSPacked)
    (count : Nat) : BiosDisk.loadSectors int13 drive c count =
      int13 (0x0200 ||| count) (BiosDisk.registers drive c).1 (BiosDisk.registers drive c).2 := rfl

/-- The registers hold what is packed. -/
theorem ofRegisters_registers (c : CHSPacked) (drive : UInt8) :
    ∃ cx dx, BiosDisk.registers drive c = (cx, dx) ∧ cx < 2 ^ 16 ∧ dx < 2 ^ 16 ∧
      dx % 256 = drive.toNat ∧
      Position.ofRegisters cx dx = ⟨c.cylinder, c.head, c.sector⟩ := by
  have hdrive : drive.toNat < 2 ^ 8 := drive.toNat_lt
  have hhead : c.head < 256 := c.lo.toNat_lt
  have hmid : c.mid.toNat < 256 := c.mid.toNat_lt
  have hhi : c.hi.toNat < 256 := c.hi.toNat_lt
  have hcyl : c.cylinder < 1024 := by
    rw [cylinder_eq]
    omega
  have hsec : c.sector < 64 := by
    rw [CHSPacked.sector, and_3F]
    exact Nat.mod_lt _ (by decide)
  have hdx : (c.head <<< 8) ||| drive.toNat = c.head * 256 + drive.toNat := by
    rw [Nat.shiftLeft_eq]
    exact mul_or_of_lt hdrive
  have hcx : u16 ((c.cylinder <<< 8) ||| ((c.cylinder &&& 0x0300) >>> 2) ||| c.sector) =
      c.cylinder % 256 * 256 + c.cylinder / 256 * 64 + c.sector := by
    -- bits 8 and 9 of the cylinder become bits 6 and 7 of `cl`
    have htwo : (c.cylinder &&& 0x0300) >>> 2 = c.cylinder / 256 * 2 ^ 6 := by
      rw [show (0x0300 : Nat) = 3 * 2 ^ 8 from rfl, and_two_bits, Nat.shiftRight_eq_div_pow]
      omega
    have hlow : c.cylinder / 256 * 2 ^ 6 ||| c.sector = c.cylinder / 256 * 2 ^ 6 + c.sector :=
      mul_or_of_lt hsec
    have hall : c.cylinder * 2 ^ 8 ||| (c.cylinder / 256 * 2 ^ 6 + c.sector) =
        c.cylinder * 2 ^ 8 + (c.cylinder / 256 * 2 ^ 6 + c.sector) := mul_or_of_lt (by omega)
    rw [htwo, Nat.shiftLeft_eq, Nat.or_assoc, hlow, hall, u16]
    omega
  refine ⟨c.cylinder % 256 * 256 + c.cylinder / 256 * 64 + c.sector, c.head * 256 + drive.toNat,
    ?_, by omega, by omega, by omega, ?_⟩
  · rw [BiosDisk.registers, hdx, hcx]
  · -- the registers give the three numbers back
    have hjoin : c.cylinder / 256 * 256 + c.cylinder % 256 = c.cylinder := by omega
    have hshift : (c.head * 256 + drive.toNat) / 256 = c.head := by omega
    rw [ofRegisters_parts (by omega) hsec, hjoin, hshift]

section Geometry

variable {geom : DriveGeometry}

/-- The position of a sector whose cylinder fits. -/
theorem number_position (lba c : Nat) :
    geom.number ⟨c, lba / geom.sectorsPerTrack % geom.headsPerCylinder,
      lba % geom.sectorsPerTrack + 1⟩ = c * geom.perCylinder + lba % geom.perCylinder := by
  have hmod : lba % (geom.sectorsPerTrack * geom.headsPerCylinder) =
      lba % geom.sectorsPerTrack +
        geom.sectorsPerTrack * (lba / geom.sectorsPerTrack % geom.headsPerCylinder) :=
    Nat.mod_mul
  rw [DriveGeometry.number, DriveGeometry.perCylinder,
    Nat.mul_comm geom.headsPerCylinder geom.sectorsPerTrack, hmod, Nat.add_sub_cancel]
  ring

theorem packedCHS_fields (hheads : 1 ≤ geom.headsPerCylinder)
    (hheads' : geom.headsPerCylinder ≤ 256) (hspt : 0 < geom.sectorsPerTrack)
    (hspt' : geom.sectorsPerTrack ≤ 63) (lba : Nat) :
    (geom.packedCHS lba).cylinder = lba / geom.perCylinder % 1024 ∧
    (geom.packedCHS lba).head = lba / geom.sectorsPerTrack % geom.headsPerCylinder ∧
    (geom.packedCHS lba).sector = lba % geom.sectorsPerTrack + 1 := by
  have hper : geom.perCylinder ≤ 256 * 63 := Nat.mul_le_mul hheads' hspt'
  have hhead : lba / geom.sectorsPerTrack % geom.headsPerCylinder < geom.headsPerCylinder :=
    Nat.mod_lt _ hheads
  have hsector : lba % geom.sectorsPerTrack < geom.sectorsPerTrack := Nat.mod_lt _ hspt
  refine ⟨?_, ?_, ?_⟩
  · rw [DriveGeometry.packedCHS, cylinder_setSector, cylinder_setHead, cylinder_setCylinder,
      u32_of_lt (show geom.headsPerCylinder * geom.sectorsPerTrack < 2 ^ 32 from
        Nat.lt_of_le_of_lt hper (by decide)), u16, Nat.mod_mod_of_dvd _ (by decide)]
    rfl
  · rw [DriveGeometry.packedCHS, head_setSector, head_setHead, Nat.mod_eq_of_lt (by omega)]
  · rw [DriveGeometry.packedCHS, sector_setSector, Nat.mod_eq_of_lt (by omega)]

end Geometry

namespace BIOSBlockDevice

variable {answer : Option (Nat × Nat)} {drive : UInt8} {offset : Nat} {dev : BIOSBlockDevice}

/-- The sector address after the addition in 32 bits. -/
def address (dev : BIOSBlockDevice) (index : Nat) : Nat := u32 (dev.partStart + index)

theorem geometry_of_new (h : new answer drive offset = some dev) :
    BiosDisk.readDriveParameters answer = some dev.geometry := by
  obtain ⟨geometry, hread, rfl⟩ := Option.map_eq_some_iff.mp h
  exact hread

/-- What a read delivers: the sector in the cylinder that is left of the one
    addressed, if the disk has that one. -/
theorem loadSector_eq (hnew : new answer drive offset = some dev)
    (hspt : dev.geometry.sectorsPerTrack ≠ 0) {int13 : Int13} {sectors : Nat → Bytes}
    (hreads : ReadsSectors int13 dev.geometry dev.disk sectors) (index : Nat) :
    dev.loadSector int13 index =
      if dev.address index / dev.geometry.perCylinder % 1024 < dev.geometry.cylinders then
        some (sectors (dev.address index / dev.geometry.perCylinder % 1024 *
          dev.geometry.perCylinder + dev.address index % dev.geometry.perCylinder))
      else none := by
  obtain ⟨-, hheads, hheads', hspt'⟩ := readDriveParameters_bounds (geometry_of_new hnew)
  have hpos : 0 < dev.geometry.sectorsPerTrack := Nat.pos_of_ne_zero hspt
  obtain ⟨hcyl, hhead, hsector⟩ :=
    packedCHS_fields hheads hheads' hpos hspt' (dev.address index)
  obtain ⟨cx, dx, hregs, hcx, hdx, hdl, hposition⟩ :=
    ofRegisters_registers (dev.geometry.packedCHS (dev.address index)) dev.disk
  rw [hcyl, hhead, hsector] at hposition
  -- head and sector are always in range, so the cylinder decides
  have hhas : dev.geometry.Has (Position.ofRegisters cx dx) ↔
      dev.address index / dev.geometry.perCylinder % 1024 < dev.geometry.cylinders := by
    rw [hposition]
    constructor
    · exact fun h => h.1
    · intro h
      exact ⟨h, Nat.mod_lt _ hheads, Nat.le_add_left _ _, Nat.mod_lt _ hpos⟩
  have hnumber : dev.geometry.number (Position.ofRegisters cx dx) =
      dev.address index / dev.geometry.perCylinder % 1024 * dev.geometry.perCylinder +
        dev.address index % dev.geometry.perCylinder := by
    rw [hposition, number_position]
  rw [loadSector, show u32 (dev.partStart + index) = dev.address index from rfl,
    BiosDisk.loadSectors_registers, hregs, show 0x0200 ||| 1 = 0x0201 from rfl, hreads cx dx hcx hdx hdl, hnumber]
  by_cases h : dev.address index / dev.geometry.perCylinder % 1024 < dev.geometry.cylinders
  · rw [if_pos h, if_pos (hhas.mpr h)]
  · rw [if_neg h, if_neg (fun hin => h (hhas.mp hin))]

/-- A read that succeeds delivers the sector behind the start of the
    partition. -/
def Faithful (dev : BIOSBlockDevice) (index : Nat) : Prop :=
  ∀ int13 sectors, ReadsSectors int13 dev.geometry dev.disk sectors →
    ∀ data, dev.loadSector int13 index = some data → data = sectors (dev.partStart + index)

/-- The disk ends below the cylinder that is left of the one addressed, or
    nothing is cut off: the sector number has 32 bits and its cylinder ten. -/
def Expressible (dev : BIOSBlockDevice) (index : Nat) : Prop :=
  dev.geometry.cylinders ≤ dev.address index / dev.geometry.perCylinder % 1024 ∨
    (dev.partStart + index < 2 ^ 32 ∧
      (dev.partStart + index) / dev.geometry.perCylinder < 1024)

/-- A sector that has only ones in it, if it is the one with the number `n`. -/
def markedSector (n i : Nat) : Bytes := List.replicate 512 (if i = n then 0xFF else 0)

/-- **Sector addressing**: a successful read delivers the sector that was asked
    for, exactly if its address is expressible. -/
theorem faithful_iff (hnew : new answer drive offset = some dev)
    (hspt : dev.geometry.sectorsPerTrack ≠ 0) (index : Nat) :
    dev.Faithful index ↔ dev.Expressible index := by
  obtain ⟨-, hheads, -, -⟩ := readDriveParameters_bounds (geometry_of_new hnew)
  have hper : 0 < dev.geometry.perCylinder := Nat.mul_pos hheads (Nat.pos_of_ne_zero hspt)
  have hdiv := Nat.div_add_mod' (dev.address index) dev.geometry.perCylinder
  constructor
  · intro hfaithful
    by_contra hcut
    unfold Expressible at hcut
    rw [not_or, Nat.not_le] at hcut
    obtain ⟨hlt, hcut⟩ := hcut
    have hload := loadSector_eq hnew hspt
      (firmware_reads dev.geometry dev.disk (markedSector (dev.partStart + index))) index
    rw [if_pos hlt] at hload
    have hmark := hfaithful _ _ (firmware_reads _ _ _) _ hload
    have hmod : dev.address index / dev.geometry.perCylinder % 1024 ≤
        dev.address index / dev.geometry.perCylinder := Nat.mod_le _ _
    have hmul := Nat.mul_le_mul_right dev.geometry.perCylinder hmod
    -- the sector that was read has a smaller number
    have hless : dev.address index / dev.geometry.perCylinder % 1024 * dev.geometry.perCylinder +
        dev.address index % dev.geometry.perCylinder < dev.partStart + index := by
      by_cases hsum : dev.partStart + index < 2 ^ 32
      · have haddr : dev.address index = dev.partStart + index := u32_of_lt hsum
        have hbig : 1024 ≤ dev.address index / dev.geometry.perCylinder := by
          rw [haddr]
          exact Nat.le_of_not_lt fun h => hcut ⟨hsum, h⟩
        have hstrict : dev.address index / dev.geometry.perCylinder % 1024 <
            dev.address index / dev.geometry.perCylinder :=
          Nat.lt_of_lt_of_le (Nat.mod_lt _ (by decide)) hbig
        have hmul' := Nat.mul_lt_mul_of_pos_right hstrict hper
        omega
      · have haddr : dev.address index < 2 ^ 32 := u32_lt _
        omega
    have hhead := congrArg List.head? hmark
    simp only [markedSector, if_pos, if_neg (Nat.ne_of_lt hless)] at hhead
    revert hhead
    decide
  · intro hexpr int13 sectors hreads data hload
    rw [loadSector_eq hnew hspt hreads] at hload
    by_cases hlt : dev.address index / dev.geometry.perCylinder % 1024 < dev.geometry.cylinders
    · rw [if_pos hlt] at hload
      rcases hexpr with hbeyond | ⟨hsum, hcyl⟩
      · omega
      · have haddr : dev.address index = dev.partStart + index := u32_of_lt hsum
        rw [haddr, Nat.mod_eq_of_lt hcyl, Nat.div_add_mod'] at hload
        exact (Option.some.inj hload).symm
    · rw [if_neg hlt] at hload
      cases hload

/-- A partition that ends within the geometry is read without an error. -/
theorem loadSector_inside (hnew : new answer drive offset = some dev)
    (hspt : dev.geometry.sectorsPerTrack ≠ 0) {int13 : Int13} {sectors : Nat → Bytes}
    (hreads : ReadsSectors int13 dev.geometry dev.disk sectors) {index : Nat}
    (hin : dev.partStart + index < dev.geometry.cylinders * dev.geometry.perCylinder) :
    dev.loadSector int13 index = some (sectors (dev.partStart + index)) := by
  obtain ⟨hcylinders, hheads, hheads', hspt'⟩ :=
    readDriveParameters_bounds (geometry_of_new hnew)
  have hper : 0 < dev.geometry.perCylinder := Nat.mul_pos hheads (Nat.pos_of_ne_zero hspt)
  have hper' : dev.geometry.perCylinder ≤ 256 * 63 := Nat.mul_le_mul hheads' hspt'
  have hall : dev.geometry.cylinders * dev.geometry.perCylinder ≤ 1024 * (256 * 63) :=
    Nat.mul_le_mul hcylinders hper'
  have haddr : dev.address index = dev.partStart + index := u32_of_lt (by omega)
  have hcyl : (dev.partStart + index) / dev.geometry.perCylinder < dev.geometry.cylinders :=
    Nat.div_lt_of_lt_mul (by rwa [Nat.mul_comm])
  rw [loadSector_eq hnew hspt hreads, haddr, Nat.mod_eq_of_lt (by omega), if_pos hcyl,
    Nat.div_add_mod']

/-- A disk of 255 heads, and a partition behind its first track. -/
def largeDisk : BIOSBlockDevice := ⟨⟨1024, 255, 63⟩, 63, 0x80⟩

theorem largeDisk_new : new (some (0xFFFF, 0xFE00)) 0x80 63 = some largeDisk := rfl

theorem faithful_iff_first : largeDisk.Faithful 0 :=
  (faithful_iff largeDisk_new (by decide) 0).mpr (.inr (by decide))

set_option maxRecDepth 3000

/-- One sector behind cylinder 1023, and the read delivers the first sector of
    the disk. -/
theorem loadSector_aliased :
    new (some (0xFFFF, 0xFE00)) 0x80 63 = some largeDisk ∧
      largeDisk.loadSector (firmware largeDisk.geometry (markedSector 0)) 16450497 =
        some (markedSector 0 0) ∧
      ¬ largeDisk.Faithful 16450497 := by
  have hload : largeDisk.loadSector (firmware largeDisk.geometry (markedSector 0)) 16450497 =
      some (markedSector 0 0) := by decide
  refine ⟨rfl, hload, ?_⟩
  intro hfaithful
  have hmark := hfaithful _ _ (firmware_reads _ _ _) _ hload
  have hhead := congrArg List.head? hmark
  revert hhead
  decide

end BIOSBlockDevice

end Hausboot
