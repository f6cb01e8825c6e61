import Hausboot.Bios.Sectors

/-! # The BIOS Disk: Several Sectors at Once

    Function 2 of the interrupt loads sectors of one track. What happens at the
    end of the track depends on the firmware, so nothing is said about reads
    that go beyond it. -/

open ByteLib

namespace Hausboot

/-- Function 2 of the interrupt, for `n` sectors: it loads the sectors from the
    position on that the registers address, if they are in one track, and fails
    for a position that the disk does not have. -/
structure ReadsTracks (int13 : Int13) (geom : DriveGeometry) (drive : UInt8)
    (sectors : Nat → Bytes) : Prop where
  reads : ∀ n cx dx, 1 ≤ n → n < 256 → cx < 2 ^ 16 → dx < 2 ^ 16 → dx % 256 = drive.toNat →
    geom.Has (Position.ofRegisters cx dx) →
    (Position.ofRegisters cx dx).sector + n ≤ geom.sectorsPerTrack + 1 →
    int13 (0x0200 ||| n) cx dx =
      some ((List.range n).flatMap fun i => sectors (geom.number (Position.ofRegisters cx dx) + i))
  fails : ∀ n cx dx, 1 ≤ n → n < 256 → cx < 2 ^ 16 → dx < 2 ^ 16 → dx % 256 = drive.toNat →
    ¬ geom.Has (Position.ofRegisters cx dx) → int13 (0x0200 ||| n) cx dx = none

/-- Firmware for a disk, that refuses what does not fit into a track. -/
def trackFirmware (geom : DriveGeometry) (sectors : Nat → Bytes) : Int13 := fun ax cx dx =>
  let n := ax % 256
  let p := Position.ofRegisters cx dx
  if geom.Has p ∧ p.sector + n ≤ geom.sectorsPerTrack + 1 then
    some ((List.range n).flatMap fun i => sectors (geom.number p + i))
  else none

variable {int13 : Int13} {geom : DriveGeometry} {drive : UInt8} {sectors : Nat → Bytes}

/-- The count is in the low byte of `%ax`. -/
theorem or_count {n : Nat} (hn : n < 256) : (0x0200 ||| n) % 256 = n := by
  have hor : 2 * 2 ^ 8 ||| n = 2 * 2 ^ 8 + n := CHSPacked.mul_or_of_lt hn
  rw [show (0x0200 : Nat) = 2 * 2 ^ 8 from rfl, hor]
  omega

theorem trackFirmware_reads (geom : DriveGeometry) (drive : UInt8) (sectors : Nat → Bytes) :
    ReadsTracks (trackFirmware geom sectors) geom drive sectors where
  reads n cx dx _ hn _ _ _ hhas hfits := by
    unfold trackFirmware
    dsimp only
    rw [or_count hn, if_pos ⟨hhas, hfits⟩]
  fails n cx dx _ hn _ _ _ hhas := by
    unfold trackFirmware
    dsimp only
    rw [if_neg fun h => hhas h.1]

/-- A single sector is always in one track. -/
theorem ReadsTracks.readsSectors (h : ReadsTracks int13 geom drive sectors) :
    ReadsSectors int13 geom drive sectors := by
  intro cx dx hcx hdx hdrive
  by_cases hhas : geom.Has (Position.ofRegisters cx dx)
  · rw [if_pos hhas]
    have hread := h.reads 1 cx dx (Nat.le_refl 1) (by decide) hcx hdx hdrive hhas
      (Nat.succ_le_succ hhas.2.2.2)
    rwa [List.range_one, List.flatMap_singleton] at hread
  · rw [if_neg hhas]
    exact h.fails 1 cx dx (Nat.le_refl 1) (by decide) hcx hdx hdrive hhas

/-- `LoadSectors` from a packed position on, inside a track. -/
theorem ReadsTracks.loadSectors (h : ReadsTracks int13 geom drive sectors) {c : CHSPacked}
    {n : Nat} (hpos : 1 ≤ n) (hn : n < 256) (hhas : geom.Has ⟨c.cylinder, c.head, c.sector⟩)
    (hfits : c.sector + n ≤ geom.sectorsPerTrack + 1) :
    BiosDisk.loadSectors int13 drive c n = some ((List.range n).flatMap fun i =>
      sectors (geom.number ⟨c.cylinder, c.head, c.sector⟩ + i)) := by
  obtain ⟨cx, dx, hregs, hcx, hdx, hdrive, hposition⟩ := ofRegisters_registers c drive
  have hread := h.reads n cx dx hpos hn hcx hdx hdrive
  rw [hposition] at hread
  rw [BiosDisk.loadSectors_registers, hregs]
  exact hread hhas hfits

/-- Sectors behind one another on the disk. -/
theorem DriveGeometry.number_add (geom : DriveGeometry) (cylinder head k : Nat) {sector : Nat}
    (hfirst : 1 ≤ sector) :
    geom.number ⟨cylinder, head, sector + k⟩ = geom.number ⟨cylinder, head, sector⟩ + k := by
  dsimp only [DriveGeometry.number]
  omega

/-- What the fields of a packed sector number are, below the end of the drive. -/
theorem packedCHS_position {answer : Option (Nat × Nat)}
    (hgeom : BiosDisk.readDriveParameters answer = some geom) (hspt : geom.sectorsPerTrack ≠ 0)
    {lba : Nat} (hlt : lba < geom.total) :
    (⟨(geom.packedCHS lba).cylinder, (geom.packedCHS lba).head, (geom.packedCHS lba).sector⟩ :
      Position) = geom.position lba := by
  obtain ⟨hcylinders, hheads, hheads', hspt'⟩ := readDriveParameters_bounds hgeom
  have hpos : 0 < geom.sectorsPerTrack := Nat.pos_of_ne_zero hspt
  obtain ⟨hcyl, hhead, hsector⟩ := packedCHS_fields hheads hheads' hpos hspt' lba
  have hfits : lba / geom.perCylinder < 1024 :=
    Nat.lt_of_lt_of_le (DriveGeometry.has_position hheads hpos hlt).1 hcylinders
  rw [hcyl, hhead, hsector, Nat.mod_eq_of_lt hfits, DriveGeometry.position]

/-- **Reads by sector number**: `skip` sectors behind a sector of the drive,
    the driver moves on in the track, and loads the sectors with the next
    numbers. -/
theorem loadSectors_skip {answer : Option (Nat × Nat)}
    (hgeom : BiosDisk.readDriveParameters answer = some geom) (hspt : geom.sectorsPerTrack ≠ 0)
    (h : ReadsTracks int13 geom drive sectors) {lba n : Nat} (skip : Nat) (hlt : lba < geom.total)
    (hpos : 1 ≤ n) (hn : n < 256)
    (hfits : lba % geom.sectorsPerTrack + skip + n ≤ geom.sectorsPerTrack) :
    BiosDisk.loadSectors int13 drive
        ((geom.packedCHS lba).setSector ((geom.packedCHS lba).sector + skip)) n =
      some ((List.range n).flatMap fun i => sectors (lba + skip + i)) := by
  obtain ⟨-, hheads, -, hspt'⟩ := readDriveParameters_bounds hgeom
  have hspos : 0 < geom.sectorsPerTrack := Nat.pos_of_ne_zero hspt
  obtain ⟨hcyl, hhead, hfirst, -⟩ := DriveGeometry.has_position hheads hspos hlt
  have hposition := packedCHS_position hgeom hspt hlt
  have hnumber := geom.number_position_self lba
  rw [← hposition] at hcyl hhead hfirst hnumber
  have hsector : (geom.packedCHS lba).sector = lba % geom.sectorsPerTrack + 1 :=
    congrArg Position.sector hposition
  generalize geom.packedCHS lba = c at *
  dsimp only at hcyl hhead hfirst hnumber
  -- the sector field has six bits, and the track is shorter
  have hskip : (c.setSector (c.sector + skip)).sector = c.sector + skip := by
    rw [CHSPacked.sector_setSector, Nat.mod_eq_of_lt (by omega)]
  have hmoved : (⟨(c.setSector (c.sector + skip)).cylinder, (c.setSector (c.sector + skip)).head,
      (c.setSector (c.sector + skip)).sector⟩ : Position) =
        ⟨c.cylinder, c.head, c.sector + skip⟩ := by
    rw [CHSPacked.cylinder_setSector, CHSPacked.head_setSector, hskip]
  have hread := h.loadSectors (c := c.setSector (c.sector + skip)) hpos hn
  rw [hmoved, hskip, geom.number_add _ _ _ hfirst, hnumber] at hread
  exact hread ⟨hcyl, hhead, by dsimp only; omega, by dsimp only; omega⟩ (by omega)

end Hausboot
