import Hausboot.Bios.Disk

/-! # The BIOS Disk: Sector Addresses Inside the Drive

    Below the end of the drive, `LBA2CHS` and the registers of `LoadSectors`
    number the positions of the drive one by one: `position` takes a sector
    number apart, `number` puts it together again, and the registers hold what
    `ReadDriveParameters` would read out of them. -/

namespace Hausboot

open CHSPacked

/-- The layout of `ReadDriveParameters`: it reads the position that the
    registers address as the last one of a drive. -/
theorem readDriveParameters_registers {cx dx : Nat} (hcx : cx < 2 ^ 16) (hdx : dx < 2 ^ 16) :
    BiosDisk.readDriveParameters (some (cx, dx)) =
      some ⟨(Position.ofRegisters cx dx).cylinder + 1, (Position.ofRegisters cx dx).head + 1,
        (Position.ofRegisters cx dx).sector⟩ := by
  have hlow : (cx >>> 8) % 256 = cx / 256 := by
    rw [Nat.shiftRight_eq_div_pow]
    omega
  have hhead : (dx >>> 8) % 256 = dx / 256 := by
    rw [Nat.shiftRight_eq_div_pow]
    omega
  have hcyl : cx / 64 % 4 * 64 * 2 ^ 2 ||| cx / 256 = cx / 64 % 4 * 256 + cx / 256 := by
    rw [Nat.mul_assoc, show 64 * 2 ^ 2 = 2 ^ 8 from rfl]
    exact mul_or_of_lt (by omega)
  simp only [BiosDisk.readDriveParameters, Option.map_some, and_C0, and_FF, and_3F, hlow, hhead,
    Nat.shiftLeft_eq, hcyl, Position.ofRegisters]

namespace DriveGeometry

variable {geom : DriveGeometry}

/-- The number of sectors of the drive. -/
def total (geom : DriveGeometry) : Nat :=
  geom.cylinders * geom.headsPerCylinder * geom.sectorsPerTrack

/-- Where the sector with this number is. -/
def position (geom : DriveGeometry) (lba : Nat) : Position :=
  ⟨lba / geom.perCylinder, lba / geom.sectorsPerTrack % geom.headsPerCylinder,
    lba % geom.sectorsPerTrack + 1⟩

theorem number_position_self (lba : Nat) : geom.number (geom.position lba) = lba := by
  rw [position, number_position, Nat.div_add_mod']

theorem has_position (hheads : 0 < geom.headsPerCylinder) (hspt : 0 < geom.sectorsPerTrack)
    {lba : Nat} (hlt : lba < geom.total) : geom.Has (geom.position lba) := by
  have hper : 0 < geom.perCylinder := Nat.mul_pos hheads hspt
  rw [total, Nat.mul_assoc] at hlt
  exact ⟨(Nat.div_lt_iff_lt_mul hper).mpr hlt, Nat.mod_lt _ hheads, Nat.le_add_left _ _,
    Nat.mod_lt _ hspt⟩

/-- A digit and what is below it: less than the product of the radices. -/
theorem mul_add_lt {a b c d : Nat} (ha : a < b) (hc : c < d) : a * d + c < b * d := by
  calc a * d + c < a * d + d := Nat.add_lt_add_left hc _
    _ = (a + 1) * d := (Nat.succ_mul a d).symm
    _ ≤ b * d := Nat.mul_le_mul_right d ha

theorem number_lt {p : Position} (hp : geom.Has p) : geom.number p < geom.total := by
  obtain ⟨hcyl, hhead, hfirst, hlast⟩ := hp
  exact mul_add_lt (mul_add_lt hcyl hhead) (by omega)

/-- A position of the drive is found again from its number. -/
theorem position_number {p : Position} (hp : geom.Has p) : geom.position (geom.number p) = p := by
  obtain ⟨cylinder, head, sector⟩ := p
  obtain ⟨-, hhead, hfirst, hlast⟩ := hp
  dsimp only at hhead hfirst hlast
  have hspt : 0 < geom.sectorsPerTrack := by omega
  have hheads : 0 < geom.headsPerCylinder := by omega
  have htrack : geom.number ⟨cylinder, head, sector⟩ / geom.sectorsPerTrack =
      cylinder * geom.headsPerCylinder + head := by
    dsimp only [number]
    rw [Nat.mul_comm, Nat.mul_add_div hspt, Nat.div_eq_of_lt (by omega), Nat.add_zero]
  have hsector : geom.number ⟨cylinder, head, sector⟩ % geom.sectorsPerTrack = sector - 1 := by
    dsimp only [number]
    rw [Nat.mul_add_mod_self_right, Nat.mod_eq_of_lt (by omega)]
  have hcylinder : geom.number ⟨cylinder, head, sector⟩ / geom.perCylinder = cylinder := by
    rw [perCylinder, Nat.mul_comm, ← Nat.div_div_eq_div_mul, htrack, Nat.mul_comm,
      Nat.mul_add_div hheads, Nat.div_eq_of_lt hhead, Nat.add_zero]
  rw [position, hcylinder, htrack, hsector, Nat.mul_add_mod_self_right, Nat.mod_eq_of_lt hhead,
    Nat.sub_add_cancel hfirst]

end DriveGeometry

/-- What the registers say about a sector of the drive. -/
theorem registers_packedCHS {answer : Option (Nat × Nat)} {geom : DriveGeometry}
    (hgeom : BiosDisk.readDriveParameters answer = some geom) (hspt : geom.sectorsPerTrack ≠ 0)
    (drive : UInt8) {lba : Nat} (hlt : lba < geom.total) :
    ∃ cx dx, BiosDisk.registers drive (geom.packedCHS lba) = (cx, dx) ∧ cx < 2 ^ 16 ∧
      dx < 2 ^ 16 ∧ dx % 256 = drive.toNat ∧ Position.ofRegisters cx dx = geom.position lba := by
  obtain ⟨hcylinders, hheads, hheads', hspt'⟩ := readDriveParameters_bounds hgeom
  have hpos : 0 < geom.sectorsPerTrack := Nat.pos_of_ne_zero hspt
  obtain ⟨hcyl, hhead, hsector⟩ := packedCHS_fields hheads hheads' hpos hspt' lba
  obtain ⟨cx, dx, hregs, hcx, hdx, hdrive, hposition⟩ :=
    ofRegisters_registers (geom.packedCHS lba) drive
  have hfits : lba / geom.perCylinder < 1024 :=
    Nat.lt_of_lt_of_le (DriveGeometry.has_position hheads hpos hlt).1 hcylinders
  rw [hcyl, hhead, hsector, Nat.mod_eq_of_lt hfits] at hposition
  exact ⟨cx, dx, hregs, hcx, hdx, hdrive, hposition⟩

/-- **Sector addressing inside the drive**: the registers of each sector number
    decode to a position of the drive with that number, and each position is
    that of exactly one number. -/
theorem sector_addressing (answer : Option (Nat × Nat)) (geom : DriveGeometry)
    (hgeom : BiosDisk.readDriveParameters answer = some geom) (hspt : geom.sectorsPerTrack ≠ 0)
    (drive : UInt8) :
    (∀ lba, lba < geom.cylinders * geom.headsPerCylinder * geom.sectorsPerTrack →
      ∃ cx dx c h s, (∀ int13 count, BiosDisk.loadSectors int13 drive (geom.packedCHS lba) count =
          int13 (0x0200 ||| count) cx dx) ∧
        cx < 2 ^ 16 ∧ dx < 2 ^ 16 ∧ dx % 256 = drive.toNat ∧
        BiosDisk.readDriveParameters (some (cx, dx)) = some ⟨c + 1, h + 1, s⟩ ∧
        c < geom.cylinders ∧ h < geom.headsPerCylinder ∧ 1 ≤ s ∧ s ≤ geom.sectorsPerTrack ∧
        (c * geom.headsPerCylinder + h) * geom.sectorsPerTrack + s - 1 = lba) ∧
    (∀ lba lba', lba < geom.total → lba' < geom.total →
      BiosDisk.registers drive (geom.packedCHS lba) =
        BiosDisk.registers drive (geom.packedCHS lba') → lba = lba') ∧
    ∀ p, geom.Has p → ∃ lba, lba < geom.total ∧
      ∃ cx dx, BiosDisk.registers drive (geom.packedCHS lba) = (cx, dx) ∧
        Position.ofRegisters cx dx = p := by
  obtain ⟨-, hheads, -, -⟩ := readDriveParameters_bounds hgeom
  have hpos : 0 < geom.sectorsPerTrack := Nat.pos_of_ne_zero hspt
  refine ⟨?_, ?_, ?_⟩
  · intro lba hlt
    obtain ⟨cx, dx, hregs, hcx, hdx, hdrive, hposition⟩ :=
      registers_packedCHS hgeom hspt drive hlt
    have hnumber := geom.number_position_self lba
    obtain ⟨hcyl, hhead, hfirst, hlast⟩ := DriveGeometry.has_position hheads hpos hlt
    refine ⟨cx, dx, (geom.position lba).cylinder, (geom.position lba).head,
      (geom.position lba).sector, ?_, hcx, hdx, hdrive, ?_, hcyl, hhead, hfirst, hlast, ?_⟩
    · intro int13 count
      rw [BiosDisk.loadSectors_registers, hregs]
    · rw [readDriveParameters_registers hcx hdx, hposition]
    · rw [Nat.add_sub_assoc hfirst]
      exact hnumber
  · intro lba lba' hlt hlt' hsame
    obtain ⟨cx, dx, hregs, -, -, -, hposition⟩ := registers_packedCHS hgeom hspt drive hlt
    obtain ⟨cx', dx', hregs', -, -, -, hposition'⟩ := registers_packedCHS hgeom hspt drive hlt'
    -- equal registers address one position, and it has one number
    rw [hregs, hregs'] at hsame
    obtain ⟨rfl, rfl⟩ := Prod.mk.inj hsame
    rw [← geom.number_position_self lba, ← hposition, hposition', geom.number_position_self]
  · intro p hp
    have hlt := DriveGeometry.number_lt hp
    obtain ⟨cx, dx, hregs, -, -, -, hposition⟩ := registers_packedCHS hgeom hspt drive hlt
    rw [DriveGeometry.position_number hp] at hposition
    exact ⟨geom.number p, hlt, cx, dx, hregs, hposition⟩

/-- The last sector of the largest drive: cylinder 1023, head 255, sector 63. -/
theorem sector_addressing_last :
    ∃ cx dx c h s, (∀ int13 count, BiosDisk.loadSectors int13 0x80
        (DriveGeometry.packedCHS ⟨1024, 256, 63⟩ 16515071) count =
          int13 (0x0200 ||| count) cx dx) ∧
      BiosDisk.readDriveParameters (some (cx, dx)) = some ⟨c + 1, h + 1, s⟩ ∧
      (c * 256 + h) * 63 + s - 1 = 16515071 := by
  have hgeom : BiosDisk.readDriveParameters (some (0xFFFF, 0xFF80)) = some ⟨1024, 256, 63⟩ := rfl
  obtain ⟨hdecode, -, -⟩ := sector_addressing _ ⟨1024, 256, 63⟩ hgeom (by decide) 0x80
  obtain ⟨cx, dx, c, h, s, hload, -, -, -, hread, -, -, -, -, hnumber⟩ :=
    hdecode 16515071 (by decide)
  exact ⟨cx, dx, c, h, s, hload, hread, hnumber⟩

end Hausboot
