import Hausboot.Mbr.Model

/-! # The Boot Sectors: What They Hand Over

    The master boot record enters the first bootable partition, and no other:
    if that one cannot be loaded, the machine stops. The volume boot record
    then leaves a machine in which stage 2 finds its own code, the super block,
    the drive, and the partition entry. -/

open ByteLib

namespace Hausboot

/-! ## Section 1: The master boot record -/

namespace Mbr

/-- The partition table of a boot sector. -/
def table (sector : Bytes) : List MBREntry :=
  (List.range 4).map fun i =>
    ⟨slice sector (446 + i * MBREntry.sizeof) MBREntry.sizeof⟩

variable {bios : Bios} {disk : UInt8} {memory : Store}

/-- The partition entry at an address. -/
def entryAt (memory : Store) (it : Nat) : MBREntry := ⟨memory.read it MBREntry.sizeof⟩

/-- **The loop** skips what is not bootable, and stays with what is. -/
theorem entryLoop_find {l : List Nat} {it : Nat}
    (h : l.find? (MBREntry.isBootable ∘ entryAt memory) = some it) :
    entryLoop bios disk memory l = entryLoop bios disk memory [it] := by
  induction l with
  | nil => cases h
  | cons x l ih =>
    cases hx : (entryAt memory x).isBootable with
    | true =>
      have hp : (MBREntry.isBootable ∘ entryAt memory) x = true := hx
      rw [List.find?_cons_of_pos hp] at h
      obtain rfl := Option.some.inj h
      have hx : (⟨memory.read x MBREntry.sizeof⟩ : MBREntry).isBootable = true := hx
      simp only [entryLoop, hx]
      rfl
    | false =>
      have hp : ¬ (MBREntry.isBootable ∘ entryAt memory) x = true := by simp [hx]
      rw [List.find?_cons_of_neg hp] at h
      have hx : (⟨memory.read x MBREntry.sizeof⟩ : MBREntry).isBootable = false := hx
      rw [← ih h]
      simp only [entryLoop, hx]
      rfl

/-- The copy finds the partition table of the sector it comes from. -/
theorem map_entryAt (memory : Store) {sector : Bytes} (hlen : sector.length = 512) :
    entries.map (entryAt (memory.write location sector)) = table sector := by
  rw [entries, table, List.map_map]
  apply List.map_congr_left
  intro i hi
  have hi := List.mem_range.mp hi
  have hsame := Store.read_write_same memory location sector
  rw [hlen] at hsame
  have hend : 446 + i * MBREntry.sizeof + MBREntry.sizeof ≤ 512 := by
    simp only [MBREntry.sizeof]
    omega
  have hwin := Store.slice_read (memory.write location sector) (a := location) hend
  rw [hsame] at hwin
  have hplace : partTable + i * MBREntry.sizeof = location + (446 + i * MBREntry.sizeof) :=
    Nat.add_assoc location 446 _
  rw [hwin, ← hplace]
  rfl

/-- The first bootable entry is the one that counts. -/
theorem start_find (bios : Bios) (disk : UInt8) {sector : Bytes} (hlen : sector.length = 512)
    (hmem : memory.read bootSectorLocation 512 = sector) {ent : MBREntry}
    (hent : (table sector).find? MBREntry.isBootable = some ent) :
    ∃ it, it + MBREntry.sizeof ≤ bootSectorLocation ∧
      entryAt (memory.write location sector) it = ent ∧
      start bios disk memory = entryLoop bios disk (memory.write location sector) [it] := by
  rw [← map_entryAt memory hlen, List.find?_map, Option.map_eq_some_iff] at hent
  obtain ⟨it, hfind, hit⟩ := hent
  refine ⟨it, ?_, hit, ?_⟩
  · obtain ⟨i, hi, rfl⟩ := List.mem_map.mp (List.mem_of_find?_eq_some hfind)
    have hi := List.mem_range.mp hi
    have hsize : MBREntry.sizeof = 16 := rfl
    have htable : partTable = 1982 := rfl
    have hplace : bootSectorLocation = 31744 := rfl
    simp only [hsize, htable, hplace]
    omega
  · rw [start, main, hmem, entryLoop_find hfind]

/-- The word at the end of a boot sector. -/
def HasMagic (sector : Bytes) : Prop := leNat (slice sector 510 2) = 0xAA55

instance (sector : Bytes) : Decidable (HasMagic sector) :=
  inferInstanceAs (Decidable (_ = _))

/-- One bootable entry whose first sector can be loaded. -/
theorem entryLoop_loads {it : Nat} {ent : MBREntry} {data : Bytes}
    (hit : entryAt memory it = ent) (hboot : ent.isBootable = true)
    (hreset : bios.reset disk = true)
    (hload : BiosDisk.loadSectors bios.int13 disk ent.startAddressCHS 1 = some data)
    (hlen : data.length = 512) :
    entryLoop bios disk memory [it] =
      if HasMagic data then .ok ⟨memory.write bootSectorLocation data, disk, it⟩
      else .error .noMagic := by
  have hit : (⟨memory.read it MBREntry.sizeof⟩ : MBREntry) = ent := hit
  have hword : (memory.write bootSectorLocation data).readLE (bootSectorLocation + 2 * 255) 2 =
      leNat (slice data 510 2) := by
    have hsame := Store.read_write_same memory bootSectorLocation data
    rw [hlen] at hsame
    have hwin := Store.slice_read (memory.write bootSectorLocation data)
      (a := bootSectorLocation) (show 510 + 2 ≤ 512 by decide)
    rw [hsame] at hwin
    rw [Store.readLE, hwin]
  simp only [entryLoop, hit, hboot, hreset, hload, hword, HasMagic, Bool.not_true,
    Bool.false_eq_true, if_false, ne_eq, ite_not]
  rfl

end Mbr

/-! ## Section 2: The volume boot record -/

namespace Vbr

variable {loadSectors loadSectors' : CHSPacked → Nat → Option Bytes} {disk : UInt8}
  {ent : MBREntry} {super : FatSuper}

/-- Where the boot sector loads stage 2 from. -/
def source (ent : MBREntry) : CHSPacked :=
  ent.startAddressCHS.setSector (ent.startAddressCHS.sector + 2)

/-- There is one call of the BIOS, and only if there is something to load. -/
theorem main_congr (h : 3 ≤ super.reservedSectors →
    loadSectors (source ent) (sectorLimit super) = loadSectors' (source ent) (sectorLimit super)) :
    main super loadSectors disk ent = main super loadSectors' disk ent := by
  unfold main
  by_cases hfew : super.reservedSectors < 3
  · rw [if_pos hfew, if_pos hfew]
  · rw [if_neg hfew, if_neg hfew]
    unfold source at h
    dsimp only
    rw [h (Nat.le_of_not_lt hfew)]

/-- What `main` returns where it does not stop. -/
theorem main_ok {hdr : Stage2Header} {address : Nat}
    (h : main super loadSectors disk ent = .ok (hdr, address)) :
    3 ≤ super.reservedSectors ∧ ∃ dst,
      loadSectors (source ent) (sectorLimit super) = some dst ∧
      hdr = ((⟨dst⟩ : Stage2Header).setBiosBootDrive disk).setBootMBREntry ent ∧
      address = stage2Location + Stage2Header.sizeof := by
  unfold main at h
  by_cases hfew : super.reservedSectors < 3
  · rw [if_pos hfew] at h
    cases h
  rw [if_neg hfew] at h
  refine ⟨Nat.le_of_not_lt hfew, ?_⟩
  dsimp only at h
  unfold source
  cases hload : loadSectors (ent.startAddressCHS.setSector (ent.startAddressCHS.sector + 2))
      (sectorLimit super) with
  | none =>
    rw [hload] at h
    cases h
  | some dst =>
    rw [hload] at h
    dsimp only at h
    split at h
    · cases h
    · cases h
      exact ⟨dst, rfl, rfl, rfl⟩

/-! ## Section 3: What stage 2 finds -/

/-- The machine that stage 2 is entered with: its code is that of the image
    behind the header, `super` is at the place of the boot sector, and the
    header says where all this comes from. -/
structure HandsOver (entered : Entered) (disk : UInt8) (ent : MBREntry) (image : Store) :
    Prop where
  address : entered.address = stage2Location + Stage2Header.sizeof
  super : entered.memory.read bootSectorLocation 512 = image.read 0 512
  disk : (⟨entered.memory.read stage2Location Stage2Header.sizeof⟩ : Stage2Header).biosBootDrive =
    disk
  ent : (⟨entered.memory.read stage2Location Stage2Header.sizeof⟩ : Stage2Header).bootMBREntry =
    ent
  code : ∀ i, Stage2Header.sizeof ≤ i → i < sectorLimit ⟨image.read 0 512⟩ * 512 →
    entered.memory (stage2Location + i) = image (2 * 512 + i)

section Header

variable {dst : Bytes} (hlen : Stage2Header.sizeof ≤ dst.length) (hent : ent.raw.length = MBREntry.sizeof)
include hlen hent

theorem length_filled (disk : UInt8) :
    (((⟨dst⟩ : Stage2Header).setBiosBootDrive disk).setBootMBREntry ent).raw.length =
      dst.length := by
  rw [Stage2Header.sizeof] at hlen
  rw [MBREntry.sizeof] at hent
  have hdrive : (splice dst 10 [disk]).length = dst.length :=
    length_splice (by rw [List.length_singleton]; omega)
  rw [Stage2Header.setBootMBREntry, Stage2Header.setBiosBootDrive, length_splice, hdrive]
  rw [hdrive, hent]
  omega

/-- The fields are found again in the first bytes. -/
theorem fields_filled {hdr : Stage2Header}
    (hhdr : hdr = ((⟨dst⟩ : Stage2Header).setBiosBootDrive disk).setBootMBREntry ent) :
    (⟨hdr.raw.take Stage2Header.sizeof⟩ : Stage2Header).biosBootDrive = disk ∧
    (⟨hdr.raw.take Stage2Header.sizeof⟩ : Stage2Header).bootMBREntry = ent ∧
    ∀ i, Stage2Header.sizeof ≤ i → hdr.raw[i]? = dst[i]? := by
  rw [Stage2Header.sizeof] at hlen
  rw [MBREntry.sizeof] at hent
  have hdrive : (splice dst 10 [disk]).length = dst.length :=
    length_splice (by rw [List.length_singleton]; omega)
  have hraw : hdr.raw = splice (splice dst 10 [disk]) 12 ent.raw := by rw [hhdr]; rfl
  have hslice : ∀ o n, o + n ≤ 28 → slice (hdr.raw.take 28) o n = slice hdr.raw o n := by
    intro o n ho
    rw [slice, slice, List.drop_take, List.take_take, Nat.min_eq_left (by omega)]
  have hsame : slice (splice dst 10 [disk]) 10 1 = [disk] :=
    slice_splice_same (show 10 ≤ dst.length by omega)
  refine ⟨?_, ?_, ?_⟩
  · -- the drive is one byte below the partition entry
    have hone : slice (hdr.raw.take 28) 10 1 = [disk] := by
      rw [hslice 10 1 (by decide), hraw, slice_splice_before (by omega) (by decide), hsame]
    have hget := congrArg (·.getD 0 0) hone
    simpa [slice, Stage2Header.biosBootDrive, Stage2Header.sizeof] using hget
  · have hfits : 12 ≤ (splice dst 10 [disk]).length := by omega
    have hentry : slice (splice (splice dst 10 [disk]) 12 ent.raw) 12 ent.raw.length = ent.raw :=
      slice_splice_same hfits
    rw [hent] at hentry
    rw [Stage2Header.bootMBREntry, Stage2Header.sizeof, MBREntry.sizeof, hslice 12 16 (by decide),
      hraw, hentry]
  · intro i hi
    rw [Stage2Header.sizeof] at hi
    have hdrop : hdr.raw.drop 28 = dst.drop 28 := by
      rw [hraw, drop_splice (by omega) (by omega),
        drop_splice (by rw [List.length_singleton]; omega) (by rw [List.length_singleton]; decide)]
    have hget : (hdr.raw.drop 28)[i - 28]? = (dst.drop 28)[i - 28]? := by rw [hdrop]
    rwa [List.getElem?_drop, List.getElem?_drop, Nat.add_sub_cancel' hi] at hget

end Header

/-- **The volume boot record hands over**, where it goes on. -/
theorem start_handsOver {bios : Bios} (m : Mbr.Entered) (image : Store)
    (hsuper : m.memory.read bootSectorLocation 512 = image.read 0 512)
    (hent : Mbr.entryAt m.memory m.ent = ent)
    (hload : 3 ≤ (⟨image.read 0 512⟩ : FatSuper).reservedSectors →
      BiosDisk.loadSectors bios.int13 m.disk (source ent) (sectorLimit ⟨image.read 0 512⟩) =
        some (image.read (2 * 512) (sectorLimit ⟨image.read 0 512⟩ * 512))) :
    ((∃ entered, start bios m = .ok entered) ↔
      Enters (Install.readsFrom image) m.disk ent image) ∧
    ∀ entered, start bios m = .ok entered → HandsOver entered m.disk ent image := by
  have hmain : main ⟨m.memory.read bootSectorLocation 512⟩
      (BiosDisk.loadSectors bios.int13 m.disk) m.disk ⟨m.memory.read m.ent MBREntry.sizeof⟩ =
      main ⟨image.read 0 512⟩ (Install.readsFrom image) m.disk ent := by
    rw [hsuper, show (⟨m.memory.read m.ent MBREntry.sizeof⟩ : MBREntry) = ent from hent]
    exact main_congr hload
  have hentlen : ent.raw.length = MBREntry.sizeof := by
    rw [← hent]
    exact Store.length_read _ _ _
  unfold start Enters
  rw [hmain]
  constructor
  · cases main ⟨image.read 0 512⟩ (Install.readsFrom image) m.disk ent with
    | error e => simp
    | ok r =>
      obtain ⟨hdr, address⟩ := r
      simp
  intro entered h
  cases hrun : main ⟨image.read 0 512⟩ (Install.readsFrom image) m.disk ent with
  | error e =>
    rw [hrun] at h
    cases h
  | ok r =>
    obtain ⟨hdr, address⟩ := r
    rw [hrun] at h
    obtain rfl := Except.ok.inj h
    obtain ⟨hfew, dst, hdst, hhdr, haddress⟩ := main_ok hrun
    have hlimit := sectorLimit_eq ⟨image.read 0 512⟩
    have hpos : 1 ≤ sectorLimit ⟨image.read 0 512⟩ := by omega
    have hmax : sectorLimit ⟨image.read 0 512⟩ ≤ 30 := by omega
    obtain rfl := Option.some.inj hdst
    have hlong : Stage2Header.sizeof ≤
        (image.read (2 * 512) (sectorLimit ⟨image.read 0 512⟩ * 512)).length := by
      rw [Store.length_read, Stage2Header.sizeof]
      omega
    have hlen := length_filled hlong hentlen m.disk
    obtain ⟨hdrive, hentry, hcode⟩ := fields_filled hlong hentlen hhdr
    rw [← hhdr, Store.length_read] at hlen
    -- the header is the front of what has been loaded
    have hfront : (m.memory.write stage2Location hdr.raw).read stage2Location
        Stage2Header.sizeof = hdr.raw.take Stage2Header.sizeof := by
      have hsame := Store.read_write_same m.memory stage2Location hdr.raw
      have htake := Store.take_read (m.memory.write stage2Location hdr.raw)
        (a := stage2Location) (show Stage2Header.sizeof ≤ hdr.raw.length by
          rw [hlen, Stage2Header.sizeof]
          omega)
      rw [hsame] at htake
      exact htake.symm
    refine ⟨haddress, ?_, ?_, ?_, ?_⟩
    · dsimp only
      rw [Store.read_write_disjoint, hsuper]
      have hfrom : stage2Location = 4096 := rfl
      have hplace : bootSectorLocation = 31744 := rfl
      right
      omega
    · dsimp only
      rw [hfront, hdrive]
    · dsimp only
      rw [hfront, hentry]
    · intro i hlow hhigh
      dsimp only
      have hget := hcode i hlow
      rw [Store.getElem?_read, if_pos hhigh] at hget
      rw [Store.write_apply_of_mem (by omega) (by omega), Nat.add_sub_cancel_left,
        List.getD_eq_getElem?_getD, hget, Option.getD_some]

end Vbr

end Hausboot
