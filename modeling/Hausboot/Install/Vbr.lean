import Hausboot.Bios.CHSPacked
import Hausboot.Install.Outcome

/-! # The Volume Boot Record, and What installfat Leaves for It

    `vbr/vbr.cpp` loads the reserved sectors from sector 2 on, 30 at most, and
    verifies the header of stage 2 over whole sectors. `installfat` writes the
    bytes of the file only: what its last sector held behind them is summed up
    by the boot sector, and not by `installfat`. -/

open ByteLib

namespace Hausboot

/-! ## Section 1: The boot sector -/

/-- `part/MBREntry.h`, 16 bytes. -/
structure MBREntry where
  raw : Bytes

def MBREntry.startAddressCHS (ent : MBREntry) : CHSPacked :=
  ⟨ent.raw.getD 1 0, ent.raw.getD 2 0, ent.raw.getD 3 0⟩

namespace Stage2Header

def setBiosBootDrive (hdr : Stage2Header) (drive : UInt8) : Stage2Header :=
  ⟨splice hdr.raw 10 [drive]⟩

def setBootMBREntry (hdr : Stage2Header) (ent : MBREntry) : Stage2Header :=
  ⟨splice hdr.raw 12 ent.raw⟩

end Stage2Header

def stage2Location : Nat := 0x1000

namespace Vbr

/-- The message with which the boot sector hangs. -/
inductive Stop where
  | errLoad
  | errBroken
deriving DecidableEq

/-- The sectors that are loaded, once there are three reserved ones. -/
def sectorLimit (super : FatSuper) : Nat :=
  let count := super.reservedSectors - 2
  if count > 30 then 30 else count

/-- `main`: what has been loaded, with the drive and the partition filled in,
    and the address to enter. `loadSectors` is the call of the BIOS. -/
def main (super : FatSuper) (loadSectors : CHSPacked → Nat → Option Bytes) (disk : UInt8)
    (ent : MBREntry) : Except Stop (Stage2Header × Nat) :=
  if super.reservedSectors < 3 then .error .errLoad
  else
    let count := sectorLimit super
    let src := ent.startAddressCHS
    let src := src.setSector (src.sector + 2)
    match loadSectors src count with
    | none => .error .errLoad
    | some dst =>
      let hdr : Stage2Header := ⟨dst⟩
      if !hdr.verify count then .error .errBroken
      else
        .ok ((hdr.setBiosBootDrive disk).setBootMBREntry ent,
          stage2Location + Stage2Header.sizeof)

/-- The partition starts with the image, and its sectors can be read from
    sector 2 on. -/
def Serves (loadSectors : CHSPacked → Nat → Option Bytes) (ent : MBREntry) (image : Store) : Prop :=
  ∀ n, loadSectors (ent.startAddressCHS.setSector (ent.startAddressCHS.sector + 2)) n =
    some (image.read (2 * 512) (n * 512))

/-- The boot sector enters stage 2. -/
def Enters (loadSectors : CHSPacked → Nat → Option Bytes) (disk : UInt8) (ent : MBREntry)
    (image : Store) : Prop :=
  ∃ hdr addr, main ⟨image.read 0 512⟩ loadSectors disk ent = .ok (hdr, addr)

variable {loadSectors : CHSPacked → Nat → Option Bytes} {disk : UInt8} {ent : MBREntry}
  {image : Store} {super : FatSuper}

theorem sectorLimit_eq (super : FatSuper) :
    sectorLimit super = min (super.reservedSectors - 2) 30 := by
  unfold sectorLimit
  dsimp only
  split
  · omega
  · omega

theorem enters_iff (hserves : Serves loadSectors ent image)
    (hsuper : image.read 0 512 = super.raw) :
    Enters loadSectors disk ent image ↔ 3 ≤ super.reservedSectors ∧
      (⟨image.read (2 * 512) (sectorLimit super * 512)⟩ : Stage2Header).verify
        (sectorLimit super) = true := by
  have hsame : (⟨image.read 0 512⟩ : FatSuper) = super := congrArg FatSuper.mk hsuper
  unfold Enters main
  rw [hsame]
  by_cases hfew : super.reservedSectors < 3
  · rw [if_pos hfew]
    refine iff_of_false ?_ (by omega)
    rintro ⟨hdr, addr, herr⟩
    cases herr
  rw [if_neg hfew]
  dsimp only
  rw [hserves]
  dsimp only
  cases hverify : (⟨image.read (2 * 512) (sectorLimit super * 512)⟩ : Stage2Header).verify
      (sectorLimit super) with
  | true => exact iff_of_true ⟨_, _, rfl⟩ ⟨by omega, rfl⟩
  | false =>
    refine iff_of_false ?_ (by simp)
    rintro ⟨hdr, addr, herr⟩
    cases herr

end Vbr

namespace Install

open FatEdit (u64OfInt)

/-! ## Section 2: The header that installfat makes -/

/-- The memory of the vector with a fresh header on it. -/
def fresh (c : Bytes) : Stage2Header := (⟨c ++ List.replicate 1024 0⟩ : Stage2Header).init

theorem raw_fresh (c : Bytes) :
    (fresh c).raw = leBytes 4 stage2Magic ++ List.replicate 24 0 ++
      (c.drop 28 ++ List.replicate (1024 - (28 - c.length)) 0) := by
  have hlen : (leBytes 4 stage2Magic ++ List.replicate 24 (0 : UInt8)).length = 28 := by
    rw [List.length_append, length_leBytes, List.length_replicate]
  rw [fresh, Stage2Header.init, splice, hlen, List.take_zero, List.nil_append, Nat.zero_add,
    List.drop_append, List.drop_replicate]

theorem length_fresh (c : Bytes) : Stage2Header.sizeof ≤ (fresh c).raw.length := by
  rw [raw_fresh, List.length_append, List.length_append, length_leBytes, List.length_replicate,
    show Stage2Header.sizeof = 28 from rfl]
  omega

theorem length_counted (c : Bytes) :
    Stage2Header.sizeof ≤ ((fresh c).setSectorCount c.length).raw.length := by
  rw [Stage2Header.length_setSectorCount (length_fresh c)]
  exact length_fresh c

theorem makeHeader_eq (c : Bytes) :
    makeHeader (fileVec c) = ((fresh c).setSectorCount c.length).updateChecksum := rfl

theorem sectorCount_makeHeader {c : Bytes} (hsize : Stage2Header.sectors c.length < 2 ^ 16) :
    (makeHeader (fileVec c)).sectorCount = Stage2Header.sectors c.length := by
  rw [makeHeader_eq, Stage2Header.sectorCount_updateChecksum (length_counted c),
    Stage2Header.sectorCount_setSectorCount (length_fresh c) hsize]

/-- Behind the fields of the header, what the vector does not hold is zero. -/
theorem drop_makeHeader {c : Bytes} (hlen : 10 ≤ c.length) :
    (makeHeader (fileVec c)).raw.drop c.length = List.replicate 1024 0 := by
  rw [makeHeader_eq, Stage2Header.drop_updateChecksum (length_counted c) (by omega),
    Stage2Header.drop_setSectorCount (length_fresh c) _ hlen, raw_fresh]
  by_cases hshort : c.length < 28
  · -- the header is longer than the vector
    rw [List.drop_append, List.drop_append, length_leBytes, List.drop_eq_nil_of_le (by simp; omega),
      List.drop_replicate, List.nil_append, List.drop_eq_nil_of_le (Nat.le_of_lt hshort),
      List.nil_append, List.drop_replicate, List.replicate_append_replicate]
    congr 1
    rw [List.length_append, length_leBytes, List.length_replicate]
    omega
  · have hhead : (leBytes 4 stage2Magic ++ List.replicate 24 (0 : UInt8)).length = 28 := by
      rw [List.length_append, length_leBytes, List.length_replicate]
    rw [List.drop_append, List.drop_eq_nil_of_le (by omega), hhead, List.nil_append,
      List.drop_append, List.drop_drop, List.drop_eq_nil_of_le (by omega), List.nil_append,
      List.length_drop, Nat.sub_self, List.drop_zero]
    congr 1
    omega

/-- The bytes of the sectors, as installfat sums them up. -/
theorem take_makeHeader {c : Bytes} (hlen : 10 ≤ c.length) {n : Nat} (hn : c.length ≤ n)
    (hend : n ≤ c.length + 1024) :
    (makeHeader (fileVec c)).raw.take n =
      stage2Bytes c ++ List.replicate (n - c.length) 0 := by
  obtain ⟨k, rfl⟩ := Nat.exists_eq_add_of_le hn
  rw [List.take_add, drop_makeHeader hlen, List.take_replicate, stage2Bytes,
    Nat.add_sub_cancel_left, Nat.min_eq_left (by omega)]

/-- The first bytes of the header on a file of less than 10 bytes: the magic,
    the checksum and the sector count of an empty sector. -/
def tinyHeader : Bytes := [0xCA, 0xCA, 0xD0, 0xD0, 0x35, 0x35, 0x2F, 0x2F, 1, 0]

/-- The header before its checksum is set. -/
def tinyCounted : Bytes := [0xCA, 0xCA, 0xD0, 0xD0, 0, 0, 0, 0, 1, 0] ++ List.replicate 18 0

theorem counted_tiny {c : Bytes} (hpos : 0 < c.length) (hlen : c.length < 10) :
    (fresh c).setSectorCount c.length =
      ⟨tinyCounted ++ List.replicate (1024 - (28 - c.length)) 0⟩ := by
  have hraw := raw_fresh c
  rw [List.drop_eq_nil_of_le (show c.length ≤ 28 by omega), List.nil_append] at hraw
  have hcount : (if u32 c.length % 512 ≠ 0 then u16 (u16 (u32 c.length / 512) + 1)
      else u16 (u32 c.length / 512)) = 1 := by
    unfold u16 u32
    rw [if_pos (by omega)]
    omega
  unfold Stage2Header.setSectorCount
  dsimp only
  rw [hcount, hraw, splice_front _ (by decide)]
  rfl

/-- A short file is overwritten by its header. -/
theorem stage2Bytes_tiny {c : Bytes} (hpos : 0 < c.length) (hlen : c.length < 10) :
    stage2Bytes c = tinyHeader.take c.length := by
  have hzero : (⟨tinyCounted ++ List.replicate (1024 - (28 - c.length)) 0⟩ :
      Stage2Header).setChecksum 0 =
      ⟨tinyCounted ++ List.replicate (1024 - (28 - c.length)) 0⟩ := by
    rw [Stage2Header.setChecksum, splice_front _ (by decide)]
    rfl
  have hcount : (⟨tinyCounted ++ List.replicate (1024 - (28 - c.length)) 0⟩ :
      Stage2Header).sectorCount = 1 := by
    rw [Stage2Header.sectorCount, slice_of_front (List.prefix_append _ _) (by decide)]
    rfl
  have hsum : (⟨tinyCounted ++ List.replicate (1024 - (28 - c.length)) 0⟩ :
      Stage2Header).computeChecksum = 0xD0D0CACB := by
    rw [Stage2Header.computeChecksum_eq, hcount, List.take_append, List.take_replicate,
      placeSum_append, placeSum_zeros, Nat.add_zero, List.take_of_length_le (by decide)]
    decide
  rw [stage2Bytes, makeHeader_eq, counted_tiny hpos hlen, Stage2Header.updateChecksum]
  have hhead : splice tinyCounted 4 (leBytes 4 (u32 (2 ^ 32 - 0xD0D0CACB))) =
      tinyHeader ++ List.replicate 18 0 := by decide
  have hshort : c.length ≤ tinyHeader.length := Nat.le_of_lt hlen
  rw [hzero, hsum, Stage2Header.setChecksum, splice_front _ (by decide), hhead, List.append_assoc,
    List.take_append_of_le_length hshort]

/-! ## Section 3: The image behind a run -/

section Run

variable {h : Host} {super : FatSuper} {fsinfo : Bytes} {s : State}

/-- A run that gets to its end. -/
theorem install_ok (hr : ImageRead h super fsinfo) (hrun : install h (start h) = .ok () s) :
    ∃ vbr f, h.stage2 = some f ∧ Accepted super f ∧ h.WritesAll 0 512 ∧ h.WritesAll 1 512 ∧
      h.WritesAll 2 f.contents.length ∧
      s = withStage2 h (newSuper super vbr) fsinfo (stage2Bytes f.contents) := by
  rw [install_eq] at hrun
  -- the boot record is read first: it fits, is too big, or cannot be read
  rcases readAll_cases .vbr h.vbr 420 with ⟨vbr, hv, hfits⟩ | ⟨vbr, hv, hbig⟩ | ⟨-, e, hread, -⟩
  · have hlen := length_newSuper hr.length_super vbr.contents
    have hle0 := transfers_le h 0 512
    have hle1 := transfers_le h 1 512
    rw [prepare_of_fits hr hv hfits] at hrun
    simp only [hlen, hr.length_fsinfo] at hrun
    -- each short write is the end of the run
    by_cases h0 : h.transfers 0 512 < 512
    · rw [if_pos h0] at hrun
      cases hrun
    by_cases h1 : h.transfers 1 512 < 512
    · rw [if_neg h0, if_pos h1] at hrun
      cases hrun
    rw [if_neg h0, if_neg h1] at hrun
    rcases stage2_cases h (newSuper super vbr.contents) with
      ⟨f, hf, hacc⟩ | ⟨f, hf, href⟩ | ⟨-, e, hload, -⟩
    · have hle2 := transfers_le h 2 f.contents.length
      rw [loadStage2_of_accepted hf hacc] at hrun
      simp only [length_stage2Bytes] at hrun
      by_cases h2 : h.transfers 2 f.contents.length < f.contents.length
      · rw [if_pos h2] at hrun
        cases hrun
      rw [if_neg h2] at hrun
      cases hrun
      refine ⟨vbr.contents, f, hf, (refused_newSuper hr vbr.contents f).1.mp hacc, ?_, ?_, ?_, rfl⟩
      · rw [Host.WritesAll]
        omega
      · rw [Host.WritesAll]
        omega
      · rw [Host.WritesAll]
        omega
    · obtain ⟨e, hload, -⟩ := loadStage2_of_refused hf href
      rw [hload] at hrun
      cases hrun
    · rw [hload] at hrun
      cases hrun
  · rw [hr.prepare_eq, hv, readAll_of_tooBig hbig] at hrun
    cases hrun
  · rw [hr.prepare_eq, hread] at hrun
    cases hrun

/-- What is on the image then. -/
theorem bytes_withStage2 (hr : ImageRead h super fsinfo) (hbps : super.bytesPerSector = 512)
    (vbr : Bytes) {d : Bytes} (h0 : h.WritesAll 0 512) (h1 : h.WritesAll 1 512)
    (h2 : h.WritesAll 2 d.length) :
    (withStage2 h (newSuper super vbr) fsinfo d).image.bytes =
      ((h.image.bytes.write 0 (newSuper super vbr).raw).write 512 fsinfo).write (2 * 512) d := by
  have hlen := length_newSuper hr.length_super vbr
  have hnew := bytesPerSector_newSuper hr.length_super vbr
  have hlen' := hr.length_fsinfo
  rw [Host.WritesAll] at h0 h1 h2
  simp only [withStage2, withFsInfo, withSuper, State.after, start, bytes_store, List.length_nil,
    List.nil_append, List.length_append, List.length_singleton, Nat.reduceAdd, hlen, hlen',
    hnew, hbps, h0, h1, h2]
  rw [List.take_of_length_le (Nat.le_of_eq hlen), List.take_of_length_le (Nat.le_of_eq hlen'),
    List.take_of_length_le (Nat.le_refl d.length)]

/-- The boot sector finds the new super block, the bytes of stage 2, and behind
    them what the image held before. -/
theorem read_installed (hr : ImageRead h super fsinfo) (hbps : super.bytesPerSector = 512)
    (vbr : Bytes) {d : Bytes} (h0 : h.WritesAll 0 512) (h1 : h.WritesAll 1 512)
    (h2 : h.WritesAll 2 d.length) :
    let image := (withStage2 h (newSuper super vbr) fsinfo d).image.bytes
    image.read 0 512 = (newSuper super vbr).raw ∧
    (∀ k, image.read (2 * 512) (d.length + k) = d ++ h.image.bytes.read (2 * 512 + d.length) k) := by
  have hlen := length_newSuper hr.length_super vbr
  have hlen' := hr.length_fsinfo
  have hsame := Store.read_write_same h.image.bytes 0 (newSuper super vbr).raw
  rw [hlen] at hsame
  dsimp only
  rw [bytes_withStage2 hr hbps vbr h0 h1 h2]
  constructor
  · rw [Store.read_write_disjoint (by omega), Store.read_write_disjoint (by omega), hsame]
  · intro k
    rw [Store.read_add, Store.read_write_same, Store.read_write_disjoint (by omega),
      Store.read_write_disjoint (by omega), Store.read_write_disjoint (by omega)]

end Run

/-! ## Section 4: The boot sector accepts what installfat has written -/

/-- When it does: stage 2 takes 30 sectors at most, and what the image held
    behind it in its last sector adds up to zero, as words of the sector. If
    stage 2 is shorter than the fields of its header, the rest of them comes
    from the image as well. -/
def Bootable (super : FatSuper) (n : Nat) (image : Store) : Prop :=
  3 ≤ super.reservedSectors ∧
  if n < 10 then
    (⟨tinyHeader.take n ++ image.read (2 * 512 + n) (Vbr.sectorLimit super * 512 - n)⟩ :
      Stage2Header).verify (Vbr.sectorLimit super) = true
  else
    Stage2Header.sectors n ≤ 30 ∧
    2 ^ 32 ∣ placeSum 4 n (image.read (2 * 512 + n) (Stage2Header.sectors n * 512 - n))

/-- The first bytes of what has been loaded are those of the file. -/
theorem slice_loaded {c rest : Bytes} {o n : Nat} (hn : o + n ≤ c.length) :
    slice (stage2Bytes c ++ rest) o n = slice (makeHeader (fileVec c)).raw o n := by
  rw [slice_of_front (List.prefix_append _ rest) (by rw [length_stage2Bytes]; exact hn),
    slice_of_front (List.take_prefix c.length (makeHeader (fileVec c)).raw)
      (by rw [← stage2Bytes, length_stage2Bytes]; exact hn), stage2Bytes]

theorem sectorCount_loaded {c rest : Bytes} (hlen : 10 ≤ c.length)
    (hsectors : Stage2Header.sectors c.length < 2 ^ 16) :
    (⟨stage2Bytes c ++ rest⟩ : Stage2Header).sectorCount = Stage2Header.sectors c.length := by
  rw [← sectorCount_makeHeader hsectors, Stage2Header.sectorCount, slice_loaded (by omega)]
  rfl

/-- The header fields of what has been loaded are those of the file. -/
theorem verify_loaded_iff {c rest : Bytes} {count : Nat} (hlen : 10 ≤ c.length)
    (hsectors : Stage2Header.sectors c.length < 2 ^ 16) (hok : HeaderOk c) :
    (⟨stage2Bytes c ++ rest⟩ : Stage2Header).verify count = true ↔
      Stage2Header.sectors c.length ≤ count ∧
      2 ^ 32 ∣ placeSum 4 c.length
        (rest.take (Stage2Header.sectors c.length * 512 - c.length)) := by
  obtain ⟨hmagic, hpos, -, hsum, hzero⟩ := (Stage2Header.verify_iff _ _).mp hok
  have hcount : (⟨stage2Bytes c ++ rest⟩ : Stage2Header).sectorCount =
      Stage2Header.sectors c.length := sectorCount_loaded hlen hsectors
  rw [Stage2Header.verify_iff, hcount]
  rw [sectorCount_makeHeader hsectors] at hpos
  rw [Stage2Header.magic, Stage2Header.checksum, slice_loaded (by omega),
    slice_loaded (by omega)]
  have hrange := Stage2Header.sectors_range c.length
  -- installfat has made the sum of the bytes of the file zero
  rw [Stage2Header.computeChecksum_eq, sectorCount_makeHeader hsectors,
    take_makeHeader hlen (by omega) (by omega), placeSum_append, placeSum_zeros, Nat.add_zero] at hzero
  have htake : (stage2Bytes c ++ rest).take (512 * Stage2Header.sectors c.length) =
      stage2Bytes c ++ rest.take (Stage2Header.sectors c.length * 512 - c.length) := by
    rw [List.take_append, length_stage2Bytes,
      List.take_of_length_le (by rw [length_stage2Bytes]; omega), Nat.mul_comm]
  have hchecksum : (⟨stage2Bytes c ++ rest⟩ : Stage2Header).computeChecksum = 0 ↔
      2 ^ 32 ∣ placeSum 4 c.length
        (rest.take (Stage2Header.sectors c.length * 512 - c.length)) := by
    rw [Stage2Header.computeChecksum_eq, hcount, htake, placeSum_append, length_stage2Bytes,
      Nat.zero_add, Nat.dvd_iff_mod_eq_zero]
    unfold u32 at hzero ⊢
    omega
  rw [hchecksum]
  constructor
  · rintro ⟨-, -, hle, -, hdvd⟩
    exact ⟨hle, hdvd⟩
  · rintro ⟨hle, hdvd⟩
    exact ⟨hmagic, hpos, hle, hsum, hdvd⟩

variable {h : Host} {super : FatSuper} {fsinfo : Bytes} {s : State}
  {loadSectors : CHSPacked → Nat → Option Bytes} {disk : UInt8} {ent : MBREntry}

/-- The boot sector of the image counts the sectors as before. -/
theorem super_installed (hr : ImageRead h super fsinfo) (hbps : super.bytesPerSector = 512)
    (hrun : install h (start h) = .ok () s) :
    ∃ new : FatSuper, s.image.bytes.read 0 512 = new.raw ∧
      new.reservedSectors = super.reservedSectors ∧
      Vbr.sectorLimit new = Vbr.sectorLimit super := by
  obtain ⟨vbr, f, -, -, h0, h1, h2, rfl⟩ := install_ok hr hrun
  obtain ⟨hsuper, -⟩ := read_installed hr hbps vbr (d := stage2Bytes f.contents) h0 h1
    (by rw [length_stage2Bytes]; exact h2)
  have hreserved := reservedSectors_newSuper hr.length_super vbr
  refine ⟨newSuper super vbr, hsuper, hreserved, ?_⟩
  rw [Vbr.sectorLimit, Vbr.sectorLimit, hreserved]

/-- Verifying what has been loaded, behind a run of installfat. -/
theorem verify_installed_iff (hr : ImageRead h super fsinfo) (hbps : super.bytesPerSector = 512)
    (hrun : install h (start h) = .ok () s) {f : HostFile} (hf : h.stage2 = some f)
    (h3 : 3 ≤ super.reservedSectors) :
    (⟨s.image.bytes.read (2 * 512) (Vbr.sectorLimit super * 512)⟩ : Stage2Header).verify
        (Vbr.sectorLimit super) = true ↔
      if f.contents.length < 10 then
        (⟨tinyHeader.take f.contents.length ++ h.image.bytes.read (2 * 512 + f.contents.length)
          (Vbr.sectorLimit super * 512 - f.contents.length)⟩ : Stage2Header).verify
            (Vbr.sectorLimit super) = true
      else
        Stage2Header.sectors f.contents.length ≤ 30 ∧
        2 ^ 32 ∣ placeSum 4 f.contents.length (h.image.bytes.read (2 * 512 + f.contents.length)
          (Stage2Header.sectors f.contents.length * 512 - f.contents.length)) := by
  obtain ⟨vbr, f', hf', hacc, h0, h1, h2, rfl⟩ := install_ok hr hrun
  obtain rfl := Option.some.inj (hf.symm.trans hf')
  have hn := length_stage2Bytes f.contents
  obtain ⟨-, hread⟩ := read_installed hr hbps vbr (d := stage2Bytes f.contents) h0 h1
    (by rw [hn]; exact h2)
  rw [hn] at hread
  have hlt := super.reservedSectors_lt
  have hmax := hacc.1.2
  rw [maxSize_eq (by omega) (by rw [hbps]; omega), hbps] at hmax
  have hmin := Vbr.sectorLimit_eq super
  have hsectors : Stage2Header.sectors f.contents.length ≤ super.reservedSectors - 2 := by
    unfold Stage2Header.sectors
    omega
  by_cases htiny : f.contents.length < 10
  · have hpos : 0 < f.contents.length := by
      obtain ⟨-, hcount, -⟩ := (Stage2Header.verify_iff _ _).mp hacc.2
      rw [sectorCount_makeHeader (by omega), Stage2Header.sectors] at hcount
      omega
    have hall : f.contents.length + (Vbr.sectorLimit super * 512 - f.contents.length) =
        Vbr.sectorLimit super * 512 := by omega
    rw [if_pos htiny, ← stage2Bytes_tiny hpos htiny, ← hread, hall]
  rw [if_neg htiny]
  by_cases hfits : Stage2Header.sectors f.contents.length ≤ Vbr.sectorLimit super
  · have hrange := (Stage2Header.sectors_range f.contents.length).1
    obtain ⟨k, hk⟩ : ∃ k, Vbr.sectorLimit super * 512 = f.contents.length + k :=
      ⟨Vbr.sectorLimit super * 512 - f.contents.length, by omega⟩
    have hshort : Stage2Header.sectors f.contents.length * 512 - f.contents.length ≤ k := by omega
    rw [hk, hread, verify_loaded_iff (by omega) (by omega) hacc.2, Store.take_read _ hshort]
    exact and_congr_left fun _ => iff_of_true hfits (by omega)
  · -- more than 30 sectors: the boot sector has not loaded them all
    refine iff_of_false ?_ (by omega)
    intro hverify
    obtain ⟨-, -, hcount, -⟩ := (Stage2Header.verify_iff _ _).mp hverify
    have hloaded : (⟨stage2Bytes f.contents ++
        h.image.bytes.read (2 * 512 + f.contents.length) 0⟩ : Stage2Header).sectorCount =
        Stage2Header.sectors f.contents.length := sectorCount_loaded (by omega) (by omega)
    apply hfits
    rw [← hloaded, ← hread 0]
    unfold Stage2Header.sectorCount at hcount ⊢
    rw [Store.slice_read _ (by omega)] at hcount ⊢
    exact hcount

/-- **installfat and the boot sector**: where installfat has run through, the
    boot sector enters stage 2 if and only if the image is bootable. -/
theorem enters_iff_bootable (hr : ImageRead h super fsinfo) (hbps : super.bytesPerSector = 512)
    (hrun : install h (start h) = .ok () s) {f : HostFile} (hf : h.stage2 = some f)
    (hserves : Vbr.Serves loadSectors ent s.image.bytes) :
    Vbr.Enters loadSectors disk ent s.image.bytes ↔
      Bootable super f.contents.length h.image.bytes := by
  obtain ⟨new, hsuper, hreserved, hlimit⟩ := super_installed hr hbps hrun
  rw [Vbr.enters_iff hserves hsuper, hreserved, hlimit, Bootable]
  exact and_congr_right fun h3 => verify_installed_iff hr hbps hrun hf h3

/-! Three reserved sectors, a stage 2 of 100 bytes, and one byte behind it that
    the image held before. -/

def staleHost (stale : UInt8) : Host :=
  sampleHost (FatEdit.sparseFile 32768
      ((0, FatEdit.smallSuper 3 64 1) :: (1324, [stale]) :: FatEdit.fsInfoParts))
    (some ⟨List.replicate 100 0xAA, false⟩)

/-- The BIOS reads from the image. -/
def readsFrom (image : Store) (_src : CHSPacked) (n : Nat) : Option Bytes :=
  some (image.read (2 * 512) (n * 512))

def runsThrough (h : Host) : Bool :=
  match install h (start h) with
  | .ok _ _ => true
  | .error _ _ => false

theorem install_of_runsThrough (hok : runsThrough h = true) :
    install h (start h) = .ok () (main h).2 := by
  unfold runsThrough at hok
  unfold main
  cases hrun : install h (start h) with
  | ok u s => rfl
  | error e s =>
    rw [hrun] at hok
    cases hok

theorem imageRead_stale {stale : UInt8} {super : FatSuper} {fsinfo : Bytes}
    (hsuper : (staleHost stale).image.readAt 0 512 = .ok super.raw)
    (hfsinfo : (staleHost stale).image.readAt
      (u64OfInt (i32 (super.fsInfoIndex * super.bytesPerSector))) 512 = .ok fsinfo) :
    ImageRead (staleHost stale) super fsinfo :=
  ⟨rfl, rfl, hsuper, rfl, hfsinfo⟩

set_option maxRecDepth 3000

/-- Where that byte is zero, the boot sector enters stage 2. -/
theorem enters_behind_zeros :
    Vbr.Enters (readsFrom (main (staleHost 0)).2.image.bytes) 0x80 ⟨List.replicate 16 0⟩
      (main (staleHost 0)).2.image.bytes := by
  have hr : ImageRead (staleHost 0) ⟨(staleHost 0).image.bytes.read 0 512⟩
      ((staleHost 0).image.bytes.read 512 512) :=
    imageRead_stale (by decide) (by decide +kernel)
  have hrun := install_of_runsThrough (h := staleHost 0) (by decide +kernel)
  refine (enters_iff_bootable hr (by decide) hrun rfl fun _ => rfl).mpr ⟨?_, ?_⟩
  · decide
  · rw [if_neg (by decide)]
    decide

/-- A byte that is not zero, and the boot sector refuses what installfat has
    written. -/
theorem stale_byte_refused :
    (⟨(staleHost 1).image.bytes.read 0 512⟩ : FatSuper).bytesPerSector = 512 ∧
    install (staleHost 1) (start (staleHost 1)) = .ok () (main (staleHost 1)).2 ∧
    ¬ Vbr.Enters (readsFrom (main (staleHost 1)).2.image.bytes) 0x80 ⟨List.replicate 16 0⟩
      (main (staleHost 1)).2.image.bytes := by
  have hbps : (⟨(staleHost 1).image.bytes.read 0 512⟩ : FatSuper).bytesPerSector = 512 := by
    decide
  have hr : ImageRead (staleHost 1) ⟨(staleHost 1).image.bytes.read 0 512⟩
      ((staleHost 1).image.bytes.read 512 512) :=
    imageRead_stale (by decide) (by decide +kernel)
  have hrun := install_of_runsThrough (h := staleHost 1) (by decide +kernel)
  refine ⟨hbps, hrun, ?_⟩
  obtain ⟨new, hsuper, hreserved, hlimit⟩ := super_installed hr hbps hrun
  rw [Vbr.enters_iff (fun _ => rfl) hsuper, hlimit]
  rintro ⟨-, hverify⟩
  rw [verify_installed_iff hr hbps hrun rfl (by decide), if_neg (by decide)] at hverify
  exact absurd hverify.2 (by decide)

end Install

end Hausboot
