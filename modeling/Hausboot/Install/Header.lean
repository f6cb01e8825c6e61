import Hausboot.Lib.WordSum
import Hausboot.Types

/-! # The Stage 2 Header

    `Stage2Header.h`. The object is a view of the memory that starts at it:
    `ComputeChecksum` runs over all sectors behind the header. -/

open ByteLib

namespace Hausboot

def stage2Magic : Nat := 0xD0D0CACA

structure Stage2Header where
  raw : Bytes

namespace Stage2Header

/-- `sizeof(Stage2Header)` -/
def sizeof : Nat := 28

def magic (hdr : Stage2Header) : Nat := leNat (slice hdr.raw 0 4)

def checksum (hdr : Stage2Header) : Nat := leNat (slice hdr.raw 4 4)

def sectorCount (hdr : Stage2Header) : Nat := leNat (slice hdr.raw 8 2)

/-- `new (ptr) Stage2Header()`: the magic, and everything else zero. -/
def init (hdr : Stage2Header) : Stage2Header :=
  ⟨splice hdr.raw 0 (leBytes 4 stage2Magic ++ List.replicate 24 0)⟩

def setSectorCount (hdr : Stage2Header) (size : Nat) : Stage2Header :=
  let count := u16 (u32 size / 512)
  let count := if u32 size % 512 ≠ 0 then u16 (count + 1) else count
  ⟨splice hdr.raw 8 (leBytes 2 count)⟩

/-- The loop of `ComputeChecksum`, with `n` words to go from offset `off`. -/
def sumLoop (raw : Bytes) : Nat → Nat → Nat → Nat
  | 0, _, acc => acc
  | n + 1, off, acc => sumLoop raw n (off + 4) (u32 (acc + leNat (slice raw off 4)))

def computeChecksum (hdr : Stage2Header) : Nat := sumLoop hdr.raw (hdr.sectorCount * 128) 0 0

def setChecksum (hdr : Stage2Header) (value : Nat) : Stage2Header :=
  ⟨splice hdr.raw 4 (leBytes 4 value)⟩

/-- `~x + 1` -/
def updateChecksum (hdr : Stage2Header) : Stage2Header :=
  let hdr := hdr.setChecksum 0
  hdr.setChecksum (u32 (2 ^ 32 - hdr.computeChecksum))

def verify (hdr : Stage2Header) (maxSectors : Nat) : Bool :=
  if hdr.magic ≠ stage2Magic then false
  else if hdr.sectorCount = 0 || hdr.sectorCount > maxSectors then false
  else hdr.checksum ≠ 0 && hdr.computeChecksum = 0

/-! ## Section 1: The checksum as a sum of bytes -/

theorem sumLoop_eq (raw : Bytes) {off : Nat} (hoff : off % 4 = 0) (n : Nat) {acc : Nat}
    (hacc : acc < 2 ^ 32) :
    sumLoop raw n off acc = u32 (acc + placeSum 4 off (slice raw off (4 * n))) := by
  induction n generalizing off acc with
  | zero => rw [sumLoop, Nat.mul_zero, slice_zero, placeSum, Nat.add_zero, u32_of_lt hacc]
  | succ n ih =>
    have hword : placeSum 4 off (slice raw off 4) = leNat (slice raw off 4) := by
      rw [placeSum_word (by rw [hoff, length_slice]; omega), hoff, Nat.pow_zero, Nat.one_mul]
    have hsplit : slice raw off (4 * (n + 1)) =
        slice raw off 4 ++ slice raw (off + 4) (4 * n) := by
      rw [show 4 * (n + 1) = 4 + 4 * n by omega, slice_add]
    rw [sumLoop, ih (by omega) (u32_lt _), hsplit, placeSum_append, hword]
    -- behind the end of the memory there is nothing to add
    have hrest : placeSum 4 (off + (slice raw off 4).length) (slice raw (off + 4) (4 * n)) =
        placeSum 4 (off + 4) (slice raw (off + 4) (4 * n)) := by
      by_cases hlen : off + 4 ≤ raw.length
      · rw [length_slice, show min 4 (raw.length - off) = 4 by omega]
      · have hnil : slice raw (off + 4) (4 * n) = [] := slice_eq_nil (by omega)
        rw [hnil, placeSum, placeSum]
    rw [hrest, u32, u32, u32, Nat.mod_add_mod]
    congr 1
    omega

/-- `ComputeChecksum` adds up the bytes of the sectors. -/
theorem computeChecksum_eq (hdr : Stage2Header) :
    hdr.computeChecksum = u32 (placeSum 4 0 (hdr.raw.take (512 * hdr.sectorCount))) := by
  rw [computeChecksum, sumLoop_eq hdr.raw rfl _ (by decide), Nat.zero_add, slice, List.drop_zero]
  congr 3
  omega

theorem verify_iff (hdr : Stage2Header) (maxSectors : Nat) :
    hdr.verify maxSectors = true ↔
      hdr.magic = stage2Magic ∧ 0 < hdr.sectorCount ∧ hdr.sectorCount ≤ maxSectors ∧
      hdr.checksum ≠ 0 ∧ hdr.computeChecksum = 0 := by
  unfold verify
  by_cases hmagic : hdr.magic = stage2Magic
  · rw [if_neg (not_not.mpr hmagic)]
    by_cases hcount : hdr.sectorCount = 0 ∨ hdr.sectorCount > maxSectors
    · rw [if_pos (by simpa using hcount)]
      simp only [Bool.false_eq_true, false_iff, not_and]
      omega
    · rw [if_neg (by simpa using hcount)]
      simp only [decide_not, Bool.and_eq_true, Bool.not_eq_true', decide_eq_false_iff_not,
        decide_eq_true_eq, hmagic, true_and]
      have h0 : 0 < hdr.sectorCount := by omega
      have hle : hdr.sectorCount ≤ maxSectors := by omega
      simp [h0, hle]
  · rw [if_pos hmagic]
    simp [hmagic]

/-! ## Section 2: The setters

    They write to the header and leave the memory behind it alone. -/

variable {hdr : Stage2Header}

theorem length_setChecksum (h : sizeof ≤ hdr.raw.length) (value : Nat) :
    (hdr.setChecksum value).raw.length = hdr.raw.length := by
  rw [show sizeof = 28 from rfl] at h
  exact length_splice (by rw [length_leBytes]; omega)

theorem length_updateChecksum (h : sizeof ≤ hdr.raw.length) :
    hdr.updateChecksum.raw.length = hdr.raw.length := by
  have h0 := length_setChecksum h 0
  unfold updateChecksum
  rw [length_setChecksum (by omega), h0]

theorem length_setSectorCount (h : sizeof ≤ hdr.raw.length) (size : Nat) :
    (hdr.setSectorCount size).raw.length = hdr.raw.length := by
  rw [show sizeof = 28 from rfl] at h
  exact length_splice (by rw [length_leBytes]; omega)

theorem length_init (h : sizeof ≤ hdr.raw.length) : hdr.init.raw.length = hdr.raw.length := by
  rw [show sizeof = 28 from rfl] at h
  exact length_splice (by simp; omega)

/-- Setting the checksum changes no window apart from it. -/
theorem slice_setChecksum (h : sizeof ≤ hdr.raw.length) (value : Nat) {o n : Nat}
    (ho : o + n ≤ 4 ∨ 8 ≤ o) : slice (hdr.setChecksum value).raw o n = slice hdr.raw o n := by
  rw [show sizeof = 28 from rfl] at h
  rcases ho with ho | ho
  · exact slice_splice_before (by omega) ho
  · exact slice_splice_after (by rw [length_leBytes]; omega) (by rw [length_leBytes]; omega)

theorem sectorCount_updateChecksum (h : sizeof ≤ hdr.raw.length) :
    hdr.updateChecksum.sectorCount = hdr.sectorCount := by
  have h0 := length_setChecksum h 0
  unfold updateChecksum sectorCount
  rw [slice_setChecksum (by omega) _ (.inr (by decide)), slice_setChecksum h _ (.inr (by decide))]

/-- The number of sectors that `size` bytes take. -/
def sectors (size : Nat) : Nat := (size + 511) / 512

theorem sectors_range (n : Nat) : n ≤ sectors n * 512 ∧ sectors n * 512 < n + 512 := by
  unfold sectors
  omega

theorem sectorCount_setSectorCount (h : sizeof ≤ hdr.raw.length) {size : Nat}
    (hsize : sectors size < 2 ^ 16) : (hdr.setSectorCount size).sectorCount = sectors size := by
  rw [show sizeof = 28 from rfl] at h
  rw [sectors] at hsize
  have hu32 : u32 size = size := u32_of_lt (by omega)
  have hwin : ∀ count, slice (splice hdr.raw 8 (leBytes 2 count)) 8 2 = leBytes 2 count := by
    intro count
    have hsame := @slice_splice_same hdr.raw (leBytes 2 count) 8 (by omega)
    rwa [length_leBytes] at hsame
  unfold setSectorCount sectorCount
  simp only [hu32, hwin]
  rw [leNat_leBytes_of_lt (by unfold u16; split <;> omega), sectors, u16, u16]
  split <;> omega

/-- Behind the fields that are set, the memory is what it was. -/
theorem drop_updateChecksum (h : sizeof ≤ hdr.raw.length) {n : Nat} (hn : 8 ≤ n) :
    hdr.updateChecksum.raw.drop n = hdr.raw.drop n := by
  have h0 := length_setChecksum h 0
  rw [show sizeof = 28 from rfl] at h
  unfold updateChecksum
  rw [setChecksum, drop_splice (by rw [length_leBytes]; omega) (by rw [length_leBytes]; omega),
    setChecksum, drop_splice (by rw [length_leBytes]; omega) (by rw [length_leBytes]; omega)]

theorem drop_setSectorCount (h : sizeof ≤ hdr.raw.length) (size : Nat) {n : Nat} (hn : 10 ≤ n) :
    (hdr.setSectorCount size).raw.drop n = hdr.raw.drop n := by
  rw [show sizeof = 28 from rfl] at h
  unfold setSectorCount
  rw [drop_splice (by rw [length_leBytes]; omega) (by rw [length_leBytes]; omega)]

end Stage2Header

end Hausboot
