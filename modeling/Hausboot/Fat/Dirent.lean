import Mathlib.Data.List.DropRight
import Hausboot.Fat.Name
import Hausboot.Types

/-! # Directory Records

    `fs/FatDirent.h` and `fs/FatDirentLong.h`. Both classes are views of the
    same 32 raw bytes of a directory. -/

open ByteLib

namespace Hausboot

/-- `FixedLengthString<COUNT, ' '>::Set`: the first characters of a C string,
    padded with blanks. -/
def fixedLength (count : Nat) (value : Bytes) : Bytes :=
  (cstr value).take count ++ List.replicate (count - (cstr value).length) 0x20

structure FatDirent where
  raw : Bytes

namespace FatDirent

/-- `sizeof(FatDirent)` -/
def sizeof : Nat := 32

/-! ## Flags -/

def directory : Nat := 0x10

def longFileName : Nat := 0x0F

/-! ## Reading -/

def field (e : FatDirent) (off n : Nat) : Nat := leNat (slice e.raw off n)

def name (e : FatDirent) : Bytes := slice e.raw 0 8

def extension (e : FatDirent) : Bytes := slice e.raw 8 3

def entryFlags (e : FatDirent) : Nat := e.field 11 1

def clusterIndex (e : FatDirent) : Nat := e.field 20 2 * 2 ^ 16 + e.field 26 2

def size (e : FatDirent) : Nat := e.field 28 4

def isDummiedOut (e : FatDirent) : Bool := e.raw.getD 0 0 == 0xE5

def isLastInList (e : FatDirent) : Bool := e.raw.getD 0 0 == 0x00

def isDirectory (e : FatDirent) : Bool := FlagField.isSet e.entryFlags directory

def isLongName (e : FatDirent) : Bool := FlagField.isSet e.entryFlags longFileName

def checksum (e : FatDirent) : Nat :=
  (slice e.raw 0 11).foldl
    (fun sum c => ((sum &&& 1) * 2 ^ 7 + sum / 2 + c.toNat) % 2 ^ 8) 0

/-- Removal of blanks at the end of a buffer. -/
def stripBlanks (bs : Bytes) : Bytes := bs.rdropWhile (· == 0x20)

/-- `NameToString`: the characters in front of the terminator that it stores,
    or `none` where it returns `false` and stores nothing. -/
def nameToString (e : FatDirent) : Option Bytes :=
  if e.raw.getD 0 0 = 0x20 then none
  else
    let base := stripBlanks e.name
    if e.raw.getD 8 0 ≠ 0x20 then some (stripBlanks (base ++ 0x2E :: e.extension))
    else some base

/-! ## Writing -/

/-- `FatDirent()`: blank name and extension, everything else zero. -/
def default : FatDirent := ⟨List.replicate 11 0x20 ++ List.replicate 21 0⟩

/-- `memset(&ent, 0, sizeof(ent))` -/
def zero : FatDirent := ⟨List.replicate 32 0⟩

def setName (e : FatDirent) (value : Bytes) : FatDirent := ⟨splice e.raw 0 (fixedLength 8 value)⟩

def setExtension (e : FatDirent) (value : Bytes) : FatDirent :=
  ⟨splice e.raw 8 (fixedLength 3 value)⟩

def setEntryFlags (e : FatDirent) (flags : Nat) : FatDirent := ⟨splice e.raw 11 (leBytes 1 flags)⟩

def setClusterIndex (e : FatDirent) (index : Nat) : FatDirent :=
  ⟨splice (splice e.raw 26 (leBytes 2 (index % 2 ^ 16))) 20 (leBytes 2 (index / 2 ^ 16))⟩

def setSize (e : FatDirent) (size : Nat) : FatDirent := ⟨splice e.raw 28 (leBytes 4 size)⟩

/-! ## Reading what was written

    A setter changes its own bytes of a complete record and no others. -/

section Windows

variable {e : FatDirent}

theorem length_fixedLength (count : Nat) (value : Bytes) :
    (fixedLength count value).length = count := by
  simp only [fixedLength, List.length_append, List.length_take, List.length_replicate]
  omega

theorem length_setName (he : e.raw.length = sizeof) (value : Bytes) :
    (e.setName value).raw.length = sizeof := by
  rw [setName, length_splice (by rw [he, length_fixedLength]; decide), he]

theorem length_setExtension (he : e.raw.length = sizeof) (value : Bytes) :
    (e.setExtension value).raw.length = sizeof := by
  rw [setExtension, length_splice (by rw [he, length_fixedLength]; decide), he]

theorem length_setEntryFlags (he : e.raw.length = sizeof) (flags : Nat) :
    (e.setEntryFlags flags).raw.length = sizeof := by
  rw [setEntryFlags, length_splice (by rw [he, length_leBytes]; decide), he]

theorem length_setSize (he : e.raw.length = sizeof) (size : Nat) :
    (e.setSize size).raw.length = sizeof := by
  rw [setSize, length_splice (by rw [he, length_leBytes]; decide), he]

theorem length_setClusterLow (he : e.raw.length = sizeof) (index : Nat) :
    (splice e.raw 26 (leBytes 2 index)).length = sizeof := by
  rw [length_splice (by rw [he, length_leBytes]; decide), he]

theorem length_setClusterIndex (he : e.raw.length = sizeof) (index : Nat) :
    (e.setClusterIndex index).raw.length = sizeof := by
  have hlow := length_setClusterLow he (index % 2 ^ 16)
  rw [setClusterIndex, length_splice (by rw [hlow, length_leBytes]; decide), hlow]

/-- A window apart from the written one. -/
theorem window_splice {bs d : Bytes} {off o n : Nat} (hlen : off + d.length ≤ bs.length)
    (h : o + n ≤ off ∨ off + d.length ≤ o) : slice (splice bs off d) o n = slice bs o n := by
  rcases h with h | h
  · exact slice_splice_before (by omega) h
  · exact slice_splice_after hlen h

theorem window_setName (he : e.raw.length = sizeof) (value : Bytes) {o n : Nat} (h : 8 ≤ o) :
    slice (e.setName value).raw o n = slice e.raw o n :=
  window_splice (by rw [he, length_fixedLength]; decide) (by rw [length_fixedLength]; omega)

theorem window_setExtension (he : e.raw.length = sizeof) (value : Bytes) {o n : Nat}
    (h : o + n ≤ 8 ∨ 11 ≤ o) : slice (e.setExtension value).raw o n = slice e.raw o n :=
  window_splice (by rw [he, length_fixedLength]; decide) (by rw [length_fixedLength]; omega)

theorem window_setEntryFlags (he : e.raw.length = sizeof) (flags : Nat) {o n : Nat}
    (h : o + n ≤ 11 ∨ 12 ≤ o) : slice (e.setEntryFlags flags).raw o n = slice e.raw o n :=
  window_splice (by rw [he, length_leBytes]; decide) (by rw [length_leBytes]; omega)

theorem window_setSize (he : e.raw.length = sizeof) (size : Nat) {o n : Nat} (h : o + n ≤ 28) :
    slice (e.setSize size).raw o n = slice e.raw o n :=
  window_splice (by rw [he, length_leBytes]; decide) (.inl h)

theorem window_setClusterIndex (he : e.raw.length = sizeof) (index : Nat) {o n : Nat}
    (h : o + n ≤ 20 ∨ (22 ≤ o ∧ o + n ≤ 26) ∨ 28 ≤ o) :
    slice (e.setClusterIndex index).raw o n = slice e.raw o n := by
  have hlow := length_setClusterLow he (index % 2 ^ 16)
  rw [setClusterIndex, window_splice (by rw [hlow, length_leBytes]; decide)
    (by rw [length_leBytes]; omega), window_splice (by rw [he, length_leBytes]; decide)
    (by rw [length_leBytes]; omega)]

/-- The window that a setter has just written. -/
theorem window_splice_same {bs d : Bytes} {off n : Nat} (hd : d.length = n)
    (h : off + n ≤ bs.length) : slice (splice bs off d) off n = d := by
  rw [← hd]
  exact slice_splice_same (by omega)

theorem name_setName (he : e.raw.length = sizeof) (value : Bytes) :
    (e.setName value).name = fixedLength 8 value :=
  window_splice_same (length_fixedLength 8 value) (by rw [he]; decide)

theorem extension_setExtension (he : e.raw.length = sizeof) (value : Bytes) :
    (e.setExtension value).extension = fixedLength 3 value :=
  window_splice_same (length_fixedLength 3 value) (by rw [he]; decide)

theorem entryFlags_setEntryFlags (he : e.raw.length = sizeof) {flags : Nat} (h : flags < 256) :
    (e.setEntryFlags flags).entryFlags = flags := by
  rw [entryFlags, field, setEntryFlags, window_splice_same (length_leBytes 1 flags)
    (by rw [he]; decide), leNat_leBytes_of_lt (by omega)]

theorem size_setSize (he : e.raw.length = sizeof) {size : Nat} (h : size < 2 ^ 32) :
    (e.setSize size).size = size := by
  rw [FatDirent.size, field, setSize, window_splice_same (length_leBytes 4 size)
    (by rw [he]; decide), leNat_leBytes_of_lt (by omega)]

theorem clusterIndex_setClusterIndex (he : e.raw.length = sizeof) {index : Nat}
    (h : index < 2 ^ 32) : (e.setClusterIndex index).clusterIndex = index := by
  have hlow := length_setClusterLow he (index % 2 ^ 16)
  have hhi : (e.setClusterIndex index).field 20 2 = index / 2 ^ 16 := by
    rw [field, setClusterIndex, window_splice_same (length_leBytes 2 _) (by rw [hlow]; decide),
      leNat_leBytes_of_lt (by omega)]
  have hlo : (e.setClusterIndex index).field 26 2 = index % 2 ^ 16 := by
    rw [field, setClusterIndex, window_splice (by rw [hlow, length_leBytes]; decide)
      (by rw [length_leBytes]; omega), window_splice_same (length_leBytes 2 _) (by rw [he]; decide),
      leNat_leBytes_of_lt (by omega)]
  rw [clusterIndex, hhi, hlo]
  omega

end Windows

end FatDirent

/-! ## Long name records -/

structure FatDirentLong where
  raw : Bytes

namespace FatDirentLong

def seqNumber (e : FatDirentLong) : Nat := leNat (slice e.raw 0 1)

def isLast (e : FatDirentLong) : Bool := e.seqNumber &&& 0x40 != 0

def sequenceNumber (e : FatDirentLong) : Nat := e.seqNumber &&& 0x3F

def isLongName (e : FatDirentLong) : Bool :=
  FlagField.isSet (leNat (slice e.raw 11 1)) FatDirent.longFileName

def shortNameChecksum (e : FatDirentLong) : Nat := leNat (slice e.raw 13 1)

/-- One 16 bit unit of a long name as a character. -/
def unitToChar (x : Nat) : UInt8 :=
  if (0 < x && x < 0x20) || x ≥ 0x7F then 0x3F else UInt8.ofNat x

/-- `Stringify`: `count` units from offset `off` on. -/
def stringify (e : FatDirentLong) (off count : Nat) : Bytes :=
  (List.range count).map fun i => unitToChar (leNat (slice e.raw (off + 2 * i) 2))

/-- `NameToString`: the 13 characters that it stores. -/
def nameToString (e : FatDirentLong) : Bytes :=
  e.stringify 1 5 ++ e.stringify 14 6 ++ e.stringify 28 2

end FatDirentLong

end Hausboot
