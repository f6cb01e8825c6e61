import Hausboot.Lib.Store
import Hausboot.Types

/-! # Multiboot Headers and Protected Mode Calls

    `kernel/MultiBootHeader.h`, and the two functions of `lib/pm86/copy.cpp`
    that write the kernel to its place. Header fields are read from the 32 raw
    bytes; all address arithmetic is in `uint32_t`. -/

open ByteLib

namespace Hausboot

structure MultiBootHeader where
  raw : Bytes
deriving DecidableEq

namespace MultiBootHeader

/-- `sizeof(MultiBootHeader)` -/
def sizeof : Nat := 32

def magicValue : Nat := 0x1BADB002

/-! ## KernelFlags -/

def wantVidmode : Nat := 0x00000004

def haveLayoutInfo : Nat := 0x00010000

/-! ## Fields -/

def field (h : MultiBootHeader) (i : Nat) : Nat := leNat (slice h.raw (4 * i) 4)

def magic (h : MultiBootHeader) : Nat := h.field 0

def flags (h : MultiBootHeader) : Nat := h.field 1

def checksum (h : MultiBootHeader) : Nat := h.field 2

def hdrAddr (h : MultiBootHeader) : Nat := h.field 3

def loadAddr (h : MultiBootHeader) : Nat := h.field 4

def loadEndAddr (h : MultiBootHeader) : Nat := h.field 5

def bssEndAddr (h : MultiBootHeader) : Nat := h.field 6

def entryAddr (h : MultiBootHeader) : Nat := h.field 7

theorem field_lt (h : MultiBootHeader) (i : Nat) : h.field i < 2 ^ 32 := by
  have hlt := leNat_lt (slice h.raw (4 * i) 4)
  have hlen : (slice h.raw (4 * i) 4).length ≤ 4 := by
    rw [length_slice]
    omega
  exact Nat.lt_of_lt_of_le hlt (Nat.pow_le_pow_right (by decide) hlen)

/-! ## Methods -/

def isValid (h : MultiBootHeader) : Bool :=
  h.magic = magicValue && h.checksum = u32 (2 ^ 32 - 1 - u32 (h.magic + h.flags) + 1)

/-- `ExtractMemLayout`: `fileStart`, `memStart` and `count`, or `none` where
    it returns `false`. -/
def extractMemLayout (h : MultiBootHeader) (hdrFileOffset filesize : Nat) :
    Option (Nat × Nat × Nat) :=
  -- end address must be after start address
  if h.loadEndAddr ≤ h.loadAddr then none
  else
    let count := sub32 h.loadEndAddr h.loadAddr
    -- BSS must be after the text & data blob
    if h.bssEndAddr < h.loadAddr then none
    -- header & entry point must be inside the text & data blob
    else if h.hdrAddr < h.loadAddr || h.hdrAddr ≥ h.loadEndAddr then none
    else if h.entryAddr < h.loadAddr || h.entryAddr ≥ h.loadEndAddr then none
    else
      let hdrMemOffset := sub32 h.hdrAddr h.loadAddr
      if hdrMemOffset > hdrFileOffset then none
      else
        -- there can be extra data in front of the text segment
        let fileStart :=
          if hdrFileOffset > hdrMemOffset then sub32 hdrFileOffset hdrMemOffset else 0
        -- must fit in file
        if count ≤ sub32 filesize fileStart then some (fileStart, h.loadAddr, count) else none

def entryPoint (h : MultiBootHeader) : Nat := h.entryAddr

def bssSize (h : MultiBootHeader) : Nat :=
  if h.bssEndAddr > h.loadEndAddr then sub32 h.bssEndAddr h.loadEndAddr else 0

theorem bssSize_eq (h : MultiBootHeader) : h.bssSize = h.bssEndAddr - h.loadEndAddr := by
  unfold bssSize
  split
  · exact sub32_of_le (by omega) (h.field_lt 6)
  · omega

end MultiBootHeader

/-! ## Protected mode calls

    The memory that the two functions write to is the one that the kernel will
    run in. The buffer they read from and the loader's own data are kept apart
    from it, as for a kernel that is linked to high memory. -/

/-- `CopyMemory32` of the bytes `data`, with 32 bit addresses. -/
def copyMemory32 (m : Store) (dst : Nat) (data : Bytes) : Store := fun a =>
  if sub32 a dst < data.length then data.getD (sub32 a dst) 0 else m a

/-- `ClearMemory32` -/
def clearMemory32 (m : Store) (dst size : Nat) : Store := fun a =>
  if sub32 a dst < size then 0 else m a

/-- A `ProtectedModeCall` of one of the two. -/
inductive PmCall where
  | copy (dst : Nat) (data : Bytes)
  | clear (dst size : Nat)
deriving DecidableEq

namespace PmCall

def run (m : Store) : PmCall → Store
  | copy dst data => copyMemory32 m dst data
  | clear dst size => clearMemory32 m dst size

/-- The memory after a sequence of calls. -/
def runAll (calls : List PmCall) (m : Store) : Store := calls.foldl run m

end PmCall

end Hausboot
