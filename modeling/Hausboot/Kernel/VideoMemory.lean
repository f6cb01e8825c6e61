import Hausboot.Lib.Bytes
import Hausboot.Types

/-! # The Kernel Console: Code Model

    `device/VideoMemory.h`: 80 by 25 cells of text memory and a cursor. The
    model keeps a record of the cells that the code has accessed and of what it
    has written to I/O ports.

    The loops of `ScrollUp` compare pointers and take fuel; `none` means that a
    loop has not ended within it. -/

open ByteLib

namespace Hausboot

namespace VideoMemory

inductive Color where
  | black
  | blue
  | green
  | cyan
  | red
  | magenta
  | brown
  | lightGray
  | darkGray
  | lightBlue
  | lightGreen
  | lightCyan
  | lightRed
  | lightMagenta
  | yellow
  | white
deriving DecidableEq

/-- The number of the enumerator. -/
def Color.toUInt16 : Color → UInt16
  | black => 0
  | blue => 1
  | green => 2
  | cyan => 3
  | red => 4
  | magenta => 5
  | brown => 6
  | lightGray => 7
  | darkGray => 8
  | lightBlue => 9
  | lightGreen => 10
  | lightCyan => 11
  | lightRed => 12
  | lightMagenta => 13
  | yellow => 14
  | white => 15

/-! ## VidMemCell

    A cell: the character in the low byte, its colors in the high one. -/

namespace VidMemCell

def setColor (raw : UInt16) (fg bg : Color) : UInt16 :=
  let attrib : UInt16 := (bg.toUInt16 <<< 4) ||| fg.toUInt16
  (raw &&& 0x00FF) ||| (attrib <<< (8 : UInt16))

def setChar (raw : UInt16) (c : UInt8) : UInt16 := (raw &&& 0xFF00) ||| c.toUInt16

end VidMemCell

def width : Nat := 80

def height : Nat := 25

end VideoMemory

open VideoMemory

/-- The object, the memory from `_vidmem` on, and what the code has done. -/
structure VideoMemory where
  vidmem : Nat → UInt16
  x : Nat
  y : Nat
  fg : Color
  bg : Color
  /-- The cells read or written so far, latest first. -/
  accesses : List Nat
  /-- The bytes written to I/O ports so far, latest first. -/
  ports : List (Nat × Nat)

namespace VideoMemory

/-- A new object, with whatever text memory holds. -/
def new (vidmem : Nat → UInt16) : VideoMemory where
  vidmem := vidmem
  x := 0
  y := 0
  fg := .lightGray
  bg := .black
  accesses := []
  ports := []

/-- `SetColor` -/
def setColor (vm : VideoMemory) (foreground background : Color) : VideoMemory :=
  { vm with fg := foreground, bg := background }

/-- A write to cell `i`, which the code also reads. -/
def setCell (vm : VideoMemory) (i : Nat) (cell : UInt16) : VideoMemory :=
  { vm with
    vidmem := fun j => if j = i then cell else vm.vidmem j
    accesses := i :: vm.accesses }

def ioWriteByte (vm : VideoMemory) (port value : Nat) : VideoMemory :=
  { vm with ports := (port, value) :: vm.ports }

def syncCursor (vm : VideoMemory) : VideoMemory :=
  let pos := u16 (vm.y * width + vm.x)
  (((vm.ioWriteByte 0x3D4 14).ioWriteByte 0x3D5 ((pos >>> 8) &&& 0xFF)).ioWriteByte 0x3D4
    15).ioWriteByte 0x3D5 (pos &&& 0xFF)

/-- The body of the loop of `Reset`. -/
def resetCell (vm : VideoMemory) (i : Nat) : VideoMemory :=
  vm.setCell i (VidMemCell.setChar (VidMemCell.setColor (vm.vidmem i) vm.fg vm.bg) 0x20)

def reset (vm : VideoMemory) : VideoMemory :=
  let vm := (List.range (80 * 25)).foldl resetCell vm
  { vm with x := 0, y := 0 }

/-! ## ScrollUp -/

/-- `_vidmem + _width * _height`, as a cell number. -/
def endCell : Nat := width * height

/-- The first loop: move the rows up. Returns `dst`. -/
def moveLoop : Nat → Nat → Nat → VideoMemory → Option (Nat × VideoMemory)
  | 0, _, _, _ => none
  | fuel + 1, dst, src, vm =>
    if src ≠ endCell then
      let vm := { vm with accesses := src :: vm.accesses }
      moveLoop fuel (dst + 1) (src + 1) (vm.setCell dst (vm.vidmem src))
    else some (dst, vm)

/-- The second loop: blank the last row. Its body leaves `dst` alone. -/
def blankLoop : Nat → Nat → VideoMemory → Option VideoMemory
  | 0, _, _ => none
  | fuel + 1, dst, vm =>
    if dst ≠ endCell then
      let vm := vm.setCell dst (VidMemCell.setChar (vm.vidmem dst) 0x20)
      blankLoop fuel dst (vm.setCell dst (VidMemCell.setColor (vm.vidmem dst) vm.fg vm.bg))
    else some vm

def scrollUp (fuel : Nat) (vm : VideoMemory) : Option VideoMemory := do
  let (dst, vm) ← moveLoop fuel 0 width vm
  let vm ← blankLoop fuel dst vm
  let vm := if vm.y > 0 then { vm with y := vm.y - 1 } else vm
  return vm.syncCursor

/-! ## PutChar -/

/-- `PutChar` of anything but a tab. -/
def putOther (fuel : Nat) (vm : VideoMemory) (c : UInt8) : Option VideoMemory :=
  if c = 0x0D then some { vm with x := 0 }.syncCursor
  else if c = 0x0A then
    let vm := { vm with y := (vm.y + 1) % 256 }
    if vm.y ≥ height then scrollUp fuel vm else some vm.syncCursor
  else if 0x20 ≤ c ∧ c ≤ 0x7E then
    let i := vm.y * width + vm.x
    let vm := vm.setCell i (VidMemCell.setChar (vm.vidmem i) c)
    let vm := { vm with x := (vm.x + 1) % 256 }
    if vm.x ≥ width then
      let vm := { vm with x := 0, y := (vm.y + 1) % 256 }
      if vm.y ≥ height then scrollUp fuel vm else some vm.syncCursor
    else some vm.syncCursor
  else some vm

/-- The loop of the tab case: `diff` blanks. -/
def tabLoop (fuel : Nat) : Nat → VideoMemory → Option VideoMemory
  | 0, vm => some vm
  | diff + 1, vm => do
    let vm ← putOther fuel vm 0x20
    tabLoop fuel diff vm

def putChar (fuel : Nat) (vm : VideoMemory) (c : UInt8) : Option VideoMemory :=
  if c = 0x09 then tabLoop fuel (8 - vm.x % 8) vm else putOther fuel vm c

/-- The calls of `PutChar` for a sequence of bytes. -/
def putChars (fuel : Nat) (vm : VideoMemory) (cs : Bytes) : Option VideoMemory :=
  cs.foldlM (putChar fuel) vm

end VideoMemory

end Hausboot
