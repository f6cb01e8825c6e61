import Hausboot.Bios.Disk
import Hausboot.Install.Vbr
import Hausboot.Lib.Store

/-! # The Boot Sectors: Code Model

    `mbr/mbr.cpp` and `mbr/abi.S`: the master boot record moves itself out of
    the way, loads the first sector of the first bootable partition over the
    place where it has been, and enters it. `vbr/abi.S` hands what it gets in
    registers to the `main` of `vbr/vbr.cpp`, which loads stage 2.

    The memory is explicit. The stacks of both programs are left out: they lie
    below `0x0a00` and below `0x7c00`, and nothing is read from there. -/

open ByteLib

namespace Hausboot

namespace MBREntry

/-- `sizeof(MBREntry)` -/
def sizeof : Nat := 16

/-- `Attribute::Bootable` -/
def bootable : Nat := 0x80

def isBootable (ent : MBREntry) : Bool := FlagField.isSet (ent.raw.getD 0 0).toNat bootable

def startAddressLBA (ent : MBREntry) : Nat := leNat (slice ent.raw 8 4)

end MBREntry

namespace Stage2Header

def biosBootDrive (hdr : Stage2Header) : UInt8 := hdr.raw.getD 10 0

def bootMBREntry (hdr : Stage2Header) : MBREntry := ⟨slice hdr.raw 12 MBREntry.sizeof⟩

end Stage2Header

/-- The firmware, as far as the boot sectors use it: functions 0 and 2 of
    interrupt 0x13. -/
structure Bios where
  reset : UInt8 → Bool
  int13 : Int13

/-- Where the BIOS loads the first sector, and the boot sector of a partition
    goes. -/
def bootSectorLocation : Nat := 0x7C00

namespace Mbr

/-- Where the linker script puts the program. -/
def location : Nat := 0x0600

/-- `partTable` -/
def partTable : Nat := location + 446

/-- The message with which `main` hangs. -/
inductive Stop where
  | resetDrv
  | noBootPart
  | failLoad
  | noMagic
deriving DecidableEq

/-- What `CallVbr` leaves: the memory, `%dl`, and the address in `%si`. -/
structure Entered where
  memory : Store
  disk : UInt8
  ent : Nat

variable (bios : Bios) (disk : UInt8) (memory : Store)

/-- The loop of `main`, with these addresses of entries to go. -/
def entryLoop : List Nat → Except Stop Entered
  | [] => .error .noBootPart
  | it :: rest =>
    let ent : MBREntry := ⟨memory.read it MBREntry.sizeof⟩
    if !ent.isBootable then entryLoop rest
    else if !bios.reset disk then .error .resetDrv
    else
      match BiosDisk.loadSectors bios.int13 disk ent.startAddressCHS 1 with
      | none => .error .failLoad
      | some data =>
        let memory := memory.write bootSectorLocation data
        if memory.readLE (bootSectorLocation + 2 * 255) 2 ≠ 0xAA55 then .error .noMagic
        else .ok ⟨memory, disk, it⟩

/-- The addresses of the entries of `partTable`. -/
def entries : List Nat := (List.range 4).map fun i => partTable + i * MBREntry.sizeof

def main : Except Stop Entered := entryLoop bios disk memory entries

/-- `_start`: the program copies itself and goes on in the copy. -/
def start : Except Stop Entered :=
  main bios disk (memory.write location (memory.read bootSectorLocation 512))

end Mbr

namespace Vbr

/-- What `_start` jumps to, and the memory then. -/
structure Entered where
  memory : Store
  address : Nat

/-- `_start`: `main` gets what is in `%dl` and `%si`, and returns the address
    to jump to. -/
def start (bios : Bios) (m : Mbr.Entered) : Except Stop Entered :=
  match main ⟨m.memory.read bootSectorLocation 512⟩ (BiosDisk.loadSectors bios.int13 m.disk) m.disk
      ⟨m.memory.read m.ent MBREntry.sizeof⟩ with
  | .error e => .error e
  | .ok (hdr, address) => .ok ⟨m.memory.write stage2Location hdr.raw, address⟩

end Vbr

/-- The boot sector that does not go on, and its message. -/
inductive BootStop where
  | mbr (e : Mbr.Stop)
  | vbr (e : Vbr.Stop)
deriving DecidableEq

/-- From the jump of the BIOS to the master boot record up to the jump to
    stage 2. -/
def bootSectors (bios : Bios) (disk : UInt8) (memory : Store) : Except BootStop Vbr.Entered :=
  match Mbr.start bios disk memory with
  | .error e => .error (.mbr e)
  | .ok m =>
    match Vbr.start bios m with
    | .error e => .error (.vbr e)
    | .ok entered => .ok entered

end Hausboot
