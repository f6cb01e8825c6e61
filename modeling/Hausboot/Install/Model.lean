import Hausboot.Fat.Dirent
import Hausboot.Fat.Super
import Hausboot.FatEdit.Model
import Hausboot.Install.Header

/-! # The installfat Tool: Code Model

    `main` of `tools/installfat.cpp` behind the command line. `Host` is what
    the tool finds: the image, the two input files, and the calls that fail. A
    `WriteAt` that fails may have transferred some of its bytes before.

    `main` returns `EXIT_FAILURE` for a `Stop` that is not an exception; the
    exceptions are caught and end in `EXIT_SUCCESS`. -/

open ByteLib

namespace Hausboot

/-! ## FatSuper, writing -/

namespace FatSuper

def setBackupIndex (s : FatSuper) (value : Nat) : FatSuper := ⟨splice s.raw 50 (leBytes 2 value)⟩

def setFsInfoIndex (s : FatSuper) (value : Nat) : FatSuper := ⟨splice s.raw 48 (leBytes 2 value)⟩

def setOEMName (s : FatSuper) (name : Bytes) : FatSuper := ⟨splice s.raw 3 (fixedLength 8 name)⟩

/-- The boot code, and a jump over the fields in front of it. -/
def setBootCode (s : FatSuper) (code : Bytes) : FatSuper :=
  ⟨splice (splice s.raw 90 (code.take 420)) 0 [0xEB, 88, 0x90]⟩

end FatSuper

namespace Install

open FatEdit (ByteVec u64OfInt)

/-! ## The host -/

/-- A file that can be opened; reading on behind its contents may fail instead
    of reporting the end. -/
structure HostFile where
  contents : Bytes
  fails : Bool

structure Host where
  image : ByteVec
  imageOpens : Bool
  vbr : Option HostFile
  stage2 : Option HostFile
  /-- Whether the `i`th `ReadAt` of the image fails. -/
  readFault : Nat → Bool
  /-- The bytes that the `i`th `WriteAt` transfers before it fails. -/
  writeFault : Nat → Option Nat

/-- The bytes that the `i`th `WriteAt` transfers, out of `n`. -/
def Host.transfers (h : Host) (i n : Nat) : Nat :=
  match h.writeFault i with
  | none => n
  | some k => min k n

inductive InputFile where
  | vbr
  | stage2
deriving DecidableEq

/-- Why a run does not get to its end. -/
inductive Stop where
  | tooBig (file : InputFile) (max : Nat)
  | verification
  | openImage
  | readImage
  | writeImage
  | openFile (file : InputFile)
  | readFile (file : InputFile)
deriving DecidableEq

def Stop.isException : Stop → Bool
  | .tooBig _ _ | .verification => false
  | _ => true

/-! ## ReadAll -/

/-- A vector of bytes. Behind its size, `storage` has what a smaller size has
    left there. -/
structure Vec where
  storage : Bytes
  size : Nat

namespace Vec

def contents (v : Vec) : Bytes := v.storage.take v.size

def resize (v : Vec) (n : Nat) : Vec :=
  if n ≤ v.size then { v with size := n }
  else ⟨v.contents ++ List.replicate (n - v.size) 0, n⟩

/-- `d` is stored at `off`. -/
def fill (v : Vec) (off : Nat) (d : Bytes) : Vec := { v with storage := splice v.storage off d }

end Vec

/-- The loop of `ReadAll`; `rest` is what is left of the file. Each round but
    the last one takes a byte or more. -/
def readAllLoop (file : InputFile) (max : Nat) (fails : Bool) :
    Nat → Bytes → Vec → Except Stop Vec
  | 0, _, out => .ok out
  | n + 1, rest, out =>
    let used := out.size
    let out := out.resize (used + 1024)
    if rest.length < 1024 && fails then .error (.readFile file)
    else
      let data := rest.take 1024
      let out := out.fill used data
      if data = [] then .ok (out.resize used)
      else
        let out := out.resize (used + data.length)
        if out.size > max then .error (.tooBig file max)
        else readAllLoop file max fails n (rest.drop 1024) out

def readAll (file : InputFile) (fd : Option HostFile) (max : Nat) : Except Stop Vec :=
  match fd with
  | none => .error (.openFile file)
  | some fd => readAllLoop file max fd.fails (fd.contents.length + 1) fd.contents ⟨[], 0⟩

/-! ## main -/

/-- The image, and what has been written to it. -/
structure State where
  image : ByteVec
  written : List (Nat × Bytes)

abbrev M : Type → Type := EStateM Stop State

/-- `file.ReadAt`, the `i`th one. The image is read before it is written. -/
def readAt (h : Host) (i offset n : Nat) : Except Stop Bytes :=
  if h.readFault i then .error .readImage
  else
    match h.image.readAt offset n with
    | .ok d => .ok d
    | .error _ => .error .readImage

/-- `file.WriteAt` -/
def writeAt (h : Host) (offset : Nat) (d : Bytes) : M Unit := fun s =>
  let done := d.take (h.transfers s.written.length d.length)
  match s.image.writeAt offset done with
  | .error _ => .error .writeImage s
  | .ok image =>
    let s := { image := image, written := s.written ++ [(offset, done)] }
    if done.length < d.length then .error .writeImage s else .ok () s

def ofExcept {α : Type} (x : Except Stop α) : M α := fun s =>
  match x with
  | .ok a => .ok a s
  | .error e => .error e s

/-- What `main` sets in the super block. -/
def newSuper (super : FatSuper) (vbr : Bytes) : FatSuper :=
  (((super.setBackupIndex 0).setFsInfoIndex 1).setOEMName (str "Goliath")).setBootCode vbr

/-- The limit for stage 2: a product of `int` values as a `size_t`. -/
def maxSize (super : FatSuper) : Nat :=
  u64OfInt (Int.bmod (((super.reservedSectors : Int) - 2) * super.bytesPerSector) (2 ^ 32))

/-- The header on top of the vector. -/
def makeHeader (stage2 : Vec) : Stage2Header :=
  (((⟨stage2.storage⟩ : Stage2Header).init).setSectorCount stage2.size).updateChecksum

/-- `main` up to the first write: the new super block and the FS info sector. -/
def prepare (h : Host) : Except Stop (FatSuper × Bytes) :=
  if !h.imageOpens then .error .openImage
  else do
    let super : FatSuper := ⟨← readAt h 0 0 512⟩
    let fsinfo ← readAt h 1 (u64OfInt (i32 (super.fsInfoIndex * super.bytesPerSector))) 512
    let vbr ← readAll .vbr h.vbr 420
    .ok (newSuper super vbr.contents, fsinfo)

/-- Stage 2 with its header, as it goes to the image. -/
def loadStage2 (h : Host) (super : FatSuper) : Except Stop Bytes := do
  let stage2 ← readAll .stage2 h.stage2 (maxSize super)
  let hdr := makeHeader stage2
  if !hdr.verify hdr.sectorCount then .error .verification
  else .ok (hdr.raw.take stage2.size)

def install (h : Host) : M Unit := do
  let (super, fsinfo) ← ofExcept (prepare h)
  writeAt h 0 super.raw
  writeAt h super.bytesPerSector fsinfo
  let stage2 ← ofExcept (loadStage2 h super)
  writeAt h (2 * super.bytesPerSector) stage2

inductive Exit where
  | success
  | failure
deriving DecidableEq

def start (h : Host) : State := ⟨h.image, []⟩

def main (h : Host) : Exit × State :=
  match install h (start h) with
  | .ok _ s => (.success, s)
  | .error e s => (if e.isException then .success else .failure, s)

end Install

end Hausboot
