import Hausboot.FatFs.Model
import Hausboot.Heap.Model
import Hausboot.Stage2.MultiBoot

/-! # The stage2 Boot Loader: Code Model

    `stage2/stage2.cpp`. Each function takes the state of the loader and
    returns it with its result; `none` means that some loop has not ended
    within the fuel.

    Memory that the loader gets from `malloc` is managed by the heap model;
    its contents are kept as separate byte strings. -/

open ByteLib

namespace Hausboot

/-! ## State -/

/-- One output operation on `screen`. -/
inductive ScreenOp where
  | text (s : String)
  | chars (s : Bytes)
  | decimal (n : Nat)
  | hex (n : Nat)
deriving DecidableEq

structure DriveGeometry where
  cylinders : Nat
  headsPerCylinder : Nat
  sectorsPerTrack : Nat

structure MemoryMapEntry where
  base : Nat
  size : Nat
  type : Nat

/-- What the firmware and the earlier boot stages hand over. -/
structure Machine where
  /-- Where the heap lies, and the memory around it. -/
  heapPtr : Nat
  memory : Store
  /-- The result of `ReadDriveParameters`. -/
  geometry : Option DriveGeometry
  /-- `StartAddressLBA` of the boot partition. -/
  startAddressLBA : Nat
  /-- The result of `EnableA20`. -/
  enableA20 : Bool
  /-- The entries stored by `MemoryMap::Load`, or `none` where it fails. -/
  mmap : Option (List MemoryMapEntry)

/-- The globals of stage2, and the protected mode calls made so far. -/
structure Boot where
  heap : Heap
  fs : FatFs
  screen : List ScreenOp
  haveKernel : Bool
  kernelEntry : Nat
  pmCalls : List PmCall

namespace Boot

def print (st : Boot) (ops : List ScreenOp) : Boot := { st with screen := st.screen ++ ops }

def protectedModeCall (st : Boot) (call : PmCall) : Boot :=
  { st with pmCalls := st.pmCalls ++ [call] }

end Boot

/-- `bootConfigName` -/
def bootConfigName : Bytes := str "BOOT.CFG"

def bootConfigMaxSize : Nat := 4096

def multiBootMaxSearch : Nat := 8192

def heapMaxSize : Nat := 8192

/-- A header fits. -/
theorem heapMaxSize_ge : 8 ≤ heapMaxSize := by decide

/-- The text for a `FindResult`. -/
def FatFs.FindResult.toText : FatFs.FindResult → String
  | .ok _ => "ok"
  | .nameInvalid => "name invalid"
  | .ioError => "I/O error"
  | .notDir => "component is not a directory"
  | .noEntry => "no such file or directory"

section Code

variable (w : World) (v : Volume) (mc : Machine) (fuel : Nat)

/-! ## MBFindHeader -/

/-- How the inner loop of `MBFindHeader` ends. -/
inductive SearchResult where
  | found (offset : Nat) (hdr : MultiBootHeader)
  | failed
  | exhausted (ret : Int) (hdr : MultiBootHeader)

/-- The inner loop of `MBFindHeader`. Reading a header candidate overwrites
    `ret`, which is also the bound of the loop. -/
def searchBlock (finfo : FatFile) (offset : Nat) (buffer : Bytes) :
    Nat → Nat → Int → MultiBootHeader → FatFs → Option (SearchResult × FatFs)
  | 0, _, _, _, _ => none
  | n + 1, i, ret, hdr, fs =>
    if (i : Int) < ret / 4 then
      if leNat (slice buffer (4 * i) 4) ≠ MultiBootHeader.magicValue then
        searchBlock finfo offset buffer n (i + 1) ret hdr fs
      else do
        let (ret, data, fs) ← FatFs.readAt w v fuel fs finfo (u32 (offset + i * 4))
          MultiBootHeader.sizeof
        let hdr : MultiBootHeader := ⟨splice hdr.raw 0 data⟩
        if ret ≤ 0 then some (.failed, fs)
        else if hdr.isValid then some (.found (u32 (offset + i * 4)) hdr, fs)
        else searchBlock finfo offset buffer n (i + 1) ret hdr fs
    else some (.exhausted ret hdr, fs)

/-- The outer loop of `MBFindHeader`. -/
def searchLoop (finfo : FatFile) (scanSize : Nat) :
    Nat → Nat → Bytes → MultiBootHeader → FatFs → Option (Option (Nat × MultiBootHeader) × FatFs)
  | 0, _, _, _, _ => none
  | n + 1, offset, buffer, hdr, fs =>
    if offset < scanSize then do
      let (ret, data, fs) ← FatFs.readAt w v fuel fs finfo offset 1024
      let buffer := splice buffer 0 data
      if ret ≤ 0 then some (none, fs)
      else
        match ← searchBlock w v fuel finfo offset buffer fuel 0 ret hdr fs with
        | (.found offset hdr, fs) => some (some (offset, hdr), fs)
        | (.failed, fs) => some (none, fs)
        | (.exhausted ret hdr, fs) =>
          searchLoop finfo scanSize n (u32 (offset + ret.toNat)) buffer hdr fs
    else some (none, fs)

/-- `MBFindHeader`: the offset and the header, or `none` where it returns
    `false`. -/
def mbFindHeader (st : Boot) (finfo : FatFile) :
    Option (Option (Nat × MultiBootHeader) × Boot) := do
  let scanSize := if finfo.size > multiBootMaxSearch then multiBootMaxSearch else finfo.size
  let (buffer, heap) ← malloc fuel st.heap 1024
  let st := { st with heap := heap }
  if buffer = 0 then some (none, st.print [.text "out of memory", .text "\r\n"])
  else
    let (res, fs) ← searchLoop w v fuel finfo scanSize fuel 0
      (w.uninit .searchBuffer st.fs.loads) ⟨w.uninit .header st.fs.loads⟩ st.fs
    let heap ← free fuel st.heap buffer
    some (res, { st with heap := heap, fs := fs })

/-! ## MBLoadKernel -/

/-- The copy loop of `MBLoadKernel`. Returns the final `memStart`, or `none`
    where a read has failed. -/
def copyLoop (finfo : FatFile) (bound : Nat) :
    Nat → Nat → Nat → Boot → Option (Option Nat × Boot)
  | 0, _, _, _ => none
  | n + 1, offset, memStart, st =>
    if offset < bound then do
      let (ret, data, fs) ← FatFs.readAt w v fuel st.fs finfo offset 1024
      let st := { st with fs := fs }
      if ret = 0 then some (some memStart, st)
      else if ret < 0 then some (none, st)
      else
        copyLoop finfo bound n (u32 (offset + ret.toNat)) (u32 (memStart + ret.toNat))
          (st.protectedModeCall (.copy memStart data))
    else some (some memStart, st)

/-- The message in front of the copy loop. -/
def loadingMessage (memStart count : Nat) : List ScreenOp :=
  [.text "Loading ", .decimal count, .text " bytes to #", .hex memStart, .text "\r\n"]

def mbLoadKernel (st : Boot) (finfo : FatFile) (hdr : MultiBootHeader) (fileOffset : Nat) :
    Option (Bool × Boot) :=
  match hdr.extractMemLayout fileOffset finfo.size with
  | none =>
    some (false, st.print [.text "Error: ", .text "Memory layout is broken!", .text "\r\n"])
  | some (fileStart, memStart, count) => do
    let st := st.print (loadingMessage memStart count)
    let (buffer, heap) ← malloc fuel st.heap 1024
    let st := { st with heap := heap }
    if buffer = 0 then some (false, st.print [.text "out of memory", .text "\r\n"])
    else
      match ← copyLoop w v fuel finfo (sub32 count fileStart) fuel fileStart memStart st with
      -- the buffer is not freed on this path
      | (none, st) => some (false, st)
      | (some memStart, st) =>
        let heap ← free fuel st.heap buffer
        let st := { st with heap := heap }
        some (true, st.protectedModeCall (.clear memStart hdr.bssSize))

/-- `MBGenInfo`: the address of the info structure, or `none` where a table
    that `malloc` did not return is about to be filled in. -/
def mbGenInfo (st : Boot) : Option (Option Nat × Boot) := do
  let (info, heap) ← malloc fuel st.heap 128
  let st := { st with heap := heap }
  if info = 0 then some (none, st)
  else
    let count := (mc.mmap.getD []).length
    let (mbMmap, heap) ← malloc fuel st.heap (UInt32.ofNat (24 * count))
    let st := { st with heap := heap }
    -- a map without entries is not written to
    if mbMmap = 0 && count ≠ 0 then some (none, st)
    else some (some info, st)

/-! ## Commands -/

def cmdEcho (st : Boot) (line : Bytes) : Option (Bool × Boot) :=
  some (true, st.print [.chars line, .text "\r\n"])

/-- The fields of `LBA2CHS`, truncated as `CHSPacked` stores them. -/
def DriveGeometry.lba2CHS (geom : DriveGeometry) (lba : Nat) : Nat × Nat × Nat :=
  (u16 (lba / u32 (geom.headsPerCylinder * geom.sectorsPerTrack)) % 2 ^ 10,
    lba / geom.sectorsPerTrack % geom.headsPerCylinder % 2 ^ 8,
    (lba % geom.sectorsPerTrack + 1) % 2 ^ 6)

def MemoryMapEntry.typeAsString (e : MemoryMapEntry) : String :=
  if e.type = 1 then "free"
  else if e.type = 2 then "reserved"
  else if e.type = 3 then "ACPI"
  else if e.type = 4 then "preserve"
  else "unknown"

/-- Three numbers with slashes between them. -/
def slashed (a b c : Nat) : List ScreenOp :=
  [.decimal a, .text "/", .decimal b, .text "/", .decimal c]

def infoDisk (geom : DriveGeometry) : List ScreenOp :=
  let (c, h, s) := geom.lba2CHS mc.startAddressLBA
  [.text "Boot disk: ", .text "\r\n", .text "    geometry (C/H/S): "] ++
  slashed geom.cylinders geom.headsPerCylinder geom.sectorsPerTrack ++
  [.text "\r\n", .text "Boot partition: ", .text "\r\n",
    .text "    LBA: ", .decimal mc.startAddressLBA, .text "\r\n", .text "    CHS: "] ++
  slashed c h s ++ [.text "\r\n"]

def infoMemory (mmap : List MemoryMapEntry) : List ScreenOp :=
  [.text "Memory:", .text "\r\n"] ++ mmap.flatMap fun it =>
    [.text "    base: ", .hex it.base, .text ", size: ", .hex it.size,
      .text ", type: ", .text it.typeAsString, .text "\r\n"]

def cmdInfo (st : Boot) (what : Bytes) : Option (Bool × Boot) :=
  if strEqual what (str "disk") then
    some (true, st.print (infoDisk mc (mc.geometry.getD ⟨0, 0, 0⟩)))
  else if strEqual what (str "memory") then
    some (true, st.print (infoMemory (mc.mmap.getD [])))
  else some (false, st.print [.text "Unknown info type: ", .chars what, .text "\r\n"])

def cmdMultiboot (st : Boot) (path : Bytes) : Option (Bool × Boot) := do
  match ← FatFs.findByPath w v fuel st.fs path with
  | (.ok finfo, fs) =>
    match ← mbFindHeader w v fuel { st with fs := fs } finfo with
    | (none, st) =>
      some (false, st.print [.text "Error: ", .text "No multiboot header found!", .text "\r\n"])
    | (some (offset, hdr), st) =>
      if FlagField.isSet hdr.flags MultiBootHeader.wantVidmode then
        some (false, st.print
          [.text "Error: ", .text "video mode info required (unsupported)!", .text "\r\n"])
      else if !FlagField.isSet hdr.flags MultiBootHeader.haveLayoutInfo then
        some (false, st.print
          [.text "Error: ", .text "No memory layout provided (unsupported)!", .text "\r\n"])
      else
        match ← mbLoadKernel w v fuel st finfo hdr offset with
        | (false, st) => some (false, st)
        | (true, st) => some (true, { st with haveKernel := true, kernelEntry := hdr.entryPoint })
  | (ret, fs) =>
    some (false, { st with fs := fs }.print
      [.chars path, .text ": ", .text ret.toText, .text "\r\n"])

inductive Command where
  | echo
  | info
  | multiboot
deriving DecidableEq

/-- The table `commands`. -/
def commands : List (Bytes × Command) :=
  [(str "echo", .echo), (str "info", .info), (str "multiboot", .multiboot)]

def Command.callback : Command → Boot → Bytes → Option (Bool × Boot)
  | .echo, st, arg => cmdEcho st arg
  | .info, st, arg => cmdInfo mc st arg
  | .multiboot, st, arg => cmdMultiboot w v fuel st arg

/-! ## RunScript -/

/-- `IsSpace` -/
def isSpace (x : UInt8) : Bool := x = 0x20 || x = 0x09

/-- `IsAlnum` -/
def isAlnum (x : UInt8) : Bool :=
  (x ≥ 0x41 && x ≤ 0x5A) || (x ≥ 0x61 && x ≤ 0x7A) || (x ≥ 0x30 && x ≤ 0x39)

def charAt (buffer : Bytes) (ptr : Nat) : UInt8 := buffer.getD ptr 0

/-- `while (p(*ptr)) ++ptr;` for a test that fails at the terminator. -/
def advance (p : UInt8 → Bool) (buffer : Bytes) (ptr : Nat) : Nat :=
  ptr + ((buffer.drop ptr).takeWhile p).length

/-- A callback that `RunScript` has invoked. -/
structure Call where
  command : Command
  arg : Bytes
  pre : Boot
  ok : Bool
  post : Boot

/-- What `RunScript` makes of the line at `line`, once it is isolated: the
    command word and the argument, or `none` for a line that it skips. Returns
    the buffer with the terminator behind the command word. -/
def isolateCommand (buffer : Bytes) (line : Nat) : Option (Bytes × Bytes) × Bytes :=
  let cmd := advance isSpace buffer line
  if !isAlnum (charAt buffer cmd) then (none, buffer)
  else
    let line := advance isAlnum buffer cmd
    if !isSpace (charAt buffer line) || charAt buffer cmd = 0 || charAt buffer cmd = 0x23 then
      (none, buffer)
    else
      let buffer := buffer.set line 0
      let arg := advance isSpace buffer (line + 1)
      (some (cstr (buffer.drop cmd), cstr (buffer.drop arg)), buffer)

/-- `RunScript` on the buffer, from `ptr` on. Also returns the callbacks that
    it has invoked, in order. -/
def runScript : Nat → Boot → Bytes → Nat → Option (Boot × List Call)
  | 0, _, _, _ => none
  | n + 1, st, buffer, ptr =>
    if charAt buffer ptr = 0 then some (st, [])
    else
      -- isolate the current line
      let line := ptr
      let ptr := advance (fun x => x ≠ 0 && x ≠ 0x0A) buffer ptr
      let (buffer, ptr) :=
        if charAt buffer ptr = 0x0A then (buffer.set ptr 0, ptr + 1) else (buffer, ptr)
      match isolateCommand buffer line with
      | (none, buffer) => runScript n st buffer ptr
      | (some (cmd, arg), buffer) =>
        -- dispatch
        match commands.find? fun it => strEqual it.1 cmd with
        | none => some (st.print [.text "Error, unknown command: ", .chars cmd, .text "\r\n"], [])
        | some (_, command) => do
          let (ok, st') ← command.callback w v mc fuel st arg
          let call : Call := ⟨command, arg, st, ok, st'⟩
          if ok then
            let (st', calls) ← runScript n st' buffer ptr
            some (st', call :: calls)
          else some (st', [call])

/-! ## main -/

inductive Outcome where
  /-- The `hlt` loop at the label `fail`. -/
  | halted
  /-- Control has been handed to `entry` by `MBTrampoline`. -/
  | started (entry info : Nat)
  /-- Memory that `malloc` did not return is about to be used. -/
  | nullBuffer
deriving DecidableEq

/-- The rest of `main` once `fs` is constructed. -/
def bootFromConfig (st : Boot) : Option (Outcome × Boot × List Call) := do
  match ← FatFs.findByPath w v fuel st.fs bootConfigName with
  | (.ok finfo, fs) =>
    let st := { st with fs := fs }
    if finfo.size > bootConfigMaxSize then
      some (.halted, st.print [.chars bootConfigName, .text ": too big (max size: ",
        .decimal bootConfigMaxSize, .text ")", .text "\r\n"], [])
    else
      let (fileBuffer, heap) ← malloc fuel st.heap (UInt32.ofNat (finfo.size + 1))
      let st := { st with heap := heap }
      let (rdRet, data, fs) ← FatFs.readAt w v fuel st.fs finfo 0 finfo.size
      let st := { st with fs := fs }
      -- the buffer is not checked: `ReadAt` stores `data` to it, and unless it
      -- fails, a terminator is put behind that
      if fileBuffer = 0 && (data ≠ [] || 0 ≤ rdRet) then some (.nullBuffer, st, [])
      else if rdRet < 0 then
        some (.halted, st.print [.text "Error loading config file ", .text "\r\n"], [])
      else
        let (st, calls) ← runScript w v mc fuel fuel st (data ++ [0]) 0
        let heap ← free fuel st.heap fileBuffer
        let st := { st with heap := heap }
        if st.haveKernel then
          match ← mbGenInfo mc fuel st with
          | (some info, st) => some (.started st.kernelEntry info, st, calls)
          | (none, st) => some (.nullBuffer, st, calls)
        else some (.halted, st.print [.text "No kernel loaded!", .text "\r\n"], calls)
  | (ret, fs) =>
    some (.halted, { st with fs := fs }.print
      [.chars bootConfigName, .text ": ", .text ret.toText, .text "\r\n"], [])

/-- `FindByPath` loads the first sector of the root directory to `dataWindow`,
    and the device stores something there. -/
def windowStored (w : World) (v : Volume) : Bool :=
  2 ≤ v.super.rootDirIndex && v.super.rootDirIndex < FatFs.endOfChain &&
    w.loadSector v [] (v.super.clusterIndex2Sector v.super.rootDirIndex) ≠ (false, [])

/-- The state in which `main` starts. -/
def Machine.start (mc : Machine) : Boot where
  heap := heapInit mc.memory mc.heapPtr heapMaxSize
  fs := FatFs.new [] []
  screen := []
  haveKernel := false
  kernelEntry := 0
  pmCalls := []

/-- `main`: how it ends, the final state, and the callbacks that the boot
    script has invoked. -/
def main : Option (Outcome × Boot × List Call) := do
  let st := mc.start
  let (part, heap) ← malloc fuel st.heap 20
  let st := { st with heap := heap }
  if part = 0 || mc.geometry.isNone then
    some (.halted, st.print
      [.text "Error initializing FAT partition wrapper!", .text "\r\n"], [])
  else if !mc.enableA20 then
    some (.halted, st.print [.text "Error enabling A20 line!", .text "\r\n"], [])
  else if mc.mmap.isNone then
    some (.halted, st.print [.text "Error loading BIOS memory map!", .text "\r\n"], [])
  else
    let (fs, heap) ← malloc fuel st.heap 24
    if fs = 0 then
      some (.halted, { st with heap := heap }.print
        [.text "Error initializing FAT FS wrapper!", .text "\r\n"], [])
    else
      let (fatWindow, heap) ← malloc fuel heap (UInt32.ofNat v.sectorSize)
      let (dataWindow, heap) ← malloc fuel heap (UInt32.ofNat v.bytesPerCluster)
      let st := { st with
        heap := heap
        fs := FatFs.new (w.uninit .fatWindow []) (w.uninit .dataWindow []) }
      -- the constructor does not check the windows; the first cluster that is
      -- loaded goes there, and that is the first one of the root directory
      if (fatWindow = 0 || dataWindow = 0) && windowStored w v then some (.nullBuffer, st, [])
      else bootFromConfig w v mc fuel st

end Code

end Hausboot
