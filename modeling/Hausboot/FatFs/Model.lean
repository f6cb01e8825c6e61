import Hausboot.Fat.Dirent
import Hausboot.Fat.Super

/-! # The stage2 FAT Driver: Code Model

    `fs/FatFs.h`: a FAT32 reader with a window of one FAT sector and a window
    of one data cluster. Each method takes the driver state and returns it
    with its result.

    Two loops follow links that they read from the disk and take fuel; `none`
    means that the loop has not ended within it. -/

open ByteLib

namespace Hausboot

/-- A FAT32 partition: its super block, and the sectors that `LoadSector`
    delivers. -/
structure Volume where
  super : FatSuper
  sectorSize : Nat
  sector : Nat → Bytes
  sectorSize_lt : sectorSize < 2 ^ 16
  length_sector : ∀ lba, (sector lba).length = sectorSize

/-- The usual sector size. -/
theorem sectorBytes_lt : 512 < 2 ^ 16 := by decide

/-- Storage that the code reads, or could read, before it has written it. -/
inductive Storage where
  | fatWindow
  | dataWindow
  | nameBuffer
  | searchBuffer
  | header

/-- What a run depends on besides the volume. -/
structure World where
  /-- The fate of a `LoadSector` call, given the sectors requested before it:
      `none` if it succeeds, else the bytes that it leaves in the buffer. -/
  fault : List Nat → Nat → Option Bytes
  /-- What uninitialised storage holds, by the sectors requested so far. -/
  uninit : Storage → List Nat → Bytes

/-- `IBlockDevice::LoadSector`: success, and the bytes stored to the buffer. -/
def World.loadSector (w : World) (v : Volume) (loads : List Nat) (lba : Nat) : Bool × Bytes :=
  match w.fault loads lba with
  | none => (true, v.sector lba)
  | some junk => (false, junk)

structure FatFile where
  cluster : Nat
  size : Nat
  flags : Nat
deriving DecidableEq

/-- The members of `FatFs` that change, and the sectors requested so far,
    latest first. -/
structure FatFs where
  fatWindow : Bytes
  dataWindow : Bytes
  currentFatSector : Nat
  currentDataCluster : Nat
  loads : List Nat

/-- The constructor; `fatWindow` and `dataWindow` are what `malloc` returns. -/
def FatFs.new (fatWindow dataWindow : Bytes) : FatFs where
  fatWindow := fatWindow
  dataWindow := dataWindow
  currentFatSector := 0xFFFFFFFF
  currentDataCluster := 0xFFFFFFFF
  loads := []

inductive FatFs.FindResult where
  | ok (out : FatFile)
  | nameInvalid
  | ioError
  | noEntry
  | notDir
deriving DecidableEq

/-- First cluster number that ends a chain for `FatFs`. -/
def FatFs.endOfChain : Nat := 0x0FFFFFF0

def Volume.bytesPerCluster (v : Volume) : Nat := v.super.sectorsPerCluster * v.sectorSize

/-- `StrEqual` -/
def strEqual (a b : Bytes) : Bool := cstr a == cstr b

/-- `/` or `\` -/
def isSlash (c : UInt8) : Bool := c = 0x2F || c = 0x5C

namespace FatFs

variable (w : World) (v : Volume)

/-! ## Windows -/

/-- The loop of `LoadDataCluster`, from sector `i` on with `n` sectors left. -/
def loadSectors (lba : Nat) : Nat → Nat → FatFs → Bool × FatFs
  | _, 0, fs => (true, fs)
  | i, n + 1, fs =>
    let (ok, data) := w.loadSector v fs.loads (u32 (lba + i))
    let fs := { fs with
      dataWindow := splice fs.dataWindow (i * v.sectorSize) data
      loads := u32 (lba + i) :: fs.loads }
    if ok then loadSectors lba (i + 1) n fs else (false, fs)

def loadDataCluster (fs : FatFs) (index : Nat) : Bool × FatFs :=
  if index < 2 then (false, fs)
  else if index = fs.currentDataCluster then (true, fs)
  else
    match loadSectors w v (v.super.clusterIndex2Sector index) 0 v.super.sectorsPerCluster fs with
    | (true, fs) => (true, { fs with currentDataCluster := index })
    | (false, fs) => (false, fs)

def loadFatSector (fs : FatFs) (index : Nat) : Bool × FatFs :=
  if index ≥ v.super.sectorsPerFat then (false, fs)
  else if index = fs.currentFatSector then (true, fs)
  else
    let lba := u32 (v.super.reservedSectors + index)
    let (ok, data) := w.loadSector v fs.loads lba
    let fs := { fs with fatWindow := data, loads := lba :: fs.loads }
    if ok then (true, { fs with currentFatSector := index }) else (false, fs)

/-- The entry read, or `none` where the code returns `false`. -/
def readFatIndex (fs : FatFs) (index : Nat) : Option Nat × FatFs :=
  let sector := u32 (index * 4) / v.sectorSize
  let offset := u32 (index * 4) % v.sectorSize
  match loadFatSector w v fs sector with
  | (true, fs) => (some (leNat (slice fs.fatWindow offset 4)), fs)
  | (false, fs) => (none, fs)

/-! ## ReadAt -/

/-- The first half of the loop body of `ReadAt`: copy out of the current
    cluster or skip it. Returns the new offset, size and output. -/
def readCluster (fs : FatFs) (cluster offset size : Nat) (out : Bytes) :
    Bool × Nat × Nat × Bytes × FatFs :=
  if offset < v.bytesPerCluster then
    match loadDataCluster w v fs cluster with
    | (false, fs) => (false, offset, size, out, fs)
    | (true, fs) =>
      let diff := min (v.bytesPerCluster - offset) size
      (true, 0, size - diff, out ++ slice fs.dataWindow offset diff, fs)
  else (true, offset - v.bytesPerCluster, size, out, fs)

/-- The loop of `ReadAt`. `out` is what has been stored to the buffer. -/
def readLoop : Nat → FatFs → Nat → Nat → Nat → Bytes → Option (Int × Bytes × FatFs)
  | 0, _, _, _, _, _ => none
  | fuel + 1, fs, cluster, offset, size, out =>
    if size = 0 || cluster ≥ endOfChain then some (i32 out.length, out, fs)
    else
      match readCluster w v fs cluster offset size out with
      | (false, _, _, out, fs) => some (-1, out, fs)
      | (true, offset, size, out, fs) =>
        if size > 0 then
          match readFatIndex w v fs cluster with
          | (none, fs) => some (-1, out, fs)
          | (some next, fs) => readLoop fuel fs next offset size out
        else readLoop fuel fs cluster offset size out

/-- `ReadAt`: the return value and the bytes stored to the buffer. -/
def readAt (fuel : Nat) (fs : FatFs) (finfo : FatFile) (offset size : Nat) :
    Option (Int × Bytes × FatFs) :=
  if finfo.size > 0 then
    if offset ≥ finfo.size then some (0, [], fs)
    else readLoop w v fuel fs finfo.cluster offset (min size (finfo.size - offset)) []
  else readLoop w v fuel fs finfo.cluster offset size []

/-! ## Path lookup -/

def rootDir : FatFile where
  cluster := v.super.rootDirIndex
  size := 0
  flags := FlagField.set 0 FatDirent.directory

/-- The records in the data window. -/
def windowEntries (fs : FatFs) : List FatDirent :=
  (List.range (v.bytesPerCluster / FatDirent.sizeof)).map fun i =>
    ⟨slice fs.dataWindow (i * FatDirent.sizeof) FatDirent.sizeof⟩

/-- How the inner loop of `FindInDirectory` ends. -/
inductive ScanResult where
  | found (e : FatDirent)
  | last
  | more (buffer : Bytes)

/-- The inner loop of `FindInDirectory`. `buffer` is the local name buffer,
    which `NameToString` leaves alone when it fails. -/
def findEntry (name : Bytes) : Bytes → List FatDirent → ScanResult
  | buffer, [] => .more buffer
  | buffer, e :: es =>
    if e.isLastInList then .last
    else if e.isLongName || e.isDummiedOut then findEntry name buffer es
    else
      let buffer := e.nameToString.getD buffer
      if strEqual buffer name then .found e else findEntry name buffer es

/-- The outer loop of `FindInDirectory`. -/
def findLoop (name : Bytes) : Nat → FatFs → Nat → Bytes → Option (FindResult × FatFs)
  | 0, _, _, _ => none
  | fuel + 1, fs, index, buffer =>
    if index ≥ endOfChain then some (.noEntry, fs)
    else
      match loadDataCluster w v fs index with
      | (false, fs) => some (.ioError, fs)
      | (true, fs) =>
        match readFatIndex w v fs index with
        | (none, fs) => some (.ioError, fs)
        | (some next, fs) =>
          match findEntry name buffer (windowEntries v fs) with
          | .found e =>
            some (.ok { cluster := e.clusterIndex, size := e.size, flags := e.entryFlags }, fs)
          | .last => some (.noEntry, fs)
          | .more buffer => findLoop name fuel fs next buffer

def findInDirectory (fuel : Nat) (fs : FatFs) (dir : FatFile) (name : Bytes) :
    Option (FindResult × FatFs) :=
  if !isShortName name then some (.nameInvalid, fs)
  else if !FlagField.isSet dir.flags FatDirent.directory then some (.notDir, fs)
  else findLoop w v name fuel fs dir.cluster (w.uninit .nameBuffer fs.loads)

/-- The loop of `FindByPath` on the rest of the path. -/
def pathLoop (fuel : Nat) : Nat → FatFs → Bytes → FatFile → Option (FindResult × FatFs)
  | 0, _, _, _ => none
  | _ + 1, fs, [], out => some (.ok out, fs)
  | n + 1, fs, c :: cs, out =>
    if isSlash c then pathLoop fuel n fs ((c :: cs).dropWhile isSlash) out
    else
      let name8_3 := (c :: cs).takeWhile (!isSlash ·)
      if name8_3.length > 8 + 1 + 3 then some (.nameInvalid, fs)
      else do
        match ← findInDirectory w v fuel fs out name8_3 with
        | (.ok out, fs) => pathLoop fuel n fs ((c :: cs).dropWhile (!isSlash ·)) out
        | (err, fs) => some (err, fs)

def findByPath (fuel : Nat) (fs : FatFs) (name : Bytes) : Option (FindResult × FatFs) :=
  pathLoop w v fuel fuel fs (cstr name) (rootDir v)

end FatFs

end Hausboot
