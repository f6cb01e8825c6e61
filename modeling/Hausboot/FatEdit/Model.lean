import Hausboot.Fat.Dirent
import Hausboot.Fat.Super
import Hausboot.Lib.Store

/-! # The fatedit Tool: Code Model

    `tools/fatedit.cpp`, with `host/File.h` and `tools/util.h` as far as it
    uses them. Functions that only read the image are functions of the session
    state; functions that change it are `EStateM` programs, so that the state
    at an exception is known.

    A function of the source that prints a message and returns `false` raises
    `Fail.refuse` here, as each of its callers returns at once in that case.
    `Fail.throw` is a C++ exception. -/

open ByteLib

namespace Hausboot.FatEdit

/-! ## Files -/

/-- A byte vector: the image file, or `_fatRaw`. Bytes behind the end are
    zero, which is what a write past the end of a file leaves in the gap. -/
structure ByteVec where
  bytes : Store
  size : Nat

inductive Exn where
  /-- `std::vector::at` -/
  | outOfRange
  | noFreeCluster
  | brokenChain
  | chainNotTerminated
  | endOfFile
  | badOffset
  | cannotOpen
  | readError
  | fsInfoIndex
  | fsInfoBroken
  /-- No exception of the code: a loop bound of the model was too small. -/
  | stuck
deriving DecidableEq

inductive Fail where
  | refuse (msg : Bytes)
  | throw (e : Exn)
deriving DecidableEq

/-- `File::ReadAt`. An offset from 2^63 on is negative for `pread`. -/
def ByteVec.readAt (f : ByteVec) (offset n : Nat) : Except Fail Bytes :=
  if n = 0 then .ok []
  else if offset ≥ 2 ^ 63 then .error (.throw .badOffset)
  else if offset + n ≤ f.size then .ok (f.bytes.read offset n)
  else .error (.throw .endOfFile)

/-- `File::WriteAt` -/
def ByteVec.writeAt (f : ByteVec) (offset : Nat) (d : Bytes) : Except Fail ByteVec :=
  if d = [] then .ok f
  else if offset ≥ 2 ^ 63 then .error (.throw .badOffset)
  else .ok { bytes := f.bytes.write offset d, size := max f.size (offset + d.length) }

/-- A value of type `int` as an argument of type `uint64_t`. -/
def u64OfInt (i : Int) : Nat := (i % 2 ^ 64).toNat

/-- What `open` and `read` give for the path of an input file: nothing, or the
    contents and whether reading on then fails. -/
abbrev Host : Type := Bytes → Option (Bytes × Bool)

/-! ## State -/

structure DirEntry where
  shortName : Bytes
  longName : Bytes
  size : Nat
  firstCluster : Nat
  isDirectory : Bool
deriving DecidableEq

/-- The globals `file` and `fat`, and the two output streams. -/
structure Session where
  file : ByteVec
  fatRaw : ByteVec
  fsinfo : Bytes
  cout : Bytes
  cerr : Bytes

/-- The bytes of a string literal. -/
def lit (s : String) : Bytes := s.toList.map fun c => UInt8.ofNat c.toNat

abbrev M : Type → Type := EStateM Fail Session

/-- A reading function as a program. -/
def reading {α : Type} (f : Session → Except Fail α) : M α := fun s =>
  match f s with
  | .ok a => .ok a s
  | .error e => .error e s

/-- `file.WriteAt` -/
def writeFile (offset : Nat) (d : Bytes) : M Unit := fun s =>
  match s.file.writeAt offset d with
  | .ok f => .ok () { s with file := f }
  | .error e => .error e s

/-- `std::cout <<` -/
def print (d : Bytes) : M Unit := modify fun s => { s with cout := s.cout ++ d }

section Code

variable (super : FatSuper)

/-! ## FatReader -/

/-- The value that `FindFreeCluster` returns for "none". -/
def noCluster : Nat := 0x0FFFFFFF8

def nextClusterInFile (s : Session) (N : Nat) : Except Fail Nat :=
  let idx := u32 (N * 4)
  if idx + 3 < s.fatRaw.size then .ok (s.fatRaw.bytes.readLE idx 4 % 2 ^ 28)
  else .error (.throw .outOfRange)

/-- `FatReader::Set`. The top four bits of the entry become zero. -/
def setEntry (N value : Nat) : M Unit := modify fun s =>
  let idx := N * 4
  if s.fatRaw.size < 4 || idx ≥ s.fatRaw.size - 3 then s
  else { s with fatRaw := { s.fatRaw with
    bytes := s.fatRaw.bytes.writeLE idx 4 (value % 2 ^ 28) } }

/-- The loop of `FindFreeCluster`, from index `i` on with `n` indices left. -/
def findFreeLoop (s : Session) : Nat → Nat → Except Fail Nat
  | 0, _ => .ok noCluster
  | n + 1, i => do
    if (← nextClusterInFile s i) = 0 then .ok i else findFreeLoop s n (i + 1)

/-- The number of indices that `FindFreeCluster` tries. -/
def searchRange : Nat :=
  let fatSectors := u32 (super.sectorsPerFat * super.numFats)
  let total := super.sectorCount
  if total ≤ fatSectors then 0
  else
    let total := total - fatSectors
    if total ≤ super.reservedSectors then 0
    else (total - super.reservedSectors) / super.sectorsPerCluster

def findFreeCluster (s : Session) : Except Fail Nat := findFreeLoop s (searchRange super) 0

/-- The loop of `NumFreeClusters`. -/
def countFreeLoop (s : Session) : Nat → Nat → Except Fail Nat
  | 0, _ => .ok 0
  | n + 1, i => do
    let next ← nextClusterInFile s i
    let count ← countFreeLoop s n (i + 1)
    .ok (if next = 0 then count + 1 else count)

def numFreeClusters (s : Session) : Except Fail Nat := do
  .ok (u32 (← countFreeLoop s (s.fatRaw.size / 4) 0))

def allocateCluster : M Nat := do
  let out ← reading (findFreeCluster super)
  if out ≥ endMark then throw (.throw .noFreeCluster)
  setEntry out endMark
  return out

/-- `AllocateCluster(lastInFile)` -/
def allocateClusterAfter (lastInFile : Nat) : M Nat := do
  let out ← allocateCluster super
  setEntry lastInFile out
  return out

/-- The product is taken in 32 bits and widened afterwards. -/
def clusterFileOffset (index : Nat) : Nat :=
  u32 (super.clusterIndex2Sector index * super.bytesPerSector)

def bytesPerCluster : Nat := super.sectorsPerCluster * super.bytesPerSector

/-- `_fsinfo.IsValid()` -/
def fsInfoValid (fsinfo : Bytes) : Bool :=
  leNat (slice fsinfo 0 4) = 0x41615252 && leNat (slice fsinfo 484 4) = 0x61417272 &&
    leNat (slice fsinfo 508 4) = 0xAA550000

/-- `LoadFromImage`, for the session that `main` builds on the image. -/
def loadFromImage (file : ByteVec) : Except Fail Session := do
  if super.fsInfoIndex ≥ super.reservedSectors then .error (.throw .fsInfoIndex)
  else
    let fsinfo ← file.readAt (u64OfInt (i32 (super.fsInfoIndex * super.bytesPerSector))) 512
    if !fsInfoValid fsinfo then .error (.throw .fsInfoBroken)
    else
      let offset := u64OfInt (i32 (super.reservedSectors * super.bytesPerSector))
      let size := u32 (super.sectorsPerFat * super.bytesPerSector)
      let raw ← file.readAt offset size
      .ok {
        file := file
        fatRaw := { bytes := Store.write (fun _ => 0) 0 raw, size := size }
        fsinfo := fsinfo
        cout := []
        cerr := [] }

/-- The loop of `WriteToImage` over the FATs. `offset` is an `int`. -/
def writeFats : Nat → Int → M Unit
  | 0, _ => pure ()
  | n + 1, offset => do
    let raw := (← get).fatRaw
    writeFile (u64OfInt offset) (raw.bytes.read 0 raw.size)
    writeFats n (Int.bmod (offset + raw.size) (2 ^ 32))

def writeToImage : M Unit := do
  writeFats super.numFats (i32 (super.reservedSectors * super.bytesPerSector))
  let next ← reading (findFreeCluster super)
  let free ← reading numFreeClusters
  let fsinfo := splice (splice (← get).fsinfo 492 (leBytes 4 next)) 488 (leBytes 4 free)
  modify fun s => { s with fsinfo := fsinfo }
  writeFile (u64OfInt (i32 (super.fsInfoIndex * super.bytesPerSector))) fsinfo

/-! ## FileReader -/

structure FileReader where
  cluster : Nat
  offset : Nat
  size : Nat
  totalRead : Nat

def FileReader.new (idx size : Nat) : FileReader := ⟨idx, 0, size, 0⟩

namespace FileReader

def dataLeftInCluster (rd : FileReader) : Nat :=
  let max := bytesPerCluster super
  let avail := if rd.offset < max then max - rd.offset else 0
  if avail < rd.size then avail else rd.size

def nextCluster (s : Session) (rd : FileReader) : Except Fail FileReader :=
  if rd.size = 0 then .ok { rd with offset := 0, cluster := 0 }
  else do
    let ent ← nextClusterInFile s rd.cluster
    if ent < 2 || ent ≥ endMark then .ok { rd with offset := 0, size := 0, cluster := 0 }
    else .ok { rd with offset := 0, cluster := ent }

/-- The top of the loop of `Read`: where the current cluster has nothing left,
    go to the next one. -/
def advance (s : Session) (rd : FileReader) : Except Fail FileReader :=
  if rd.dataLeftInCluster super = 0 then nextCluster s rd else .ok rd

/-- The loop of `Read`, with `size` bytes still to read. Each round reads one
    byte or more, so `size` rounds are enough. -/
def readLoop (s : Session) : Nat → FileReader → Nat → Bytes → Except Fail (Bytes × FileReader)
  | 0, rd, _, out => .ok (out, rd)
  | n + 1, rd, size, out =>
    if size = 0 then .ok (out, rd)
    else do
      let rd ← advance super s rd
      if rd.dataLeftInCluster super = 0 then .ok (out, rd)
      else
        let offset := clusterFileOffset super rd.cluster + rd.offset
        let diff := min (rd.dataLeftInCluster super) size
        let data ← s.file.readAt offset diff
        readLoop s n { rd with offset := u32 (rd.offset + diff), size := rd.size - diff }
          (size - diff) (out ++ data)

def read (s : Session) (rd : FileReader) (size : Nat) : Except Fail (Bytes × FileReader) := do
  let (out, rd) ← readLoop super s size rd size []
  .ok (out, { rd with totalRead := rd.totalRead + out.length })

end FileReader

/-! ## FileWriter -/

structure FileWriter where
  cluster : Nat
  offset : Nat
  firstCluster : Nat
  totalSize : Nat

namespace FileWriter

/-- `FileWriter()` -/
def create : M FileWriter := do
  let cluster ← allocateCluster super
  return ⟨cluster, 0, cluster, 0⟩

/-- The loop of `FileWriter(idx, size)`: the cluster reached and the size left.
    Each round takes a cluster off the size. -/
def walk (s : Session) : Nat → Nat → Nat → Except Fail (Nat × Nat)
  | 0, _, _ => .error (.throw .stuck)
  | n + 1, cluster, size =>
    if size > bytesPerCluster super then do
      let ent ← nextClusterInFile s cluster
      if ent < 2 || ent ≥ endMark then .error (.throw .brokenChain)
      else walk s n ent (size - bytesPerCluster super)
    else .ok (cluster, size)

/-- `FileWriter(idx, size)` -/
def reopen (s : Session) (idx size : Nat) : Except Fail FileWriter := do
  let (cluster, rest) ← walk super s (size + 1) idx size
  let ent ← nextClusterInFile s cluster
  if ent < endMark then .error (.throw .chainNotTerminated)
  else .ok ⟨cluster, rest, idx, size⟩

/-- `SpaceAvailable`, in `size_t`. -/
def spaceAvailable (wr : FileWriter) : Nat :=
  (bytesPerCluster super + (2 ^ 64 - wr.offset)) % 2 ^ 64

/-- The loop of `Append`. Each round either writes a byte or more, or makes
    room for the next one to do so. -/
def appendLoop : Nat → FileWriter → Bytes → M FileWriter
  | 0, wr, _ => pure wr
  | n + 1, wr, data =>
    if data = [] then pure wr
    else do
      let diff := min (wr.spaceAvailable super) data.length
      if diff = 0 then
        let cluster ← allocateClusterAfter super wr.cluster
        appendLoop n { wr with cluster := cluster, offset := 0 } data
      else
        writeFile (clusterFileOffset super wr.cluster + wr.offset) (data.take diff)
        appendLoop n
          { wr with offset := u32 (wr.offset + diff), totalSize := u32 (wr.totalSize + diff) }
          (data.drop diff)

def append (wr : FileWriter) (data : Bytes) : M FileWriter :=
  appendLoop super (2 * data.length) wr data

end FileWriter

/-! ## ScanDirectory

    `ScanDirectory` only calls `Read` with the size of a record and `TotalRead`.
    It is written for any reader with these two, so that the directory that it
    sees can also be given as a string of bytes. -/

/-- A reader of records. -/
structure RecordReader (ρ : Type) where
  read : ρ → Except Fail (Bytes × ρ)
  totalRead : ρ → Nat

/-- The records behind the first one of a long name: `n` are left. -/
def readLongNames {ρ : Type} (rr : RecordReader ρ) :
    Nat → ρ → List FatDirentLong → Except Fail (List FatDirentLong × ρ)
  | 0, rd, list => .ok (list, rd)
  | n + 1, rd, list => do
    let (d, rd) ← rr.read rd
    if d.length < FatDirent.sizeof then
      .error (.refuse (lit "Not enouth space for long name list!"))
    else
      let lEnt : FatDirentLong := ⟨d⟩
      if !lEnt.isLongName || lEnt.isLast then .error (.refuse (lit "Broken long name entry!"))
      else readLongNames rr n rd (list ++ [lEnt])

/-- The check of the reversed list: numbers from 1 on, and one checksum. -/
def longNamesOk (chksum : Nat) : Nat → List FatDirentLong → Bool
  | _, [] => true
  | i, e :: es =>
    e.sequenceNumber = i + 1 && e.shortNameChecksum = chksum && longNamesOk chksum (i + 1) es

/-- The long name: the pieces of the list in order. -/
def joinLongName : List FatDirentLong → Except Fail Bytes
  | [] => .ok []
  | e :: es =>
    if cstr e.nameToString = [] then
      .error (.refuse (lit "File with empty long name found!"))
    else do
      .ok (cstr e.nameToString ++ (← joinLongName es))

/-- The end of the loop body: the entry for a record and the long name records
    in front of it. -/
def makeEntry (sEnt : FatDirent) (lEntList : List FatDirentLong) : Except Fail DirEntry :=
  match sEnt.nameToString with
  | none => .error (.refuse (lit "File with empty short name found!"))
  | some shortName => do
    -- `shortName` is a buffer of 12 bytes in the source; what a name of 12
    -- characters does to the byte behind it is left out
    let longName ← if lEntList = [] then .ok (cstr shortName) else joinLongName lEntList
    .ok {
      shortName := cstr shortName
      longName := longName
      size := sEnt.size
      firstCluster := sEnt.clusterIndex
      isDirectory := sEnt.isDirectory }

/-- A long name whose first record is `first`: read its other records and the
    record that they belong to. -/
def readLongEntry {ρ : Type} (rr : RecordReader ρ) (first : FatDirentLong) (rd : ρ) :
    Except Fail (FatDirent × List FatDirentLong × ρ) :=
  if !first.isLast || first.sequenceNumber < 1 then
    .error (.refuse (lit "Long name list needs to begin with last entry!"))
  else do
    let (list, rd) ← readLongNames rr (first.sequenceNumber - 1) rd [first]
    let list := list.reverse
    if !longNamesOk first.shortNameChecksum 0 list then
      .error (.refuse (lit "Broken long filename sequence!"))
    else
      let (d, rd) ← rr.read rd
      let sEnt : FatDirent := ⟨d⟩
      if d.length < FatDirent.sizeof then
        .error (.refuse (lit "Long name entry not followed by short name!"))
      else if sEnt.isLongName then .error (.refuse (lit "Short name entry is broken!"))
      else if sEnt.checksum ≠ first.shortNameChecksum then
        .error (.refuse (lit "Short name checksum does not match!"))
      else .ok (sEnt, list, rd)

/-- How a round of the loop of `ScanDirectory` ends. -/
inductive Round where
  | stop (overread : Nat)
  | skip
  | entry (e : DirEntry)

/-- The loop body. -/
def scanRound {ρ : Type} (rr : RecordReader ρ) (rd : ρ) : Except Fail (Round × ρ) := do
  let (d, rd) ← rr.read rd
  let sEnt : FatDirent := ⟨d⟩
  if d.length < FatDirent.sizeof then .ok (.stop d.length, rd)
  else if sEnt.isDummiedOut then .ok (.skip, rd)
  else if sEnt.isLastInList then .ok (.stop d.length, rd)
  else if sEnt.isLongName then
    let (sEnt, list, rd) ← readLongEntry rr ⟨d⟩ rd
    .ok (.entry (← makeEntry sEnt list), rd)
  else .ok (.entry (← makeEntry sEnt []), rd)

def scanLoop {ρ : Type} (rr : RecordReader ρ) :
    Nat → ρ → List DirEntry → Except Fail (List DirEntry × Nat)
  | 0, _, _ => .error (.throw .stuck)
  | n + 1, rd, out => do
    match ← scanRound rr rd with
    | (.stop overread, rd) => .ok (out, rr.totalRead rd - overread)
    | (.skip, rd) => scanLoop rr n rd out
    | (.entry e, rd) => scanLoop rr n rd (out ++ [e])

/-- `Read(&ent, sizeof(ent))` and `TotalRead` of a `FileReader`. -/
def fileRecords (s : Session) : RecordReader FileReader where
  read rd := rd.read super s FatDirent.sizeof
  totalRead := FileReader.totalRead

/-- `ScanDirectory`: the entries and `totalRead`. A round takes 32 bytes off
    the size of the reader, which bounds the number of rounds. -/
def scanDirectory (s : Session) (rd : FileReader) : Except Fail (List DirEntry × Nat) :=
  scanLoop (fileRecords super s) (rd.size / FatDirent.sizeof + 1) rd []

/-! ## Paths -/

/-- `isspace` in the C locale. -/
def isspace (c : UInt8) : Bool := c = 0x20 || (0x09 ≤ c && c ≤ 0x0D)

/-- `/` or `\` -/
def isPathSep (c : UInt8) : Bool := c = 0x2F || c = 0x5C

/-- `SplitPath`, with as many rounds as the string has characters. -/
def splitLoop : Nat → Bytes → List Bytes
  | _, [] => []
  | 0, _ => []
  | n + 1, c :: cs =>
    -- drop leading slashes
    if isPathSep c then splitLoop n (cs.dropWhile isPathSep)
    else
      (c :: cs.takeWhile (!isPathSep ·)) :: splitLoop n ((cs.dropWhile (!isPathSep ·)).drop 1)

def splitPath (path : Bytes) : List Bytes := splitLoop path.length path

/-- The entry that stands for the root directory. -/
def rootEntry : DirEntry where
  shortName := []
  longName := []
  size := 0
  firstCluster := super.rootDirIndex
  isDirectory := true

def dirReader (cluster : Nat) : FileReader := .new cluster 0xFFFFFFFF

/-- The loop of `FindFile` over the path components. -/
def findLoop (s : Session) (args : Bytes) : List Bytes → DirEntry → Except Fail DirEntry
  | [], ent => .ok ent
  | name :: path, ent =>
    if !ent.isDirectory then
      .error (.refuse (args ++ lit ": component is not a directory"))
    else do
      let (list, _) ← scanDirectory super s (dirReader ent.firstCluster)
      match list.find? fun it => it.longName == name || it.shortName == name with
      | some it => findLoop s args path it
      | none => .error (.refuse (name ++ lit ": no such file or directory"))

def findFile (s : Session) (args : Bytes) : Except Fail DirEntry :=
  findLoop super s args (splitPath args) (rootEntry super)

/-- The prefix that `FindParent` puts together again. -/
def joinPath : List Bytes → Bytes
  | [] => []
  | [name] => name
  | name :: path => name ++ 0x2F :: joinPath path

def findParent (s : Session) (path : List Bytes) : Except Fail DirEntry :=
  if path.length > 1 then do
    let pre := joinPath path.dropLast
    let parent ← findFile super s pre
    if !parent.isDirectory then .error (.refuse (pre ++ lit ": not a directory"))
    else .ok parent
  else .ok (rootEntry super)

/-! ## Commands -/

/-- A line of the output of `dir`. -/
def entryLine (it : DirEntry) : Bytes :=
  it.longName ++ lit " (" ++ it.shortName ++ lit "), " ++ lit (toString it.size) ++
    (if it.isDirectory then lit ", directory" else []) ++ [0x0A]

/-- The entries that `ListDirectory` prints. -/
def listEntries (s : Session) (args : Bytes) : Except Fail (List DirEntry) := do
  let ent ← findFile super s args
  if !ent.isDirectory then .error (.refuse (args ++ lit ": not a directory"))
  else
    let (list, _) ← scanDirectory super s (dirReader ent.firstCluster)
    .ok list

def listDirectory (args : Bytes) : M Unit := do
  let list ← reading (listEntries super · args)
  print (list.flatMap entryLine)

/-- The loop of `DumpFile`. -/
def dumpLoop : Nat → FileReader → M Unit
  | 0, _ => throw (.throw .stuck)
  | n + 1, rd => do
    let (buffer, rd) ← reading (rd.read super · 512)
    if buffer = [] then pure ()
    else
      print buffer
      dumpLoop n rd

def dumpFile (args : Bytes) : M Unit := do
  let ent ← reading (findFile super · args)
  if ent.isDirectory then throw (.refuse (args ++ lit ": is a directory"))
  else dumpLoop super (ent.size + 1) (.new ent.firstCluster ent.size)

/-- A record of a new directory for itself or its parent. -/
def dotRecord (name : Bytes) (cluster : Nat) : FatDirent :=
  ((FatDirent.default.setName name).setEntryFlags FatDirent.directory).setClusterIndex cluster

def initializeEmptyDirectory (parentIdx : Nat) : M Nat := do
  let data ← FileWriter.create super
  let indexOut := data.firstCluster
  let data ← data.append super (dotRecord (lit ".") data.firstCluster).raw
  let data ← data.append super (dotRecord (lit "..") parentIdx).raw
  let _ ← data.append super FatDirent.zero.raw
  return indexOut

/-- The record that `AppendDirectoryEntry` writes. -/
def entryRecord (isDir : Bool) (name : Bytes) (fileCluster fileSize : Nat) : FatDirent :=
  let ent := FatDirent.default
  let ent :=
    if name.contains 0x2E then
      (ent.setName (name.takeWhile (· ≠ 0x2E))).setExtension ((name.dropWhile (· ≠ 0x2E)).drop 1)
    else ent.setName name
  let ent := ent.setClusterIndex fileCluster
  if isDir then ent.setEntryFlags FatDirent.directory else ent.setSize fileSize

def appendDirectoryEntry (cluster size : Nat) (isDir : Bool) (name : Bytes)
    (fileCluster fileSize : Nat) : M Unit := do
  let parentDir ← reading (FileWriter.reopen super · cluster (u32 size))
  let parentDir ← parentDir.append super (entryRecord isDir name fileCluster fileSize).raw
  let _ ← parentDir.append super FatDirent.zero.raw

/-- `CheckEntryNotInDir`: the actual size of the directory. -/
def checkEntryNotInDir (s : Session) (cluster : Nat) (name : Bytes) : Except Fail Nat := do
  let (entries, actualSize) ← scanDirectory super s (dirReader cluster)
  if entries.any fun it => it.shortName == name || it.longName == name then
    .error (.refuse (name ++ lit ": already exists"))
  else .ok actualSize

/-- The checks that `CreateDirectory` and `PackDirectory` share: the parent and
    its actual size. -/
def locate (s : Session) (path : List Bytes) (name : Bytes) : Except Fail (DirEntry × Nat) := do
  let parent ← findParent super s path
  let actualSize ← checkEntryNotInDir super s parent.firstCluster name
  .ok (parent, actualSize)

def notShortName (name : Bytes) : Fail := .refuse (name ++ lit ": is not a short name (sorry)")

def createDirectory (args : Bytes) : M Unit := do
  let path := splitPath args
  match path.getLast? with
  | none => pure ()
  | some name =>
    if !isShortName name then throw (notShortName name)
    else if name.contains 0x2E then
      throw (.refuse (name ++ lit ": directory name must not contain `.`"))
    else
      let (parent, actualSize) ← reading (locate super · path name)
      let index ← initializeEmptyDirectory super parent.firstCluster
      appendDirectoryEntry super parent.firstCluster actualSize true name index 0

/-- The copy loop of `PackDirectory`: blocks of 512 bytes until the end of the
    input, or until reading it fails. -/
def packLoop (fails : Bool) : Nat → FileWriter → Bytes → M FileWriter
  | 0, _, _ => throw (.throw .stuck)
  | n + 1, wr, rest =>
    if rest.length < 512 && fails then throw (.throw .readError)
    else if rest = [] then pure wr
    else do
      let wr ← wr.append super (rest.take 512)
      packLoop fails n wr (rest.drop 512)

/-- The arguments of `pack`: input file and target path. `none` if there is no
    blank behind the first word. -/
def splitPackArgs (args : Bytes) : Option (Bytes × Bytes) :=
  let input := args.takeWhile (!isspace ·)
  let rest := args.dropWhile (!isspace ·)
  if rest = [] then none else some (input, rest.dropWhile isspace)

def packDirectory (host : Host) (args : Bytes) : M Unit := do
  match splitPackArgs args with
  | none => pure ()
  | some (input, target) =>
    -- `args.at(count)` runs over the end
    if target = [] then throw (.throw .outOfRange)
    else
      let path := splitPath target
      match path.getLast? with
      | none => pure ()
      | some name =>
        if !isShortName name then throw (notShortName name)
        else
          let (parent, parentDirSize) ← reading (locate super · path name)
          match host (cstr input) with
          | none => throw (.throw .cannotOpen)
          | some (contents, fails) =>
            let wr ← FileWriter.create super
            let wr ← packLoop super fails (contents.length + 1) wr contents
            print (lit "Packed `" ++ input ++ lit "`\n")
            appendDirectoryEntry super parent.firstCluster parentDirSize false name
              wr.firstCluster wr.totalSize

/-! ## main -/

inductive Command where
  | dir
  | type
  | mkdir
  | pack
deriving DecidableEq

/-- The table `commands`. -/
def commands : List (Bytes × Command) :=
  [(lit "dir", .dir), (lit "type", .type), (lit "mkdir", .mkdir), (lit "pack", .pack)]

def Command.callback (host : Host) : Command → Bytes → M Unit
  | .dir, args => listDirectory super args
  | .type, args => dumpFile super args
  | .mkdir, args => createDirectory super args
  | .pack, args => packDirectory super host args

def trim (line : Bytes) : Bytes := (line.rdropWhile isspace).dropWhile isspace

/-- `MatchCommand`: the rest of the line if it starts with the command. -/
def matchCommand (str cmd : Bytes) : Option Bytes :=
  if str.take cmd.length ≠ cmd then none
  else
    match str.drop cmd.length with
    | [] => some []
    | c :: cs => if !isspace c then none else some ((c :: cs).dropWhile isspace)

/-- What `main` makes of an input line. -/
inductive Line where
  | ignored
  | unknown (line : Bytes)
  | command (c : Command) (args : Bytes)

def parseLine (line : Bytes) : Line :=
  let line := trim line
  if line = [] || (matchCommand line (lit "rem")).isSome then .ignored
  else
    match commands.findSome? fun it => (matchCommand line it.1).map fun args => (it.2, args) with
    | some (c, args) => .command c args
    | none => .unknown line

/-- The end of a callback: what is printed where it refuses. -/
def handled (x : M Unit) : EStateM Exn Session Unit := fun s =>
  match x s with
  | .ok () s => .ok () s
  | .error (.refuse msg) s => .ok () { s with cerr := s.cerr ++ msg ++ [0x0A] }
  | .error (.throw e) s => .error e s

def runLine (host : Host) (line : Bytes) : EStateM Exn Session Unit :=
  match parseLine line with
  | .ignored => pure ()
  | .unknown line =>
    modify fun s => { s with cerr := s.cerr ++ lit "Unknown command `" ++ line ++ lit "`\n" }
  | .command c args => handled (c.callback super host args)

/-- The command loop, on input lines with the files that each of them finds. -/
def runLines : List (Bytes × Host) → EStateM Exn Session Unit
  | [] => pure ()
  | (line, host) :: lines => do
    runLine super host line
    runLines lines

/-- The end of `main`: the FATs, and the super block in both places. -/
def finish : M Unit := do
  writeToImage super
  writeFile 0 super.raw
  if 0 < super.backupIndex && super.backupIndex < super.reservedSectors then
    writeFile (u64OfInt (i32 (super.backupIndex * super.bytesPerSector))) super.raw

end Code

/-- The start of `main`: the super block and the session on the image. -/
def start (image : ByteVec) : Except Fail (FatSuper × Session) := do
  let raw ← image.readAt 0 512
  let s ← loadFromImage ⟨raw⟩ image
  .ok (⟨raw⟩, s)

/-- `main` on an image that could be opened. -/
def main (image : ByteVec) (input : List (Bytes × Host)) : EStateM.Result Exn ByteVec Unit :=
  match start image with
  | .error (.throw e) => .error e image
  | .error (.refuse _) => .error .stuck image
  | .ok (super, s) =>
    match (do runLines super input; handled (finish super)) s with
    | .ok () s => .ok () s.file
    | .error e s => .error e s.file

end Hausboot.FatEdit
