import Hausboot.Stage2.Model

/-! # The Memory Map, from the Firmware to the Kernel: Code Model

    `BIOS/MemoryMap.h` and `lib/BIOS/e820.S` ask the firmware for the entries,
    `MBGenInfo` of `stage2/stage2.cpp` makes a multiboot table of them on the
    heap, and `PrintMemoryMap` of `kernel/kernel.cpp` walks that table.

    `UnalignedInt<uint64_t>::Read` shifts an `int` by up to 56 bits, which C++
    leaves undefined: `read64` is what the compiler has made of it. -/

open ByteLib

namespace Hausboot.Mmap

/-! ## The firmware -/

/-- The registers behind `int 0x15`, and the bytes stored at `%edi`. -/
structure Answer where
  carry : Bool
  eax : Nat
  ebx : Nat
  entry : Bytes

/-- The answer to the `k`th call, with this continuation value in `%ebx`. -/
abbrev Firmware : Type := Nat → Nat → Answer

/-- `SMAP` -/
def signature : Nat := 0x534d4150

/-- `IntCallE820`: the result, and the continuation value behind the call. -/
def intCallE820 (a : Answer) (ebx : Nat) : Int × Nat :=
  if a.carry then (1, ebx)
  else if a.eax ≠ signature then (-1, ebx)
  else (0, a.ebx)

/-! ## MemoryMap -/

/-- `MemoryMapEntry`, 20 bytes. -/
structure MemoryMapEntry where
  raw : Bytes

/-- `MemoryMap<MAX_COUNT>`; `ent` is the array. -/
structure MemoryMap where
  ent : Nat → MemoryMapEntry
  count : Nat

namespace MemoryMap

/-- `At` -/
def getAt (map : MemoryMap) (i : Nat) : MemoryMapEntry :=
  if i < map.count then map.ent i else map.ent (map.count - 1)

/-- `_ent[_count] = e` -/
def put (map : MemoryMap) (e : MemoryMapEntry) : MemoryMap :=
  { map with ent := fun i => if i = map.count then e else map.ent i }

/-- From `begin` to `end`. -/
def entries (map : MemoryMap) : List MemoryMapEntry := (List.range map.count).map map.ent

/-- The loop of `Load`, in front of the `k`th call; `temp` is the static buffer.
    Each round but the last one stores an entry. -/
def loadLoop (max : Nat) (fw : Firmware) :
    Nat → Nat → Nat → Bytes → MemoryMap → Option (Bool × MemoryMap)
  | 0, _, _, _, _ => none
  | n + 1, k, ebx, temp, map =>
    let a := fw k ebx
    let temp := splice temp 0 a.entry
    let (ret, ebx) := intCallE820 a ebx
    let map := map.put ⟨temp⟩
    if ret < 0 then some (false, { map with count := 0 })
    else if ret > 0 then some (true, map)
    else
      let map := { map with count := map.count + 1 }
      if map.count < max && ebx ≠ 0 then loadLoop max fw n (k + 1) ebx temp map
      else some (true, map)

def load (max : Nat) (fw : Firmware) (temp : Bytes) (map : MemoryMap) :
    Option (Bool × MemoryMap) :=
  loadLoop max fw max 0 0 temp { map with count := 0 }

end MemoryMap

/-! ## MemoryMapEntry -/

section Entry

variable (read64 : Bytes → Nat)

namespace MemoryMapEntry

def baseAddress (e : MemoryMapEntry) : Nat := read64 (slice e.raw 0 8)

def size (e : MemoryMapEntry) : Nat := read64 (slice e.raw 8 8)

/-- The number of the `MemType`. -/
def type (e : MemoryMapEntry) : Nat :=
  let value := leNat (slice e.raw 16 4)
  if value < 1 || value > 5 then 5 else value

def typeAsString (e : MemoryMapEntry) : String :=
  match e.type with
  | 1 => "free"
  | 2 => "reserved"
  | 3 => "ACPI"
  | 4 => "preserve"
  | _ => "unknown"

end MemoryMapEntry

/-! ## MultiBootMmap

    An entry of the table: the size field in the first four bytes, and the 20
    bytes of the firmware behind it. -/

namespace MultiBootMmap

/-- `sizeof(MultiBootMmap)` -/
def sizeof : Nat := 24

/-- `_wrapped` -/
def wrapped (m : Store) (p : Nat) : MemoryMapEntry := ⟨m.read (p + 4) 20⟩

def setWrapped (m : Store) (p : Nat) (e : MemoryMapEntry) : Store := m.write (p + 4) e.raw

def setNext (m : Store) (p next : Nat) : Store := m.writeLE p 4 (sub32 (sub32 next p) 4)

def next (m : Store) (p : Nat) : Nat := u32 (p + m.readLE p 4 + 4)

end MultiBootMmap

/-! ## MultiBootInfo -/

namespace MultiBootInfo

/-- `sizeof(MultiBootInfo)` -/
def sizeof : Nat := 128

def flagMemMap : Nat := 0x40

def flagBootLoaderName : Nat := 0x200

/-- `name` is the address of the text. -/
def setLoadName (m : Store) (info name : Nat) : Store :=
  let m := m.writeLE (info + 64) 4 name
  m.writeLE info 4 (FlagField.set (m.readLE info 4) flagBootLoaderName)

/-- One entry in the loop of `SetMemoryMap`: the last usable range below one
    megabyte counts as low memory, the last one above as high memory. -/
def countMemory (m : Store) (info : Nat) (e : MemoryMapEntry) : Store :=
  if e.type ≠ 1 then m
  else if e.baseAddress read64 > 0xFFFFFFFF then m
  else if e.baseAddress read64 < 0x00100000 then m.writeLE (info + 4) 4 (u32 (e.size read64 / 1024))
  else m.writeLE (info + 8) 4 (u32 (e.size read64 / 1024))

/-- The loop of `SetMemoryMap`, with `n` entries to go from the `i`th one. -/
def countLoop (info array : Nat) : Nat → Nat → Store → Store
  | 0, _, m => m
  | n + 1, i, m =>
    let e := MultiBootMmap.wrapped m (array + MultiBootMmap.sizeof * i)
    countLoop info array n (i + 1) (countMemory read64 m info e)

def setMemoryMap (m : Store) (info array count : Nat) : Store :=
  let m := m.writeLE (info + 48) 4 array
  let m := m.writeLE (info + 44) 4 (count * MultiBootMmap.sizeof)
  let m := m.writeLE info 4 (FlagField.set (m.readLE info 4) flagMemMap)
  countLoop read64 info array count 0 m

def memoryMapBegin (m : Store) (info : Nat) : Nat :=
  if !FlagField.isSet (m.readLE info 4) flagMemMap then 0 else m.readLE (info + 48) 4

def memoryMapEnd (m : Store) (info : Nat) : Nat :=
  if !FlagField.isSet (m.readLE info 4) flagMemMap then 0
  else u32 (m.readLE (info + 48) 4 + m.readLE (info + 44) 4)

end MultiBootInfo

/-! ## MBGenInfo -/

/-- `new MultiBootInfo()`, and `SetLoadName`. -/
def newInfo (fuel : Nat) (h : Heap) (name : Nat) : Option (Nat × Heap) := do
  let (info, h) ← malloc fuel h 128
  let mem := h.mem.write info (List.replicate MultiBootInfo.sizeof 0)
  some (info, { h with mem := MultiBootInfo.setLoadName mem info name })

/-- `new MultiBootMmap[count]` -/
def newTable (fuel : Nat) (h : Heap) (count : Nat) : Option (Nat × Heap) := do
  let (table, h) ← malloc fuel h (UInt32.ofNat (MultiBootMmap.sizeof * count))
  some (table, { h with mem := h.mem.write table (List.replicate (MultiBootMmap.sizeof * count) 0) })

/-- The loop of `MBGenInfo`, with `n` entries to go from the `i`th one. -/
def fillLoop (map : MemoryMap) (table : Nat) : Nat → Nat → Store → Store
  | 0, _, m => m
  | n + 1, i, m =>
    let p := table + MultiBootMmap.sizeof * i
    let m := MultiBootMmap.setWrapped m p (map.getAt i)
    fillLoop map table n (i + 1) (MultiBootMmap.setNext m p (p + MultiBootMmap.sizeof))

/-- `MBGenInfo`: the address of the info structure. A null pointer that is
    returned by an allocation is not looked at. -/
def mbGenInfo (fuel : Nat) (h : Heap) (name : Nat) (map : MemoryMap) : Option (Nat × Heap) := do
  let (info, h) ← newInfo fuel h name
  let (table, h) ← newTable fuel h map.count
  let mem := fillLoop map table map.count 0 h.mem
  some (info, { h with mem := MultiBootInfo.setMemoryMap read64 mem info table map.count })

/-! ## PrintMemoryMap -/

/-- The loop of `PrintMemoryMap`: what the body makes of each entry, and the
    pointer with which it ends. -/
def mmapLoop {β : Type} (m : Store) (mmapEnd : Nat) (body : Nat → β) :
    Nat → Nat → Option (List β × Nat)
  | 0, _ => none
  | n + 1, mmap =>
    if mmap < mmapEnd then do
      let (out, last) ← mmapLoop m mmapEnd body n (MultiBootMmap.next m mmap)
      some (body mmap :: out, last)
    else some ([], mmap)

/-- The body: a line of the screen. -/
def printEntry (e : MemoryMapEntry) : List ScreenOp :=
  let start := e.baseAddress read64
  let stop :=
    if e.size read64 > 0 then
      let stop := (start + e.size read64) % 2 ^ 64
      if stop < start then 0xFFFFFFFFFFFFFFFF else stop - 1
    else start
  [.hex start, .text " | ", .hex stop, .text " | ", .text e.typeAsString, .text "\r\n"]

def printMemoryMap (fuel : Nat) (m : Store) (info : Nat) : Option (List ScreenOp) :=
  let mmap := MultiBootInfo.memoryMapBegin m info
  let mmapEnd := MultiBootInfo.memoryMapEnd m info
  if mmap = 0 || mmapEnd = 0 then
    some [.text "Boot loader did not provide a memory map!", .text "\r\n"]
  else do
    let (lines, _) ← mmapLoop m mmapEnd
      (fun p => printEntry read64 (MultiBootMmap.wrapped m p)) fuel mmap
    some ([.text "Multiboot memory map:", .text "\r\n"] ++ lines.flatten)

end Entry

end Hausboot.Mmap
