import Hausboot.Lib.Store
import Hausboot.Types

/-! # The stage2 Heap: Code Model

    `stage2/heap.cpp` over a byte memory. A `HeapEntry *` is the address of
    an 8 byte header: `_next` in the first four bytes, `_flags` in the last
    four. A null pointer is address 0.

    The loops follow pointers that they read from memory, so each one takes
    fuel; `none` means that the loop has not ended within it. -/

namespace Hausboot

/-- The two globals `heap` and `heapEnd`, and the memory they point into. -/
structure Heap where
  mem : Store
  heap : Nat
  heapEnd : Nat

/-! ## HeapEntry -/

namespace HeapEntry

/-- `sizeof(HeapEntry)` -/
def sizeof : Nat := 8

/-- `HeapFlags::Reserved` -/
def reserved : Nat := 0x01

def next (m : Store) (e : Nat) : Nat := m.readLE e 4

def flags (m : Store) (e : Nat) : Nat := m.readLE (e + 4) 4

def setNext (m : Store) (e n : Nat) : Store := m.writeLE e 4 n

def setFlags (m : Store) (e f : Nat) : Store := m.writeLE (e + 4) 4 f

def isFree (m : Store) (e : Nat) : Bool := !FlagField.isSet (flags m e) reserved

def size (m : Store) (e : Nat) : Nat := sub32 (sub32 (next m e) e) sizeof

def dataPtr (e : Nat) : Nat := u32 (e + sizeof)

def init (m : Store) (e n : Nat) : Store := setFlags (setNext m e n) e 0

def reserve (m : Store) (e count : Nat) : Nat × Store :=
  let sz := size m e
  if !isFree m e || sz < count then
    (0, m)
  else
    let m :=
      if sizeof + 4 ≤ sz - count then
        let ent := u32 (dataPtr e + count)
        setNext (init m ent (next m e)) e ent
      else m
    (dataPtr e, setFlags m e (FlagField.set (flags m e) reserved))

def release (m : Store) (e : Nat) : Store :=
  setFlags m e (FlagField.clear 32 (flags m e) reserved)

def tryConsolidate (m : Store) (e : Nat) : Bool × Store :=
  if isFree m e && isFree m (next m e) then
    (true, setNext m e (next m (next m e)))
  else (false, m)

end HeapEntry

/-! ## HeapInit, malloc and free -/

open HeapEntry

def heapInit (mem : Store) (basePtr maxSize : Nat) : Heap :=
  let maxSize := if maxSize % 4 ≠ 0 then maxSize - maxSize % 4 else maxSize
  let heapEnd := u32 (basePtr + maxSize)
  { mem := init mem basePtr heapEnd, heap := basePtr, heapEnd := heapEnd }

/-- The rounding at the top of `malloc`, in `size_t`. -/
def roundCount (count : Nat) : Nat :=
  if count % 4 ≠ 0 then u32 (count + (4 - count % 4)) else count

/-- The body of the loop of `malloc`: keep the first of the smallest free
    entries that are large enough. `found = 0` is `nullptr`. -/
def betterFit (m : Store) (count it found : Nat) : Nat :=
  if isFree m it && count ≤ size m it && (found = 0 || size m it < size m found) then it
  else found

def findFit : Nat → Store → Nat → Nat → Nat → Nat → Option Nat
  | 0, _, _, _, _, _ => none
  | fuel + 1, m, heapEnd, count, it, found =>
    if it = heapEnd then some found
    else findFit fuel m heapEnd count (next m it) (betterFit m count it found)

def malloc (fuel : Nat) (h : Heap) (count : UInt32) : Option (Nat × Heap) := do
  let count := roundCount count.toNat
  let found ← findFit fuel h.mem h.heapEnd count h.heap 0
  if found ≠ 0 then
    let (ptr, mem) := reserve h.mem found count
    return (ptr, { h with mem := mem })
  else
    return (0, h)

/-- The inner loop of `free`: walk to the first entry that can be merged with
    its successor and merge it. -/
def consolidatePass : Nat → Store → Nat → Nat → Option (Bool × Store)
  | 0, _, _, _ => none
  | fuel + 1, m, heapEnd, ent =>
    if next m ent = heapEnd then some (false, m)
    else
      match tryConsolidate m ent with
      | (true, m') => some (true, m')
      | (false, _) => consolidatePass fuel m heapEnd (next m ent)

/-- The outer loop of `free`: restart after each merge. -/
def consolidate (fuel : Nat) : Nat → Store → Nat → Nat → Option Store
  | 0, _, _, _ => none
  | rounds + 1, m, heap, heapEnd => do
    match ← consolidatePass fuel m heapEnd heap with
    | (true, m') => consolidate fuel rounds m' heap heapEnd
    | (false, m') => some m'

def free (fuel : Nat) (h : Heap) (ptr : Nat) : Option Heap :=
  if ptr = 0 then some h
  else do
    let mem := release h.mem (sub32 ptr sizeof)
    let mem ← consolidate fuel fuel mem h.heap h.heapEnd
    return { h with mem := mem }

end Hausboot
