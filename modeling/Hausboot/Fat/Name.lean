import Mathlib.Data.List.TakeWhile
import Hausboot.Lib.Bytes

/-! # 8.3 Names

    `fs/FatName.h` and the string helpers that the code uses on names. A C
    string is the byte string in front of its terminator; `cstr` cuts a
    `std::string` or a character buffer down to the C string that
    `c_str()` shows. -/

open ByteLib

namespace Hausboot

/-- The bytes of a string literal. -/
def str (s : String) : Bytes := s.toList.map fun c => UInt8.ofNat c.toNat

/-- The C string at the start of a buffer. -/
def cstr (bs : Bytes) : Bytes := bs.takeWhile (· ≠ 0)

theorem cstr_cons_zero (cs : Bytes) : cstr (0 :: cs) = [] := rfl

theorem cstr_cons_ne {c : UInt8} {cs : Bytes} (h : c ≠ 0) : cstr (c :: cs) = c :: cstr cs := by
  rw [cstr, List.takeWhile_cons_of_pos (by simpa using h), cstr]

theorem cstr_of_notMem {bs : Bytes} (h : 0 ∉ bs) : cstr bs = bs := by
  apply List.takeWhile_eq_self_iff.mpr
  intro x hx
  have hne : x ≠ 0 := fun heq => h (heq ▸ hx)
  simpa using hne

theorem zero_notMem_cstr (bs : Bytes) : 0 ∉ cstr bs := by
  intro h
  have hne := List.mem_takeWhile_imp h
  cases hne

def isValidFatChar (c : UInt8) : Bool :=
  -- must be printable ASCII
  if c < 0x20 || c > 0x7E then false
  -- must be shouty case
  else if c ≥ 0x61 && c ≤ 0x7A then false
  -- must not be :;<=>?
  else if c ≥ 0x3A && c ≤ 0x3F then false
  -- `|`, `\`, `/`, `"` and `*`
  else if c = 0x7C || c = 0x5C || c = 0x2F || c = 0x22 || c = 0x2A then false
  -- `+`, `,`, `[` and `]`
  else if c = 0x2B || c = 0x2C || c = 0x5B || c = 0x5D then false
  else true

/-- The loop of `IsShortName` from index `i` on: refuses an invalid character
    and a second dot, and returns the position of the dot. -/
def scanShortName : Nat → Option Nat → Bytes → Option (Option Nat)
  | _, dotPos, [] => some dotPos
  | i, dotPos, c :: cs =>
    if !isValidFatChar c then none
    else if c = 0x2E then
      if dotPos.isSome then none else scanShortName (i + 1) (some i) cs
    else scanShortName (i + 1) dotPos cs

/-- `IsShortName` on the C string in `entry`. -/
def isShortName (entry : Bytes) : Bool :=
  let len := (cstr entry).length
  if len = 0 || len > 8 + 1 + 3 then false
  else
    match scanShortName 0 none (cstr entry) with
    | none => false
    | some none => len ≤ 8
    | some (some dotPos) =>
      if dotPos = 0 || dotPos = len - 1 then false
      else if dotPos > 8 || len - dotPos > 4 then false
      else true

end Hausboot
