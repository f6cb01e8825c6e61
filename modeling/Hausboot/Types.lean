import Mathlib.Data.Nat.Basic
import Mathlib.Data.Nat.Bitwise
import Mathlib.Tactic.Common

/-! # Fixed-Width Integers and Flag Fields

    The C++ code computes in `uint16_t`, `uint32_t` and `size_t`. Here such a
    value is a `Nat`, and every operation that can leave its range is followed
    by an explicit truncation. `FlagField` mirrors `types/FlagField.h`. -/

namespace Hausboot

/-- Conversion to `uint16_t`. -/
def u16 (n : Nat) : Nat := n % 2 ^ 16

/-- Conversion to `uint32_t`. -/
def u32 (n : Nat) : Nat := n % 2 ^ 32

/-- Subtraction of two `uint32_t` values. -/
def sub32 (a b : Nat) : Nat := (a + (2 ^ 32 - b % 2 ^ 32)) % 2 ^ 32

/-- Conversion to `int32_t`. -/
def i32 (n : Nat) : Int := Int.bmod n (2 ^ 32)

theorem u32_of_lt {n : Nat} (h : n < 2 ^ 32) : u32 n = n := Nat.mod_eq_of_lt h

theorem u32_lt (n : Nat) : u32 n < 2 ^ 32 := Nat.mod_lt _ (by decide)

theorem sub32_lt (a b : Nat) : sub32 a b < 2 ^ 32 := Nat.mod_lt _ (by decide)

theorem sub32_of_le {a b : Nat} (hba : b ≤ a) (ha : a < 2 ^ 32) : sub32 a b = a - b := by
  have hb : b % 2 ^ 32 = b := Nat.mod_eq_of_lt (by omega)
  rw [sub32, hb, show a + (2 ^ 32 - b) = (a - b) + 2 ^ 32 by omega, Nat.add_mod_right]
  exact Nat.mod_eq_of_lt (by omega)

theorem i32_of_lt {n : Nat} (h : n < 2 ^ 31) : i32 n = n := by
  unfold i32 Int.bmod
  rw [Int.emod_eq_of_lt (by omega) (by omega), if_pos (by omega)]

/-! ## FlagField -/

namespace FlagField

def isSet (value flag : Nat) : Bool := value &&& flag == flag

def set (value flag : Nat) : Nat := value ||| flag

/-- `value &= ~flag` in a field of `w` bits. -/
def clear (w value flag : Nat) : Nat := value &&& (2 ^ w - 1 - flag)

end FlagField

end Hausboot
