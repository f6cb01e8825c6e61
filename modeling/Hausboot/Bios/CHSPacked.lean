import Hausboot.Types

/-! # Packed Sector Addresses

    `part/CHSPacked.h`: a head, a sector of 6 bits and a cylinder of 10 bits in
    three bytes. What does not fit is cut off without a word. -/

namespace Hausboot

/-- `part/CHSPacked.h` -/
structure CHSPacked where
  lo : UInt8
  mid : UInt8
  hi : UInt8

namespace CHSPacked

/-- `CHSPacked()` -/
def zero : CHSPacked := ⟨0, 0, 0⟩

def head (c : CHSPacked) : Nat := c.lo.toNat

def setHead (c : CHSPacked) (value : Nat) : CHSPacked := { c with lo := UInt8.ofNat value }

def sector (c : CHSPacked) : Nat := c.mid.toNat &&& 0x3F

def setSector (c : CHSPacked) (value : Nat) : CHSPacked :=
  { c with mid := UInt8.ofNat ((c.mid.toNat &&& 0xC0) ||| (value &&& 0x3F)) }

def cylinder (c : CHSPacked) : Nat := ((c.mid.toNat &&& 0xC0) <<< 2) ||| c.hi.toNat

def setCylinder (c : CHSPacked) (value : Nat) : CHSPacked :=
  { c with
    mid := UInt8.ofNat ((c.mid.toNat &&& 0x3F) ||| ((value >>> 2) &&& 0xC0))
    hi := UInt8.ofNat (value &&& 0xFF) }

/-! ## Masks -/

/-- Two bits, kept in their place. -/
theorem and_two_bits (x k : Nat) : x &&& (3 * 2 ^ k) = x / 2 ^ k % 4 * 2 ^ k := by
  have hpos : 0 < 2 ^ k := Nat.two_pow_pos k
  have hdiv : (x &&& (3 * 2 ^ k)) / 2 ^ k = x / 2 ^ k % 4 := by
    rw [Nat.and_div_two_pow, Nat.mul_div_cancel _ hpos]
    exact Nat.and_two_pow_sub_one_eq_mod _ 2
  have hmod : (x &&& (3 * 2 ^ k)) % 2 ^ k = 0 := by
    rw [Nat.and_mod_two_pow, Nat.mul_mod_left, Nat.and_zero]
  rw [← hdiv, Nat.div_mul_cancel (Nat.dvd_of_mod_eq_zero hmod)]

theorem and_C0 (x : Nat) : x &&& 0xC0 = x / 64 % 4 * 64 := and_two_bits x 6

theorem and_3F (x : Nat) : x &&& 0x3F = x % 64 := Nat.and_two_pow_sub_one_eq_mod x 6

theorem and_FF (x : Nat) : x &&& 0xFF = x % 256 := Nat.and_two_pow_sub_one_eq_mod x 8

/-- Or of parts that do not overlap. -/
theorem mul_or_of_lt {a b k : Nat} (h : b < 2 ^ k) : a * 2 ^ k ||| b = a * 2 ^ k + b := by
  rw [Nat.mul_comm]
  exact (Nat.two_pow_add_eq_or_of_lt h a).symm

/-! ## Reading what was written -/

section Fields

variable (c : CHSPacked) (value : Nat)

theorem mid_setSector : (c.setSector value).mid.toNat = c.mid.toNat / 64 * 64 + value % 64 := by
  have hmid : c.mid.toNat < 256 := c.mid.toNat_lt
  have hor : c.mid.toNat / 64 % 4 * 2 ^ 6 ||| value % 64 =
      c.mid.toNat / 64 % 4 * 2 ^ 6 + value % 64 := mul_or_of_lt (by omega)
  simp only [setSector, UInt8.toNat_ofNat', and_C0, and_3F]
  rw [show (64 : Nat) = 2 ^ 6 from rfl] at hor ⊢
  rw [hor]
  omega

theorem mid_setCylinder :
    (c.setCylinder value).mid.toNat = value / 256 % 4 * 64 + c.mid.toNat % 64 := by
  have hor : value / 256 % 4 * 2 ^ 6 ||| c.mid.toNat % 64 =
      value / 256 % 4 * 2 ^ 6 + c.mid.toNat % 64 := mul_or_of_lt (by omega)
  have hshift : value >>> 2 / 64 % 4 = value / 256 % 4 := by
    rw [Nat.shiftRight_eq_div_pow]
    omega
  simp only [setCylinder, UInt8.toNat_ofNat', and_C0, and_3F]
  rw [hshift, Nat.or_comm, show value / 256 % 4 * 64 = value / 256 % 4 * 2 ^ 6 from rfl, hor]
  omega

theorem cylinder_eq : c.cylinder = c.mid.toNat / 64 * 256 + c.hi.toNat := by
  have hmid : c.mid.toNat < 256 := c.mid.toNat_lt
  have hhi : c.hi.toNat < 2 ^ 8 := c.hi.toNat_lt
  rw [cylinder, and_C0, Nat.shiftLeft_eq, Nat.mul_assoc]
  rw [show 64 * 2 ^ 2 = 2 ^ 8 from rfl, mul_or_of_lt hhi]
  omega

/-- The cylinder field keeps ten bits. -/
theorem cylinder_setCylinder : (c.setCylinder value).cylinder = value % 1024 := by
  have hmod : c.mid.toNat % 64 < 64 := Nat.mod_lt _ (by decide)
  rw [cylinder_eq, mid_setCylinder, setCylinder, UInt8.toNat_ofNat', and_FF]
  omega

theorem sector_setSector : (c.setSector value).sector = value % 64 := by
  rw [sector, and_3F, mid_setSector]
  omega

theorem cylinder_setSector : (c.setSector value).cylinder = c.cylinder := by
  have hhi : (c.setSector value).hi = c.hi := rfl
  rw [cylinder_eq, cylinder_eq, mid_setSector, hhi]
  omega

theorem head_setHead : (c.setHead value).head = value % 256 := UInt8.toNat_ofNat'

theorem cylinder_setHead : (c.setHead value).cylinder = c.cylinder := rfl

theorem head_setSector : (c.setSector value).head = c.head := rfl

end Fields

end CHSPacked

end Hausboot
