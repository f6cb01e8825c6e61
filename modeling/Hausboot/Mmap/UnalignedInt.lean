import Hausboot.Mmap.Model
import Mathlib.Algebra.BigOperators.Ring.List

/-! # Unaligned Integers

    `types/UnalignedInt.h` at the three widths that the code uses. `Read`
    shifts a byte after its promotion to `int`, which has 32 bits: the fourth
    byte may become a negative number, and C++ leaves a shift by 32 or more
    undefined. `wide` is the `int` that the compiler's code has there.

    At 16 and 32 bits there is no such shift and the sign is cut off, so the
    codec is lossless. At 64 bits it is not, whatever `wide` is. -/

open ByteLib

namespace Hausboot

/-- The types that `UnalignedInt` is used with. -/
inductive Unsigned where
  | uint16
  | uint32
  | uint64
deriving DecidableEq

namespace Unsigned

/-- `sizeof(T)` -/
def sizeof : Unsigned → Nat
  | uint16 => 2
  | uint32 => 4
  | uint64 => 8

/-- Conversion from `int`. -/
def ofInt (T : Unsigned) (x : Int) : Nat := (x % 2 ^ (8 * T.sizeof)).toNat

end Unsigned

/-! ## Section 1: The code -/

namespace UnalignedInt

/-- `x << n` of a byte, in `int`. -/
def shift (wide : UInt8 → Nat → Int) (x : UInt8) (n : Nat) : Int :=
  if n < 32 then i32 (x.toNat <<< n) else wide x n

/-- The loop of `Read`, from byte `i` on. -/
def readLoop (wide : UInt8 → Nat → Int) (T : Unsigned) : Nat → Nat → Bytes → Nat
  | _, out, [] => out
  | i, out, x :: raw => readLoop wide T (i + 1) (out ||| T.ofInt (shift wide x (8 * i))) raw

def read (wide : UInt8 → Nat → Int) (T : Unsigned) (raw : Bytes) : Nat := readLoop wide T 0 0 raw

/-- The loop of `Set`, with `n` bytes left. -/
def setLoop : Nat → Nat → Bytes
  | 0, _ => []
  | n + 1, value => UInt8.ofNat (value &&& 0x0FF) :: setLoop n (value >>> 8)

def set (T : Unsigned) (value : Nat) : Bytes := setLoop T.sizeof value

/-- The sum of `raw[i] * 256 ^ i`. -/
def byteSum (raw : Bytes) : Nat :=
  ((List.range raw.length).map fun i => (raw.getD i 0).toNat * 256 ^ i).sum

/-- A little-endian codec that loses nothing. -/
structure Lossless (wide : UInt8 → Nat → Int) (T : Unsigned) : Prop where
  read_set : ∀ value < 2 ^ (8 * T.sizeof), read wide T (set T value) = value
  read_eq : ∀ raw : Bytes, raw.length = T.sizeof → read wide T raw = byteSum raw
  set_read : ∀ raw : Bytes, raw.length = T.sizeof → set T (read wide T raw) = raw

/-! ## Section 2: Writing -/

theorem setLoop_eq (n value : Nat) : setLoop n value = leBytes n value := by
  induction n generalizing value with
  | zero => rfl
  | succ n ih =>
    have hbyte : UInt8.ofNat (value &&& 0x0FF) = UInt8.ofNat value := by
      apply UInt8.toNat_inj.mp
      rw [show (0x0FF : Nat) = 2 ^ 8 - 1 from rfl, Nat.and_two_pow_sub_one_eq_mod,
        UInt8.toNat_ofNat', UInt8.toNat_ofNat', Nat.mod_mod]
    rw [setLoop, ih, hbyte, Nat.shiftRight_eq_div_pow]
    rfl

theorem byteSum_eq (raw : Bytes) : byteSum raw = leNat raw := by
  induction raw with
  | nil => rfl
  | cons x raw ih =>
    rw [leNat, ← ih, byteSum, byteSum, List.length_cons, List.range_succ_eq_map, List.map_cons,
      List.sum_cons, List.map_map, ← List.sum_map_mul_left]
    congr 1
    · simp
    · congr 1
      apply List.map_congr_left
      intro i _
      simp only [Function.comp_apply, List.getD_cons_succ, Nat.succ_eq_add_one]
      ring

/-! ## Section 3: Reading -/

variable {wide : UInt8 → Nat → Int} {T : Unsigned}

/-- The residues of a number and of what it wraps around to. -/
theorem bmod_emod_of_dvd {m k : Nat} (h : k ∣ m) (n : Nat) :
    Int.bmod n m % (k : Int) = ((n % k : Nat) : Int) := by
  have hdvd : (k : Int) ∣ (m : Int) := Int.natCast_dvd_natCast.mpr h
  rw [← Int.emod_emod_of_dvd _ hdvd, Int.bmod_emod, Int.emod_emod_of_dvd _ hdvd, Int.natCast_mod]

/-- Conversion from `int` to a type that is not wider cuts off the sign. -/
theorem ofInt_i32 (hT : T ≠ .uint64) {n : Nat} (hn : n < 2 ^ (8 * T.sizeof)) :
    T.ofInt (i32 n) = n := by
  have hbits : 8 * T.sizeof ≤ 32 := by
    cases T with
    | uint16 => decide
    | uint32 => decide
    | uint64 => exact absurd rfl hT
  have hmod : i32 n % ((2 ^ (8 * T.sizeof) : Nat) : Int) = ((n % 2 ^ (8 * T.sizeof) : Nat) : Int) :=
    bmod_emod_of_dvd (Nat.pow_dvd_pow 2 hbits) n
  rw [Nat.mod_eq_of_lt hn, Nat.cast_pow, Nat.cast_ofNat] at hmod
  rw [Unsigned.ofInt, hmod, Int.toNat_natCast]

/-- A byte that stays inside the type keeps its value. -/
theorem ofInt_shift (x : UInt8) {i : Nat} (hi : i < T.sizeof) (hT : T ≠ .uint64) :
    T.ofInt (shift wide x (8 * i)) = x.toNat * 2 ^ (8 * i) := by
  have hx : x.toNat < 2 ^ 8 := x.toNat_lt
  have hn : 8 * i < 32 := by
    cases T with
    | uint16 => exact Nat.lt_of_lt_of_le (Nat.mul_lt_mul_of_pos_left hi (by decide)) (by decide)
    | uint32 => exact Nat.mul_lt_mul_of_pos_left hi (by decide)
    | uint64 => exact absurd rfl hT
  have hlt : x.toNat * 2 ^ (8 * i) < 2 ^ (8 * T.sizeof) := by
    calc x.toNat * 2 ^ (8 * i) < 2 ^ 8 * 2 ^ (8 * i) :=
          Nat.mul_lt_mul_of_pos_right hx (Nat.two_pow_pos _)
      _ = 2 ^ (8 + 8 * i) := (Nat.pow_add ..).symm
      _ ≤ 2 ^ (8 * T.sizeof) := Nat.pow_le_pow_right (by decide) (by omega)
  rw [shift, if_pos hn, Nat.shiftLeft_eq]
  exact ofInt_i32 hT hlt

/-- Up to 32 bits, the loop adds the rest of the number. -/
theorem readLoop_eq (hT : T ≠ .uint64) (raw : Bytes) {i out : Nat}
    (hlen : i + raw.length ≤ T.sizeof) (hout : out < 2 ^ (8 * i)) :
    readLoop wide T i out raw = out + 2 ^ (8 * i) * leNat raw := by
  induction raw generalizing i out with
  | nil => rw [readLoop, leNat, Nat.mul_zero, Nat.add_zero]
  | cons x raw ih =>
    have hx : x.toNat < 2 ^ 8 := x.toNat_lt
    rw [List.length_cons] at hlen
    have hor : out ||| T.ofInt (shift wide x (8 * i)) = out + 2 ^ (8 * i) * x.toNat := by
      rw [ofInt_shift x (by omega) hT, Nat.mul_comm, or_mul_of_lt hout]
    have hnext : 2 ^ (8 * (i + 1)) = 2 ^ (8 * i) * 256 := by
      rw [show 8 * (i + 1) = 8 * i + 8 by ring, Nat.pow_add]
    have hout' : out + 2 ^ (8 * i) * x.toNat < 2 ^ (8 * (i + 1)) := by
      rw [hnext]
      calc out + 2 ^ (8 * i) * x.toNat < 2 ^ (8 * i) * (x.toNat + 1) := by
            rw [Nat.mul_succ]
            omega
        _ ≤ 2 ^ (8 * i) * 256 := Nat.mul_le_mul_left _ (by omega)
    rw [readLoop, hor, ih (by omega) hout', hnext, leNat]
    ring

theorem read_eq_leNat (hT : T ≠ .uint64) {raw : Bytes} (hlen : raw.length = T.sizeof) :
    read wide T raw = leNat raw := by
  rw [read, readLoop_eq hT raw (by omega) (by decide)]
  simp

/-- What was set once stays set. -/
theorem le_readLoop (raw : Bytes) (i out : Nat) : out ≤ readLoop wide T i out raw := by
  induction raw generalizing i out with
  | nil => exact Nat.le_refl _
  | cons x raw ih => exact Nat.left_le_or.trans (ih _ _)

/-- At 16 and 32 bits the codec is lossless. -/
theorem lossless_narrow (hT : T ≠ .uint64) : Lossless wide T where
  read_set value hvalue := by
    have hlen : (set T value).length = T.sizeof := by rw [set, setLoop_eq, length_leBytes]
    rw [read_eq_leNat hT hlen, set, setLoop_eq, leNat_leBytes_of_lt]
    rwa [show (256 : Nat) = 2 ^ 8 from rfl, ← Nat.pow_mul]
  read_eq raw hlen := by rw [read_eq_leNat hT hlen, byteSum_eq]
  set_read raw hlen := by rw [read_eq_leNat hT hlen, set, setLoop_eq, ← hlen, leBytes_leNat]

/-! ## Section 4: 64 bits -/

theorem readLoop_append (raw raw' : Bytes) (i out : Nat) :
    readLoop wide T i out (raw ++ raw') =
      readLoop wide T (i + raw.length) (readLoop wide T i out raw) raw' := by
  induction raw generalizing i out with
  | nil => rfl
  | cons x raw ih =>
    rw [List.cons_append, readLoop, ih, readLoop, List.length_cons, Nat.add_right_comm,
      Nat.add_assoc]

theorem readLoop_lt {out : Nat} (hout : out < 2 ^ (8 * T.sizeof)) (raw : Bytes) (i : Nat) :
    readLoop wide T i out raw < 2 ^ (8 * T.sizeof) := by
  have hconv : ∀ x, T.ofInt x < 2 ^ (8 * T.sizeof) := by
    intro x
    have hpos : (0 : Int) < 2 ^ (8 * T.sizeof) := Int.pow_pos (by decide)
    rw [Unsigned.ofInt, Int.toNat_lt (Int.emod_nonneg _ hpos.ne')]
    push_cast
    exact Int.emod_lt_of_pos _ hpos
  induction raw generalizing i out with
  | nil => exact hout
  | cons x raw ih => exact ih (Nat.or_lt_two_pow hout (hconv _)) _

/-- The first four bytes are shifted by less than 32. -/
theorem readLoop_four (wide' : UInt8 → Nat → Int) (raw : Bytes) {i : Nat} (out : Nat)
    (h : i + raw.length ≤ 4) : readLoop wide T i out raw = readLoop wide' T i out raw := by
  induction raw generalizing i out with
  | nil => rfl
  | cons x raw ih =>
    rw [List.length_cons] at h
    have hshift : shift wide x (8 * i) = shift wide' x (8 * i) := by
      rw [shift, shift, if_pos (by omega), if_pos (by omega)]
    rw [readLoop, readLoop, hshift]
    exact ih _ (by omega)

/-- Bit 31 of a 64-bit integer, on its own. -/
def bit31 : Bytes := [0, 0, 0, 0x80] ++ [0, 0, 0, 0]

/-- The fourth byte becomes `-2 ^ 31`, whose conversion sets the 32 bits above. -/
theorem le_read_bit31 : 0xFFFFFFFF80000000 ≤ read wide .uint64 bit31 := by
  have hfourth : readLoop wide .uint64 0 0 [0, 0, 0, 0x80] = 0xFFFFFFFF80000000 := by
    rw [readLoop_four (fun _ _ => 0) _ _ (by decide)]
    decide
  rw [read, bit31, readLoop_append, hfourth]
  exact le_readLoop _ _ _

theorem not_lossless_wide : ¬ Lossless wide .uint64 := by
  intro h
  have hread := h.read_eq bit31 rfl
  have hbig : 0xFFFFFFFF80000000 ≤ read wide .uint64 bit31 := le_read_bit31
  have hsum : byteSum bit31 = 0x80000000 := by decide
  omega

/-- The largest 64-bit integer is read back from its bytes: every bit is set
    after four of them. -/
theorem read_ones : read wide .uint64 (List.replicate 8 0xFF) = 2 ^ 64 - 1 := by
  have hfourth : readLoop wide .uint64 0 0 (List.replicate 4 0xFF) = 2 ^ 64 - 1 := by
    rw [readLoop_four (fun _ _ => 0) _ _ (by decide)]
    decide
  have hle : 2 ^ 64 - 1 ≤ readLoop wide .uint64 4 (2 ^ 64 - 1) (List.replicate 4 0xFF) :=
    le_readLoop _ _ _
  have hlt : readLoop wide .uint64 4 (2 ^ 64 - 1) (List.replicate 4 0xFF) < 2 ^ 64 :=
    readLoop_lt (by decide) _ _
  rw [read, show List.replicate 8 (0xFF : UInt8) = List.replicate 4 0xFF ++ List.replicate 4 0xFF
    from rfl, readLoop_append, hfourth]
  exact Nat.le_antisymm (Nat.le_sub_one_of_lt hlt) hle

/-- With `-1` for a shift by 32, every bit is set. -/
theorem read_minus_one {raw : Bytes} (hlen : raw.length = 8) :
    read (fun _ _ => -1) .uint64 raw = 2 ^ 64 - 1 := by
  have hlt : read (fun _ _ => -1) .uint64 raw < 2 ^ 64 := readLoop_lt (by decide) raw 0
  refine Nat.le_antisymm (Nat.le_sub_one_of_lt hlt) ?_
  rw [read, ← List.take_append_drop 4 raw, readLoop_append, List.length_take]
  cases hrest : raw.drop 4 with
  | nil =>
    have := congrArg List.length hrest
    rw [List.length_drop, List.length_nil] at this
    omega
  | cons x rest =>
    have hones : Unsigned.ofInt .uint64 (shift (fun _ _ => -1) x 32) = 2 ^ 64 - 1 := rfl
    rw [show 0 + min 4 raw.length = 4 by omega, readLoop]
    refine Nat.le_trans ?_ (le_readLoop _ _ _)
    rw [show 8 * 4 = 32 from rfl, hones]
    exact Nat.right_le_or

/-- **The codec** is lossless exactly at 16 and 32 bits, whatever the shifts by
    32 and more give. Of the 64-bit integers, only the largest one is read back
    whatever they give. -/
theorem lossless_iff (T : Unsigned) :
    (∀ wide, Lossless wide T ↔ T ≠ .uint64) ∧
    (∀ raw, raw.length = T.sizeof →
      ((∀ wide, read wide T raw = byteSum raw) ↔
        T ≠ .uint64 ∨ raw = List.replicate 8 0xFF)) := by
  constructor
  · intro wide
    constructor
    · intro h hT
      rw [hT] at h
      exact not_lossless_wide h
    · exact lossless_narrow
  · intro raw hlen
    constructor
    · intro h
      by_cases hT : T = .uint64
      · right
        rw [hT] at hlen h
        -- a processor that answers -1 forces every byte to be 0xFF
        have hread := h fun _ _ => -1
        rw [read_minus_one hlen, byteSum_eq] at hread
        rw [← leBytes_leNat raw, hlen, ← hread]
        rfl
      · exact .inl hT
    · intro h wide
      by_cases hT : T = .uint64
      · obtain rfl := h.resolve_left (not_not.mpr hT)
        rw [hT, read_ones]
        decide
      · exact (lossless_narrow hT).read_eq raw hlen

/-- A processor that takes the count of a shift modulo 32. -/
def maskedShift (x : UInt8) (n : Nat) : Int := i32 (x.toNat <<< (n % 32))

/-- An entry of the memory map from 2 GiB on: its base address is read as one
    at the end of the address space. -/
theorem baseAddress_high :
    Mmap.MemoryMapEntry.baseAddress (read maskedShift .uint64)
      ⟨bit31 ++ set .uint64 0x100000 ++ set .uint32 1⟩ = 0xFFFFFFFF80000000 ∧
    byteSum bit31 = 0x80000000 ∧ set .uint64 0x80000000 = bit31 ∧
    read maskedShift .uint64 (set .uint64 0x80000000) ≠ 0x80000000 ∧
    ¬ Lossless maskedShift .uint64 :=
  ⟨by decide, by decide, by decide, by decide, not_lossless_wide⟩

end UnalignedInt

end Hausboot
