import Hausboot.Lib.Bytes
import Mathlib.Algebra.BigOperators.Group.Finset.Basic

/-! # Sums of Little-Endian Words

    The sum of the `k`-byte little-endian words of a byte string is a sum over
    its bytes, each with the weight of its place in a word. So it is additive,
    and bytes can be exchanged without regard to word boundaries.

    It is also the sum of the words, and writing one word changes it by the
    difference of the two values. -/

namespace ByteLib

/-- The sum of the bytes of `bs`, the first of which stands at place `i`. -/
def placeSum (k : Nat) : Nat → Bytes → Nat
  | _, [] => 0
  | i, b :: bs => b.toNat * 256 ^ (i % k) + placeSum k (i + 1) bs

variable {k : Nat}

theorem placeSum_append (i : Nat) (a b : Bytes) :
    placeSum k i (a ++ b) = placeSum k i a + placeSum k (i + a.length) b := by
  induction a generalizing i with
  | nil => simp [placeSum]
  | cons x a ih =>
    rw [List.cons_append, placeSum, placeSum, ih, List.length_cons]
    have hplace : i + 1 + a.length = i + (a.length + 1) := by omega
    rw [hplace]
    ring

theorem placeSum_zeros (i n : Nat) : placeSum k i (List.replicate n 0) = 0 := by
  induction n generalizing i with
  | zero => rfl
  | succ n ih =>
    rw [List.replicate_succ, placeSum, ih]
    simp

/-- A part of a word is a number. -/
theorem placeSum_word {i : Nat} {bs : Bytes} (h : i % k + bs.length ≤ k) :
    placeSum k i bs = 256 ^ (i % k) * leNat bs := by
  induction bs generalizing i with
  | nil => simp [placeSum]
  | cons b bs ih =>
    rw [List.length_cons] at h
    rw [placeSum, leNat]
    cases bs with
    | nil => simp [placeSum, Nat.mul_comm]
    | cons c cs =>
      have hnext : (i + 1) % k = i % k + 1 := by
        rw [List.length_cons] at h
        rw [Nat.add_mod, Nat.mod_eq_of_lt (show 1 < k by omega), Nat.mod_eq_of_lt (by omega)]
      rw [ih (by rw [hnext]; omega), hnext]
      ring

/-! ## Section 2: Words -/

/-- The `i`th word of 32 bits. -/
def word (bs : Bytes) (i : Nat) : Nat := leNat (slice bs (4 * i) 4)

def setWord (bs : Bytes) (i v : Nat) : Bytes := splice bs (4 * i) (leBytes 4 v)

/-- The sum of the first `n` words. -/
def wordSum (bs : Bytes) (n : Nat) : Nat := ∑ i ∈ Finset.range n, word bs i

variable {bs : Bytes} {i j n v : Nat}

theorem word_lt (bs : Bytes) (i : Nat) : word bs i < 2 ^ 32 := by
  have hlt := leNat_lt (slice bs (4 * i) 4)
  have hle : 256 ^ (slice bs (4 * i) 4).length ≤ 256 ^ 4 :=
    Nat.pow_le_pow_right (by decide) (by rw [length_slice]; omega)
  exact Nat.lt_of_lt_of_le hlt hle

theorem word_setWord_same (hi : 4 * i + 4 ≤ bs.length) (hv : v < 2 ^ 32) :
    word (setWord bs i v) i = v := by
  have hsame := @slice_splice_same bs (leBytes 4 v) (4 * i) (by omega)
  rw [length_leBytes] at hsame
  rw [word, setWord, hsame, leNat_leBytes_of_lt hv]

/-- Writing a word changes no window apart from it. -/
theorem slice_setWord (hi : 4 * i + 4 ≤ bs.length) {o k : Nat}
    (ho : o + k ≤ 4 * i ∨ 4 * i + 4 ≤ o) : slice (setWord bs i v) o k = slice bs o k := by
  rcases ho with ho | ho
  · exact slice_splice_before (by omega) ho
  · exact slice_splice_after (by rw [length_leBytes]; omega) (by rw [length_leBytes]; omega)

theorem word_setWord_ne (hi : 4 * i + 4 ≤ bs.length) (hne : j ≠ i) :
    word (setWord bs i v) j = word bs j := by
  rw [word, slice_setWord hi (by omega), word]

theorem length_setWord (hi : 4 * i + 4 ≤ bs.length) : (setWord bs i v).length = bs.length :=
  length_splice (by rw [length_leBytes]; omega)

/-- The old word goes out of the sum, and the new one comes in. -/
theorem wordSum_setWord (hi : i < n) (hn : 4 * n ≤ bs.length) (hv : v < 2 ^ 32) :
    wordSum (setWord bs i v) n + word bs i = wordSum bs n + v := by
  have hword : 4 * i + 4 ≤ bs.length := by omega
  have hmem : i ∈ Finset.range n := Finset.mem_range.mpr hi
  have hrest : ∑ j ∈ (Finset.range n).erase i, word (setWord bs i v) j =
      ∑ j ∈ (Finset.range n).erase i, word bs j := by
    apply Finset.sum_congr rfl
    intro j hj
    exact word_setWord_ne hword (Finset.ne_of_mem_erase hj)
  have hnew := Finset.add_sum_erase (Finset.range n) (word (setWord bs i v)) hmem
  have hold := Finset.add_sum_erase (Finset.range n) (word bs) hmem
  rw [hrest, word_setWord_same hword hv] at hnew
  simp only [wordSum]
  omega

/-- One changed word changes the sum, also modulo the word size. -/
theorem wordSum_setWord_ne (hi : i < n) (hn : 4 * n ≤ bs.length) (hv : v < 2 ^ 32)
    (hne : v ≠ word bs i) (hzero : wordSum bs n % 2 ^ 32 = 0) :
    wordSum (setWord bs i v) n % 2 ^ 32 ≠ 0 := by
  have hsum := wordSum_setWord hi hn hv
  have hlt := word_lt bs i
  omega

end ByteLib
