import Mathlib.Data.List.Basic
import Mathlib.Data.Nat.Basic
import Mathlib.Tactic.Common
import Mathlib.Tactic.Ring

/-! # Byte Strings and Little-Endian Numbers

    Facts about lists of bytes that hold for any program that lays out
    fixed-width records in memory or on a disk:

    * `leNat` / `leBytes`: the little-endian codec at any width,
    * `slice` / `splice`: reading and overwriting a window of a byte string. -/

namespace ByteLib

abbrev Bytes : Type := List UInt8

/-! ## Section 1: Little-endian codec -/

/-- The number that a little-endian byte string spells. -/
def leNat : Bytes → Nat
  | [] => 0
  | b :: bs => b.toNat + 256 * leNat bs

/-- The `n` low bytes of `v`, least significant byte first. -/
def leBytes : Nat → Nat → Bytes
  | 0, _ => []
  | n + 1, v => UInt8.ofNat v :: leBytes n (v / 256)

@[simp] theorem leNat_nil : leNat [] = 0 := rfl

@[simp] theorem length_leBytes (n v : Nat) : (leBytes n v).length = n := by
  induction n generalizing v with
  | zero => rfl
  | succ n ih => simp [leBytes, ih]

theorem leNat_lt (bs : Bytes) : leNat bs < 256 ^ bs.length := by
  induction bs with
  | nil => simp
  | cons b bs ih =>
    have hb : b.toNat < 256 := b.toNat_lt
    simp only [leNat, List.length_cons, Nat.pow_succ]
    omega

/-- Decoding what was encoded gives the value back, up to the width. -/
theorem leNat_leBytes (n v : Nat) : leNat (leBytes n v) = v % 256 ^ n := by
  induction n generalizing v with
  | zero => simp [leBytes, Nat.mod_one]
  | succ n ih =>
    have hsplit : v % 256 ^ (n + 1) = v % 256 + 256 * (v / 256 % 256 ^ n) := by
      rw [Nat.pow_succ', Nat.mod_mul]
    simp only [leBytes, leNat, ih, hsplit, UInt8.toNat_ofNat']

theorem leNat_leBytes_of_lt {n v : Nat} (h : v < 256 ^ n) : leNat (leBytes n v) = v := by
  rw [leNat_leBytes, Nat.mod_eq_of_lt h]

/-- Or of parts that do not overlap. -/
theorem or_mul_of_lt {v k : Nat} (h : v < 2 ^ k) (b : Nat) : v ||| 2 ^ k * b = v + 2 ^ k * b := by
  rw [Nat.or_comm, ← Nat.two_pow_add_eq_or_of_lt h, Nat.add_comm]

/-- Encoding what was decoded gives the bytes back. -/
theorem leBytes_leNat (bs : Bytes) : leBytes bs.length (leNat bs) = bs := by
  induction bs with
  | nil => rfl
  | cons b bs ih =>
    have hb : b.toNat < 256 := b.toNat_lt
    have hdiv : (b.toNat + 256 * leNat bs) / 256 = leNat bs := by omega
    have hhead : UInt8.ofNat (b.toNat + 256 * leNat bs) = b := by
      apply UInt8.toNat_inj.mp
      rw [UInt8.toNat_ofNat']
      omega
    simp only [List.length_cons, leBytes, leNat, hdiv, hhead, ih]

/-! ## Section 2: Windows -/

/-- The `n` bytes of `bs` from `off` on. -/
def slice (bs : Bytes) (off n : Nat) : Bytes := (bs.drop off).take n

/-- `bs` with the bytes from `off` on overwritten by `d`. -/
def splice (bs : Bytes) (off : Nat) (d : Bytes) : Bytes :=
  bs.take off ++ d ++ bs.drop (off + d.length)

theorem length_slice (bs : Bytes) (off n : Nat) :
    (slice bs off n).length = min n (bs.length - off) := by
  simp [slice]

theorem length_splice {bs d : Bytes} {off : Nat} (h : off + d.length ≤ bs.length) :
    (splice bs off d).length = bs.length := by
  simp only [splice, List.length_append, List.length_take, List.length_drop]
  omega

/-- Reading the window that was just written. -/
theorem slice_splice_same {bs d : Bytes} {off : Nat} (h : off ≤ bs.length) :
    slice (splice bs off d) off d.length = d := by
  have hlen : (bs.take off).length = off := by simp [h]
  rw [slice, splice, List.append_assoc, List.drop_append_of_le_length (by omega)]
  simp [List.drop_eq_nil_of_le (Nat.le_of_eq hlen)]

/-- Reading a window in front of the written one. -/
theorem slice_splice_before {bs d : Bytes} {off o n : Nat} (h : off ≤ bs.length)
    (hon : o + n ≤ off) : slice (splice bs off d) o n = slice bs o n := by
  have hlen : (bs.take off).length = off := by simp [h]
  rw [slice, splice, List.append_assoc, List.drop_append_of_le_length (by omega),
    List.take_append_of_le_length (by simp; omega), slice, List.drop_take, List.take_take]
  congr 1
  omega

/-- Reading a window behind the written one. -/
theorem slice_splice_after {bs d : Bytes} {off o n : Nat} (h : off + d.length ≤ bs.length)
    (ho : off + d.length ≤ o) : slice (splice bs off d) o n = slice bs o n := by
  have hlen : (bs.take off ++ d).length = off + d.length := by simp; omega
  obtain ⟨k, rfl⟩ := Nat.exists_eq_add_of_le ho
  rw [slice, splice, List.drop_append, List.drop_eq_nil_of_le (by omega), hlen, List.drop_drop,
    List.nil_append, Nat.add_sub_cancel_left, slice]

/-! ## Section 3: Windows of longer strings -/

/-- Behind what was overwritten nothing changes. -/
theorem drop_splice {bs d : Bytes} {off n : Nat} (h : off + d.length ≤ bs.length)
    (hn : off + d.length ≤ n) : (splice bs off d).drop n = bs.drop n := by
  have hlen : (bs.take off ++ d).length = off + d.length := by
    rw [List.length_append, List.length_take]
    omega
  rw [splice, List.drop_append, List.drop_eq_nil_of_le (by omega), List.nil_append, hlen,
    List.drop_drop, Nat.add_sub_cancel' hn]

/-- Overwriting from the end of the first part on. -/
theorem splice_append (a b d : Bytes) :
    splice (a ++ b) a.length d = a ++ d ++ b.drop d.length := by
  rw [splice, List.take_left, List.drop_append, List.drop_eq_nil_of_le (Nat.le_add_right _ _),
    Nat.add_sub_cancel_left, List.nil_append]

/-- Overwriting a window of the first part. -/
theorem splice_front {a d : Bytes} {off : Nat} (b : Bytes) (h : off + d.length ≤ a.length) :
    splice (a ++ b) off d = splice a off d ++ b := by
  rw [splice, splice, List.take_append_of_le_length (by omega), List.drop_append_of_le_length h,
    List.append_assoc, List.append_assoc, List.append_assoc]

theorem slice_zero (bs : Bytes) (off : Nat) : slice bs off 0 = [] := by simp [slice]

/-- A window that starts behind the end is empty. -/
theorem slice_eq_nil {bs : Bytes} {off n : Nat} (h : bs.length ≤ off) : slice bs off n = [] := by
  simp [slice, List.drop_eq_nil_of_le h]

/-- A window of a prefix is the same window of the whole. -/
theorem slice_of_front {a bs : Bytes} {off n : Nat} (h : a <+: bs) (hn : off + n ≤ a.length) :
    slice bs off n = slice a off n := by
  obtain ⟨t, rfl⟩ := h
  rw [slice, slice, List.drop_append_of_le_length (by omega),
    List.take_append_of_le_length (by simp only [List.length_drop]; omega)]

/-- A window that starts in the first part may reach into the second. -/
theorem slice_append {a bs : Bytes} {off n : Nat} (h : off ≤ a.length) :
    slice (a ++ bs) off n = slice a off n ++ slice bs 0 (n - (a.length - off)) := by
  rw [slice, slice, slice, List.drop_append_of_le_length h, List.take_append, List.length_drop,
    List.drop_zero]

theorem slice_append_of_le {a bs : Bytes} {off n : Nat} (h : a.length ≤ off) :
    slice (a ++ bs) off n = slice bs (off - a.length) n := by
  rw [slice, slice, List.drop_append, List.drop_eq_nil_of_le h, List.nil_append]

/-- A window of a string that was cut short. -/
theorem slice_take (bs : Bytes) (off n k : Nat) :
    slice (bs.take k) off n = slice bs off (min n (k - off)) := by
  rw [slice, slice, List.drop_take, List.take_take]

/-- Two neighbouring windows make one. -/
theorem slice_add (bs : Bytes) (off m n : Nat) :
    slice bs off (m + n) = slice bs off m ++ slice bs (off + m) n := by
  rw [slice, slice, slice, List.take_add, List.drop_drop]

/-- A window as long as what it holds is the same window. -/
theorem slice_length_slice (bs : Bytes) (off n : Nat) :
    slice bs off (slice bs off n).length = slice bs off n := by
  rw [length_slice, slice, slice, List.take_eq_take_iff, List.length_drop]
  omega

theorem getD_slice {bs : Bytes} {off n i : Nat} (h : i < n) (d : UInt8) :
    (slice bs off n).getD i d = bs.getD (off + i) d := by
  simp [slice, List.getD_eq_getElem?_getD, h]

/-- A window of numbers that stand one behind the other. -/
theorem slice_flatMap_leBytes {vs : List Nat} (n : Nat) {i : Nat} (h : i < vs.length) :
    slice (vs.flatMap (leBytes n)) (n * i) n = leBytes n vs[i] := by
  induction vs generalizing i with
  | nil => exact absurd h (Nat.not_lt_zero _)
  | cons v vs ih =>
    have hlen := length_leBytes n v
    rw [List.flatMap_cons]
    cases i with
    | zero =>
      rw [Nat.mul_zero, slice, List.drop_zero, List.take_left' hlen, List.getElem_cons_zero]
    | succ i =>
      have hskip : n * (i + 1) - (leBytes n v).length = n * i := by
        rw [hlen, Nat.mul_succ, Nat.add_sub_cancel]
      rw [slice_append_of_le (by rw [hlen, Nat.mul_succ]; omega), hskip,
        ih (Nat.lt_of_succ_lt_succ h), List.getElem_cons_succ]

/-! ## Section 4: Pieces -/

/-- A byte string cut into pieces of these lengths, from the front. -/
def pieces : Bytes → List Nat → List Bytes
  | _, [] => []
  | d, n :: ns => d.take n :: pieces (d.drop n) ns

@[simp] theorem length_pieces (d : Bytes) (ns : List Nat) : (pieces d ns).length = ns.length := by
  induction ns generalizing d with
  | nil => rfl
  | cons n ns ih => rw [pieces, List.length_cons, ih, List.length_cons]

theorem flatten_pieces (d : Bytes) (ns : List Nat) : (pieces d ns).flatten = d.take ns.sum := by
  induction ns generalizing d with
  | nil => simp [pieces]
  | cons n ns ih => rw [pieces, List.flatten_cons, ih, List.sum_cons, List.take_add]

theorem take_pieces (d : Bytes) (ns : List Nat) (i : Nat) :
    (pieces d ns).take i = pieces d (ns.take i) := by
  induction ns generalizing d i with
  | nil => simp [pieces]
  | cons n ns ih =>
    cases i with
    | zero => rfl
    | succ i => rw [pieces, List.take_succ_cons, ih, List.take_succ_cons, pieces]

theorem getD_pieces (d : Bytes) (ns : List Nat) (i : Nat) :
    (pieces d ns).getD i [] = slice d (ns.take i).sum (ns.getD i 0) := by
  induction ns generalizing d i with
  | nil => simp [pieces, slice]
  | cons n ns ih =>
    cases i with
    | zero => simp [pieces, slice]
    | succ i =>
      rw [pieces, List.getD_cons_succ, ih, List.take_succ_cons, List.sum_cons,
        List.getD_cons_succ, slice, slice, List.drop_drop]

theorem sum_take_le (ns : List Nat) {i j : Nat} (h : i ≤ j) : (ns.take i).sum ≤ (ns.take j).sum := by
  obtain ⟨k, rfl⟩ := Nat.exists_eq_add_of_le h
  rw [List.take_add, List.sum_append]
  exact Nat.le_add_right _ _

/-- A piece is as long as asked for, unless the string ends with it. -/
theorem length_piece (d : Bytes) (ns : List Nat) (i : Nat) :
    ((pieces d ns).getD i []).length = ns.getD i 0 ∨ d.length < (ns.take (i + 1)).sum := by
  have hsum : (ns.take (i + 1)).sum = (ns.take i).sum + ns.getD i 0 := by
    rw [List.take_add, List.sum_append, List.getD_eq_getElem?_getD]
    congr 1
    cases hn : ns.drop i with
    | nil =>
      have hle := List.drop_eq_nil_iff.mp hn
      rw [List.getElem?_eq_none hle]
      rfl
    | cons n rest =>
      have hget : (ns.drop i)[0]? = some n := by rw [hn]; rfl
      rw [List.getElem?_drop, Nat.add_zero] at hget
      rw [hget]
      simp
  rw [getD_pieces, length_slice]
  omega

/-- Behind a piece that is too short there is nothing. -/
theorem piece_eq_nil {d : Bytes} {ns : List Nat} {i j : Nat} (hij : i < j)
    (hshort : ((pieces d ns).getD i []).length < ns.getD i 0) : (pieces d ns).getD j [] = [] := by
  have hend := (length_piece d ns i).resolve_left (Nat.ne_of_lt hshort)
  have hle := sum_take_le ns (show i + 1 ≤ j from hij)
  rw [getD_pieces]
  exact slice_eq_nil (by omega)

end ByteLib
