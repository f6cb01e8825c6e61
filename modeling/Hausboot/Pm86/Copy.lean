import Hausboot.Lib.Moves
import Hausboot.Stage2.Load

/-! # CopyMemory32 and ClearMemory32

    The loops of `lib/pm86/copy.cpp`, with pointers and counts of 32 bits. A
    copy goes upwards if the destination is below the source and downwards if
    it is above, so a byte is read before it is overwritten. The loader model
    has the two functions by their effect; this file shows that the loops have
    it. -/

open ByteLib

namespace Hausboot.Pm86

/-! ## Section 1: The loops -/

/-- `while (count--) *(d++) = *(s++);` -/
def copyUp : Nat → Nat → Nat → Store → Store
  | 0, _, _, m => m
  | count + 1, d, s, m => copyUp count (u32 (d + 1)) (u32 (s + 1)) (Function.update m d (m s))

/-- `while (count--) *(d--) = *(s--);` -/
def copyDown : Nat → Nat → Nat → Store → Store
  | 0, _, _, m => m
  | count + 1, d, s, m => copyDown count (sub32 d 1) (sub32 s 1) (Function.update m d (m s))

def copyMemory32 (m : Store) (dst src count : Nat) : Store :=
  if dst = src || count = 0 then m
  else if dst < src then copyUp count dst src m
  else copyDown count (sub32 (u32 (dst + count)) 1) (sub32 (u32 (src + count)) 1) m

/-- `while (size--) *(ptr++) = 0x00;` -/
def clearUp : Nat → Nat → Store → Store
  | 0, _, m => m
  | size + 1, ptr, m => clearUp size (u32 (ptr + 1)) (Function.update m ptr 0)

def clearMemory32 (m : Store) (dst size : Nat) : Store := clearUp size dst m

/-! ## Section 2: The loops as moves -/

theorem copyUp_eq (count : Nat) {d s : Nat} (hd : d < 2 ^ 32) (hs : s < 2 ^ 32) (m : Store) :
    copyUp count d s m =
      Moves.run m (Moves.counted count (fun i => u32 (d + i)) (fun i => u32 (s + i))) := by
  induction count generalizing d s m with
  | zero => rfl
  | succ count ih =>
    have hnext : ∀ x i : Nat, u32 (u32 (x + 1) + i) = u32 (x + (i + 1)) := fun x i => by
      unfold u32
      omega
    rw [copyUp, ih (u32_lt _) (u32_lt _), Moves.counted_succ, Moves.run]
    simp only [Nat.add_zero, u32_of_lt hd, u32_of_lt hs, hnext]

theorem copyDown_eq (count : Nat) {d s : Nat} (hd : d < 2 ^ 32) (hs : s < 2 ^ 32) (m : Store) :
    copyDown count d s m =
      Moves.run m (Moves.counted count (fun i => sub32 d i) (fun i => sub32 s i)) := by
  induction count generalizing d s m with
  | zero => rfl
  | succ count ih =>
    have hnext : ∀ x i : Nat, sub32 (sub32 x 1) i = sub32 x (i + 1) := fun x i => by
      unfold sub32
      omega
    have hzero : ∀ {x : Nat}, x < 2 ^ 32 → sub32 x 0 = x := fun hx => sub32_of_le (by omega) hx
    rw [copyDown, ih (sub32_lt _ _) (sub32_lt _ _), Moves.counted_succ, Moves.run]
    simp only [hzero hd, hzero hs, hnext]

/-- What both directions come to: targets and sources at the same distance
    from `dst` and `src`, in an order that reads before it writes. -/
theorem moved_of_counted {m : Store} {dst src count : Nat} {d s f : Nat → Nat}
    (hd : ∀ i < count, d i = dst + f i) (hs : ∀ i < count, s i = src + f i)
    (hf : ∀ i < count, f i < count) (hinv : ∀ i < count, f (f i) = i)
    (hsafe : ∀ i j, i < j → j < count → s j ≠ d i ∧ d j ≠ d i) :
    (∀ i < count, Moves.run m (Moves.counted count d s) (dst + i) = m (src + i)) ∧
    ∀ a, a < dst ∨ dst + count ≤ a → Moves.run m (Moves.counted count d s) a = m a := by
  constructor
  · intro i hi
    have hmoved := Moves.run_counted hsafe m (hf i hi)
    rwa [hd _ (hf i hi), hs _ (hf i hi), hinv i hi] at hmoved
  · intro a ha
    apply Moves.run_counted_frame
    intro i hi
    have hlt := hf i hi
    rw [hd i hi]
    omega

/-! ## Section 3: The effect -/

/-- **`CopyMemory32` moves**: for ranges that do not wrap around, overlapping
    or not, the destination holds what the source held before the call, and
    every other byte keeps its value. -/
theorem copyMemory32_moves (m : Store) (dst src count : Nat) (hdst : dst + count ≤ 2 ^ 32)
    (hsrc : src + count ≤ 2 ^ 32) :
    (∀ i < count, copyMemory32 m dst src count (dst + i) = m (src + i)) ∧
    ∀ a, a < dst ∨ dst + count ≤ a → copyMemory32 m dst src count a = m a := by
  unfold copyMemory32
  by_cases hnone : (dst = src || count = 0) = true
  · rw [if_pos hnone]
    simp only [Bool.or_eq_true, decide_eq_true_eq] at hnone
    constructor
    · intro i hi
      have heq : dst = src := by omega
      rw [heq]
    · intro a _
      rfl
  · rw [if_neg hnone]
    simp only [Bool.or_eq_true, decide_eq_true_eq] at hnone
    by_cases hlt : dst < src
    · -- upwards, byte `i` in round `i`
      rw [if_pos hlt, copyUp_eq count (by omega) (by omega)]
      have hd : ∀ i < count, u32 (dst + i) = dst + i := fun i hi => u32_of_lt (by omega)
      have hs : ∀ i < count, u32 (src + i) = src + i := fun i hi => u32_of_lt (by omega)
      apply moved_of_counted (f := fun i => i) hd hs (fun i hi => hi) (fun i _ => rfl)
      intro i j hij hj
      rw [hd i (by omega), hd j hj, hs j hj]
      omega
    · -- downwards, byte `count - 1 - i` in round `i`
      rw [if_neg hlt, copyDown_eq count (sub32_lt _ _) (sub32_lt _ _)]
      have hback : ∀ {x : Nat}, x + count ≤ 2 ^ 32 → ∀ i < count,
          sub32 (sub32 (u32 (x + count)) 1) i = x + (count - 1 - i) := fun hx i hi => by
        unfold sub32 u32
        omega
      have hd := hback hdst
      have hs := hback hsrc
      apply moved_of_counted (f := fun i => count - 1 - i) hd hs (fun i hi => by omega)
        (fun i hi => by omega)
      intro i j hij hj
      rw [hd i (by omega), hd j hj, hs j hj]
      omega

/-- A memory in which every byte is the low byte of its address. -/
def addressBytes : Store := fun a => UInt8.ofNat a

/-- A copy by one byte upwards, in the last bytes of memory. -/
theorem copyMemory32_moves_up_one :
    (∀ i < 3, copyMemory32 addressBytes (2 ^ 32 - 3) (2 ^ 32 - 4) 3 (2 ^ 32 - 3 + i) =
      addressBytes (2 ^ 32 - 4 + i)) ∧
    ∀ a, a < 2 ^ 32 - 3 ∨ 2 ^ 32 - 3 + 3 ≤ a →
      copyMemory32 addressBytes (2 ^ 32 - 3) (2 ^ 32 - 4) 3 a = addressBytes a :=
  copyMemory32_moves addressBytes (2 ^ 32 - 3) (2 ^ 32 - 4) 3 (by decide) (by decide)

/-- In the loader model, a copy writes the bytes that the source held. -/
theorem copyMemory32_eq_read (m : Store) {dst src count a : Nat} (hdst : dst + count ≤ 2 ^ 32)
    (hsrc : src + count ≤ 2 ^ 32) (hcount : count < 2 ^ 32) (ha : a < 2 ^ 32) :
    copyMemory32 m dst src count a = Hausboot.copyMemory32 m dst (m.read src count) a := by
  obtain ⟨hin, hout⟩ := copyMemory32_moves m dst src count hdst hsrc
  unfold Hausboot.copyMemory32
  rw [Store.length_read]
  by_cases hmem : dst ≤ a ∧ a < dst + count
  · obtain ⟨i, rfl⟩ := Nat.exists_eq_add_of_le hmem.1
    have hsub : sub32 (dst + i) dst = i := by
      rw [sub32_of_le (by omega) ha]
      omega
    rw [hin i (by omega), hsub, if_pos (by omega), List.getD_eq_getElem?_getD, Store.getElem?_read,
      if_pos (by omega), Option.getD_some]
  · have hsub : ¬sub32 a dst < count := by
      unfold sub32
      omega
    rw [hout a (by omega), if_neg hsub]

/-- `ClearMemory32` has its effect also where the range wraps around. -/
theorem clearMemory32_eq (m : Store) {dst size a : Nat} (hdst : dst < 2 ^ 32) (hsize : size < 2 ^ 32)
    (ha : a < 2 ^ 32) : clearMemory32 m dst size a = Hausboot.clearMemory32 m dst size a := by
  unfold clearMemory32
  induction size generalizing dst m with
  | zero => simp [clearUp, Hausboot.clearMemory32]
  | succ size ih =>
    rw [clearUp, ih _ (u32_lt _) (by omega)]
    unfold Hausboot.clearMemory32
    by_cases heq : a = dst
    · -- the byte of this round, which the rounds after it leave alone
      have hnow : sub32 a dst = 0 := by
        rw [heq, sub32_of_le (by omega) hdst, Nat.sub_self]
      have hlater : ¬sub32 a (u32 (dst + 1)) < size := by
        rw [sub32_add (by decide), hnow, if_neg (by decide)]
        omega
      rw [if_neg hlater, hnow, if_pos (by omega), heq, Function.update_self]
    · have hpos : 1 ≤ sub32 a dst := by
        unfold sub32
        omega
      rw [sub32_add (by decide), if_pos hpos, Function.update_of_ne heq]
      by_cases hin : sub32 a dst < size + 1
      · rw [if_pos hin, if_pos (by omega)]
      · rw [if_neg hin, if_neg (by omega)]

end Hausboot.Pm86
