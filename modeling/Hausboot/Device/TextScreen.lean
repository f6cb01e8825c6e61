import Hausboot.Lib.Bytes
import Hausboot.Lib.Decimal

/-! # TextScreen: Numbers

    The number output of `device/TextScreen.h`. `WriteDecimal` and `WriteHex`
    fill a local buffer from its end downwards and print the C string that they
    made; a store outside the buffer is undefined behaviour, and shows as
    `none`. The driver is a parameter: all that is used of it is `PutChar`.

    The buffer of `WriteHex` has its size from the type of the number. The one
    of `WriteDecimal` has ten bytes, one too few for ten digits and the
    terminator. -/

open ByteLib

namespace Hausboot.TextScreen

/-! ## Section 1: The code -/

/-- `char buffer[n]` -/
structure Buffer (n : Nat) where
  bytes : Bytes
  length_eq : bytes.length = n

/-- `*ptr = c`, with the pointer as a distance from the start of the buffer. -/
def Buffer.store {n : Nat} (b : Buffer n) (ptr : Int) (c : UInt8) : Option (Buffer n) :=
  if 0 ≤ ptr ∧ ptr < n then
    some ⟨b.bytes.set ptr.toNat c, by rw [List.length_set, b.length_eq]⟩
  else none

section Code

variable {D : Type} (putChar : D → UInt8 → D)

/-- `operator<<` of a C string. There has to be a terminator. -/
def putString (screen : D) : Bytes → Option D
  | [] => none
  | c :: cs => if c = 0 then some screen else putString (putChar screen c) cs

/-- The digit loop of `WriteDecimal`. -/
def decimalLoop {n : Nat} (x : UInt32) (ptr : Int) (b : Buffer n) : Option (Int × Buffer n) :=
  if x > 0 then do
    let b ← b.store ptr (x % 10 + 0x30).toUInt8
    decimalLoop (x / 10) (ptr - 1) b
  else some (ptr, b)
termination_by x.toNat
decreasing_by
  rename_i h
  have hpos : 0 < x.toNat := UInt32.lt_iff_toNat_lt.mp h
  rw [UInt32.toNat_div]
  exact Nat.div_lt_self hpos (by decide)

/-- `WriteDecimal`, which is also `operator<<(uint32_t)`. What is in the buffer
    at first does not matter. -/
def writeDecimal (buffer : Buffer 10) (screen : D) (x : UInt32) : Option D :=
  if x > 0 then do
    let ptr : Int := 10 - 1
    let buffer ← buffer.store ptr 0
    let (ptr, buffer) ← decimalLoop x (ptr - 1) buffer
    putString putChar screen (buffer.bytes.drop (ptr + 1).toNat)
  else some (putChar screen 0x30)

/-- `operator<<(int32_t)`. The negation wraps around. -/
def writeInt32 (buffer : Buffer 10) (screen : D) (x : Int32) : Option D :=
  if x < 0 then writeDecimal putChar buffer (putChar screen 0x2D) (-x).toUInt32
  else writeDecimal putChar buffer screen x.toUInt32

def hexDigit (digit : UInt64) : UInt8 :=
  if digit < 10 then (digit + 0x30).toUInt8 else (digit - 10 + 0x41).toUInt8

/-- The loop of `WriteHex`, with so many rounds to go. -/
def hexLoop {n : Nat} : Nat → UInt64 → Int → Buffer n → Option (Int × Buffer n)
  | 0, _, ptr, b => some (ptr, b)
  | rounds + 1, x, ptr, b => do
    let b ← b.store ptr (hexDigit (x &&& 0x0F))
    hexLoop rounds (x >>> 4) (ptr - 1) b

/-- `WriteHex`, with a buffer of `sizeof(x) * 2 + 1` bytes. -/
def writeHex (buffer : Buffer 17) (screen : D) (x : UInt64) : Option D := do
  let ptr : Int := 17 - 1
  let buffer ← buffer.store ptr 0
  let (ptr, buffer) ← hexLoop 16 x (ptr - 1) buffer
  putString putChar screen (buffer.bytes.drop (ptr + 1).toNat)

/-- `operator<<(void *)` -/
def writePointer (buffer : Buffer 17) (screen : D) (ptr : UInt32) : Option D :=
  writeHex putChar buffer screen ptr.toUInt64

end Code

/-! ## Section 2: The buffer -/

/-- The last byte, which takes the terminator, and what is in front of it. -/
theorem Buffer.exists_last {n : Nat} (b : Buffer (n + 1)) :
    ∃ pre y, pre.length = n ∧ b.bytes = pre ++ y :: [] := by
  have hlen := b.length_eq
  have hne : b.bytes ≠ [] := List.ne_nil_of_length_pos (by omega)
  refine ⟨b.bytes.dropLast, b.bytes.getLast hne, ?_, ?_⟩
  · rw [List.length_dropLast, hlen, Nat.add_sub_cancel]
  · exact (List.dropLast_append_getLast hne).symm

theorem store_append {n : Nat} {b : Buffer n} {pre tail : Bytes} {y : UInt8}
    (h : b.bytes = pre ++ y :: tail) (c : UInt8) :
    ∃ b' : Buffer n, b.store pre.length c = some b' ∧ b'.bytes = pre ++ c :: tail := by
  have hlen := b.length_eq
  rw [h, List.length_append, List.length_cons] at hlen
  refine ⟨_, if_pos (by omega), ?_⟩
  show b.bytes.set (Int.toNat pre.length) c = _
  rw [h, Int.toNat_natCast, List.set_append_right _ _ (Nat.le_refl _), Nat.sub_self, List.set_cons_zero]

theorem store_below {n : Nat} (b : Buffer n) (c : UInt8) : b.store (-1) c = none :=
  if_neg fun h => absurd h.1 (by decide)

/-- A C string is put out up to its terminator. -/
theorem putString_append {D : Type} (putChar : D → UInt8 → D) (screen : D) {cs : Bytes}
    (h : 0 ∉ cs) (rest : Bytes) :
    putString putChar screen (cs ++ 0 :: rest) = some (cs.foldl putChar screen) := by
  induction cs generalizing screen with
  | nil => rfl
  | cons c cs ih =>
    simp only [List.mem_cons, not_or] at h
    rw [List.cons_append, putString, if_neg (Ne.symm h.1), ih _ h.2, List.foldl_cons]

/-! ## Section 3: The digit loop -/

open Decimal

theorem digit_of_mod (x : UInt32) : (x % 10 + 0x30).toUInt8 = digit (x.toNat % 10) := by
  have hten : (10 : UInt32).toNat = 10 := rfl
  have hzero : (0x30 : UInt32).toNat = 0x30 := rfl
  have hlt := Nat.mod_lt x.toNat (show 10 > 0 by decide)
  apply UInt8.toNat_inj.mp
  rw [toNat_digit hlt, UInt32.toNat_toUInt8, UInt32.toNat_add, UInt32.toNat_mod, hten, hzero]
  omega

theorem toNat_div_ten (x : UInt32) : (x / 10).toNat = x.toNat / 10 := by
  rw [UInt32.toNat_div]
  rfl

theorem decimalLoop_zero {n : Nat} {x : UInt32} (h : x.toNat = 0) (ptr : Int) (b : Buffer n) :
    decimalLoop x ptr b = some (ptr, b) := by
  have hpos : ¬x > 0 := fun hlt => Nat.not_lt_of_le (Nat.le_of_eq h) (UInt32.lt_iff_toNat_lt.mp hlt)
  unfold decimalLoop
  rw [if_neg hpos]

/-- One round, with the pointer at the byte `y`. -/
theorem decimalLoop_round {n : Nat} {x : UInt32} (h : 0 < x.toNat) {b : Buffer n} {pre tail : Bytes}
    {y : UInt8} (hb : b.bytes = (pre ++ [y]) ++ tail) :
    ∃ b' : Buffer n, b'.bytes = pre ++ digit (x.toNat % 10) :: tail ∧
      decimalLoop x (((pre ++ [y]).length : Int) - 1) b =
        decimalLoop (x / 10) ((pre.length : Int) - 1) b' := by
  have hpos : x > 0 := UInt32.lt_iff_toNat_lt.mpr h
  rw [List.append_assoc] at hb
  obtain ⟨b', hstore, hb'⟩ := store_append hb (digit (x.toNat % 10))
  have hptr : ((pre ++ [y]).length : Int) - 1 = pre.length := by
    rw [List.length_append, List.length_singleton]
    omega
  refine ⟨b', hb', ?_⟩
  conv => lhs; unfold decimalLoop
  rw [if_pos hpos, hptr, digit_of_mod, hstore]
  rfl

/-- With a full buffer, a round stores in front of it. -/
theorem decimalLoop_full {n : Nat} {x : UInt32} (h : 0 < x.toNat) (b : Buffer n) :
    decimalLoop x (-1) b = none := by
  have hpos : x > 0 := UInt32.lt_iff_toNat_lt.mpr h
  unfold decimalLoop
  rw [if_pos hpos, store_below]
  rfl

theorem length_digits_of_pos {v : Nat} (h : 0 < v) :
    (digits v).length = (digits (v / 10)).length + 1 := by
  rw [digits_of_pos h, List.length_append, List.length_singleton]

/-- With room for all digits, the loop writes them in front of what is there
    already, and the pointer ends one below them. -/
theorem decimalLoop_fits {n : Nat} {x : UInt32} {b : Buffer n} {pre tail : Bytes}
    (hb : b.bytes = pre ++ tail) (hroom : (digits x.toNat).length ≤ pre.length) :
    ∃ (b' : Buffer n) (rest : Bytes), b'.bytes = rest ++ (digits x.toNat ++ tail) ∧
      decimalLoop x ((pre.length : Int) - 1) b = some ((rest.length : Int) - 1, b') := by
  -- the free part of the buffer gets shorter at its end
  induction pre using List.reverseRecOn generalizing x b tail with
  | nil =>
    have hx : x.toNat = 0 := by
      by_contra hne
      rw [length_digits_of_pos (Nat.pos_of_ne_zero hne)] at hroom
      exact absurd hroom (by simp)
    refine ⟨b, [], ?_, decimalLoop_zero hx _ _⟩
    rw [hb, hx, digits_zero]
    rfl
  | append_singleton pre y ih =>
    rcases Nat.eq_zero_or_pos x.toNat with hx | hx
    · refine ⟨b, pre ++ [y], ?_, decimalLoop_zero hx _ _⟩
      rw [hb, hx, digits_zero, List.nil_append]
    · obtain ⟨b₁, hb₁, hround⟩ := decimalLoop_round hx hb
      rw [length_digits_of_pos hx, List.length_append, List.length_singleton] at hroom
      obtain ⟨b', rest, hb', hloop⟩ := ih (x := x / 10) hb₁ (by rw [toNat_div_ten]; omega)
      refine ⟨b', rest, ?_, hround.trans hloop⟩
      rw [hb', toNat_div_ten, digits_of_pos hx, List.append_assoc]
      rfl

/-- Without it, the loop leaves the buffer. -/
theorem decimalLoop_overflows {n : Nat} {x : UInt32} {b : Buffer n} {pre tail : Bytes}
    (hb : b.bytes = pre ++ tail) (hroom : pre.length < (digits x.toNat).length) :
    decimalLoop x ((pre.length : Int) - 1) b = none := by
  have hx : 0 < x.toNat := by
    apply Nat.pos_of_ne_zero
    intro hzero
    rw [hzero, digits_zero] at hroom
    exact Nat.not_lt_zero _ hroom
  induction pre using List.reverseRecOn generalizing x b tail with
  | nil => exact decimalLoop_full hx b
  | append_singleton pre y ih =>
    obtain ⟨b₁, hb₁, hround⟩ := decimalLoop_round hx hb
    rw [length_digits_of_pos hx, List.length_append, List.length_singleton] at hroom
    have hrest : pre.length < (digits (x / 10).toNat).length := by
      rw [toNat_div_ten]
      omega
    rw [hround]
    apply ih hb₁ hrest
    apply Nat.pos_of_ne_zero
    intro hzero
    rw [hzero, digits_zero] at hrest
    exact Nat.not_lt_zero _ hrest

/-! ## Section 4: WriteDecimal -/

section Code

variable {D : Type} (putChar : D → UInt8 → D) (buffer : Buffer 10) (screen : D)

/-- The buffer has room for nine digits. -/
theorem writeDecimal_eq (x : UInt32) :
    writeDecimal putChar buffer screen x =
      if x.toNat < 10 ^ 9 then some ((decimal x.toNat).foldl putChar screen) else none := by
  unfold writeDecimal
  by_cases hpos : x > 0
  · have hx : 0 < x.toNat := UInt32.lt_iff_toNat_lt.mp hpos
    -- the terminator is the last byte, in front of it there are nine
    obtain ⟨pre, y, hlen, hbuffer⟩ := buffer.exists_last
    obtain ⟨b, hstore, hb⟩ := store_append hbuffer 0
    rw [hlen] at hstore
    have hdecimal : decimal x.toNat = digits x.toNat := if_neg (Nat.ne_of_gt hx)
    rw [if_pos hpos, hdecimal]
    show (buffer.store ((9 : Nat) : Int) 0 >>= _) = _
    rw [hstore]
    by_cases hlt : x.toNat < 10 ^ 9
    · have hroom := (length_digits_le_iff x.toNat 9).mpr hlt
      obtain ⟨b', rest, hb', hloop⟩ := decimalLoop_fits hb (hlen ▸ hroom)
      have hzero : 0 ∉ digits x.toNat := by
        intro hmem
        exact absurd (mem_digits hmem).1 (by decide)
      rw [hlen] at hloop
      show (decimalLoop x (((9 : Nat) : Int) - 1) b >>= _) = _
      rw [hloop, if_pos hlt]
      show putString putChar screen (b'.bytes.drop ((rest.length : Int) - 1 + 1).toNat) = _
      rw [hb', Int.sub_add_cancel, Int.toNat_natCast, List.drop_left, putString_append _ _ hzero]
    · have hroom := mt (length_digits_le_iff x.toNat 9).mp hlt
      have hloop := decimalLoop_overflows (x := x) hb (by omega)
      rw [hlen] at hloop
      show (decimalLoop x (((9 : Nat) : Int) - 1) b >>= _) = _
      rw [hloop, if_neg hlt]
      rfl
  · have hx : x.toNat = 0 := by
      have hle : ¬0 < x.toNat := fun hlt => hpos (UInt32.lt_iff_toNat_lt.mpr hlt)
      omega
    rw [if_neg hpos, hx]
    rfl

/-- The absolute value, as the code computes it. For the most negative number
    the negation wraps around to the number itself. -/
theorem toNat_abs (x : Int32) :
    (x < 0 → (-x).toUInt32.toNat = x.toInt.natAbs) ∧
    (¬x < 0 → x.toUInt32.toNat = x.toInt.natAbs) := by
  have hlt : x < 0 ↔ x.toInt < 0 := Int32.lt_iff_toInt_lt
  have hcond : x.toInt = _ := BitVec.toInt_eq_toNat_cond x.toBitVec
  have hb := x.toBitVec.isLt
  have hnat : x.toUInt32.toNat = x.toBitVec.toNat := rfl
  have hneg : (-x).toUInt32.toNat = (-x.toBitVec).toNat := rfl
  rw [BitVec.toNat_neg] at hneg
  rw [hlt, hnat, hneg, hcond]
  constructor
  · intro h
    split at h
    · omega
    · rw [if_neg (by assumption)]
      omega
  · intro h
    split at h
    · rw [if_pos (by assumption)]
      omega
    · omega

theorem writeInt32_eq (x : Int32) :
    writeInt32 putChar buffer screen x =
      if x.toInt.natAbs < 10 ^ 9 then some ((signed x.toInt).foldl putChar screen) else none := by
  have hlt : x < 0 ↔ x.toInt < 0 := Int32.lt_iff_toInt_lt
  obtain ⟨hneg, hpos⟩ := toNat_abs x
  unfold writeInt32 signed
  by_cases h : x < 0
  · rw [if_pos h, writeDecimal_eq, hneg h, if_pos (hlt.mp h), List.foldl_cons]
  · rw [if_neg h, writeDecimal_eq, hpos h, if_neg (mt hlt.mpr h)]

/-- **Decimal output**: a number is put out in its decimal form, without a
    store outside the buffer, if and only if it has nine digits or fewer. -/
theorem decimal_output_iff :
    (∀ x : UInt32, writeDecimal putChar buffer screen x =
        some ((decimal x.toNat).foldl putChar screen) ↔ x.toNat < 10 ^ 9) ∧
    (∀ x : Int32, writeInt32 putChar buffer screen x =
        some ((signed x.toInt).foldl putChar screen) ↔ x.toInt.natAbs < 10 ^ 9) := by
  constructor
  · intro x
    rw [writeDecimal_eq]
    simp
  · intro x
    rw [writeInt32_eq]
    simp

end Code

/-- A screen that keeps the text. -/
def keep (text : Bytes) (c : UInt8) : Bytes := text ++ [c]

def zeroBuffer : Buffer 10 := ⟨List.replicate 10 0, rfl⟩

/-- The tenth digit goes in front of the buffer. -/
theorem decimal_output_overflows :
    writeDecimal keep zeroBuffer [] 4294967295 = none ∧
    writeInt32 keep zeroBuffer [] Int32.minValue = none ∧
    ¬((∀ x : UInt32, writeDecimal keep zeroBuffer [] x =
        some ((decimal x.toNat).foldl keep [])) ∧
      ∀ x : Int32, writeInt32 keep zeroBuffer [] x = some ((signed x.toInt).foldl keep [])) := by
  have hmax : writeDecimal keep zeroBuffer [] 4294967295 = none := by
    rw [writeDecimal_eq]
    exact if_neg (by decide)
  have hmin : writeInt32 keep zeroBuffer [] Int32.minValue = none := by
    rw [writeInt32_eq]
    exact if_neg (by decide)
  refine ⟨hmax, hmin, ?_⟩
  intro h
  have hsome := h.1 4294967295
  rw [hmax] at hsome
  cases hsome

/-! ## Section 5: WriteHex -/

/-- The text of a number with so many hexadecimal digits. -/
def hexText (count v : Nat) : Bytes :=
  (List.range count).map fun i => hexDigit (UInt64.ofNat (v / 16 ^ (count - 1 - i) % 16))

theorem hexText_succ (count v : Nat) :
    hexText (count + 1) v = hexText count (v / 16) ++ [hexDigit (UInt64.ofNat (v % 16))] := by
  have hlast : v / 16 ^ (count + 1 - 1 - count) = v := by simp
  rw [hexText, List.range_succ, List.map_append, List.map_singleton, hlast]
  congr 1
  apply List.map_congr_left
  intro i hi
  have hlt := List.mem_range.mp hi
  have hpow : 16 ^ (count + 1 - 1 - i) = 16 * 16 ^ (count - 1 - i) := by
    rw [← Nat.pow_succ']
    congr 1
    omega
  rw [hpow, ← Nat.div_div_eq_div_mul]

/-- The loop writes one digit a round. -/
theorem hexLoop_fits {n rounds : Nat} {x : UInt64} {b : Buffer n} {pre tail : Bytes}
    (hb : b.bytes = pre ++ tail) (hroom : rounds = pre.length) :
    ∃ b' : Buffer n, b'.bytes = hexText rounds x.toNat ++ tail ∧
      hexLoop rounds x ((pre.length : Int) - 1) b = some (-1, b') := by
  induction pre using List.reverseRecOn generalizing rounds x b tail with
  | nil =>
    subst hroom
    exact ⟨b, hb, rfl⟩
  | append_singleton pre y ih =>
    rw [List.length_append, List.length_singleton] at hroom
    subst hroom
    have hdigit : x &&& 0x0F = UInt64.ofNat (x.toNat % 16) := by
      apply UInt64.toNat_inj.mp
      rw [UInt64.toNat_and, UInt64.toNat_ofNat_of_lt' (show x.toNat % 16 < 2 ^ 64 by omega)]
      exact Nat.and_two_pow_sub_one_eq_mod x.toNat 4
    have hshift : (x >>> 4).toNat = x.toNat / 16 := by
      rw [UInt64.toNat_shiftRight]
      exact Nat.shiftRight_eq_div_pow x.toNat 4
    rw [List.append_assoc] at hb
    obtain ⟨b₁, hstore, hb₁⟩ := store_append hb (hexDigit (x &&& 0x0F))
    obtain ⟨b', hb', hloop⟩ := ih (x := x >>> 4) hb₁ rfl
    have hptr : ((pre ++ [y]).length : Int) - 1 = pre.length := by
      rw [List.length_append, List.length_singleton]
      omega
    refine ⟨b', ?_, ?_⟩
    · rw [hb', hshift, hexText_succ, hdigit, List.append_assoc]
      rfl
    · rw [hptr, hexLoop, hstore]
      exact hloop

/-- No character of the text is its end. -/
theorem zero_notMem_hexText (count v : Nat) : 0 ∉ hexText count v := by
  intro hmem
  obtain ⟨i, -, hdigit⟩ := List.mem_map.mp hmem
  have hlt : v / 16 ^ (count - 1 - i) % 16 < 16 := Nat.mod_lt _ (by decide)
  generalize v / 16 ^ (count - 1 - i) % 16 = d at hdigit hlt
  interval_cases d <;> exact absurd hdigit (by decide)

/-- **Hexadecimal output**: for every number, the sixteen digits are put out,
    and all stores are inside the buffer. -/
theorem writeHex_eq {D : Type} (putChar : D → UInt8 → D) (buffer : Buffer 17) (screen : D)
    (x : UInt64) :
    writeHex putChar buffer screen x = some ((hexText 16 x.toNat).foldl putChar screen) := by
  obtain ⟨pre, y, hlen, hbuffer⟩ := buffer.exists_last
  obtain ⟨b, hstore, hb⟩ := store_append hbuffer 0
  obtain ⟨b', hb', hloop⟩ := hexLoop_fits (x := x) hb hlen.symm
  rw [hlen] at hstore hloop
  have hptr : (17 : Int) - 1 = (16 : Nat) := rfl
  have hstart : ((-1 : Int) + 1).toNat = 0 := rfl
  simp only [writeHex, hptr, hstore, hloop, hstart, Option.bind_eq_bind, Option.bind_some]
  rw [List.drop_zero, hb', putString_append _ _ (zero_notMem_hexText 16 x.toNat)]

/-- A pointer of 32 bits is put out with sixteen digits, too. -/
theorem writePointer_eq {D : Type} (putChar : D → UInt8 → D) (buffer : Buffer 17) (screen : D)
    (ptr : UInt32) :
    writePointer putChar buffer screen ptr = some ((hexText 16 ptr.toNat).foldl putChar screen) :=
  writeHex_eq putChar buffer screen ptr.toUInt64

end Hausboot.TextScreen
