import Mathlib.Data.Nat.Digits.Lemmas

/-! # Decimal Numbers

    The decimal form of a number, as ASCII: the digits with the highest one
    first, no zero in front, and a single zero for the number zero. -/

namespace Decimal

def digit (d : Nat) : UInt8 := UInt8.ofNat (d + 0x30)

/-- The digits of a number. Zero has none. -/
def digits (x : Nat) : List UInt8 := (Nat.digits 10 x).reverse.map digit

def decimal (x : Nat) : List UInt8 := if x = 0 then [digit 0] else digits x

/-- The decimal form with a minus sign in front of negative numbers. -/
def signed (x : Int) : List UInt8 :=
  if x < 0 then 0x2D :: decimal x.natAbs else decimal x.natAbs

theorem digits_zero : digits 0 = [] := by simp [digits]

/-- The last digit comes off the end. -/
theorem digits_of_pos {x : Nat} (h : 0 < x) : digits x = digits (x / 10) ++ [digit (x % 10)] := by
  rw [digits, Nat.digits_def' (by decide) h, List.reverse_cons, List.map_append]
  rfl

theorem length_digits_le_iff (x k : Nat) : (digits x).length ≤ k ↔ x < 10 ^ k := by
  rw [digits, List.length_map, List.length_reverse, Nat.digits_length_le_iff (by decide)]

theorem toNat_digit {d : Nat} (h : d < 10) : (digit d).toNat = d + 0x30 :=
  UInt8.toNat_ofNat_of_lt' (show d + 0x30 < 256 by omega)

/-! ## What makes the form canonical -/

/-- The value of a text of digits. -/
def value (cs : List UInt8) : Nat := cs.foldl (fun v c => 10 * v + (c.toNat - 0x30)) 0

/-- The text consists of digits, has the value, and has no zero in front
    unless it is the one zero. -/
structure Canonical (cs : List UInt8) (x : Nat) : Prop where
  digits : ∀ c ∈ cs, 0x30 ≤ c.toNat ∧ c.toNat ≤ 0x39
  value : value cs = x
  lead : ∀ ds, cs = digit 0 :: ds → ds = []

theorem mem_digits {x : Nat} {c : UInt8} (h : c ∈ digits x) : 0x30 ≤ c.toNat ∧ c.toNat ≤ 0x39 := by
  obtain ⟨d, hd, heq⟩ := List.mem_map.mp h
  have hlt : d < 10 := Nat.digits_lt_base (by decide) (List.mem_reverse.mp hd)
  rw [← heq, toNat_digit hlt]
  omega

theorem value_digits (x : Nat) : value (digits x) = x := by
  induction x using Nat.strong_induction_on with
  | _ x ih =>
    rcases Nat.eq_zero_or_pos x with hzero | hpos
    · rw [hzero, digits_zero]
      rfl
    · have hdigit := toNat_digit (Nat.mod_lt x (show 10 > 0 by decide))
      have hrest := ih (x / 10) (by omega)
      unfold value at hrest ⊢
      rw [digits_of_pos hpos, List.foldl_append, hrest, List.foldl_cons, List.foldl_nil, hdigit]
      omega

/-- The first digit is not zero. -/
theorem digits_ne_cons_zero (x : Nat) (ds : List UInt8) : digits x ≠ digit 0 :: ds := by
  intro h
  induction x using Nat.strong_induction_on generalizing ds with
  | _ x ih =>
    rcases Nat.eq_zero_or_pos x with hzero | hpos
    · rw [hzero, digits_zero] at h
      cases h
    · rw [digits_of_pos hpos] at h
      cases hrest : digits (x / 10) with
      | nil =>
        -- a single digit is the number itself
        have hvalue := value_digits (x / 10)
        rw [hrest] at hvalue
        have hsmall : x / 10 = 0 := hvalue.symm
        rw [hrest, List.nil_append, List.cons.injEq] at h
        have hdigit := congrArg UInt8.toNat h.1
        rw [toNat_digit (Nat.mod_lt _ (by decide)), toNat_digit (by decide)] at hdigit
        omega
      | cons c cs =>
        rw [hrest, List.cons_append, List.cons.injEq] at h
        exact ih (x / 10) (by omega) cs (h.1 ▸ hrest)

theorem canonical_decimal (x : Nat) : Canonical (decimal x) x := by
  by_cases hzero : x = 0
  · subst hzero
    have hdigit : (digit 0).toNat = 0x30 := toNat_digit (by decide)
    refine ⟨?_, rfl, fun ds h => ((List.cons.inj h).2).symm⟩
    intro c hc
    rw [List.mem_singleton.mp hc, hdigit]
    decide
  · rw [decimal, if_neg hzero]
    exact ⟨fun c => mem_digits, value_digits x, fun ds h => absurd h (digits_ne_cons_zero x ds)⟩

end Decimal
