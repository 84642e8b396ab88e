import Mathlib.Algebra.Order.Field.Rat
import Mathlib.Tactic.FieldSimp
import VleoNotebook.Lib.Number

/-! The number a numeral denotes, for computing exactly.

Where the scripts add up doubles, the exact total adds up the `value`s. `print2` is
`%.2f` without the double in between: of a number of whole hundredths it prints that
number (`value_numify_print2`), and below `2 ** 46` so does Perl (`sprintf2_eq_print2`). -/
namespace Perl

namespace Decimal

/-- The number `x` denotes. -/
def value (x : Decimal) : ℚ := (if x.negative then -1 else 1) * (x.digits / 10 ^ x.places)

/-- `sprintf("%.2f", $x)`, computed exactly. -/
def print2 (x : Decimal) : Text :=
  (if x.negative then ['-'] else []) ++
    hundredths (roundHalfEven (100 * x.digits) (10 ^ x.places))

theorem value_neg (x : Decimal) : x.neg.value = -x.value := by
  unfold value neg
  cases x.negative <;> simp

theorem value_nonneg {x : Decimal} (h : x.negative = false) : 0 ≤ x.value := by
  rw [value, h, if_neg (by decide), one_mul]
  positivity

theorem value_nonpos {x : Decimal} (h : x.negative = true) : x.value ≤ 0 := by
  rw [value, h, if_pos rfl, neg_one_mul, neg_nonpos]
  positivity

/-- At most two digits stand behind the point. -/
def AtMostTwo (x : Decimal) : Prop := x.places ≤ 2

instance (x : Decimal) : Decidable x.AtMostTwo := inferInstanceAs (Decidable (_ ≤ _))

theorem AtMostTwo.neg {x : Decimal} (h : x.AtMostTwo) : x.neg.AtMostTwo := h

/-- A magnitude of at most two places is a number of whole hundredths. -/
theorem AtMostTwo.round {x : Decimal} (h : x.AtMostTwo) :
    roundHalfEven (100 * x.digits) (10 ^ x.places) = x.digits * 10 ^ (2 - x.places) := by
  have hpow : 10 ^ x.places * 10 ^ (2 - x.places) = 100 := by
    rw [← pow_add, Nat.add_sub_cancel' h]
    norm_num
  have hpos : 0 < 10 ^ x.places := by positivity
  have hexact : 100 * x.digits = 10 ^ x.places * (x.digits * 10 ^ (2 - x.places)) := by
    rw [← hpow]
    ring
  rw [hexact]
  refine roundHalfEven_eq ?_ ?_ <;> omega

/-- Perl prints the same as long as the doubles lie close enough. -/
theorem sprintf2_eq_print2 {x : Decimal} (h : x.AtMostTwo)
    (hlt : x.digits < 2 ^ 46 * 10 ^ x.places) : x.sprintf2 = x.print2 := by
  have hpow : 10 ^ (2 - x.places) * 10 ^ x.places = 100 := by
    rw [← pow_add, Nat.sub_add_cancel h]
    norm_num
  have hcents : x.cents = some (x.digits * 10 ^ (2 - x.places)) :=
    cents_eq (by rw [Nat.mul_assoc, hpow]) hlt
  rw [sprintf2, print2, hcents, h.round]

/-! ### Comparing -/

/-- Only zero is taken for zero. -/
theorem AtMostTwo.double_eq_zero_iff {x : Decimal} (h : x.AtMostTwo) :
    x.double = some 0 ↔ x.value = 0 := by
  have hdigits : x.value = 0 ↔ x.digits = 0 := by
    have hpow : (10 : ℚ) ^ x.places ≠ 0 := by positivity
    unfold value
    split <;> simp [hpow]
  rw [hdigits]
  refine ⟨fun hzero => ?_, double_zero⟩
  by_contra hne
  refine double_ne_zero ?_ hzero
  calc 10 ^ x.places ≤ 10 ^ 2 := Nat.pow_le_pow_right (by decide) h
    _ ≤ one := (by decide : 10 ^ 2 ≤ 2 ^ 7).trans (two_pow_le_one (by decide))
    _ ≤ x.digits * one := Nat.le_mul_of_pos_left one (Nat.pos_of_ne_zero hne)

theorem AtMostTwo.isPos_iff {x : Decimal} (h : x.AtMostTwo) : x.IsPos ↔ 0 < x.value := by
  rw [IsPos, h.double_eq_zero_iff.ne]
  cases hsign : x.negative with
  | true => exact iff_of_false (fun hpos => Bool.noConfusion hpos.1) (value_nonpos hsign).not_gt
  | false => exact ⟨fun hpos => lt_of_le_of_ne (value_nonneg hsign) (Ne.symm hpos.2),
      fun hpos => ⟨rfl, ne_of_gt hpos⟩⟩

theorem value_abs (x : Decimal) : x.abs.value = |x.value| := by
  cases hsign : x.negative with
  | true =>
    rw [abs_of_nonpos (value_nonpos hsign), ← value_neg, neg, abs, hsign]
    rfl
  | false =>
    rw [abs_of_nonneg (value_nonneg hsign), abs, ← hsign]

end Decimal

namespace Number

/-- The number `x` denotes. What is not finite denotes none, and adds nothing. -/
def value : Number → ℚ
  | num x => x.value
  | inf _ => 0
  | nan => 0

/-- `sprintf("%.2f", $x)`, computed exactly. -/
def print2 : Number → Text := print Decimal.print2

/-- A numeral with at most two digits behind the point. -/
def AtMostTwo (x : Number) : Prop := ∃ d, x = num d ∧ d.AtMostTwo

instance : (x : Number) → Decidable x.AtMostTwo
  | num d => decidable_of_iff d.AtMostTwo (by simp [AtMostTwo])
  | inf _ => isFalse (by simp [AtMostTwo])
  | nan => isFalse (by simp [AtMostTwo])

@[simp] theorem value_num (x : Decimal) : (num x).value = x.value := rfl

theorem value_neg (x : Number) : x.neg.value = -x.value := by
  cases x with
  | num x => exact x.value_neg
  | inf negative => exact neg_zero.symm
  | nan => exact neg_zero.symm

theorem value_abs (x : Number) : x.abs.value = |x.value| := by
  cases x with
  | num x => exact x.value_abs
  | inf negative => exact abs_zero.symm
  | nan => exact abs_zero.symm

theorem value_numify_nil : (numify []).value = 0 := by
  simp [numify_nil, Decimal.value]

theorem AtMostTwo.neg {x : Number} (h : x.AtMostTwo) : x.neg.AtMostTwo := by
  obtain ⟨d, rfl, hd⟩ := h
  exact ⟨d.neg, rfl, hd⟩

theorem AtMostTwo.abs {x : Number} (h : x.AtMostTwo) : x.abs.AtMostTwo := by
  obtain ⟨d, rfl, hd⟩ := h
  exact ⟨d.abs, rfl, hd⟩

theorem AtMostTwo.isNonzero_iff {x : Number} (h : x.AtMostTwo) : x.IsNonzero ↔ x.value ≠ 0 := by
  obtain ⟨d, rfl, hd⟩ := h
  rw [isNonzero_num, value_num, hd.double_eq_zero_iff.ne]

theorem AtMostTwo.isPos_iff {x : Number} (h : x.AtMostTwo) : x.IsPos ↔ 0 < x.value := by
  obtain ⟨d, rfl, hd⟩ := h
  rw [isPos_num, value_num, hd.isPos_iff]

/-- **What is printed to two places is read as the number printed.** -/
theorem value_numify_decimal {x : Decimal} (h : x.AtMostTwo) :
    (numify x.print2).value = x.value := by
  have hpow : (10 : ℚ) ^ 2 = 10 ^ x.places * 10 ^ (2 - x.places) := by
    rw [← pow_add, Nat.add_sub_cancel' h]
  have hne : (10 : ℚ) ^ (2 - x.places) ≠ 0 := by positivity
  rw [Decimal.print2, numify_hundredths, value_num, h.round, Decimal.value, Decimal.value]
  simp only [hpow, Nat.cast_mul, Nat.cast_pow, Nat.cast_ofNat]
  rw [mul_div_mul_right _ _ hne]

theorem value_numify_print2 {x : Number} (h : x.AtMostTwo) :
    (numify x.print2).value = x.value := by
  obtain ⟨d, rfl, hd⟩ := h
  exact value_numify_decimal hd

end Number

end Perl
