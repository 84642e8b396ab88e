import Mathlib.Data.Nat.Digits.Lemmas

/-! Whole numbers in Perl's arithmetic.

A number below `2 ^ 64` is kept in a word. What grows beyond that is a floating-point number,
rounded, and is `none` here whatever its value: it stays one in every sum, as nothing is ever
taken away (`lt_of_add_eq_some`). Shifting a word loses what goes over its end (`shift_pow`). -/
namespace Perl

/-- What the words hold. -/
def wordLimit : Nat := 2 ^ 64

/-- The least numeral that is read as infinity: half a place above the greatest double. -/
def infinity : Nat := (2 ^ 54 - 1) * 2 ^ 970

/-- `$n * $word` for a numeral `$n`. Infinity is not even 0 times a number. -/
def mul (n word : Nat) : Option Nat :=
  if n < infinity ∧ n * word < wordLimit then some (n * word) else none

/-- `$x + $y` -/
def add (x y : Option Nat) : Option Nat := do
  let a ← x
  let b ← y
  if a + b < wordLimit then some (a + b) else none

/-- `$word << 1` -/
def shift (word : Nat) : Nat := 2 * word % wordLimit

theorem wordLimit_le_infinity : wordLimit ≤ infinity := by
  have hpow (m : Nat) (hm : 64 ≤ m) : wordLimit ≤ (2 ^ 54 - 1) * 2 ^ m :=
    (Nat.pow_le_pow_right Nat.two_pos hm).trans (Nat.le_mul_of_pos_left _ (by decide))
  exact hpow 970 (by decide)

theorem mul_eq_some {n word : Nat} (hn : n < infinity) (h : n * word < wordLimit) :
    mul n word = some (n * word) := if_pos ⟨hn, h⟩

theorem add_eq_some {a b : Nat} (h : a + b < wordLimit) : add (some a) (some b) = some (a + b) :=
  if_pos h

theorem lt_of_add_eq_some {x y : Option Nat} {s : Nat} (h : add x y = some s) : s < wordLimit := by
  obtain ⟨a, -, h⟩ := Option.bind_eq_some_iff.mp h
  obtain ⟨b, -, h⟩ := Option.bind_eq_some_iff.mp h
  obtain ⟨hlt, heq⟩ := Option.ite_none_right_eq_some.mp h
  rwa [← Option.some.inj heq]

/-- The weight of the binary place `k`, in a word. -/
theorem shift_pow (k : Nat) : shift (2 ^ k % wordLimit) = 2 ^ (k + 1) % wordLimit := by
  rw [shift, Nat.mul_mod_mod, ← Nat.pow_succ']

end Perl
