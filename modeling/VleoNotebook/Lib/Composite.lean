import Mathlib.Data.Nat.Prime.Basic

/-! Crossing out multiples.

A number is crossed out below a bound if it is a multiple, by no less than the factor itself, of
a factor below the bound. Up to the square of the bound just the primes are left
(`prime_iff_not_crossed`); and a factor that is crossed out itself need not be looked at
(`crossed_of_crossed`). -/
namespace Composite

/-- `v` is a multiple of `d`, from the square of `d` on. -/
def Multiple (d v : Nat) : Prop := ∃ q, d ≤ q ∧ v = d * q

/-- `v` is a multiple of a factor below the bound. -/
def Crossed (bound v : Nat) : Prop := ∃ d, 2 ≤ d ∧ d < bound ∧ Multiple d v

theorem not_crossed_two (v : Nat) : ¬ Crossed 2 v := by
  rintro ⟨d, hd, hlt, -⟩
  omega

theorem crossed_succ {b : Nat} (hb : 2 ≤ b) (v : Nat) :
    Crossed (b + 1) v ↔ Crossed b v ∨ Multiple b v := by
  constructor
  · intro ⟨d, hd, hlt, hmul⟩
    obtain rfl | hlt := Nat.eq_or_lt_of_le (Nat.le_of_lt_succ hlt)
    · exact Or.inr hmul
    · exact Or.inl ⟨d, hd, hlt, hmul⟩
  · rintro (⟨d, hd, hlt, hmul⟩ | hmul)
    · exact ⟨d, hd, by omega, hmul⟩
    · exact ⟨b, hb, Nat.lt_succ_self b, hmul⟩

/-- The multiples of what is crossed out are. -/
theorem crossed_of_crossed {b v : Nat} (hb : Crossed b b) (hv : Multiple b v) : Crossed b v := by
  obtain ⟨d, hd, hlt, p, hp, hdp⟩ := hb
  obtain ⟨q, hq, hbq⟩ := hv
  refine ⟨d, hd, hlt, p * q, hp.trans (Nat.le_mul_of_pos_right p (by omega)), ?_⟩
  calc v
    _ = b * q := hbq
    _ = d * p * q := congrArg (· * q) hdp
    _ = d * (p * q) := Nat.mul_assoc d p q

theorem not_crossed_of_prime {v : Nat} (hv : v.Prime) (b : Nat) : ¬ Crossed b v := by
  intro hcrossed
  obtain ⟨d, hd, -, q, hq, rfl⟩ := hcrossed
  exact Nat.not_prime_mul (by omega) (by omega) hv

/-- **Up to the square of the bound the primes are left.** -/
theorem prime_iff_not_crossed {b v : Nat} (hv : 2 ≤ v) (hlt : v < b * b) :
    v.Prime ↔ ¬ Crossed b v := by
  constructor
  · rintro hprime ⟨d, hd, -, q, hq, rfl⟩
    exact Nat.not_prime_mul (by omega) (by omega) hprime
  · intro hnot
    by_contra hprime
    obtain ⟨q, hq⟩ := Nat.minFac_dvd v
    have hsq : v.minFac ^ 2 ≤ v := Nat.minFac_sq_le_self (by omega) hprime
    have htwo : 2 ≤ v.minFac := (Nat.minFac_prime (by omega)).two_le
    rw [pow_two] at hsq
    refine hnot ⟨v.minFac, htwo, ?_, q, ?_, hq⟩
    · exact Nat.mul_self_lt_mul_self_iff.mp (by omega)
    · refine Nat.le_of_mul_le_mul_left ?_ (Nat.lt_of_lt_of_le Nat.zero_lt_two htwo)
      rwa [← hq]

end Composite
