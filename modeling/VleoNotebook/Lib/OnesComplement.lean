import Mathlib.Data.Nat.ModEq

/-! Sums in ones' complement.

A sum of words of `w` bits is folded by adding what goes over `w` bits to the rest, until
nothing does. That does not change it modulo `2 ^ w - 1`, and of the two texts of zero the
fold of a sum is the one without bits only if the sum is 0 itself (`fold_eq`). So a sum may
be folded at any time on the way (`fold_fold_add`). -/
namespace OnesComplement

/-- One turn of the loop: `(sum & (2 ^ w - 1)) + (sum >> w)`. -/
def carry (w sum : Nat) : Nat := sum % 2 ^ w + sum / 2 ^ w

/-- The loop for as many turns as there is fuel. -/
def foldAux (w : Nat) : Nat → Nat → Nat
  | 0, sum => sum
  | fuel + 1, sum => if sum / 2 ^ w = 0 then sum else foldAux w fuel (carry w sum)

/-- `while (sum >> w) sum = (sum & (2 ^ w - 1)) + (sum >> w)`; a turn makes the sum smaller, so
the fuel never runs out (`fold_eq`). -/
def fold (w sum : Nat) : Nat := foldAux w sum sum

variable {w : Nat}

theorem carry_lt (hw : 0 < w) {sum : Nat} (h : sum / 2 ^ w ≠ 0) : carry w sum < sum := by
  have htwo : 2 ≤ 2 ^ w := by
    calc 2 = 2 ^ 1 := rfl
      _ ≤ 2 ^ w := Nat.pow_le_pow_right (by decide) hw
  have hpos : 0 < sum / 2 ^ w := Nat.pos_of_ne_zero h
  have hsum : sum % 2 ^ w + 2 ^ w * (sum / 2 ^ w) = sum := Nat.mod_add_div sum (2 ^ w)
  have hgrows : 2 * (sum / 2 ^ w) ≤ 2 ^ w * (sum / 2 ^ w) := Nat.mul_le_mul_right _ htwo
  unfold carry
  omega

theorem carry_pos {sum : Nat} (h : sum / 2 ^ w ≠ 0) : 0 < carry w sum :=
  Nat.add_pos_right _ (Nat.pos_of_ne_zero h)

/-- A turn takes a multiple of `2 ^ w - 1` away. -/
theorem carry_add (sum : Nat) : carry w sum + (2 ^ w - 1) * (sum / 2 ^ w) = sum := by
  have hsum : sum % 2 ^ w + 2 ^ w * (sum / 2 ^ w) = sum := Nat.mod_add_div sum (2 ^ w)
  have hone : 1 * (sum / 2 ^ w) ≤ 2 ^ w * (sum / 2 ^ w) :=
    Nat.mul_le_mul_right _ Nat.one_le_two_pow
  rw [carry, Nat.sub_mul]
  omega

/-- The number from 1 to `2 ^ w - 1` that is congruent to the sum, or 0 for 0. -/
def rep (w sum : Nat) : Nat := if sum = 0 then 0 else (sum - 1) % (2 ^ w - 1) + 1

theorem rep_carry {sum : Nat} (h : sum / 2 ^ w ≠ 0) : rep w (carry w sum) = rep w sum := by
  have hpos := carry_pos h
  have hadd := carry_add (w := w) sum
  have hsum : sum - 1 = carry w sum - 1 + (2 ^ w - 1) * (sum / 2 ^ w) := by omega
  rw [rep, rep, if_neg (by omega), if_neg (by omega), hsum, Nat.add_mul_mod_self_left]

theorem rep_of_lt {sum : Nat} (h : sum < 2 ^ w) : rep w sum = sum := by
  unfold rep
  split
  · omega
  · rw [Nat.mod_eq_of_lt (by omega)]
    omega

/-- **The loop comes to the representative of the sum.** -/
theorem fold_eq (hw : 0 < w) (sum : Nat) : fold w sum = rep w sum := by
  suffices ∀ fuel sum, sum ≤ fuel → foldAux w fuel sum = rep w sum from this sum sum (Nat.le_refl _)
  intro fuel
  induction fuel with
  | zero =>
    intro sum hsum
    rw [Nat.le_zero.mp hsum]
    rfl
  | succ fuel ih =>
    intro sum hsum
    rw [foldAux]
    by_cases h : sum / 2 ^ w = 0
    · rw [if_pos h, rep_of_lt ((Nat.div_eq_zero_iff_lt (Nat.two_pow_pos w)).mp h)]
    · have hlt := carry_lt hw h
      rw [if_neg h, ih _ (by omega), rep_carry h]

theorem rep_lt (hw : 0 < w) (sum : Nat) : rep w sum < 2 ^ w := by
  have htwo : 2 ^ 1 ≤ 2 ^ w := Nat.pow_le_pow_right (by decide) hw
  unfold rep
  split
  · omega
  · have hmod := Nat.mod_lt (sum - 1) (show 0 < 2 ^ w - 1 by omega)
    omega

theorem fold_lt (hw : 0 < w) (sum : Nat) : fold w sum < 2 ^ w := by
  rw [fold_eq hw]
  exact rep_lt hw sum

theorem rep_modEq (sum : Nat) : rep w sum ≡ sum [MOD 2 ^ w - 1] := by
  unfold rep
  split
  next h => rw [h]
  next h =>
    calc (sum - 1) % (2 ^ w - 1) + 1
      _ ≡ sum - 1 + 1 [MOD 2 ^ w - 1] := Nat.ModEq.add_right 1 (Nat.mod_modEq _ _)
      _ = sum := Nat.sub_add_cancel (Nat.pos_of_ne_zero h)

theorem rep_eq_zero_iff {sum : Nat} : rep w sum = 0 ↔ sum = 0 := by
  unfold rep
  split <;> omega

/-- **Congruent sums have one representative**, if both are 0 or neither is. -/
theorem rep_congr {x y : Nat} (h : x ≡ y [MOD 2 ^ w - 1]) (hzero : x = 0 ↔ y = 0) :
    rep w x = rep w y := by
  by_cases hx : x = 0
  · rw [hx, hzero.mp hx]
  · have hy : y ≠ 0 := fun hy => hx (hzero.mpr hy)
    have hpred : x - 1 ≡ y - 1 [MOD 2 ^ w - 1] := by
      refine Nat.ModEq.add_right_cancel' 1 ?_
      rwa [Nat.sub_add_cancel (Nat.pos_of_ne_zero hx), Nat.sub_add_cancel (Nat.pos_of_ne_zero hy)]
    rw [rep, rep, if_neg hx, if_neg hy, hpred]

/-- The text of zero that has all its bits is the fold of the multiples of the modulus but 0. -/
theorem rep_eq_max_iff (hw : 0 < w) {sum : Nat} :
    rep w sum = 2 ^ w - 1 ↔ sum ≠ 0 ∧ sum ≡ 0 [MOD 2 ^ w - 1] := by
  have htwo : 2 ^ 1 ≤ 2 ^ w := Nat.pow_le_pow_right (by decide) hw
  have hmax : rep w (2 ^ w - 1) = 2 ^ w - 1 := rep_of_lt (by omega)
  constructor
  · intro h
    refine ⟨fun hsum => ?_, ?_⟩
    · have hrep : rep w sum = 0 := rep_eq_zero_iff.mpr hsum
      omega
    · calc sum
        _ ≡ rep w sum [MOD 2 ^ w - 1] := (rep_modEq sum).symm
        _ = 2 ^ w - 1 := h
        _ ≡ 0 [MOD 2 ^ w - 1] := Nat.modEq_zero_iff_dvd.mpr (Nat.dvd_refl _)
  · intro ⟨hne, hmod⟩
    have hself : 2 ^ w - 1 ≡ 0 [MOD 2 ^ w - 1] := Nat.modEq_zero_iff_dvd.mpr (Nat.dvd_refl _)
    rw [rep_congr (hmod.trans hself.symm) (by omega), hmax]

theorem rep_rep_add (x y : Nat) : rep w (rep w x + y) = rep w (x + y) := by
  refine rep_congr (Nat.ModEq.add_right y (rep_modEq x)) ?_
  have hzero : rep w x = 0 ↔ x = 0 := rep_eq_zero_iff
  omega

/-- **A sum may be folded on the way.** -/
theorem fold_fold_add (hw : 0 < w) (x y : Nat) : fold w (fold w x + y) = fold w (x + y) := by
  rw [fold_eq hw, fold_eq hw, fold_eq hw, rep_rep_add]

end OnesComplement
