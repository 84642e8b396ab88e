import Mathlib.Tactic.Positivity
import Mathlib.Tactic.Ring
import VleoNotebook.Lib.Text

/-! Numbers the way Perl reads and prints them.

A numeral is a `Decimal`: a sign, digits, and how many of them stand behind the point.
Computing with it means the double nearest to it (`double`), a count of the least
double there is, and `sprintf("%2.2f")` prints that double to hundredths, so a numeral
of whole hundredths comes out as itself only while the doubles lie close enough
(`cents_eq`). A text is a numeral by its longest beginning that is one (`numeral`). -/
namespace Perl

/-! ### Digits -/

/-- `sprintf("%0wd", n)` -/
def pad (w n : Nat) : Text :=
  List.replicate (w - (Nat.toDigits 10 n).length) '0' ++ Nat.toDigits 10 n

/-- The number a run of digits denotes. -/
def ofDigits (s : Text) : Nat := Nat.ofDigitChars 10 s 0

theorem isDigit_of_mem_toDigits {n : Nat} {c : Char} (h : c ∈ Nat.toDigits 10 n) : c.isDigit :=
  Nat.isDigit_of_mem_toDigits (by decide) (by decide) h

theorem isDigit_of_mem_pad {w n : Nat} {c : Char} (h : c ∈ pad w n) : c.isDigit := by
  rcases List.mem_append.mp h with h | h
  · rw [List.eq_of_mem_replicate h]
    rfl
  · exact isDigit_of_mem_toDigits h

theorem pad_ne_nil (w n : Nat) : pad w n ≠ [] :=
  List.append_ne_nil_of_right_ne_nil _ Nat.toDigits_ne_nil

theorem ofDigits_toDigits (n : Nat) : ofDigits (Nat.toDigits 10 n) = n :=
  Nat.ofDigitChars_ten_toDigits

theorem ofDigits_append (s t : Text) :
    ofDigits (s ++ t) = ofDigits s * 10 ^ t.length + ofDigits t := by
  rw [ofDigits, Nat.ofDigitChars_append, Nat.ofDigitChars_eq_ofDigitChars_zero, ofDigits, ofDigits,
    Nat.mul_comm]

theorem ofDigits_pad (w n : Nat) : ofDigits (pad w n) = n := by
  rw [ofDigits, pad, Nat.ofDigitChars_append, Nat.ofDigitChars_replicate_zero, Nat.mul_zero]
  exact ofDigits_toDigits n

theorem length_pad {w n : Nat} (hw : 0 < w) (h : n < 10 ^ w) : (pad w n).length = w := by
  have hlen := (Nat.length_toDigits_le_iff (n := n) (by decide : 1 < 10) hw).mpr h
  rw [pad, List.length_append, List.length_replicate]
  omega

/-! ### Rounding -/

/-- `a / b` to the nearest whole number, a half to the even one. -/
def roundHalfEven (a b : Nat) : Nat :=
  if 2 * (a % b) < b ∨ 2 * (a % b) = b ∧ a / b % 2 = 0 then a / b else a / b + 1

theorem roundHalfEven_near (a : Nat) {b : Nat} (hb : 0 < b) :
    2 * a ≤ 2 * (b * roundHalfEven a b) + b ∧ 2 * (b * roundHalfEven a b) ≤ 2 * a + b := by
  have hdiv := Nat.div_add_mod a b
  have hmod := Nat.mod_lt a hb
  unfold roundHalfEven
  split
  · omega
  · rw [Nat.mul_add, Nat.mul_one]
    omega

theorem roundHalfEven_eq {a b c : Nat} (hlo : 2 * a < 2 * (b * c) + b)
    (hhi : 2 * (b * c) < 2 * a + b) : roundHalfEven a b = c := by
  have hb : 0 < b := by
    refine Nat.pos_of_ne_zero fun hb => ?_
    rw [hb] at hlo hhi
    omega
  obtain ⟨h1, h2⟩ := roundHalfEven_near a hb
  rcases Nat.lt_trichotomy (roundHalfEven a b) c with h | h | h
  · have hstep := Nat.mul_le_mul_left b (Nat.succ_le_of_lt h)
    rw [Nat.mul_succ] at hstep
    omega
  · exact h
  · have hstep := Nat.mul_le_mul_left b (Nat.succ_le_of_lt h)
    rw [Nat.mul_succ] at hstep
    omega

theorem div_le_roundHalfEven (a b : Nat) : a / b ≤ roundHalfEven a b := by
  unfold roundHalfEven
  split
  · exact Nat.le_refl _
  · exact Nat.le_succ _

/-! ### Decimals -/

/-- A numeral: the last `places` of its digits stand behind the point. -/
structure Decimal where
  negative : Bool
  digits : Nat
  places : Nat
deriving DecidableEq, Repr

namespace Decimal

/-- `-$x` -/
def neg (x : Decimal) : Decimal := {x with negative := !x.negative}

/-- How often the least double goes into one. -/
def one : Nat := 2 ^ 1074

/-- The magnitude of the double nearest to `x`, counted in the least double; infinity
is `none`. A double has 53 bits. -/
def double (x : Decimal) : Option Nat :=
  let n := x.digits * one
  let d := 10 ^ x.places
  let ulp := 2 ^ (Nat.log2 (n / d) - 52)
  let m := roundHalfEven n (d * ulp) * ulp
  if m < 2 ^ 1024 * one then some m else none

/-- `$x > 0` -/
def IsPos (x : Decimal) : Prop := x.negative = false ∧ x.double ≠ some 0

/-- `$x < 0` -/
def IsNeg (x : Decimal) : Prop := x.negative = true ∧ x.double ≠ some 0

instance (x : Decimal) : Decidable x.IsPos := inferInstanceAs (Decidable (_ ∧ _))
instance (x : Decimal) : Decidable x.IsNeg := inferInstanceAs (Decidable (_ ∧ _))

/-- `$x == $y` -/
def Equal (x y : Decimal) : Prop :=
  x.double = y.double ∧ (x.negative = y.negative ∨ x.double = some 0)

instance (x y : Decimal) : Decidable (x.Equal y) := inferInstanceAs (Decidable (_ ∧ _))

/-- `$x < n` -/
def Below (x : Decimal) (n : Nat) : Prop :=
  x.negative = true ∧ (n ≠ 0 ∨ x.double ≠ some 0) ∨ ∃ m ∈ x.double, m < n * one

instance (x : Decimal) (n : Nat) : Decidable (x.Below n) :=
  match h : x.double with
  | none => decidable_of_iff (x.negative = true ∧ (n ≠ 0 ∨ x.double ≠ some 0)) (by simp [Below, h])
  | some m =>
    decidable_of_iff (x.negative = true ∧ (n ≠ 0 ∨ x.double ≠ some 0) ∨ m < n * one)
      (by simp [Below, h])

/-- `abs($x)` -/
def abs (x : Decimal) : Decimal := {x with negative := false}

/-- The magnitude in hundredths, as `%.2f` rounds it. -/
def cents (x : Decimal) : Option Nat := x.double.map fun m => roundHalfEven (100 * m) one

/-- Hundredths written out. -/
def hundredths (c : Nat) : Text := Nat.toDigits 10 (c / 100) ++ '.' :: pad 2 (c % 100)

/-- `sprintf("%2.2f", $x)` -/
def sprintf2 (x : Decimal) : Text :=
  (if x.negative then ['-'] else []) ++
    match x.cents with
    | some c => hundredths c
    | none => "Inf".toList

/-- `x` is the number of hundredths `%.2f` prints. -/
def PrintsExactly (x : Decimal) : Prop := ∃ c ∈ x.cents, c * 10 ^ x.places = x.digits * 100

instance (x : Decimal) : Decidable x.PrintsExactly :=
  match h : x.cents with
  | none => isFalse (by simp [PrintsExactly, h])
  | some c =>
    decidable_of_iff (c * 10 ^ x.places = x.digits * 100) (by simp [PrintsExactly, h])

/-! ### Reading a number -/

/-- A sign in front, and what follows it. -/
def sign : Text → Bool × Text
  | '-' :: s => (true, s)
  | '+' :: s => (false, s)
  | s => (false, s)

/-- `e` or `E` and a signed run of digits; 0 where there is none. -/
def exponent : Text → Int
  | c :: s =>
    if c = 'e' ∨ c = 'E' then
      let (negative, s) := sign s
      let n : Int := ofDigits (s.takeWhile Char.isDigit)
      if negative then -n else n
    else 0
  | [] => 0

/-- `x * 10 ** e` -/
def scale (x : Decimal) (e : Int) : Decimal :=
  if x.places ≤ e then {x with digits := x.digits * 10 ^ (e - x.places).toNat, places := 0}
  else {x with places := (x.places - e).toNat}

/-- The digits behind a point, and what follows them. -/
def fraction : Text → Text × Text
  | '.' :: s => (s.takeWhile Char.isDigit, s.dropWhile Char.isDigit)
  | s => ([], s)

/-- The numeral a text begins with, behind blanks and a sign, else 0. -/
def numeral (s : Text) : Decimal :=
  let (negative, s) := sign (s.dropWhile isSpace)
  let whole := s.takeWhile Char.isDigit
  let (frac, s) := fraction (s.dropWhile Char.isDigit)
  if whole = [] ∧ frac = [] then ⟨false, 0, 0⟩
  else scale ⟨negative, ofDigits (whole ++ frac), frac.length⟩ (exponent s)

/-! ### Whole numbers -/

/-- `x` cut to a whole number, in the 64 bits `%d` prints. -/
def toInt (x : Decimal) : Int :=
  let n : Nat := if x.places = 0 then x.digits else x.double.getD (2 ^ 1024 * one) / one
  if x.negative then -(min n (2 ^ 63)) else if n < 2 ^ 63 then n else min n (2 ^ 64 - 1) - 2 ^ 64

/-- `sprintf("%0wd", $x)` -/
def padInt (w : Nat) (x : Decimal) : Text :=
  if x.toInt < 0 then '-' :: pad (w - 1) x.toInt.natAbs else pad w x.toInt.natAbs

/-! ### What is printed is read -/

theorem one_pos : 0 < one := by
  unfold one
  positivity

theorem two_pow_le_one {k : Nat} (h : k ≤ 1074) : 2 ^ k ≤ one := by
  unfold one
  exact pow_le_pow_right₀ one_le_two h

theorem double_zero {x : Decimal} (h : x.digits = 0) : x.double = some 0 := by
  have hround (b : Nat) (hb : 0 < b) : roundHalfEven 0 b = 0 :=
    roundHalfEven_eq (by omega) (by omega)
  have hd : 0 < 10 ^ x.places * 2 ^ (Nat.log2 (0 / 10 ^ x.places) - 52) := by positivity
  have hlt : 0 < 2 ^ 1024 * one := Nat.mul_pos (by positivity) one_pos
  simp only [double, h, Nat.zero_mul, hround _ hd, if_pos hlt]

theorem double_ne_zero {x : Decimal} (h : 10 ^ x.places ≤ x.digits * one) : x.double ≠ some 0 := by
  have hd : 0 < 10 ^ x.places := by positivity
  have hquot : x.digits * one / 10 ^ x.places ≠ 0 := by
    rw [Nat.div_ne_zero_iff]
    exact ⟨Nat.ne_of_gt hd, h⟩
  obtain ⟨ulp, hulp⟩ : ∃ ulp, ulp = 2 ^ (Nat.log2 (x.digits * one / 10 ^ x.places) - 52) := ⟨_, rfl⟩
  have hpos : 0 < ulp := by
    rw [hulp]
    positivity
  have hle : ulp ≤ x.digits * one / 10 ^ x.places := by
    rw [hulp]
    exact (Nat.pow_le_pow_right (by decide) (Nat.sub_le _ _)).trans (Nat.log2_self_le hquot)
  have hmul : 10 ^ x.places * ulp ≤ x.digits * one :=
    (Nat.mul_le_mul_left _ hle).trans (Nat.mul_div_le _ _)
  have hround := (Nat.div_pos hmul (Nat.mul_pos hd hpos)).trans_le (div_le_roundHalfEven _ _)
  simp only [double, ← hulp]
  split
  · intro hzero
    exact Nat.ne_of_gt (Nat.mul_pos hround hpos) (Option.some.inj hzero)
  · nofun

theorem log2_lt_of_lt {n k : Nat} (hk : 0 < k) (h : n < 2 ^ k) : Nat.log2 n < k := by
  by_cases h0 : n = 0
  · rw [h0]
    exact hk
  · exact (Nat.log2_lt h0).mpr h

/-- The last bit of the double of a magnitude below `2 ** 46` is worth less than a
hundredth. -/
theorem ulp_le {n d : Nat} (h : n < 2 ^ 46 * d) :
    128 * 2 ^ (Nat.log2 (n * one / d) - 52) ≤ one := by
  have hquot : n * one / d < 2 ^ (46 + 1074) := by
    refine Nat.div_lt_of_lt_mul ?_
    calc n * one < 2 ^ 46 * d * one := Nat.mul_lt_mul_of_pos_right h one_pos
      _ = d * 2 ^ (46 + 1074) := by rw [pow_add, ← one]; ring
  have hlog := log2_lt_of_lt (by decide) hquot
  have hexp : 7 + (Nat.log2 (n * one / d) - 52) ≤ 1074 := by omega
  calc 128 * 2 ^ (Nat.log2 (n * one / d) - 52)
      = 2 ^ (7 + (Nat.log2 (n * one / d) - 52)) := (pow_add 2 7 _).symm
    _ ≤ one := two_pow_le_one hexp

/-- A magnitude of whole hundredths below `2 ** 46` is printed as it is. -/
theorem cents_eq {x : Decimal} {c : Nat} (hc : c * 10 ^ x.places = x.digits * 100)
    (hlt : x.digits < 2 ^ 46 * 10 ^ x.places) : x.cents = some c := by
  obtain ⟨d, hd⟩ : ∃ d, d = 10 ^ x.places := ⟨_, rfl⟩
  have hdpos : 0 < d := by
    rw [hd]
    positivity
  obtain ⟨ulp, hulp⟩ : ∃ ulp, ulp = 2 ^ (Nat.log2 (x.digits * one / d) - 52) := ⟨_, rfl⟩
  have hpos : 0 < ulp := by
    rw [hulp]
    positivity
  rw [← hd] at hc hlt
  have hle : 128 * ulp ≤ one := by
    rw [hulp]
    exact ulp_le hlt
  obtain ⟨r, hr⟩ : ∃ r, r = roundHalfEven (x.digits * one) (d * ulp) := ⟨_, rfl⟩
  obtain ⟨h1, h2⟩ := hr ▸ roundHalfEven_near (x.digits * one) (Nat.mul_pos hdpos hpos)
  -- everything times the denominator
  have hnear : d * ulp * r = d * (r * ulp) := by ring
  have hlast : 128 * (d * ulp) ≤ d * one := by
    calc 128 * (d * ulp) = d * (128 * ulp) := by ring
      _ ≤ d * one := Nat.mul_le_mul_left d hle
  have hwhole : d * (one * c) = 100 * (x.digits * one) := by
    calc d * (one * c) = c * d * one := by ring
      _ = x.digits * 100 * one := by rw [hc]
      _ = 100 * (x.digits * one) := by ring
  have hulppos : 0 < d * ulp := Nat.mul_pos hdpos hpos
  rw [hnear] at h1 h2
  have hsmall : d * (r * ulp) < 2 ^ 47 * (d * one) := by
    have hn : x.digits * one < 2 ^ 46 * (d * one) := by
      rw [← Nat.mul_assoc]
      exact Nat.mul_lt_mul_of_pos_right hlt one_pos
    omega
  have hfinite (k : Nat) (hk : 47 ≤ k) : r * ulp < 2 ^ k * one := by
    refine Nat.lt_of_mul_lt_mul_left (a := d) (hsmall.trans_le ?_)
    calc 2 ^ 47 * (d * one) = d * (2 ^ 47 * one) := by ring
      _ ≤ d * (2 ^ k * one) := Nat.mul_le_mul_left d
        (Nat.mul_le_mul_right one (Nat.pow_le_pow_right (by decide) hk))
  have hdouble : x.double = some (r * ulp) := by
    simp only [double, ← hd, ← hulp, ← hr, if_pos (hfinite 1024 (by decide))]
  rw [cents, hdouble, Option.map_some]
  refine congrArg some (roundHalfEven_eq (Nat.lt_of_mul_lt_mul_left (a := d) ?_)
    (Nat.lt_of_mul_lt_mul_left (a := d) ?_))
  · calc d * (2 * (100 * (r * ulp))) = 200 * (d * (r * ulp)) := by ring
      _ < 2 * (d * (one * c)) + d * one := by omega
      _ = d * (2 * (one * c) + one) := by ring
  · calc d * (2 * (one * c)) = 2 * (d * (one * c)) := by ring
      _ < 200 * (d * (r * ulp)) + d * one := by omega
      _ = d * (2 * (100 * (r * ulp)) + one) := by ring

/-- A magnitude of whole hundredths that is not too large prints exactly. -/
theorem printsExactly_of_whole {x : Decimal} {c : Nat} (hc : c * 10 ^ x.places = x.digits * 100)
    (hlt : x.digits < 2 ^ 46 * 10 ^ x.places) : x.PrintsExactly :=
  ⟨c, cents_eq hc hlt, hc⟩

theorem double_ne_zero_of_printsExactly {x : Decimal} (hx : x.digits ≠ 0) (h : x.PrintsExactly) :
    x.double ≠ some 0 := by
  obtain ⟨c, hc, hexact⟩ := h
  intro hzero
  rw [cents, hzero, Option.map_some, Option.mem_some_iff, Nat.mul_zero] at hc
  obtain rfl : roundHalfEven 0 one = c := hc
  rw [roundHalfEven_eq (c := 0) (by have := one_pos; omega) (by have := one_pos; omega),
    Nat.zero_mul] at hexact
  omega

theorem sign_of_digit {c : Char} (s : Text) (hc : c.isDigit) : sign (c :: s) = (false, c :: s) := by
  unfold sign
  split
  · rename_i heq
    rw [(List.cons.inj heq).1] at hc
    cases hc
  · rename_i heq
    rw [(List.cons.inj heq).1] at hc
    cases hc
  · rfl

theorem not_isSpace_of_isDigit {c : Char} (hc : c.isDigit) : isSpace c = false := by
  cases h : isSpace c with
  | false => rfl
  | true =>
    simp only [isSpace, List.mem_cons, List.not_mem_nil, or_false, decide_eq_true_eq] at h
    rcases h with rfl | rfl | rfl | rfl | rfl | rfl <;> cases hc

theorem scale_zero (x : Decimal) : scale x 0 = x := by
  obtain ⟨negative, digits, places⟩ := x
  unfold scale
  split
  · rename_i h
    obtain rfl : places = 0 := by simpa using h
    simp
  · simp

/-- A numeral with a point is read as it stands. -/
theorem numeral_point (negative : Bool) {whole frac : Text} (hwhole : ∀ c ∈ whole, c.isDigit)
    (hfrac : ∀ c ∈ frac, c.isDigit) (hne : whole ≠ []) :
    numeral ((if negative then ['-'] else []) ++ (whole ++ '.' :: frac)) =
      ⟨negative, ofDigits (whole ++ frac), frac.length⟩ := by
  obtain ⟨d, ds, rfl⟩ := List.exists_cons_of_ne_nil hne
  have hd : d.isDigit := hwhole d List.mem_cons_self
  have hsign :
      sign (((if negative then ['-'] else []) ++ (d :: ds ++ '.' :: frac)).dropWhile isSpace) =
      (negative, d :: ds ++ '.' :: frac) := by
    cases negative with
    | true => rfl
    | false =>
      rw [if_neg (by decide), List.nil_append, List.cons_append,
        List.dropWhile_cons_of_neg (by simp [not_isSpace_of_isDigit hd]), sign_of_digit _ hd]
  have hend : ∀ c ∈ ('.' :: frac).head?, c.isDigit = false := by simp
  have htake := Regex.takeWhile_run hwhole hend
  have hdrop := Regex.dropWhile_run hwhole hend
  have hfraction : fraction ('.' :: frac) = (frac, []) := by
    rw [fraction, List.takeWhile_eq_self_iff.mpr hfrac, List.dropWhile_eq_nil_iff.mpr hfrac]
  have hwholeNe : ¬ (d :: ds = [] ∧ frac = []) := fun h => hne h.1
  simp only [numeral, hsign, htake, hdrop, hfraction, if_neg hwholeNe, exponent]
  exact scale_zero _

/-- A run of digits is read as the number it denotes. -/
theorem numeral_digits {s : Text} (hs : ∀ c ∈ s, c.isDigit) (hne : s ≠ []) :
    numeral s = ⟨false, ofDigits s, 0⟩ := by
  obtain ⟨d, ds, rfl⟩ := List.exists_cons_of_ne_nil hne
  have hd : d.isDigit := hs d List.mem_cons_self
  have hsign : sign ((d :: ds).dropWhile isSpace) = (false, d :: ds) := by
    rw [List.dropWhile_cons_of_neg (by simp [not_isSpace_of_isDigit hd]), sign_of_digit _ hd]
  have hfraction : fraction [] = ([], []) := rfl
  simp only [numeral, hsign, List.takeWhile_eq_self_iff.mpr hs, List.dropWhile_eq_nil_iff.mpr hs,
    hfraction, reduceCtorEq, false_and, if_false, exponent, List.append_nil]
  exact scale_zero _

/-- Whole numbers that are not too large are printed as they are. -/
theorem padInt_whole (w : Nat) {n : Nat} (h : n < 2 ^ 63) : padInt w ⟨false, n, 0⟩ = pad w n := by
  have hint : toInt ⟨false, n, 0⟩ = n := by
    unfold toInt
    simp only [if_true, Bool.false_eq_true, if_false, if_pos h]
  rw [padInt, hint, if_neg (Int.not_lt.mpr (Int.natCast_nonneg n)), Int.natAbs_natCast]

theorem sprintf2_of_cents {x : Decimal} {c : Nat} (hx : x.negative = false)
    (hc : x.cents = some c) : x.sprintf2 = hundredths c := by
  rw [sprintf2, hx, hc]
  rfl

theorem mem_hundredths {c : Nat} {ch : Char} (h : ch ∈ hundredths c) : ch.isDigit ∨ ch = '.' := by
  rcases List.mem_append.mp h with h | h
  · exact .inl (isDigit_of_mem_toDigits h)
  · rcases List.mem_cons.mp h with rfl | h
    · exact .inr rfl
    · exact .inl (isDigit_of_mem_pad h)

theorem mem_sprintf2 {x : Decimal} {ch : Char} (h : ch ∈ x.sprintf2) :
    ch.isDigit ∨ ch ∈ ['-', '.', 'I', 'n', 'f'] := by
  rcases List.mem_append.mp h with h | h
  · split at h
    · exact .inr (by simpa using Or.inl (List.mem_singleton.mp h))
    · cases h
  · split at h
    · exact (mem_hundredths h).imp id fun h => by simp [h]
    · exact .inr (List.mem_cons_of_mem _ (List.mem_cons_of_mem _ h))

end Decimal

end Perl
