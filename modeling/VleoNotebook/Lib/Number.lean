import Mathlib.Data.List.Infix
import VleoNotebook.Lib.Decimal

/-! What Perl counts with where a text stands for a number.

A text that begins with a word for infinity, or for what is no number, is read as that,
whatever follows the word; any other text as the numeral it begins with (`numify`). No
number is neither above nor below another nor equal to one, and it is not zero. -/
namespace Perl

/-- A numeral, infinity, or no number. -/
inductive Number where
  | num (x : Decimal)
  | inf (negative : Bool)
  | nan
deriving DecidableEq, Repr

namespace Number

open Decimal (sign numeral hundredths)

/-- `-$x` -/
def neg : Number → Number
  | num x => num x.neg
  | inf negative => inf !negative
  | nan => nan

/-- `abs($x)` -/
def abs : Number → Number
  | num x => num x.abs
  | inf _ => inf false
  | nan => nan

/-- The numeral it is compared as. -/
def size : Number → Option Decimal
  | num x => some x
  | inf negative => some ⟨negative, 2 ^ 1024, 0⟩
  | nan => none

/-- `$x > 0` -/
def IsPos (x : Number) : Prop := ∃ d ∈ x.size, d.IsPos

/-- `$x != 0` -/
def IsNonzero (x : Number) : Prop := ∀ d ∈ x.size, d.double ≠ some 0

/-- `$x == $y` -/
def Equal (x y : Number) : Prop := ∃ d ∈ x.size, ∃ e ∈ y.size, d.Equal e

/-- `$x < n` -/
def Below (x : Number) (n : Nat) : Prop := ∃ d ∈ x.size, d.Below n

instance (x : Number) : Decidable x.IsPos := inferInstanceAs (Decidable (∃ _ ∈ _, _))
instance (x : Number) : Decidable x.IsNonzero := inferInstanceAs (Decidable (∀ _ ∈ _, _))
instance (x y : Number) : Decidable (x.Equal y) := inferInstanceAs (Decidable (∃ _ ∈ _, _))
instance (x : Number) (n : Nat) : Decidable (x.Below n) :=
  inferInstanceAs (Decidable (∃ _ ∈ _, _))

/-- `Inf` and `NaN` are printed in every format. -/
def print (format : Decimal → Text) : Number → Text
  | num x => format x
  | inf negative => (if negative then "-Inf" else "Inf").toList
  | nan => "NaN".toList

/-- `sprintf("%2.2f", $x)` -/
def sprintf2 : Number → Text := print Decimal.sprintf2

/-- `sprintf("%0wd", $x)` -/
def padInt (w : Nat) : Number → Text
  | num x => x.padInt w
  | inf negative => (if negative then "-Inf" else "Inf").toList.leftpad w '0'
  | nan => "NaN".toList.leftpad w '0'

/-! ### Reading a number -/

/-- `grok_infnan`: what a text behind a sign stands for, if it begins with a word. -/
def infnan (negative : Bool) (s : Text) : Option Number :=
  let s := s.map Char.toLower
  let odd := ["1#", "1.#"].findSome? fun p => s.dropPrefix? p.toList
  let word := odd.getD s
  if "inf".toList <+: word then some (inf negative)
  else if (∃ w ∈ ["nan", "snan", "qnan"], w.toList <+: word) ∨
      odd.isSome ∧ "ind".toList <+: word then
    some nan
  else none

/-- `$s + 0` -/
def numify (s : Text) : Number :=
  let (negative, rest) := sign (s.dropWhile isSpace)
  (infnan negative rest).getD (num (numeral s))

example : [" -infx", "1.#QNAN", "nan(1)", "in", "1.5e1x"].map (numify ·.toList) =
    [inf true, nan, nan, num ⟨false, 0, 0⟩, num ⟨false, 15, 0⟩] := by
  decide

/-! ### Numerals -/

@[simp] theorem isPos_num (x : Decimal) : (num x).IsPos ↔ x.IsPos := by
  simp [IsPos, size]

@[simp] theorem isNonzero_num (x : Decimal) : (num x).IsNonzero ↔ x.double ≠ some 0 := by
  simp [IsNonzero, size]

@[simp] theorem equal_num (x y : Decimal) : (num x).Equal (num y) ↔ x.Equal y := by
  simp [Equal, size]

@[simp] theorem sprintf2_num (x : Decimal) : (num x).sprintf2 = x.sprintf2 := rfl

theorem not_isPos_inf_true : ¬ (inf true).IsPos := by
  rintro ⟨d, hd, hpos, -⟩
  obtain rfl := Option.some.inj hd
  cases hpos

theorem isNonzero_of_isPos {x : Number} (h : x.IsPos) : x.IsNonzero := by
  obtain ⟨d, hd, hpos⟩ := h
  intro e he
  rw [Option.mem_def] at hd he
  rw [hd] at he
  obtain rfl := Option.some.inj he
  exact hpos.2

theorem sign_suffix (s : Text) : (sign s).2 <:+ s := by
  unfold sign
  split
  · exact List.suffix_cons _ _
  · exact List.suffix_cons _ _
  · exact List.suffix_rfl

/-- Every word has an `n`. -/
theorem infnan_eq_none (negative : Bool) {s : Text} (h : 'n' ∉ s.map Char.toLower) :
    infnan negative s = none := by
  obtain ⟨odd, hodd⟩ : ∃ odd : Option Text, odd = ["1#", "1.#"].findSome? fun p =>
    (s.map Char.toLower).dropPrefix? p.toList := ⟨_, rfl⟩
  have hword : 'n' ∉ odd.getD (s.map Char.toLower) := by
    cases hfound : odd with
    | none => exact h
    | some word =>
      rw [hodd] at hfound
      obtain ⟨p, -, hp⟩ := List.exists_of_findSome?_eq_some hfound
      obtain ⟨p', heq, -⟩ := List.dropPrefix?_eq_some_iff.mp hp
      rw [heq] at h
      exact fun hmem => h (List.mem_append_right _ hmem)
  have hno {w : Text} (hw : 'n' ∈ w) : ¬ w <+: odd.getD (s.map Char.toLower) :=
    fun hfront => hword (hfront.mem hw)
  simp only [infnan, ← hodd]
  rw [if_neg (hno (by decide)), if_neg]
  intro hwords
  rcases hwords with hwords | hwords
  · obtain ⟨w, hw, hfront⟩ := hwords
    exact hno ((by decide : ∀ w ∈ ["nan", "snan", "qnan"], 'n' ∈ w.toList) w hw) hfront
  · exact hno (by decide) hwords.2

/-- A text without an `n` is read as a numeral. -/
theorem numify_eq_num {s : Text} (h : ∀ c ∈ s, c.toLower ≠ 'n') : numify s = num (numeral s) := by
  have hmap : 'n' ∉ (sign (s.dropWhile isSpace)).2.map Char.toLower := by
    intro hmem
    obtain ⟨c, hc, hlower⟩ := List.mem_map.mp hmem
    exact h c ((List.dropWhile_suffix _).subset ((sign_suffix _).subset hc)) hlower
  simp only [numify, infnan_eq_none _ hmap, Option.getD_none]

theorem toLower_of_isDigit {c : Char} (hc : c.isDigit) : c.toLower = c := by
  have hle : c.val.toNat ≤ 57 := by
    simp only [Char.isDigit, Bool.and_eq_true, decide_eq_true_eq] at hc
    exact UInt32.le_iff_toNat_le.mp hc.2
  unfold Char.toLower
  split
  · rename_i hupper
    have hge : 65 ≤ c.val.toNat := UInt32.le_iff_toNat_le.mp hupper.1
    omega
  · rfl

theorem toLower_ne_of_isDigit {c : Char} (hc : c.isDigit) : c.toLower ≠ 'n' := by
  rw [toLower_of_isDigit hc]
  rintro rfl
  cases hc

/-- A numeral with a point is read as it stands. -/
theorem numify_point (negative : Bool) {whole frac : Text} (hwhole : ∀ c ∈ whole, c.isDigit)
    (hfrac : ∀ c ∈ frac, c.isDigit) (hne : whole ≠ []) :
    numify ((if negative then ['-'] else []) ++ (whole ++ '.' :: frac)) =
      num ⟨negative, ofDigits (whole ++ frac), frac.length⟩ := by
  rw [numify_eq_num, Decimal.numeral_point negative hwhole hfrac hne]
  intro c hc
  rcases List.mem_append.mp hc with hc | hc
  · split at hc
    · rw [List.mem_singleton.mp hc]
      decide
    · cases hc
  · rcases List.mem_append.mp hc with hc | hc
    · exact toLower_ne_of_isDigit (hwhole c hc)
    · rcases List.mem_cons.mp hc with rfl | hc
      · decide
      · exact toLower_ne_of_isDigit (hfrac c hc)

/-- A run of digits is read as the number it denotes. -/
theorem numify_digits {s : Text} (hs : ∀ c ∈ s, c.isDigit) (hne : s ≠ []) :
    numify s = num ⟨false, ofDigits s, 0⟩ := by
  rw [numify_eq_num fun c hc => toLower_ne_of_isDigit (hs c hc), Decimal.numeral_digits hs hne]

theorem numify_pad (w n : Nat) : numify (pad w n) = num ⟨false, n, 0⟩ := by
  rw [numify_digits (fun _ => isDigit_of_mem_pad) (pad_ne_nil w n), ofDigits_pad]

theorem numify_nil : numify [] = num ⟨false, 0, 0⟩ := rfl

theorem not_isNonzero_nil : ¬ (numify []).IsNonzero := by
  rw [numify_nil, isNonzero_num, not_not]
  exact Decimal.double_zero rfl

theorem not_isPos_nil : ¬ (numify []).IsPos := fun h => not_isNonzero_nil (isNonzero_of_isPos h)

/-! ### What is printed is read -/

/-- Printed hundredths are read as what they are. -/
theorem numify_hundredths (negative : Bool) (c : Nat) :
    numify ((if negative then ['-'] else []) ++ hundredths c) = num ⟨negative, c, 2⟩ := by
  have hlen : (pad 2 (c % 100)).length = 2 := length_pad (by decide) (Nat.mod_lt c (by decide))
  have hvalue : ofDigits (Nat.toDigits 10 (c / 100) ++ pad 2 (c % 100)) = c := by
    rw [ofDigits_append, ofDigits_toDigits, ofDigits_pad, hlen]
    omega
  rw [hundredths, numify_point negative (fun _ => isDigit_of_mem_toDigits)
    (fun _ => isDigit_of_mem_pad) Nat.toDigits_ne_nil, hvalue, hlen]

theorem isPos_hundredths {c : Nat} : (numify (hundredths c)).IsPos ↔ c ≠ 0 := by
  have hread : numify (hundredths c) = num ⟨false, c, 2⟩ := numify_hundredths false c
  rw [hread, isPos_num, Decimal.IsPos]
  constructor
  · rintro ⟨-, hpos⟩ rfl
    exact hpos (Decimal.double_zero rfl)
  · intro hc
    refine ⟨rfl, Decimal.double_ne_zero ?_⟩
    calc 10 ^ 2 ≤ Decimal.one :=
          (by decide : 10 ^ 2 ≤ 2 ^ 7).trans (Decimal.two_pow_le_one (by decide))
      _ ≤ c * Decimal.one := Nat.le_mul_of_pos_left _ (Nat.pos_of_ne_zero hc)

/-- What is printed of a negative number is not positive. -/
theorem not_isPos_sprintf2 {x : Decimal} (hx : x.negative = true) :
    ¬ (numify x.sprintf2).IsPos := by
  cases hc : x.cents with
  | some c =>
    rw [Decimal.sprintf2, hx, hc, numify_hundredths true c, isPos_num]
    exact fun hpos => Bool.noConfusion hpos.1
  | none =>
    have hprint : x.sprintf2 = "-Inf".toList := by
      rw [Decimal.sprintf2, hx, hc]
      rfl
    have hread : numify "-Inf".toList = inf true := by decide
    rw [hprint, hread]
    exact not_isPos_inf_true

/-- What prints exactly is positive as printed when it is not zero. -/
theorem isPos_sprintf2_iff {x : Decimal} (hx : x.negative = false) (h : x.PrintsExactly) :
    (numify x.sprintf2).IsPos ↔ x.digits ≠ 0 := by
  obtain ⟨c, hc, hexact⟩ := h
  rw [Decimal.sprintf2_of_cents hx hc, isPos_hundredths]
  have hpos : 0 < 10 ^ x.places := by positivity
  constructor
  · rintro hne hzero
    rw [hzero, Nat.zero_mul] at hexact
    exact hne ((Nat.mul_eq_zero.mp hexact).resolve_right (Nat.ne_of_gt hpos))
  · rintro hne rfl
    omega

/-- Whole numbers that are not too large are printed as they are. -/
theorem padInt_whole (w : Nat) {n : Nat} (h : n < 2 ^ 63) :
    (num ⟨false, n, 0⟩).padInt w = pad w n := by
  rw [padInt, Decimal.padInt_whole w h]

theorem mem_sprintf2 {x : Number} {ch : Char} (h : ch ∈ x.sprintf2) :
    ch.isDigit ∨ ch ∈ ['-', '.', 'I', 'n', 'f', 'N', 'a'] := by
  cases x with
  | num x =>
    rw [sprintf2_num] at h
    refine (Decimal.mem_sprintf2 h).imp id fun hmem => ?_
    exact List.mem_append_left ['N', 'a'] hmem
  | inf negative =>
    cases negative <;>
      simp only [sprintf2, print, Bool.false_eq_true, if_true, if_false, String.reduceToList,
        List.mem_cons, List.not_mem_nil] at h ⊢ <;> tauto
  | nan =>
    simp only [sprintf2, print, String.reduceToList, List.mem_cons, List.not_mem_nil] at h ⊢
    tauto

end Number

end Perl
