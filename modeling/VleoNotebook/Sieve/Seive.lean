import VleoNotebook.Lib.WordBits
import VleoNotebook.Sieve.SimpleSieve

/-! The sieve in C (`seive.c`).

It has a bit for each odd number below ten times its bound, 32 to a word; its constants are
those of a larger bound than the one it names. Up to there `isprime` is right, and behind it
says yes to every odd number until the array ends (`isprime_exact`). An access outside the array
is no result here. -/
namespace VleoNotebook.Sieve.C

open Composite (Crossed Multiple)
open ForLoop (forLoop)
open WordBits (bit put)

/-- `MAXN` -/
def maxn : Nat := 10000000

/-- `P1`, the words of the array. -/
def p1 : Nat := 1562501

/-- `P2`, its bits in use. -/
def p2 : Nat := 50000000

/-- `P3`, the last factor. -/
def p3 : Nat := 5000

/-- `GET(b)` -/
def get (sieve : List (BitVec 32)) (b : Nat) : Option (BitVec 32) := do
  return ((← sieve[b >>> 5]?) >>> (b &&& 31)) &&& 1#32

/-- `sieve[i>>5]|=1<<(i&31)` -/
def mark (sieve : List (BitVec 32)) (i : Nat) : Option (List (BitVec 32)) := do
  return sieve.set (i >>> 5) ((← sieve[i >>> 5]?) ||| 1#32 <<< (i &&& 31))

/-- `for(;i<P2;i+=j) sieve[i>>5]|=1<<(i&31);` on 32 bits -/
def cross (j : Nat) : Nat → Nat → List (BitVec 32) → Option (List (BitVec 32))
  | 0, _, _ => none
  | fuel + 1, i, sieve => do
    if i < p2 then cross j fuel ((i + j) % 2 ^ 32) (← mark sieve i) else some sieve

/-- The body of the loop over `k`. -/
def makeTurn (k : Nat) (sieve : List (BitVec 32)) : Option (List (BitVec 32)) := do
  if (← get sieve k) = 0 then
    cross ((2 * k + 1) % 2 ^ 32) (p2 + 1) (2 * k * (k + 1) % 2 ^ 32) sieve
  else some sieve

/-- `for (k = 1; k <= P3; k++) ...` on an array of zeros -/
def make : Option (List (BitVec 32)) :=
  forLoop (fun k _ => k ≤ p3) 1 makeTurn (p3 + 1) 1 (List.replicate p1 0)

/-- `p==2 || (p>2 && (p&1)==1 && (GET((p-1)>>1)==0))` -/
def isprime (sieve : List (BitVec 32)) (p : ℤ) : Option Bool :=
  if p = 2 then some true
  else if 2 < p ∧ p % 2 = 1 then (get sieve ((p - 1) / 2).toNat).map fun one => one = 0
  else some false

/-- What `main` prints. -/
def main : Option String := do
  let sieve ← make
  let n ← forLoop (fun i _ => i ≤ maxn) 1
    (fun (i n : Nat) => do return if ← isprime sieve i then n + 1 else n) (maxn + 2) 0 0
  return "The number of primes below 10^7 is " ++ toString n ++ ".\n"

/-! ### Words and bits -/

section Bits
variable {sieve : List (BitVec 32)} {b : Nat}

theorem shift_eq (b : Nat) : b >>> 5 = b / 32 := Nat.shiftRight_eq_div_pow b 5

theorem mask_eq (b : Nat) : b &&& 31 = b % 32 := Nat.and_two_pow_sub_one_eq_mod b 5

theorem get_eq (hb : b < 32 * sieve.length) :
    ∃ one, get sieve b = some one ∧ (one = 0 ↔ bit sieve b = false) := by
  have hindex := WordBits.index_lt hb
  refine ⟨(sieve[b / 32] >>> (b % 32)) &&& 1#32, ?_, ?_⟩
  · simp only [get, shift_eq, mask_eq, List.getElem?_eq_getElem hindex]
    rfl
  · rw [bit, List.getElem?_eq_getElem hindex, Option.map_some, Option.getD_some,
      BitVec.and_one_eq_setWidth_ofBool_getLsbD, BitVec.getLsbD_ushiftRight, Nat.add_zero]
    cases sieve[b / 32].getLsbD (b % 32) <;> decide

theorem get_eq_none (hb : 32 * sieve.length ≤ b) : get sieve b = none := by
  have hindex : sieve.length ≤ b / 32 := (Nat.le_div_iff_mul_le (by decide)).mpr (by omega)
  simp only [get, shift_eq, List.getElem?_eq_none hindex]
  rfl

theorem mark_eq (hb : b < 32 * sieve.length) : mark sieve b = some (put sieve b) := by
  have hindex := WordBits.index_lt hb
  simp only [mark, put, shift_eq, mask_eq, List.getElem?_eq_getElem hindex]
  rfl

end Bits

/-! ### The loops -/

/-- No addition of the inner loop runs over. -/
theorem cross_eq_forLoop {j : Nat} (hj : p2 + j ≤ 2 ^ 32) (fuel i : Nat)
    (sieve : List (BitVec 32)) :
    cross j fuel i sieve = forLoop (fun i _ => i < p2) j (fun i sieve => mark sieve i) fuel i sieve := by
  induction fuel generalizing i sieve with
  | zero => rfl
  | succ fuel ih =>
    rw [cross, forLoop]
    by_cases hi : i < p2
    · rw [if_pos hi, if_pos (decide_eq_true hi), Nat.mod_eq_of_lt (by omega)]
      cases mark sieve i with
      | none => rfl
      | some sieve' => exact ih (i + j) sieve'
    · rw [if_neg hi, if_neg (by rw [decide_eq_false hi]; exact Bool.false_ne_true)]

/-- The inner loop puts the bits of the multiples, and no others. -/
theorem cross_eq (start : Nat) (sieve : List (BitVec 32)) {j : Nat} (hpos : 0 < j)
    (hj : p2 + j ≤ 2 ^ 32) (hlength : p2 ≤ 32 * sieve.length) :
    ∃ sieve', cross j (p2 + 1) start sieve = some sieve' ∧ sieve'.length = sieve.length ∧
      ∀ b, bit sieve' b = true ↔
        bit sieve b = true ∨ b < p2 ∧ ∃ s, b = start + s * j := by
  have hturn (i : Nat) (t : List (BitVec 32))
      (ht : t.length = sieve.length ∧ ∃ r, i = start + r * j ∧
        ∀ b, bit t b = true ↔ bit sieve b = true ∨ b < p2 ∧ ∃ s < r, b = start + s * j)
      (hi : decide (i < p2) = true) :
      ∃ t', mark t i = some t' ∧ t'.length = sieve.length ∧ ∃ r, i + j = start + r * j ∧
        ∀ b, bit t' b = true ↔ bit sieve b = true ∨ b < p2 ∧ ∃ s < r, b = start + s * j := by
    obtain ⟨hlen, r, rfl, hbits⟩ := ht
    have hlt := of_decide_eq_true hi
    have hput : start + r * j < 32 * t.length := by
      rw [hlen]
      omega
    refine ⟨_, mark_eq hput, by rw [WordBits.length_put, hlen], r + 1, by rw [Nat.succ_mul]; omega,
      fun b => ?_⟩
    rw [WordBits.bit_put hput, Bool.or_eq_true, decide_eq_true_eq, hbits b]
    constructor
    · intro h
      obtain rfl | hb | ⟨hb, s, hs, hbs⟩ := h
      · exact .inr ⟨hlt, r, Nat.lt_succ_self r, rfl⟩
      · exact .inl hb
      · exact .inr ⟨hb, s, Nat.lt_succ_of_lt hs, hbs⟩
    · intro h
      obtain hb | ⟨hb, s, hs, hbs⟩ := h
      · exact .inr (.inl hb)
      · obtain hs | rfl := Nat.lt_succ_iff_lt_or_eq.mp hs
        · exact .inr (.inr ⟨hb, s, hs, hbs⟩)
        · exact .inl hbs
  obtain ⟨i, sieve', hrun, ⟨hlen, r, rfl, hbits⟩, hstop⟩ :=
    ForLoop.holds (fun i t => t.length = sieve.length ∧ ∃ r, i = start + r * j ∧
        ∀ b, bit t b = true ↔ bit sieve b = true ∨ b < p2 ∧ ∃ s < r, b = start + s * j) p2 hpos
      (show p2 - start < p2 + 1 by omega)
      ⟨rfl, 0, by omega, fun b => ⟨.inl, fun h => h.resolve_right (by simp)⟩⟩
      (fun i t _ hi => decide_eq_false (by omega)) hturn
  have hend : p2 ≤ start + r * j := by simpa using hstop
  refine ⟨sieve', (cross_eq_forLoop hj _ _ _).trans hrun, hlen, fun b => (hbits b).trans ?_⟩
  refine or_congr_right (and_congr_right fun hb => ⟨?_, ?_⟩)
  · intro ⟨s, _, hbs⟩
    exact ⟨s, hbs⟩
  · intro ⟨s, hbs⟩
    exact ⟨s, Nat.lt_of_mul_lt_mul_right (a := j) (by omega), hbs⟩

/-- The bits are those of the odd numbers crossed out below `b`. -/
structure Sieved (b : Nat) (sieve : List (BitVec 32)) : Prop where
  length : sieve.length = p1
  crossed : ∀ k, bit sieve k = true ↔ k < p2 ∧ 1 ≤ k ∧ Crossed b (2 * k + 1)

theorem p2_le : p2 ≤ 32 * p1 := by decide

/-- One turn of the outer loop crosses out the multiples of one more odd number. -/
theorem makeTurn_eq {k : Nat} {sieve : List (BitVec 32)} (hk : 1 ≤ k) (hp3 : k ≤ p3)
    (hs : Sieved (2 * k + 1) sieve) :
    ∃ sieve', makeTurn k sieve = some sieve' ∧ Sieved (2 * (k + 1) + 1) sieve' := by
  have hmax : p3 = 5000 := rfl
  have hbits : p2 = 50000000 := rfl
  have hget : k < 32 * sieve.length := by
    have hle := p2_le
    rw [hs.length]
    omega
  obtain ⟨one, hone, hzero⟩ := get_eq hget
  by_cases hcomposite : Crossed (2 * k + 1) (2 * k + 1)
  · -- the bit is one, and what it would cross out is crossed out
    have hbit := (hs.crossed k).mpr ⟨by omega, hk, hcomposite⟩
    refine ⟨sieve, ?_, hs.length, fun i => (hs.crossed i).trans ?_⟩
    · have hne : one ≠ 0 := fun h => by
        rw [hzero.mp h] at hbit
        exact Bool.false_ne_true hbit
      simp only [makeTurn, hone, Option.bind_eq_bind, Option.bind_some, if_neg hne]
    · rw [crossed_odd hk, or_iff_left_of_imp (Composite.crossed_of_crossed hcomposite)]
  · have hbit : bit sieve k = false := by
      by_contra h
      exact hcomposite ((hs.crossed k).mp (Bool.eq_true_of_not_eq_false h)).2.2
    have hfactor : (2 * k + 1) % 2 ^ 32 = 2 * k + 1 := Nat.mod_eq_of_lt (by omega)
    have hsquare : 2 * k * (k + 1) ≤ 2 * p3 * (p3 + 1) :=
      Nat.mul_le_mul (Nat.mul_le_mul_left 2 hp3) (Nat.succ_le_succ hp3)
    have hstart : 2 * k * (k + 1) % 2 ^ 32 = k * (2 * k + 1 + 1) := by
      rw [Nat.mod_eq_of_lt (hsquare.trans_lt (by decide))]
      ring
    obtain ⟨sieve', hrun, hlength, hcrossed⟩ :=
      cross_eq (k * (2 * k + 1 + 1)) sieve (j := 2 * k + 1) (Nat.succ_pos _)
        (by omega) (by rw [hs.length]; exact p2_le)
    refine ⟨sieve', ?_, hlength.trans hs.length, fun i => ?_⟩
    · simp only [makeTurn, hone, Option.bind_eq_bind, Option.bind_some, if_pos (hzero.mpr hbit),
        hfactor, hstart]
      exact hrun
    · have hmultiple := multiple_iff k i
      have hpos : 0 < k * (2 * k + 1 + 1) := Nat.mul_pos hk (Nat.succ_pos _)
      rw [hcrossed, hs.crossed, crossed_odd hk, ← hmultiple]
      constructor
      · intro h
        obtain ⟨hi, hone, hcr⟩ | ⟨hi, hmul⟩ := h
        · exact ⟨hi, hone, .inl hcr⟩
        · obtain ⟨s, rfl⟩ := hmultiple.mp hmul
          exact ⟨hi, hpos.trans_le (Nat.le_add_right _ _), .inr hmul⟩
      · intro ⟨hi, hone, hcr⟩
        exact hcr.imp (fun h => ⟨hi, hone, h⟩) fun h => ⟨hi, h⟩

theorem make_eq : ∃ sieve b, make = some sieve ∧ 2 * p3 + 1 < b ∧ Sieved b sieve := by
  have hstart : Sieved 3 (List.replicate p1 (0#32)) := by
    refine ⟨List.length_replicate, fun k => ?_⟩
    rw [WordBits.bit_replicate]
    exact iff_of_false Bool.false_ne_true fun h => not_crossed_three k h.2.2
  have hturn (k : Nat) (t : List (BitVec 32)) (ht : 1 ≤ k ∧ Sieved (2 * k + 1) t)
      (hk : decide (k ≤ p3) = true) :
      ∃ t', makeTurn k t = some t' ∧ 1 ≤ k + 1 ∧ Sieved (2 * (k + 1) + 1) t' := by
    obtain ⟨t', hrun, hsieved⟩ := makeTurn_eq ht.1 (of_decide_eq_true hk) ht.2
    exact ⟨t', hrun, Nat.le_add_left 1 k, hsieved⟩
  obtain ⟨k, sieve, hrun, ⟨-, hsieved⟩, hstop⟩ :=
    ForLoop.holds (fun k t => 1 ≤ k ∧ Sieved (2 * k + 1) t) (p3 + 1) Nat.one_pos
      (show p3 + 1 - 1 < p3 + 1 by omega) ⟨le_rfl, hstart⟩
      (fun k t _ hk => decide_eq_false (by omega)) hturn
  have hend := of_decide_eq_false hstop
  exact ⟨sieve, 2 * k + 1, hrun, by omega, hsieved⟩

/-! ### What is a prime -/

theorem Sieved.bit_iff {b k : Nat} {sieve : List (BitVec 32)} (hs : Sieved b sieve)
    (hb : 2 * p3 + 1 < b) (hk : 1 ≤ k) (hlt : k < p2) :
    bit sieve k = false ↔ (2 * k + 1).Prime := by
  have hroot : 2 * p2 < (2 * p3 + 1) * (2 * p3 + 1) := by decide
  have hsquare : (2 * p3 + 1) * (2 * p3 + 1) ≤ b * b := Nat.mul_le_mul hb.le hb.le
  rw [Composite.prime_iff_not_crossed (by omega) (b := b) (by omega), ← Bool.not_eq_true,
    hs.crossed, and_iff_right hlt, and_iff_right hk]

/-- Right up to `2 * P2`, yes to every odd number behind, and then nothing. -/
theorem Sieved.isprime_eq {b : Nat} {sieve : List (BitVec 32)} (hs : Sieved b sieve)
    (hb : 2 * p3 + 1 < b) (p : ℤ) : isprime sieve p =
    if p ≤ 2 * p2 ∨ p % 2 = 0 then some (decide (0 ≤ p ∧ p.toNat.Prime))
    else if p < 64 * p1 then some true else none := by
  have hwords : 32 * sieve.length = 32 * p1 := by rw [hs.length]
  have hbits : p2 = 50000000 := rfl
  have harray : p1 = 1562501 := rfl
  rw [isprime]
  by_cases htwo : p = 2
  · subst htwo
    rw [if_pos rfl, if_pos (.inr rfl), decide_eq_true ⟨by decide, Nat.prime_two⟩]
  rw [if_neg htwo]
  by_cases hodd : 2 < p ∧ p % 2 = 1
  · obtain ⟨k, rfl⟩ : ∃ k : Nat, p = 2 * k + 1 := ⟨((p - 1) / 2).toNat, by omega⟩
    have hk : ((2 * (k : ℤ) + 1 - 1) / 2).toNat = k := by omega
    have hnat : (2 * (k : ℤ) + 1).toNat = 2 * k + 1 := by omega
    rw [if_pos hodd, hk, hnat]
    by_cases hlt : k < 32 * sieve.length
    · obtain ⟨one, hone, hzero⟩ := get_eq hlt
      rw [hone, Option.map_some]
      by_cases hin : k < p2
      · rw [if_pos (.inl (by omega))]
        refine congrArg some (decide_eq_decide.mpr (hzero.trans ?_))
        exact (hs.bit_iff hb (by omega) hin).trans (and_iff_right (by omega)).symm
      · have hbit : bit sieve k = false := by
          by_contra h
          exact hin ((hs.crossed k).mp (Bool.eq_true_of_not_eq_false h)).1
        rw [if_neg (by omega), if_pos (by omega), decide_eq_true (hzero.mpr hbit)]
    · rw [get_eq_none (Nat.le_of_not_lt hlt), Option.map_none, if_neg (by omega),
        if_neg (by omega)]
  · rw [if_neg hodd]
    by_cases hin : p ≤ 2 * p2 ∨ p % 2 = 0
    · rw [if_pos hin, decide_eq_false]
      intro ⟨hpos, hprime⟩
      obtain heq | hmod := hprime.eq_two_or_odd
      · omega
      · have hge := hprime.two_le
        omega
    · omega

/-- **`isprime` is right up to 10^8**, takes every odd number behind for a prime up to where the
array ends, and reads outside the array for those from there on. -/
theorem isprime_exact : ∃ sieve, make = some sieve ∧ ∀ p : ℤ, isprime sieve p =
    if p ≤ 2 * p2 ∨ p % 2 = 0 then some (decide (0 ≤ p ∧ p.toNat.Prime))
    else if p < 64 * p1 then some true else none := by
  obtain ⟨sieve, b, hmake, hb, hs⟩ := make_eq
  exact ⟨sieve, hmake, hs.isprime_eq hb⟩

/-- What `main` prints is the number of the primes up to its bound. -/
theorem main_prints : main = some ("The number of primes below 10^7 is " ++
    toString (Nat.primeCounting maxn) ++ ".\n") := by
  obtain ⟨sieve, b, hmake, hb, hs⟩ := make_eq
  have hmax : maxn = 10000000 := rfl
  have hbits : p2 = 50000000 := rfl
  have hturn (i n : Nat) (hn : i ≤ maxn + 1 ∧ n = Nat.count Nat.Prime i)
      (hi : decide (i ≤ maxn) = true) :
      ∃ n', (do return if ← isprime sieve i then n + 1 else n) = some n' ∧ i + 1 ≤ maxn + 1 ∧
        n' = Nat.count Nat.Prime (i + 1) := by
    have hle := of_decide_eq_true hi
    refine ⟨_, by rw [hs.isprime_eq hb, if_pos (.inl (by omega))]; rfl, Nat.succ_le_succ hle, ?_⟩
    rw [Nat.count_succ, hn.2, Int.toNat_natCast]
    by_cases h : i.Prime
    · simp [h]
    · simp [h]
  obtain ⟨i, n, hrun, ⟨hle, rfl⟩, hstop⟩ :=
    ForLoop.holds (fun i n => i ≤ maxn + 1 ∧ n = Nat.count Nat.Prime i) (maxn + 1) Nat.one_pos
      (show maxn + 1 - 0 < maxn + 2 by omega) ⟨Nat.zero_le _, (Nat.count_zero Nat.Prime).symm⟩
      (fun i n _ hi => decide_eq_false (by omega)) hturn
  have hend : i = maxn + 1 := by
    have hnot := of_decide_eq_false hstop
    omega
  rw [main, hmake, Option.bind_eq_bind, Option.bind_some, hrun, hend]
  rfl

end VleoNotebook.Sieve.C
