import VleoNotebook.Lib.Composite
import VleoNotebook.Lib.ForLoop
import Mathlib.NumberTheory.PrimeCounting

/-! The sieve in Perl (`seive_p5.pl`).

The array has no entry for `$max` itself, and entry 1 is never crossed out. So the list comes
out as 1 and the primes below `$max` (`seive_eq`), which is for no bound the list of the
primes up to it (`seive_ne`). A bound is put in place of the one in the program. -/
namespace VleoNotebook.Sieve.P5

open Composite (Crossed Multiple)
open ForLoop (forLoop Stored)

/-- `$a[$i]`, undef past the end. -/
def get (a : List (Option Nat)) (i : Nat) : Option Nat := (a[i]?).join

/-- `$a[$i] = $v`, which makes the array as long as it takes. -/
def set (a : List (Option Nat)) (i v : Nat) : List (Option Nat) :=
  if i < a.length then a.set i (some v)
  else a ++ List.replicate (i - a.length) none ++ [some v]

def truthy : Option Nat → Bool
  | some v => v ≠ 0
  | none => false

/-- `for ($i = 0; $i < $max; $i++) { $primes[$i] = 1; }` -/
def assume (fuel max : Nat) (primes : List (Option Nat)) : Option (List (Option Nat)) :=
  forLoop (fun i _ => i < max) 1 (fun i primes => some (set primes i 1)) fuel 0 primes

/-- `for ($j=$i; $j*$i < $max; $j+=1) { $primes[$i * $j] = 0; }` -/
def cross (fuel max i : Nat) (primes : List (Option Nat)) : Option (List (Option Nat)) :=
  forLoop (fun j _ => j * i < max) 1 (fun j primes => some (set primes (i * j) 0)) fuel i primes

/-- `for ($i=2; $i*$i <= $max;$i+=1) { if ($primes[$i]) { ... } }` -/
def sieve (fuel max : Nat) (primes : List (Option Nat)) : Option (List (Option Nat)) :=
  forLoop (fun i _ => i * i ≤ max) 1
    (fun i primes => if truthy (get primes i) then cross fuel max i primes else some primes)
    fuel 2 primes

/-- `for ($i=$min; $i<=$max; $i++) { if ($primes[$i]) { push @p, $i; } }` -/
def collect (fuel max : Nat) (primes : List (Option Nat)) : Option (List Nat) :=
  forLoop (fun i _ => i ≤ max) 1
    (fun i p => if truthy (get primes i) then some (p ++ [i]) else some p) fuel 1 []

/-- `@p` and `$size`; no loop makes more turns than there is fuel. -/
def seive (max : Nat) : Option (List Nat × Nat) := do
  let fuel := max + 2
  let primes := (List.range' 1 max).map some
  let primes ← assume fuel max primes
  let primes ← sieve fuel max primes
  let p ← collect fuel max primes
  return (p, p.length)

/-! ### The loops -/

theorem set_eq {a : List (Option Nat)} {i : Nat} (hi : i < a.length) (v : Nat) :
    set a i v = a.set i (some v) := if_pos hi

/-- The numbers crossed out below `b` have a 0, the others a 1. -/
structure Sieved (max b : Nat) (primes : List (Option Nat)) : Prop where
  length : primes.length = max
  crossed : ∀ k < max, Crossed b k → primes[k]? = some (some 0)
  left : ∀ k < max, ¬ Crossed b k → primes[k]? = some (some 1)

theorem assume_eq {fuel max : Nat} {primes : List (Option Nat)} (hfuel : max < fuel)
    (hlength : primes.length = max) :
    ∃ primes', assume fuel max primes = some primes' ∧ Sieved max 2 primes' := by
  have hturn (i : Nat) (t : List (Option Nat)) (ht : Stored id (some 1) 0 i primes t)
      (hi : decide (i < max) = true) :
      ∃ t', some (set t i 1) = some t' ∧ Stored id (some 1) 0 (i + 1) primes t' := by
    have hlt : i < primes.length := by
      rw [hlength]
      exact of_decide_eq_true hi
    refine ⟨_, rfl, ?_⟩
    rw [set_eq (by rwa [ht.length])]
    exact ht.set (Nat.zero_le i) hlt
  obtain ⟨i, t, hrun, ht, hstop⟩ :=
    ForLoop.holds (fun (i : Nat) (t : List (Option Nat)) => Stored id (some 1) 0 i primes t) max
      Nat.one_pos (show max - 0 < fuel by omega) (ForLoop.stored_refl id (some 1) 0 primes)
      (fun i t _ hi => by simpa using hi) hturn
  have hend : max ≤ i := by simpa using hstop
  refine ⟨t, hrun, ht.length.trans hlength, fun k _ hcrossed => ?_, fun k hk _ => ?_⟩
  · exact absurd hcrossed (Composite.not_crossed_two k)
  · exact ht.stored k (Nat.zero_le k) (Nat.lt_of_lt_of_le hk hend) (by rwa [hlength])

theorem cross_eq {fuel max i : Nat} {primes : List (Option Nat)} (hfuel : max < fuel) (hi : 1 ≤ i)
    (hlength : primes.length = max) :
    ∃ primes', cross fuel max i primes = some primes' ∧ primes'.length = max ∧
      (∀ k < max, Multiple i k → primes'[k]? = some (some 0)) ∧
      ∀ k < max, ¬ Multiple i k → primes'[k]? = primes[k]? := by
  have hturn (j : Nat) (t : List (Option Nat)) (ht : i ≤ j ∧ Stored (i * ·) (some 0) i j primes t)
      (hj : decide (j * i < max) = true) :
      ∃ t', some (set t (i * j) 0) = some t' ∧ i ≤ j + 1 ∧
        Stored (i * ·) (some 0) i (j + 1) primes t' := by
    obtain ⟨hij, hstored⟩ := ht
    have hlt : i * j < primes.length := by
      rw [hlength, Nat.mul_comm]
      exact of_decide_eq_true hj
    refine ⟨_, rfl, Nat.le_succ_of_le hij, ?_⟩
    rw [set_eq (by rwa [hstored.length])]
    exact hstored.set hij hlt
  have hbound (j : Nat) (hj : max ≤ j) : decide (j * i < max) = false := by
    simpa using hj.trans (Nat.le_mul_of_pos_right j hi)
  obtain ⟨j, t, hrun, ⟨-, hstored⟩, hstop⟩ :=
    ForLoop.holds (fun j t => i ≤ j ∧ Stored (i * ·) (some 0) i j primes t) max Nat.one_pos
      (show max - i < fuel by omega)
      ⟨Nat.le_refl i, ForLoop.stored_refl (i * ·) (some 0) i primes⟩
      (fun j t _ hj => hbound j hj) hturn
  have hend : max ≤ j * i := by simpa using hstop
  refine ⟨t, hrun, hstored.length.trans hlength, ?_, ?_⟩
  · intro k hk ⟨q, hq, hmul⟩
    have hlt : i * q < i * j := by
      rw [← hmul, Nat.mul_comm i j]
      exact Nat.lt_of_lt_of_le hk hend
    rw [hmul]
    exact hstored.stored q hq (Nat.lt_of_mul_lt_mul_left hlt) (by rwa [hlength, ← hmul])
  · intro k _ hmul
    exact hstored.kept k fun q hq _ hk => hmul ⟨q, hq, hk⟩

/-! ### What is crossed out -/

theorem truthy_get {max b k : Nat} {primes : List (Option Nat)} (ha : Sieved max b primes) :
    truthy (get primes k) = true ↔ k < max ∧ ¬ Crossed b k := by
  obtain hge | hlt := Nat.lt_or_ge k max |>.symm
  · have hnone : primes[k]? = none := List.getElem?_eq_none (by rw [ha.length]; exact hge)
    rw [get, hnone]
    exact iff_of_false (by decide) fun h => absurd h.1 (Nat.not_lt_of_le hge)
  · rw [and_iff_right hlt]
    by_cases hcrossed : Crossed b k
    · rw [get, ha.crossed k hlt hcrossed]
      exact iff_of_false (by decide) (not_not_intro hcrossed)
    · rw [get, ha.left k hlt hcrossed]
      exact iff_of_true (by decide) hcrossed

/-- One turn of the outer loop crosses out the multiples of one more number. -/
theorem turn_eq {fuel max i : Nat} {primes : List (Option Nat)} (hfuel : max < fuel) (hi : 2 ≤ i)
    (hsq : i * i ≤ max) (ha : Sieved max i primes) :
    ∃ primes', (if truthy (get primes i) then cross fuel max i primes else some primes) =
      some primes' ∧ Sieved max (i + 1) primes' := by
  by_cases hleft : truthy (get primes i) = true
  · obtain ⟨primes', hrun, hlength, hzero, hkept⟩ := cross_eq (i := i) hfuel (by omega) ha.length
    refine ⟨primes', by rw [if_pos hleft, hrun], hlength, ?_, ?_⟩
    · intro k hk hcrossed
      by_cases hmul : Multiple i k
      · exact hzero k hk hmul
      · rw [hkept k hk hmul]
        exact ha.crossed k hk (((Composite.crossed_succ hi k).mp hcrossed).resolve_right hmul)
    · intro k hk hnot
      rw [Composite.crossed_succ hi, not_or] at hnot
      rw [hkept k hk hnot.2, ha.left k hk hnot.1]
  · -- the factor is crossed out, and what it would cross out is
    have hlt : i < max := by
      have hdouble : 2 * i ≤ i * i := Nat.mul_le_mul_right i hi
      omega
    have hcomposite : Crossed i i := by
      rw [truthy_get ha, not_and, not_not] at hleft
      exact hleft hlt
    have hsame (k : Nat) : Crossed (i + 1) k ↔ Crossed i k := by
      rw [Composite.crossed_succ hi, or_iff_left_of_imp (Composite.crossed_of_crossed hcomposite)]
    refine ⟨primes, if_neg hleft, ha.length, ?_, ?_⟩
    · intro k hk hcrossed
      exact ha.crossed k hk ((hsame k).mp hcrossed)
    · intro k hk hnot
      exact ha.left k hk fun h => hnot ((hsame k).mpr h)

theorem sieve_eq {fuel max : Nat} {primes : List (Option Nat)} (hfuel : max < fuel)
    (ha : Sieved max 2 primes) :
    ∃ primes' i, sieve fuel max primes = some primes' ∧ max < i * i ∧ Sieved max i primes' := by
  have hturn (i : Nat) (t : List (Option Nat)) (ht : 2 ≤ i ∧ Sieved max i t)
      (hi : decide (i * i ≤ max) = true) :
      ∃ t', (if truthy (get t i) then cross fuel max i t else some t) = some t' ∧
        2 ≤ i + 1 ∧ Sieved max (i + 1) t' := by
    obtain ⟨t', hrun, hsieved⟩ := turn_eq hfuel ht.1 (of_decide_eq_true hi) ht.2
    exact ⟨t', hrun, by omega, hsieved⟩
  have hbound (i : Nat) (t : List (Option Nat)) (_ : 2 ≤ i ∧ Sieved max i t) (hi : max + 2 ≤ i) :
      decide (i * i ≤ max) = false := by
    have hself : i ≤ i * i := Nat.le_mul_self i
    exact decide_eq_false (by omega)
  obtain ⟨i, t, hrun, ⟨-, hsieved⟩, hstop⟩ :=
    ForLoop.holds (fun (i : Nat) (t : List (Option Nat)) => 2 ≤ i ∧ Sieved max i t) (max + 2)
      Nat.one_pos (show max + 2 - 2 < fuel by omega) ⟨Nat.le_refl 2, ha⟩ hbound hturn
  exact ⟨t, i, hrun, Nat.lt_of_not_le (of_decide_eq_false hstop), hsieved⟩

/-! ### What is collected -/

/-- The numbers the program lists: 1, and the primes, below the bound. -/
def Listed (max k : Nat) : Prop := 1 ≤ k ∧ k < max ∧ (k = 1 ∨ k.Prime)

instance (max : Nat) : DecidablePred (Listed max) := fun _ => inferInstanceAs (Decidable (_ ∧ _))

theorem not_crossed_one (b : Nat) : ¬ Crossed b 1 := by
  rintro ⟨d, hd, -, q, hq, hone⟩
  have hle : 2 * 2 ≤ d * q := Nat.mul_le_mul hd (hd.trans hq)
  omega

theorem Sieved.listed_iff {max b k : Nat} {primes : List (Option Nat)} (ha : Sieved max b primes)
    (hb : max < b * b) (hk : 1 ≤ k) : truthy (get primes k) = true ↔ Listed max k := by
  rw [truthy_get ha, Listed, and_iff_right hk]
  refine and_congr_right fun hlt => ?_
  obtain rfl | hk := Nat.eq_or_lt_of_le hk
  · exact iff_of_true (not_crossed_one b) (Or.inl rfl)
  · rw [or_iff_right (Nat.ne_of_gt hk), Composite.prime_iff_not_crossed hk (hlt.trans hb)]

theorem collect_eq {fuel max b : Nat} {primes : List (Option Nat)} (hfuel : max < fuel)
    (ha : Sieved max b primes) (hb : max < b * b) :
    collect fuel max primes = some ((List.range (max + 1)).filter (Listed max)) := by
  have hturn (i : Nat) (p : List Nat)
      (hp : 1 ≤ i ∧ i ≤ max + 1 ∧ p = (List.range i).filter (Listed max))
      (hi : decide (i ≤ max) = true) :
      ∃ p', (if truthy (get primes i) then some (p ++ [i]) else some p) = some p' ∧ 1 ≤ i + 1 ∧
        i + 1 ≤ max + 1 ∧ p' = (List.range (i + 1)).filter (Listed max) := by
    obtain ⟨hpos, -, rfl⟩ := hp
    refine ⟨_, (apply_ite some _ _ _).symm, by omega, Nat.succ_le_succ (of_decide_eq_true hi), ?_⟩
    simp only [ha.listed_iff hb hpos, List.range_succ, List.filter_append, List.filter_cons,
      List.filter_nil, decide_eq_true_eq]
    split
    · rfl
    · rw [List.append_nil]
  have hnone : [] = (List.range 1).filter (Listed max) := by simp [Listed]
  obtain ⟨i, p, hrun, ⟨-, hle, rfl⟩, hstop⟩ :=
    ForLoop.holds (fun (i : Nat) (p : List Nat) =>
        1 ≤ i ∧ i ≤ max + 1 ∧ p = (List.range i).filter (Listed max)) (max + 1)
      Nat.one_pos (show max + 1 - 1 < fuel by omega)
      ⟨Nat.le_refl 1, by omega, hnone⟩
      (fun i t _ hi => decide_eq_false (by omega)) hturn
  have hend : i = max + 1 := Nat.le_antisymm hle (Nat.lt_of_not_le (of_decide_eq_false hstop))
  rw [collect, hrun, hend]

/-- The program lists 1 and the primes below the bound. -/
theorem seive_eq (max : Nat) :
    seive max = some ((List.range (max + 1)).filter (Listed max),
      ((List.range (max + 1)).filter (Listed max)).length) := by
  have hfuel : max < max + 2 := by omega
  have hlength : ((List.range' 1 max).map some).length = max := by
    rw [List.length_map, List.length_range']
  obtain ⟨a₁, hassume, ha₁⟩ := assume_eq hfuel hlength
  obtain ⟨a₂, b, hsieve, hb, ha₂⟩ := sieve_eq hfuel ha₁
  rw [seive]
  simp only [Option.bind_eq_bind, hassume, hsieve, collect_eq hfuel ha₂ hb, Option.bind_some]
  rfl

theorem count_listed {max k : Nat} (hk : 2 ≤ k) (hmax : k ≤ max) :
    Nat.count (Listed max) k = Nat.count Nat.Prime k + 1 := by
  induction k, hk using Nat.le_induction with
  | base =>
    have hone : Listed max 1 := ⟨Nat.le_refl 1, hmax, Or.inl rfl⟩
    have hzero : ¬ Listed max 0 := fun h => absurd h.1 (Nat.not_succ_le_zero 0)
    rw [Nat.count_succ, Nat.count_succ, if_pos hone, if_neg hzero]
    rfl
  | succ k hk ih =>
    have hlisted : Listed max k ↔ k.Prime := by
      rw [Listed, and_iff_right (by omega), and_iff_right (by omega), or_iff_right (by omega)]
    rw [Nat.count_succ, Nat.count_succ, ih (by omega)]
    simp only [hlisted]
    omega

/-- The 1 makes up for the bound if that is a prime. -/
theorem length_listed {max : Nat} (hmax : 2 ≤ max) :
    ((List.range (max + 1)).filter (Listed max)).length = Nat.primeCounting max ↔ max.Prime := by
  have hbound : ¬ Listed max max := fun h => absurd h.2.1 (Nat.lt_irrefl max)
  have hlength : ((List.range (max + 1)).filter (Listed max)).length =
      Nat.count Nat.Prime max + 1 :=
    calc ((List.range (max + 1)).filter (Listed max)).length
      _ = Nat.count (Listed max) (max + 1) := List.countP_eq_length_filter.symm
      _ = Nat.count (Listed max) max := by rw [Nat.count_succ, if_neg hbound, Nat.add_zero]
      _ = Nat.count Nat.Prime max + 1 := count_listed hmax (Nat.le_refl max)
  rw [hlength, Nat.primeCounting, Nat.primeCounting', Nat.count_succ]
  split
  next hprime => exact iff_of_true rfl hprime
  next hprime => exact iff_of_false (by omega) hprime

/-- **For no bound are the primes listed**: there is always the 1. How many there are comes out
right if and only if the bound itself is a prime. -/
theorem seive_ne (max : Nat) (hmax : 2 ≤ max) :
    ∃ p size, seive max = some (p, size) ∧ p ≠ (List.range (max + 1)).filter Nat.Prime ∧
      (size = Nat.primeCounting max ↔ max.Prime) := by
  refine ⟨_, _, seive_eq max, fun heq => ?_, length_listed hmax⟩
  have hone : 1 ∈ (List.range (max + 1)).filter (Listed max) := by
    rw [List.mem_filter, List.mem_range]
    exact ⟨by omega, decide_eq_true ⟨Nat.le_refl 1, hmax, Or.inl rfl⟩⟩
  rw [heq, List.mem_filter] at hone
  exact Nat.not_prime_one (of_decide_eq_true hone.2)

theorem seive_ne_ten :
    ∃ p size, seive 10 = some (p, size) ∧ p ≠ (List.range (10 + 1)).filter Nat.Prime ∧
      (size = Nat.primeCounting 10 ↔ Nat.Prime 10) :=
  seive_ne 10 (by decide)

/-- 1 is in the list. -/
theorem seive_lists_one :
    seive 10 = some ([1, 2, 3, 5, 7], 5) ∧
      [1, 2, 3, 5, 7] ≠ (List.range (10 + 1)).filter Nat.Prime ∧ 5 ≠ Nat.primeCounting 10 := by
  decide

end VleoNotebook.Sieve.P5
