import VleoNotebook.Lib.Composite
import VleoNotebook.Lib.ForLoop
import Mathlib.Data.Nat.Prime.Nth
import Mathlib.NumberTheory.PrimeCounting

/-! The sieve that keeps only odd numbers (`simple_sieve.go`).

Entry 0 of the array stands for 2 and entry `i` for `2*i+1`. In terms of the numbers, the inner
loop crosses out the multiples of `m` from its square on (`multiple_iff`), and the outer one
goes on until the factors are past the square root, further than it would have to. What is
left over are the primes below the bound (`main_eq`). An index out of range panics, which is no
result here. The bound is an exact number and so is its root, rounded down. -/
namespace VleoNotebook.Sieve

open Composite (Crossed Multiple)
open ForLoop (forLoop Stored)

/-- `a[i] = v` -/
def store (a : List Nat) (i v : Nat) : Option (List Nat) :=
  if i < a.length then some (a.set i v) else none

/-- `for i:=1;i<len(a);i++ { a[i]=2*i+1 }` -/
def fill (fuel : Nat) (a : List Nat) : Option (List Nat) :=
  forLoop (fun i a => i < a.length) 1 (fun i a => store a i (2 * i + 1)) fuel 1 a

/-- `for j:=i*(m+1);j<len(a);j+=m { a[j]=0 }` -/
def clear (fuel i m : Nat) (a : List Nat) : Option (List Nat) :=
  forLoop (fun j a => j < a.length) m (fun j a => store a j 0) fuel (i * (m + 1)) a

/-- The body of the outer loop. -/
def sieveTurn (fuel i : Nat) (a : List Nat) : Option (List Nat) := do
  let m ← a[i]?
  if m = 0 then some a else clear fuel i m a

/-- `for i:=1;i<sqrt; i++ { ... }` -/
def sieve (fuel sqrt : Nat) (a : List Nat) : Option (List Nat) :=
  forLoop (fun i _ => i < sqrt) 1 (sieveTurn fuel) fuel 1 a

/-- `for i:=0;i<len(a);i++ { if a[i]!=0 { count++ } }` -/
def count (fuel : Nat) (a : List Nat) : Option Nat :=
  forLoop (fun i _ => i < a.length) 1
    (fun i count => do return if (← a[i]?) ≠ 0 then count + 1 else count) fuel 0 0

/-- What `main` prints of the argument; no loop makes more turns than there is fuel. -/
def main (n : Nat) : Option String := do
  let sqrt := Nat.sqrt n
  let fuel := n + 1
  let a ← store (List.replicate (n / 2) 0) 0 2
  let a ← fill fuel a
  let a ← sieve fuel sqrt a
  return "number of primes " ++ toString (← count fuel a) ++ "\n"

/-! ### The numbers behind the indices -/

/-- The indices of the inner loop are those of the multiples. -/
theorem multiple_iff (i k : Nat) :
    Multiple (2 * i + 1) (2 * k + 1) ↔ ∃ s, k = i * (2 * i + 1 + 1) + s * (2 * i + 1) := by
  have hsquare (s : Nat) : (2 * i + 1) * (2 * i + 1 + 2 * s) =
      2 * (i * (2 * i + 1 + 1) + s * (2 * i + 1)) + 1 := by ring
  constructor
  · intro ⟨q, hq, hk⟩
    have hodd : Odd ((2 * i + 1) * q) := ⟨k, hk.symm⟩
    obtain ⟨t, ht⟩ := (Nat.odd_mul.mp hodd).2
    obtain ⟨s, rfl⟩ : ∃ s, q = 2 * i + 1 + 2 * s := ⟨t - i, by omega⟩
    exact ⟨s, by rw [hsquare] at hk; omega⟩
  · rintro ⟨s, rfl⟩
    exact ⟨2 * i + 1 + 2 * s, by omega, (hsquare s).symm⟩

/-- Odd numbers are multiples of odd ones only. -/
theorem crossed_odd {i : Nat} (hi : 1 ≤ i) (k : Nat) :
    Crossed (2 * (i + 1) + 1) (2 * k + 1) ↔
      Crossed (2 * i + 1) (2 * k + 1) ∨ Multiple (2 * i + 1) (2 * k + 1) := by
  have heven : ¬ Multiple (2 * i + 2) (2 * k + 1) := by
    rintro ⟨q, -, hk⟩
    have hodd : Odd ((2 * i + 2) * q) := ⟨k, hk.symm⟩
    obtain ⟨t, ht⟩ := (Nat.odd_mul.mp hodd).1
    omega
  rw [show 2 * (i + 1) + 1 = 2 * i + 1 + 1 + 1 by omega, Composite.crossed_succ (by omega),
    Composite.crossed_succ (by omega), or_iff_left heven]

theorem not_crossed_three (k : Nat) : ¬ Crossed 3 (2 * k + 1) := by
  intro hcrossed
  obtain ⟨d, hd, hlt, q, -, hdq⟩ := hcrossed
  obtain rfl : d = 2 := by omega
  omega

/-- Entry 0 is left, and the entries of the primes. -/
def Left (k : Nat) : Prop := k = 0 ∨ (2 * k + 1).Prime

instance : DecidablePred Left := fun _ => inferInstanceAs (Decidable (_ ∨ _))

theorem not_prime_even {h : Nat} (hh : 2 ≤ h) : ¬ (2 * h).Prime :=
  Nat.not_prime_mul (by decide) (by omega)

theorem count_left {h : Nat} (hh : 1 ≤ h) : Nat.count Left h = Nat.count Nat.Prime (2 * h + 1) := by
  induction h with
  | zero => omega
  | succ h ih =>
    obtain rfl | hpos := Nat.eq_zero_or_pos h
    · decide
    · have hleft : Left h ↔ (2 * h + 1).Prime := or_iff_right (by omega)
      have heven : ¬ (2 * h + 1 + 1).Prime := not_prime_even (h := h + 1) (by omega)
      calc Nat.count Left (h + 1)
        _ = Nat.count Left h + if (2 * h + 1).Prime then 1 else 0 := by
          rw [Nat.count_succ]
          simp only [hleft]
        _ = Nat.count Nat.Prime (2 * h + 1 + 1) := by rw [ih hpos, ← Nat.count_succ]
        _ = Nat.count Nat.Prime (2 * h + 1 + 1 + 1) := by
          rw [Nat.count_succ Nat.Prime (2 * h + 1 + 1), if_neg heven]
          rfl

/-- The primes below the bound are counted by the entries that are left. -/
theorem count_primes {n : Nat} (hn : 3 ≤ n) : Nat.count Left (n / 2) = Nat.primeCounting' n := by
  rw [count_left (by omega), Nat.primeCounting']
  obtain heven | hodd := Nat.mod_two_eq_zero_or_one n
  · rw [Nat.count_succ, if_neg (not_prime_even (by omega)), Nat.add_zero,
      show 2 * (n / 2) = n by omega]
  · rw [show 2 * (n / 2) + 1 = n by omega]

/-! ### The loops -/

theorem store_eq {a : List Nat} {i : Nat} (hi : i < a.length) (v : Nat) :
    store a i v = some (a.set i v) := if_pos hi

/-- The entries before `i` stand for their odd numbers. -/
def Filled (len i : Nat) (a : List Nat) : Prop :=
  a.length = len ∧ a[0]? = some 2 ∧ ∀ k, 1 ≤ k → k < i → k < len → a[k]? = some (2 * k + 1)

theorem fill_eq (fuel : Nat) {len : Nat} {a : List Nat} (hfuel : len ≤ fuel) (hlen : 1 ≤ len)
    (ha : Filled len 1 a) : ∃ a', fill fuel a = some a' ∧ Filled len len a' := by
  have hbound (j : Nat) (t : List Nat) (ht : Filled len j t) (hj : len ≤ j) :
      decide (j < t.length) = false := by
    rw [ht.1]
    simpa using hj
  have hturn (j : Nat) (t : List Nat) (ht : Filled len j t ∧ 1 ≤ j)
      (hj : decide (j < t.length) = true) :
      ∃ t', store t j (2 * j + 1) = some t' ∧ Filled len (j + 1) t' ∧ 1 ≤ j + 1 := by
    obtain ⟨⟨hlength, hzero, hk⟩, hpos⟩ := ht
    refine ⟨_, store_eq (of_decide_eq_true hj) _, ⟨?_, ?_, ?_⟩, by omega⟩
    · rw [List.length_set, hlength]
    · rw [List.getElem?_set_ne (by omega), hzero]
    · intro k hk₁ hlt hk₂
      obtain rfl | hne := eq_or_ne j k
      · exact List.getElem?_set_self (by omega)
      · rw [List.getElem?_set_ne hne, hk k hk₁ (by omega) hk₂]
  obtain ⟨i, a', hrun, ⟨⟨hlength, hzero, hk⟩, -⟩, hstop⟩ :=
    ForLoop.holds (fun j t => Filled len j t ∧ 1 ≤ j) len Nat.one_pos
      (show len - 1 < fuel by omega) ⟨ha, Nat.le_refl 1⟩ (fun j t ht => hbound j t ht.1) hturn
  have hi : len ≤ i := by simpa [hlength] using hstop
  exact ⟨a', hrun, hlength, hzero, fun k hk₁ hlt hk₂ => hk k hk₁ (by omega) hk₂⟩

theorem clear_eq {fuel i m : Nat} {a : List Nat} (hm : 0 < m) (hfuel : a.length < fuel) :
    ∃ a', clear fuel i m a = some a' ∧ a'.length = a.length ∧
      (∀ s, i * (m + 1) + s * m < a.length → a'[i * (m + 1) + s * m]? = some 0) ∧
      ∀ k, (∀ s, k ≠ i * (m + 1) + s * m) → a'[k]? = a[k]? := by
  let start := i * (m + 1)
  let place (s : Nat) : Nat := start + s * m
  have hturn (j : Nat) (t : List Nat) (ht : ∃ r, j = place r ∧ Stored place 0 0 r a t)
      (hj : decide (j < t.length) = true) :
      ∃ t', store t j 0 = some t' ∧ ∃ r, j + m = place r ∧ Stored place 0 0 r a t' := by
    obtain ⟨r, rfl, hstored⟩ := ht
    have hlt : place r < t.length := of_decide_eq_true hj
    refine ⟨_, store_eq hlt 0, r + 1, ?_, hstored.set (Nat.zero_le r) (by rwa [← hstored.length])⟩
    show start + r * m + m = start + (r + 1) * m
    rw [Nat.succ_mul, Nat.add_assoc]
  have hbound (j : Nat) (t : List Nat) (ht : ∃ r, j = place r ∧ Stored place 0 0 r a t)
      (hj : a.length ≤ j) : decide (j < t.length) = false := by
    obtain ⟨r, -, hstored⟩ := ht
    rw [hstored.length]
    simpa using hj
  obtain ⟨j, a', hrun, ⟨r, rfl, hstored⟩, hstop⟩ :=
    ForLoop.holds (fun j t => ∃ r, j = place r ∧ Stored place 0 0 r a t) a.length hm
      (show a.length - start < fuel by omega)
      ⟨0, by simp [place], ForLoop.stored_refl place 0 0 a⟩ hbound hturn
  have hend : a.length ≤ start + r * m := by simpa [hstored.length] using hstop
  have hseen (s : Nat) (hs : start + s * m < a.length) : s < r :=
    Nat.lt_of_mul_lt_mul_right (a := m) (by omega)
  exact ⟨a', hrun, hstored.length, fun s hs => hstored.stored s (Nat.zero_le s) (hseen s hs) hs,
    fun k hk => hstored.kept k fun s _ _ => hk s⟩

/-! ### What is crossed out -/

/-- The entries of the numbers crossed out below `b` are 0, the others stand for theirs. -/
structure Sieved (len b : Nat) (a : List Nat) : Prop where
  length : a.length = len
  two : a[0]? = some 2
  crossed : ∀ k, 1 ≤ k → k < len → Crossed b (2 * k + 1) → a[k]? = some 0
  left : ∀ k, 1 ≤ k → k < len → ¬ Crossed b (2 * k + 1) → a[k]? = some (2 * k + 1)

/-- One turn of the outer loop crosses out the multiples of one more odd number. -/
theorem sieveTurn_eq {len fuel i : Nat} {a : List Nat} (hfuel : len < fuel) (hi : 1 ≤ i)
    (hlt : i < len) (ha : Sieved len (2 * i + 1) a) :
    ∃ a', sieveTurn fuel i a = some a' ∧ Sieved len (2 * (i + 1) + 1) a' := by
  by_cases hcomposite : Crossed (2 * i + 1) (2 * i + 1)
  · -- the entry is 0, and what it would cross out is crossed out
    have hsame (k : Nat) : Crossed (2 * (i + 1) + 1) (2 * k + 1) ↔
        Crossed (2 * i + 1) (2 * k + 1) := by
      rw [crossed_odd hi, or_iff_left_of_imp (Composite.crossed_of_crossed hcomposite)]
    refine ⟨a, ?_, ha.length, ha.two, ?_, ?_⟩
    · rw [sieveTurn, ha.crossed i hi hlt hcomposite]
      rfl
    · intro k hk hkl hcrossed
      exact ha.crossed k hk hkl ((hsame k).mp hcrossed)
    · intro k hk hkl hnot
      exact ha.left k hk hkl fun h => hnot ((hsame k).mpr h)
  · obtain ⟨a', hrun, hlength, hzero, hkept⟩ := clear_eq (i := i) (m := 2 * i + 1) (a := a)
      (Nat.succ_pos _) (by rw [ha.length]; exact hfuel)
    rw [ha.length] at hlength hzero
    have hcleared (k : Nat) (hkl : k < len) (hmul : Multiple (2 * i + 1) (2 * k + 1)) :
        a'[k]? = some 0 := by
      obtain ⟨s, rfl⟩ := (multiple_iff i k).mp hmul
      exact hzero s hkl
    have hother (k : Nat) (hmul : ¬ Multiple (2 * i + 1) (2 * k + 1)) : a'[k]? = a[k]? :=
      hkept k fun s hs => hmul ((multiple_iff i k).mpr ⟨s, hs⟩)
    refine ⟨a', ?_, hlength, ?_, ?_, ?_⟩
    · rw [sieveTurn, ha.left i hi hlt hcomposite]
      exact hrun
    · rw [hkept 0 fun s hs => ?_, ha.two]
      have hpos : 0 < i * (2 * i + 1 + 1) := Nat.mul_pos hi (Nat.succ_pos _)
      omega
    · intro k hk hkl hcrossed
      by_cases hmul : Multiple (2 * i + 1) (2 * k + 1)
      · exact hcleared k hkl hmul
      · rw [hother k hmul]
        exact ha.crossed k hk hkl (((crossed_odd hi k).mp hcrossed).resolve_right hmul)
    · intro k hk hkl hnot
      rw [crossed_odd hi, not_or] at hnot
      rw [hother k hnot.2, ha.left k hk hkl hnot.1]

theorem sieve_eq (fuel : Nat) {len sqrt : Nat} {a : List Nat} (hlen : len < fuel)
    (hfuel : sqrt < fuel)
    (hsqrt : ∀ i, 1 ≤ i → i < sqrt → i < len) (ha : Sieved len 3 a) :
    ∃ a' i, sieve fuel sqrt a = some a' ∧ sqrt ≤ i ∧ 1 ≤ i ∧ Sieved len (2 * i + 1) a' := by
  have hturn (i : Nat) (t : List Nat) (ht : 1 ≤ i ∧ Sieved len (2 * i + 1) t)
      (hi : decide (i < sqrt) = true) :
      ∃ t', sieveTurn fuel i t = some t' ∧ 1 ≤ i + 1 ∧ Sieved len (2 * (i + 1) + 1) t' := by
    obtain ⟨t', hrun, hsieved⟩ :=
      sieveTurn_eq hlen ht.1 (hsqrt i ht.1 (of_decide_eq_true hi)) ht.2
    exact ⟨t', hrun, by omega, hsieved⟩
  obtain ⟨i, a', hrun, ⟨hi, hsieved⟩, hstop⟩ :=
    ForLoop.holds (fun i t => 1 ≤ i ∧ Sieved len (2 * i + 1) t) sqrt Nat.one_pos
      (show sqrt - 1 < fuel by omega) ⟨Nat.le_refl 1, ha⟩
      (fun i t _ hi => by simpa using hi) hturn
  exact ⟨a', i, hrun, by simpa using hstop, hi, hsieved⟩

/-- An entry is left that is not 0. -/
theorem count_eq {fuel : Nat} {a : List Nat} (hfuel : a.length < fuel)
    (ha : ∀ k < a.length, ∃ v, a[k]? = some v ∧ (v ≠ 0 ↔ Left k)) :
    count fuel a = some (Nat.count Left a.length) := by
  have hturn (i c : Nat) (hc : i ≤ a.length ∧ c = Nat.count Left i)
      (hi : decide (i < a.length) = true) :
      ∃ c', (do return if (← a[i]?) ≠ 0 then c + 1 else c) = some c' ∧ i + 1 ≤ a.length ∧
        c' = Nat.count Left (i + 1) := by
    obtain ⟨v, hv, hleft⟩ := ha i (of_decide_eq_true hi)
    refine ⟨_, by rw [hv]; rfl, of_decide_eq_true hi, ?_⟩
    rw [Nat.count_succ, hc.2]
    simp only [hleft]
    split <;> rfl
  obtain ⟨i, c, hrun, ⟨hi, rfl⟩, hstop⟩ :=
    ForLoop.holds (fun i c => i ≤ a.length ∧ c = Nat.count Left i) a.length Nat.one_pos
      (show a.length - 0 < fuel by omega) ⟨Nat.zero_le _, (Nat.count_zero Left).symm⟩
      (fun i c _ hi => by simpa using hi) hturn
  have hend : a.length = i := Nat.le_antisymm (by simpa using hstop) hi
  rw [count, hrun, hend]

/-- Before the outer loop nothing is crossed out. -/
theorem Filled.sieved {len : Nat} {a : List Nat} (ha : Filled len len a) : Sieved len 3 a := by
  obtain ⟨hlength, htwo, hk⟩ := ha
  refine ⟨hlength, htwo, fun k _ _ hcrossed => ?_, fun k hk₁ hlt _ => hk k hk₁ hlt hlt⟩
  obtain ⟨d, hd, hlt, q, -, hdq⟩ := hcrossed
  obtain rfl : d = 2 := by omega
  omega

/-- In the end the entries of the primes are left. -/
theorem Sieved.left_iff {len b : Nat} {a : List Nat} (ha : Sieved len b a)
    (hb : ∀ k < len, 2 * k + 1 < b * b) :
    ∀ k < len, ∃ v, a[k]? = some v ∧ (v ≠ 0 ↔ Left k) := by
  intro k hlt
  obtain rfl | hk := Nat.eq_zero_or_pos k
  · exact ⟨2, ha.two, iff_of_true (by decide) (Or.inl rfl)⟩
  have hleft : Left k ↔ ¬ Crossed b (2 * k + 1) := by
    rw [Left, or_iff_right (by omega), Composite.prime_iff_not_crossed (by omega) (hb k hlt)]
  by_cases hcrossed : Crossed b (2 * k + 1)
  · exact ⟨0, ha.crossed k hk hlt hcrossed, iff_of_false (by simp) (by rw [hleft]; simpa)⟩
  · exact ⟨2 * k + 1, ha.left k hk hlt hcrossed, iff_of_true (by omega) (hleft.mpr hcrossed)⟩

/-- **The sieve counts the primes** below its bound: no index is out of range, and every loop
ends. -/
theorem main_eq (n : Nat) (hn : 3 ≤ n) :
    main n = some ("number of primes " ++ toString (Nat.primeCounting' n) ++ "\n") := by
  have hroot (i : Nat) (hi : 1 ≤ i) (hlt : i < n.sqrt) : i < n / 2 := by
    have hsq : n.sqrt * n.sqrt ≤ n := Nat.sqrt_le n
    have htwo : 2 * n.sqrt ≤ n.sqrt * n.sqrt := Nat.mul_le_mul_right _ (by omega)
    omega
  have hzero : 0 < (List.replicate (n / 2) 0).length := by
    rw [List.length_replicate]
    omega
  have hfilled : Filled (n / 2) 1 ((List.replicate (n / 2) 0).set 0 2) := by
    refine ⟨by rw [List.length_set, List.length_replicate], List.getElem?_set_self hzero, ?_⟩
    intro k hk hlt
    omega
  obtain ⟨a₁, hfill, ha₁⟩ := fill_eq (n + 1) (by omega) (by omega) hfilled
  obtain ⟨a₂, i, hsieve, hsqrt, hi, ha₂⟩ := sieve_eq (n + 1) (by omega)
    (Nat.lt_succ_of_le (Nat.sqrt_le_self n)) hroot ha₁.sieved
  -- the last factor is past the root
  have hbound (k : Nat) (hk : k < n / 2) : 2 * k + 1 < (2 * i + 1) * (2 * i + 1) := by
    have hlt : n < (n.sqrt + 1) * (n.sqrt + 1) := Nat.lt_succ_sqrt n
    have hle : (n.sqrt + 1) * (n.sqrt + 1) ≤ (2 * i + 1) * (2 * i + 1) :=
      Nat.mul_le_mul (by omega) (by omega)
    omega
  have hcount : count (n + 1) a₂ = some (Nat.primeCounting' n) := by
    rw [← count_primes hn, ← ha₂.length]
    refine count_eq (by rw [ha₂.length]; omega) ?_
    rw [ha₂.length]
    exact ha₂.left_iff hbound
  rw [main]
  simp only [store_eq hzero, Option.bind_eq_bind, Option.bind_some, hfill, hsieve, hcount]
  rfl

theorem main_thirty : main 30 = some ("number of primes " ++ toString (Nat.primeCounting' 30) ++
    "\n") :=
  main_eq 30 (by decide)

end VleoNotebook.Sieve
