import VleoNotebook.Sieve.SimpleSieve
import Mathlib.Data.List.Sort
import Mathlib.NumberTheory.Bertrand

/-! The sieve in Python (`seive.py`).

It keeps the odd numbers below its bound in a list, puts zeros for what it crosses out, and
goes to the first number that is no zero. That there is one, as long as its square is to be
looked for, is Bertrand's postulate; so from a bound of 4 on the list of the primes below it
comes out (`sieve_eq_primes`). An `IndexError` or a `ValueError` is no result here. A bound is put in
place of the one in the program. -/
namespace VleoNotebook.Sieve.Py

open Composite (Crossed Multiple)
open ForLoop (forLoop)

/-- `range(3,n,2)` -/
def odds (n : Nat) : List Nat := List.range' 3 ((n - 2) / 2) 2

/-- `next_non_zero`, on the list from the global `fi` on: the number, and `fi` after it. -/
def nextNonZero : List Nat → Nat → Option (Nat × Nat)
  | [], _ => none
  | m :: s, fi => if m ≠ 0 then some (m, fi) else nextNonZero s (fi + 1)

/-- `while ind<=limit: s[ind]=0; ind+=m` -/
def clear (fuel limit m ind : Nat) (s : List Nat) : Option (List Nat) :=
  forLoop (fun ind _ => ind ≤ limit) m (fun ind s => store s ind 0) fuel ind s

/-- `while True: ...` -/
def sieveLoop (limit largest : Nat) : Nat → Nat → List Nat → List Nat → Option (List Nat)
  | 0, _, _, _ => none
  | fuel + 1, fi, s, primelist => do
    let next ← nextNonZero (s.drop fi) fi
    let m := next.1
    -- `fi=s.index(m)` sets a `fi` of the function's own
    let index ← s.idxOf? m
    if largest < m ^ 2 then some (primelist ++ s.filter (· ≠ 0))
    else
      let s ← clear (limit + 2) limit m (m * (m - 1) / 2 + index) s
      sieveLoop limit largest fuel next.2 (s.set (← s.idxOf? m) 0) (primelist ++ [m])

/-- The `primelist` in the end; no loop makes more turns than there is fuel. -/
def sieve (n : Nat) : Option (List Nat) := do
  let s := odds n
  let largest ← s.getLast?
  sieveLoop ((largest - 3) / 2) largest (n + 1) 0 s [2]

/-- What is printed. -/
def main (n : Nat) : Option String := do
  return "Number of Primes upto:  " ++ toString n ++ "  -->  " ++
    toString (← sieve n).length ++ "\n"

/-! ### The list -/

/-- All before the odd number `2 * t + 1` are zeros, and the multiples of smaller numbers. -/
structure Struck (len t : Nat) (s : List Nat) : Prop where
  length : s.length = len
  zero : ∀ k < len, k + 1 < t ∨ Crossed (2 * t + 1) (2 * (k + 1) + 1) → s[k]? = some 0
  left : ∀ k < len, t ≤ k + 1 → ¬ Crossed (2 * t + 1) (2 * (k + 1) + 1) →
    s[k]? = some (2 * (k + 1) + 1)

theorem odds_struck (n : Nat) : Struck ((n - 2) / 2) 1 (odds n) := by
  refine ⟨List.length_range' .., fun k hk h => ?_, fun k hk _ _ => ?_⟩
  · obtain h | h := h
    · omega
    · exact absurd h (not_crossed_three (k + 1))
  · rw [odds, List.getElem?_range' hk]
    congr 1
    omega

/-- Where the odd numbers up to one are crossed out, it crosses out no more. -/
theorem crossed_skip {t u : Nat} (ht : 1 ≤ t) (htu : t ≤ u)
    (h : ∀ k, t ≤ k → k < u → Crossed (2 * t + 1) (2 * k + 1)) (k : Nat) :
    Crossed (2 * u + 1) (2 * k + 1) ↔ Crossed (2 * t + 1) (2 * k + 1) := by
  induction u, htu using Nat.le_induction generalizing k with
  | base => exact Iff.rfl
  | succ u htu ih =>
    have hless (k : Nat) := ih (fun k hk hu => h k hk (Nat.lt_succ_of_lt hu)) k
    rw [crossed_odd (ht.trans htu), hless]
    refine or_iff_left_of_imp fun hmul => (hless k).mp ?_
    exact Composite.crossed_of_crossed ((hless u).mpr (h u htu (Nat.lt_succ_self u))) hmul

theorem nextNonZero_eq {s : List Nat} {fi i v : Nat} (hfi : fi ≤ i)
    (hzero : ∀ j, fi ≤ j → j < i → s[j]? = some 0) (hi : s[i]? = some v) (hv : v ≠ 0) :
    nextNonZero (s.drop fi) fi = some (v, i) := by
  obtain ⟨d, rfl⟩ := Nat.exists_eq_add_of_le hfi
  induction d generalizing fi with
  | zero =>
    rw [Nat.add_zero] at hi
    obtain ⟨hlt, heq⟩ := List.getElem?_eq_some_iff.mp hi
    rw [List.drop_eq_getElem_cons hlt, heq, nextNonZero, if_pos hv]
    rfl
  | succ d ih =>
    have hfirst := hzero fi le_rfl (by omega)
    obtain ⟨hlt, heq⟩ := List.getElem?_eq_some_iff.mp hfirst
    rw [List.drop_eq_getElem_cons hlt, heq, nextNonZero, if_neg (not_not_intro rfl)]
    rw [← Nat.add_assoc, Nat.add_right_comm]
    refine ih (show fi + 1 ≤ fi + 1 + d by omega) (fun j hj hlt => hzero j (by omega) (by omega)) ?_
    rwa [Nat.add_assoc, Nat.add_comm 1 d]

theorem clear_eq {m : Nat} {s : List Nat} (limit start : Nat) (hm : 0 < m)
    (hlimit : limit < s.length) :
    ∃ s', clear (limit + 2) limit m start s = some s' ∧ s'.length = s.length ∧
      (∀ r, start + r * m ≤ limit → s'[start + r * m]? = some 0) ∧
      ∀ k, (∀ r, k ≠ start + r * m) → s'[k]? = s[k]? := by
  obtain ⟨s', hrun, hlength, hzero, hkept⟩ :=
    ForLoop.stores hm (show limit + 1 - start < limit + 2 by omega) hlimit
      (fun i => decide_eq_true_iff.trans Nat.lt_succ_iff.symm) fun i t hi => store_eq hi 0
  exact ⟨s', hrun, hlength, fun r hr => hzero r (Nat.lt_succ_of_le hr), hkept⟩

/-! ### One turn -/

section Turn
variable {len t u : Nat} {s s' : List Nat}

/-- `2 * u + 1` is the first number that is left. -/
structure First (t u : Nat) : Prop where
  le : t ≤ u
  left : ¬ Crossed (2 * t + 1) (2 * u + 1)
  skip : ∀ k, t ≤ k → k < u → Crossed (2 * t + 1) (2 * k + 1)

theorem exists_first {k : Nat} (htk : t ≤ k) (hk : (2 * k + 1).Prime) : ∃ u ≤ k, First t u := by
  classical
  have hex : ∃ u, t ≤ u ∧ ¬ Crossed (2 * t + 1) (2 * u + 1) :=
    ⟨k, htk, Composite.not_crossed_of_prime hk _⟩
  have hspec := Nat.find_spec hex
  refine ⟨Nat.find hex, Nat.find_min' hex ⟨htk, Composite.not_crossed_of_prime hk _⟩, hspec.1, hspec.2,
    fun j htj hj => ?_⟩
  by_contra h
  exact Nat.find_min hex hj ⟨htj, h⟩

theorem Struck.zero_of_lt (hs : Struck len t s) (hu : First t u) (hlen : u ≤ len) {k : Nat}
    (hk : k + 1 < u) : s[k]? = some 0 := by
  refine hs.zero k (by omega) ?_
  obtain h | h := Nat.lt_or_ge (k + 1) t
  · exact .inl h
  · exact .inr (hu.skip (k + 1) h hk)

theorem Struck.value (hs : Struck len t s) (ht : 1 ≤ t) (hu : First t u) (hlen : u ≤ len) :
    s[u - 1]? = some (2 * u + 1) := by
  have hsucc : u - 1 + 1 = u := Nat.sub_add_cancel (ht.trans hu.le)
  have h := hs.left (u - 1) (by omega)
  rw [hsucc] at h
  exact h hu.le hu.left

/-- `s.index(m)` -/
theorem idxOf?_eq {v : Nat} (hu : 1 ≤ u) (hv : v ≠ 0) (hvalue : s[u - 1]? = some v)
    (hzero : ∀ k, k + 1 < u → s[k]? = some 0) : s.idxOf? v = some (u - 1) := by
  obtain ⟨hlt, heq⟩ := List.getElem?_eq_some_iff.mp hvalue
  refine List.idxOf?_eq_some_iff.mpr ⟨hlt, heq, fun j hj hvj => hv ?_⟩
  have hj' := hzero j (by omega)
  rw [List.getElem?_eq_getElem (hj.trans hlt), hvj] at hj'
  exact Option.some.inj hj'

/-- The indices that are cleared are those of the multiples. -/
theorem place_iff (hu : 1 ≤ u) (k : Nat) :
    (∃ r, k = (2 * u + 1) * (2 * u + 1 - 1) / 2 + (u - 1) + r * (2 * u + 1)) ↔
      Multiple (2 * u + 1) (2 * (k + 1) + 1) := by
  have hhalf : (2 * u + 1) * (2 * u + 1 - 1) / 2 = u * (2 * u + 1) := by
    rw [Nat.add_sub_cancel, Nat.mul_comm, Nat.mul_assoc, Nat.mul_div_cancel_left _ Nat.two_pos]
  rw [multiple_iff, hhalf]
  have hsum : u * (2 * u + 1 + 1) = u * (2 * u + 1) + u := Nat.mul_succ ..
  rw [hsum]
  refine exists_congr fun r => ?_
  omega

theorem Struck.turn (hs : Struck len t s) (ht : 1 ≤ t) (hu : First t u) (hlen : u ≤ len)
    (hlength : s'.length = s.length)
    (hzero : ∀ k < len, Multiple (2 * u + 1) (2 * (k + 1) + 1) → s'[k]? = some 0)
    (hkept : ∀ k, ¬ Multiple (2 * u + 1) (2 * (k + 1) + 1) → s'[k]? = s[k]?) :
    s'.idxOf? (2 * u + 1) = some (u - 1) ∧ Struck len (u + 1) (s'.set (u - 1) 0) := by
  have hpos : 1 ≤ u := ht.trans hu.le
  have hsucc : u - 1 + 1 = u := Nat.sub_add_cancel hpos
  have hcross (k : Nat) : Crossed (2 * (u + 1) + 1) (2 * k + 1) ↔
      Crossed (2 * t + 1) (2 * k + 1) ∨ Multiple (2 * u + 1) (2 * k + 1) := by
    rw [crossed_odd hpos, crossed_skip ht hu.le hu.skip]
  have hbefore (k : Nat) (hk : k + 1 < u) : s'[k]? = some 0 := by
    by_cases hmul : Multiple (2 * u + 1) (2 * (k + 1) + 1)
    · exact hzero k (by omega) hmul
    · rw [hkept k hmul]
      exact hs.zero_of_lt hu hlen hk
  have hself : s'[u - 1]? = some (2 * u + 1) := by
    rw [hkept (u - 1), hs.value ht hu hlen]
    rw [hsucc]
    intro ⟨q, hq, hmul⟩
    have hsquare : (2 * u + 1) * 2 ≤ (2 * u + 1) * q := Nat.mul_le_mul_left _ (by omega)
    omega
  refine ⟨idxOf?_eq hpos (Nat.succ_ne_zero _) hself hbefore, ?_, fun k hk h => ?_, ?_⟩
  · rw [List.length_set, hlength, hs.length]
  · by_cases hku : u - 1 = k
    · subst hku
      exact List.getElem?_set_self (by rw [hlength, hs.length]; exact hk)
    rw [List.getElem?_set_ne hku]
    obtain h | h := h
    · exact hbefore k (by omega)
    · by_cases hmul : Multiple (2 * u + 1) (2 * (k + 1) + 1)
      · exact hzero k hk hmul
      · rw [hkept k hmul]
        exact hs.zero k hk (.inr (((hcross (k + 1)).mp h).resolve_right hmul))
  · intro k hk hle h
    rw [hcross, not_or] at h
    rw [List.getElem?_set_ne (by omega), hkept k h.2]
    exact hs.left k hk (by have := hu.le; omega) h.1

end Turn

/-! ### What comes out -/

/-- The primes below a bound, in order. -/
def primesBelow (n : Nat) : List Nat := (List.range n).filter Nat.Prime

theorem eq_primesBelow {n : Nat} {l : List Nat} (hl : l.Pairwise (· < ·))
    (hmem : ∀ v, v ∈ l ↔ v.Prime ∧ v < n) : l = primesBelow n := by
  refine hl.eq_of_mem_iff (List.pairwise_lt_range.filter _) fun v => ?_
  rw [hmem, primesBelow, List.mem_filter, List.mem_range, decide_eq_true_eq, and_comm]

theorem mem_primesBelow {n v : Nat} : v ∈ primesBelow n ↔ v.Prime ∧ v < n := by
  rw [primesBelow, List.mem_filter, List.mem_range, decide_eq_true_eq, and_comm]

theorem pairwise_primesBelow (n : Nat) : (primesBelow n).Pairwise (· < ·) :=
  List.pairwise_lt_range.filter _

/-- 1 and the primes below a bound, in order. -/
theorem eq_cons_primesBelow {n : Nat} {l : List Nat} (hl : l.Pairwise (· < ·))
    (hmem : ∀ v, v ∈ l ↔ v = 1 ∨ v.Prime ∧ v < n) : l = 1 :: primesBelow n := by
  have hcons : (1 :: primesBelow n).Pairwise (· < ·) :=
    List.pairwise_cons.mpr ⟨fun v hv => (mem_primesBelow.mp hv).1.one_lt, pairwise_primesBelow n⟩
  refine hl.eq_of_mem_iff hcons fun v => ?_
  rw [hmem, List.mem_cons, mem_primesBelow]

section Results
variable {len t u : Nat} {s : List Nat}

/-- The first number left is a prime if one is not too far. -/
theorem First.prime (hu : First t u) (ht : 1 ≤ t) (hfar : u ≤ 2 * t) : (2 * u + 1).Prime := by
  have hle := hu.le
  have hsquare : 4 * t + 1 < (2 * t + 1) * (2 * t + 1) := by
    have hmul : (2 * t + 1) * 3 ≤ (2 * t + 1) * (2 * t + 1) := Nat.mul_le_mul_left _ (by omega)
    omega
  exact (Composite.prime_iff_not_crossed (by omega) (by omega)).mpr hu.left

/-- No prime is between what is struck and the first number left. -/
theorem First.primes (hu : First t u) (ht : 1 ≤ t) (hprime : (2 * u + 1).Prime) :
    primesBelow (2 * t + 1) ++ [2 * u + 1] = primesBelow (2 * (u + 1) + 1) := by
  have hle := hu.le
  refine eq_primesBelow ?_ fun v => ?_
  · refine List.pairwise_append.mpr ⟨pairwise_primesBelow _, List.pairwise_singleton .., ?_⟩
    intro a ha b hb
    rw [List.mem_singleton.mp hb]
    exact (mem_primesBelow.mp ha).2.trans_le (by omega)
  · rw [List.mem_append, List.mem_singleton, mem_primesBelow]
    constructor
    · intro h
      obtain ⟨hv, hlt⟩ | rfl := h
      · exact ⟨hv, by omega⟩
      · exact ⟨hprime, by omega⟩
    · intro ⟨hv, hlt⟩
      obtain rfl | hodd := hv.eq_two_or_odd
      · exact .inl ⟨hv, by omega⟩
      obtain ⟨k, rfl⟩ : ∃ k, v = 2 * k + 1 := ⟨v / 2, by omega⟩
      obtain hk | hk := Nat.lt_or_ge k t
      · exact .inl ⟨hv, by omega⟩
      · refine .inr ?_
        by_contra hne
        exact Composite.not_crossed_of_prime hv _ (hu.skip k hk (by omega))

theorem Struck.mem_left (hs : Struck len t s) {v : Nat} : v ∈ s.filter (· ≠ 0) ↔
    ∃ k < len, t ≤ k + 1 ∧ ¬ Crossed (2 * t + 1) (2 * (k + 1) + 1) ∧ v = 2 * (k + 1) + 1 := by
  rw [List.mem_filter]
  constructor
  · intro ⟨hmem, hv⟩
    obtain ⟨k, hlt, rfl⟩ := List.mem_iff_getElem.mp hmem
    rw [hs.length] at hlt
    by_cases h : k + 1 < t ∨ Crossed (2 * t + 1) (2 * (k + 1) + 1)
    · have hzero := (List.getElem?_eq_some_iff.mp (hs.zero k hlt h)).2
      exact absurd hzero (by simpa using hv)
    · rw [not_or, Nat.not_lt] at h
      exact ⟨k, hlt, h.1, h.2, (List.getElem?_eq_some_iff.mp (hs.left k hlt h.1 h.2)).2⟩
  · intro ⟨k, hlt, hk, hleft, hv⟩
    refine ⟨List.mem_of_getElem? ((hs.left k hlt hk hleft).trans (congrArg some hv.symm)), ?_⟩
    simp [hv]

theorem Struck.pairwise_left (hs : Struck len t s) : (s.filter (· ≠ 0)).Pairwise (· < ·) := by
  have hvalue (k : Nat) (hk : k < s.length) (hne : s[k] ≠ 0) : s[k] = 2 * (k + 1) + 1 := by
    rw [hs.length] at hk
    by_cases h : k + 1 < t ∨ Crossed (2 * t + 1) (2 * (k + 1) + 1)
    · exact absurd (List.getElem?_eq_some_iff.mp (hs.zero k hk h)).2 hne
    · rw [not_or, Nat.not_lt] at h
      exact (List.getElem?_eq_some_iff.mp (hs.left k hk h.1 h.2)).2
  rw [List.pairwise_filter, List.pairwise_iff_getElem]
  intro i j hi hj hij hzi hzj
  rw [hvalue i hi (by simpa using hzi), hvalue j hj (by simpa using hzj)]
  omega

/-- What is left when the square of the first number is past the list. -/
theorem Struck.primes (hs : Struck len t s) (ht : 1 ≤ t) (hu : First t u) (hlen : u ≤ len)
    (hend : 2 * len + 1 < (2 * u + 1) ^ 2) :
    primesBelow (2 * t + 1) ++ s.filter (· ≠ 0) = primesBelow (2 * len + 2) := by
  have hle := hu.le
  refine eq_primesBelow ?_ fun v => ?_
  · refine List.pairwise_append.mpr ⟨pairwise_primesBelow _, hs.pairwise_left, ?_⟩
    intro a ha b hb
    obtain ⟨k, -, hk, -, rfl⟩ := hs.mem_left.mp hb
    exact (mem_primesBelow.mp ha).2.trans_le (by omega)
  · rw [List.mem_append, mem_primesBelow, hs.mem_left]
    constructor
    · intro h
      obtain ⟨hv, hlt⟩ | ⟨k, hk, -, hleft, rfl⟩ := h
      · exact ⟨hv, by omega⟩
      · rw [← crossed_skip ht hu.le hu.skip] at hleft
        rw [pow_two] at hend
        refine ⟨(Composite.prime_iff_not_crossed (by omega) (lt_of_le_of_lt ?_ hend)).mpr hleft, ?_⟩
        all_goals omega
    · intro ⟨hv, hlt⟩
      obtain rfl | hodd := hv.eq_two_or_odd
      · exact .inl ⟨hv, by omega⟩
      have htwo := hv.two_le
      obtain ⟨k, rfl⟩ : ∃ k, v = 2 * (k + 1) + 1 := ⟨v / 2 - 1, by omega⟩
      obtain hk | hk := Nat.lt_or_ge (k + 1) t
      · exact .inl ⟨hv, by omega⟩
      · exact .inr ⟨k, by omega, hk, Composite.not_crossed_of_prime hv _, rfl⟩

end Results

/-- The loop leads to the primes of the list, if one of them is not too far. -/
theorem sieveLoop_eq {len fuel t fi : Nat} {s : List Nat} (hfuel : len + 1 < fuel + t) (ht : 1 ≤ t)
    (hfi : fi + 1 ≤ t) (hs : Struck len t s)
    (hnear : ∃ k, t ≤ k ∧ k ≤ len ∧ k ≤ 2 * t ∧ (2 * k + 1).Prime) :
    sieveLoop (len - 1) (2 * len + 1) fuel fi s (primesBelow (2 * t + 1)) =
      some (primesBelow (2 * len + 2)) := by
  induction fuel generalizing t fi s with
  | zero =>
    obtain ⟨k, htk, hk, -⟩ := hnear
    omega
  | succ fuel ih =>
    obtain ⟨k, htk, hk, hfar, hkprime⟩ := hnear
    obtain ⟨u, huk, hu⟩ := exists_first htk hkprime
    have hle := hu.le
    have hlen : u ≤ len := huk.trans hk
    have hprime : (2 * u + 1).Prime := hu.prime ht (huk.trans hfar)
    have hvalue := hs.value ht hu hlen
    have hnext : nextNonZero (s.drop fi) fi = some (2 * u + 1, u - 1) :=
      nextNonZero_eq (i := u - 1) (by omega)
        (fun j _ hj => hs.zero_of_lt hu hlen (by omega)) hvalue (Nat.succ_ne_zero _)
    have hindex : s.idxOf? (2 * u + 1) = some (u - 1) :=
      idxOf?_eq (ht.trans hle) (Nat.succ_ne_zero _) hvalue fun k hk => hs.zero_of_lt hu hlen hk
    simp only [sieveLoop, hnext, hindex, Option.bind_eq_bind, Option.bind_some]
    by_cases hend : 2 * len + 1 < (2 * u + 1) ^ 2
    · rw [if_pos hend, hs.primes ht hu hlen hend]
    · rw [if_neg hend]
      obtain ⟨s', hclear, hlength, hzero, hkept⟩ :=
        clear_eq (m := 2 * u + 1) (s := s) (len - 1)
          ((2 * u + 1) * (2 * u + 1 - 1) / 2 + (u - 1)) (Nat.succ_pos _) (by rw [hs.length]; omega)
      obtain ⟨hindex', hs'⟩ := hs.turn ht hu hlen hlength
        (fun k hk hmul => by
          obtain ⟨r, rfl⟩ := (place_iff (ht.trans hle) k).mpr hmul
          exact hzero r (by omega))
        (fun k hmul => hkept k fun r hr => hmul ((place_iff (ht.trans hle) k).mp ⟨r, hr⟩))
      rw [hclear, Option.bind_some, hindex', Option.bind_some, hu.primes ht hprime]
      refine ih (by omega) (by omega) (by omega) hs' ?_
      -- there is a prime before the double, and the square is in the list
      obtain ⟨q, hq, hlt, hq2⟩ := Nat.exists_prime_lt_and_le_two_mul (2 * u + 1) (by omega)
      obtain rfl | hodd := hq.eq_two_or_odd
      · omega
      have hdouble : 2 * (2 * u + 1) ≤ (2 * u + 1) ^ 2 := by
        rw [pow_two]
        exact Nat.mul_le_mul_right _ (by omega)
      have hq' : 2 * (q / 2) + 1 = q := by omega
      exact ⟨q / 2, by omega, by omega, by omega, by rwa [hq']⟩

theorem sieve_of_le {n : Nat} (hn : 4 ≤ n) : sieve n = some (primesBelow n) := by
  obtain ⟨len, hlen⟩ : ∃ len, (n - 2) / 2 = len + 1 := ⟨(n - 2) / 2 - 1, by omega⟩
  have hs := odds_struck n
  rw [hlen] at hs
  have hlast : (odds n).getLast? = some (2 * (len + 1) + 1) := by
    rw [List.getLast?_eq_getElem?, hs.length]
    exact hs.left len (Nat.lt_succ_self len) (by omega) (not_crossed_three (len + 1))
  have hlimit : (2 * (len + 1) + 1 - 3) / 2 = len + 1 - 1 := by omega
  have htwo : [2] = primesBelow (2 * 1 + 1) := by decide
  have heven : primesBelow (2 * (len + 1) + 2) = primesBelow n := by
    refine eq_primesBelow (pairwise_primesBelow _) fun v => ?_
    rw [mem_primesBelow]
    refine and_congr_right fun hv => ⟨fun h => by omega, fun h => ?_⟩
    obtain rfl | hodd := hv.eq_two_or_odd
    · omega
    · omega
  rw [sieve, hlast, Option.bind_eq_bind, Option.bind_some, hlimit, htwo,
    sieveLoop_eq (by omega) le_rfl le_rfl hs ⟨1, le_rfl, by omega, by omega, Nat.prime_three⟩,
    heven]

theorem main_counts {n : Nat} (hn : 4 ≤ n) : main n = some ("Number of Primes upto:  " ++
    toString n ++ "  -->  " ++ toString (Nat.primeCounting' n) ++ "\n") := by
  rw [main, sieve_of_le hn, Option.bind_eq_bind, Option.bind_some, primesBelow,
    ← List.countP_eq_length_filter]
  rfl

/-- **The program finds the primes below its bound, in order**, for every bound from 4 on; for
the others there is no list to take the last number of. -/
theorem sieve_eq_primes (n : Nat) : sieve n = if n ≤ 3 then none else some (primesBelow n) := by
  by_cases hn : n ≤ 3
  · have hzero : (n - 2) / 2 = 0 := by omega
    rw [if_pos hn, sieve, odds, hzero]
    rfl
  · rw [if_neg hn, sieve_of_le (Nat.lt_of_not_le hn)]

end VleoNotebook.Sieve.Py
