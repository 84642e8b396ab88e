import VleoNotebook.Sieve.SeivePy

/-! The other sieve in Python (`seive2.py`).

It marks off the multiples of every number that is not marked off, from the double on, and
takes the bound with it. It lists 1 and the primes (`eratosthenes_eq`). -/
namespace VleoNotebook.Sieve.Py2

open ForLoop (forLoop)
open Py (primesBelow)

/-- `sieve[i] = False` -/
def off (sieve : List Bool) (i : Nat) : Option (List Bool) :=
  if i < sieve.length then some (sieve.set i false) else none

/-- `for i in range(pv+pv, n+1, pv): sieve[i] = False` -/
def markOff (n pv : Nat) (sieve : List Bool) : Option (List Bool) :=
  forLoop (fun i _ => i < n + 1) pv (fun i sieve => off sieve i) (n + 2) (pv + pv) sieve

/-- `for i in range(3, n+1): if sieve[i]: markOff(i)` -/
def markAll (n : Nat) (sieve : List Bool) : Option (List Bool) :=
  forLoop (fun i _ => i < n + 1) 1
    (fun i sieve => do if ← sieve[i]? then markOff n i sieve else some sieve) (n + 2) 3 sieve

/-- `[ i for i in range(1, n+1) if sieve[i] ]` -/
def collect (n : Nat) (sieve : List Bool) : Option (List Nat) :=
  forLoop (fun i _ => i < n + 1) 1
    (fun i l => do return if ← sieve[i]? then l ++ [i] else l) (n + 2) 1 []

/-- `eratosthenes(n)` -/
def eratosthenes (n : Nat) : Option (List Nat) := do
  let sieve ← markOff n 2 (List.replicate (n + 1) true)
  let sieve ← markAll n sieve
  collect n sieve

/-! ### What is marked off -/

/-- A multiple of a factor below the bound, from the double on. -/
def Marked (b v : Nat) : Prop := ∃ d, 2 ≤ d ∧ d < b ∧ ∃ q, 2 ≤ q ∧ v = d * q

theorem marked_succ {b : Nat} (hb : 2 ≤ b) (v : Nat) :
    Marked (b + 1) v ↔ Marked b v ∨ ∃ q, 2 ≤ q ∧ v = b * q := by
  constructor
  · intro ⟨d, hd, hlt, hmul⟩
    obtain hlt | rfl := Nat.lt_succ_iff_lt_or_eq.mp hlt
    · exact .inl ⟨d, hd, hlt, hmul⟩
    · exact .inr hmul
  · intro h
    obtain ⟨d, hd, hlt, hmul⟩ | hmul := h
    · exact ⟨d, hd, Nat.lt_succ_of_lt hlt, hmul⟩
    · exact ⟨b, hb, Nat.lt_succ_self b, hmul⟩

/-- What a number that is marked off would mark off is. -/
theorem marked_of_marked {b v q : Nat} (hb : Marked b b) (hq : 2 ≤ q) (hv : v = b * q) :
    Marked b v := by
  obtain ⟨d, hd, hlt, p, hp, hdp⟩ := hb
  refine ⟨d, hd, hlt, p * q, hp.trans (Nat.le_mul_of_pos_right p (by omega)), ?_⟩
  calc v
    _ = b * q := hv
    _ = d * p * q := congrArg (· * q) hdp
    _ = d * (p * q) := Nat.mul_assoc d p q

theorem prime_iff_not_marked {b v : Nat} (hv : 2 ≤ v) (hb : v ≤ b) :
    v.Prime ↔ ¬ Marked b v := by
  constructor
  · intro hprime ⟨d, hd, _, q, hq, hdq⟩
    exact Nat.not_prime_mul (by omega) (by omega) (hdq ▸ hprime)
  · intro hnot
    by_contra hprime
    obtain ⟨d, q, hd, hq, hdq⟩ := (Nat.not_prime_iff_exists_mul_eq hv).mp hprime
    have hd2 : 2 ≤ d := by
      by_contra h
      have hle : d * q ≤ 1 * q := Nat.mul_le_mul_right q (by omega)
      omega
    have hq2 : 2 ≤ q := by
      by_contra h
      have hle : d * q ≤ d * 1 := Nat.mul_le_mul_left d (by omega)
      omega
    exact hnot ⟨d, hd2, hd.trans_le hb, q, hq2, hdq.symm⟩

/-! ### The loops -/

/-- Just what is marked off below `b` is `False`. -/
structure Sieved (n b : Nat) (sieve : List Bool) : Prop where
  length : sieve.length = n + 1
  marked : ∀ k ≤ n, Marked b k → sieve[k]? = some false
  left : ∀ k ≤ n, ¬ Marked b k → sieve[k]? = some true

theorem markOff_eq {n pv : Nat} {sieve : List Bool} (hpv : 0 < pv) (hlength : sieve.length = n + 1) :
    ∃ sieve', markOff n pv sieve = some sieve' ∧ sieve'.length = n + 1 ∧
      (∀ k ≤ n, (∃ q, 2 ≤ q ∧ k = pv * q) → sieve'[k]? = some false) ∧
      ∀ k, (¬ ∃ q, 2 ≤ q ∧ k = pv * q) → sieve'[k]? = sieve[k]? := by
  have hplace (r : Nat) : pv + pv + r * pv = pv * (r + 2) := by ring
  obtain ⟨sieve', hrun, hlen, hoff, hkept⟩ :=
    ForLoop.stores hpv (show n + 1 - (pv + pv) < n + 2 by omega) hlength.ge
      (fun i => decide_eq_true_iff) fun i t (hi : i < t.length) => if_pos hi
  refine ⟨sieve', hrun, hlen.trans hlength, fun k hk hmul => ?_, fun k hmul => hkept k ?_⟩
  · obtain ⟨q, hq, rfl⟩ := hmul
    have hq2 := hplace (q - 2)
    rw [Nat.sub_add_cancel hq] at hq2
    rw [← hq2]
    exact hoff (q - 2) (by omega)
  · intro r hr
    exact hmul ⟨r + 2, Nat.le_add_left 2 r, hr.trans (hplace r)⟩

/-- One number more whose multiples are marked off. -/
theorem Sieved.markOff {n b : Nat} {sieve : List Bool} (hs : Sieved n b sieve) (hb : 2 ≤ b) :
    ∃ sieve', markOff n b sieve = some sieve' ∧ Sieved n (b + 1) sieve' := by
  obtain ⟨sieve', hrun, hlength, hoff, hkept⟩ := markOff_eq (show 0 < b by omega) hs.length
  refine ⟨sieve', hrun, hlength, fun k hk hmarked => ?_, fun k hk hnot => ?_⟩
  · by_cases hmul : ∃ q, 2 ≤ q ∧ k = b * q
    · exact hoff k hk hmul
    · rw [hkept k hmul]
      exact hs.marked k hk (((marked_succ hb k).mp hmarked).resolve_right hmul)
  · rw [marked_succ hb, not_or] at hnot
    rw [hkept k hnot.2]
    exact hs.left k hk hnot.1

theorem Sieved.markAll {n : Nat} {sieve : List Bool} (hs : Sieved n 3 sieve) :
    ∃ sieve' b, markAll n sieve = some sieve' ∧ n < b ∧ Sieved n b sieve' := by
  have hturn (i : Nat) (t : List Bool) (ht : 3 ≤ i ∧ Sieved n i t)
      (hi : decide (i < n + 1) = true) :
      ∃ t', (do if ← t[i]? then Py2.markOff n i t else some t) = some t' ∧
        3 ≤ i + 1 ∧ Sieved n (i + 1) t' := by
    obtain ⟨hi3, hs⟩ := ht
    have hin : i ≤ n := Nat.le_of_lt_succ (of_decide_eq_true hi)
    by_cases hmarked : Marked i i
    · refine ⟨t, ?_, by omega, hs.length, fun k hk h => ?_, fun k hk h => ?_⟩
      · rw [hs.marked i hin hmarked]
        rfl
      · obtain h | ⟨q, hq, hk'⟩ := (marked_succ (by omega) k).mp h
        · exact hs.marked k hk h
        · exact hs.marked k hk (marked_of_marked hmarked hq hk')
      · rw [marked_succ (by omega), not_or] at h
        exact hs.left k hk h.1
    · obtain ⟨t', hrun, ht'⟩ := hs.markOff (by omega)
      refine ⟨t', ?_, by omega, ht'⟩
      rw [hs.left i hin hmarked]
      exact hrun
  obtain ⟨i, sieve', hrun, ⟨-, hs'⟩, hstop⟩ :=
    ForLoop.holds (fun i t => 3 ≤ i ∧ Sieved n i t) (n + 1) Nat.one_pos
      (show n + 1 - 3 < n + 2 by omega) ⟨le_rfl, hs⟩
      (fun i t _ hi => decide_eq_false (by omega)) hturn
  have hend := of_decide_eq_false hstop
  exact ⟨sieve', i, hrun, by omega, hs'⟩

/-! ### What is listed -/

theorem not_marked_one (b : Nat) : ¬ Marked b 1 := by
  intro ⟨d, hd, _, q, hq, hdq⟩
  have hle : 2 * 2 ≤ d * q := Nat.mul_le_mul hd hq
  omega

/-- 1 and the primes -/
def Listed (k : Nat) : Prop := k = 1 ∨ k.Prime

instance : DecidablePred Listed := fun _ => inferInstanceAs (Decidable (_ ∨ _))

theorem Sieved.listed {n b k : Nat} {sieve : List Bool} (hs : Sieved n b sieve) (hb : n < b)
    (hk : 1 ≤ k) (hkn : k ≤ n) : sieve[k]? = some (decide (Listed k)) := by
  have hlisted : Listed k ↔ ¬ Marked b k := by
    obtain rfl | hk := Nat.eq_or_lt_of_le hk
    · exact iff_of_true (.inl rfl) (not_marked_one b)
    · rw [Listed, or_iff_right (Nat.ne_of_gt hk)]
      exact prime_iff_not_marked hk (by omega)
  by_cases hmarked : Marked b k
  · rw [hs.marked k hkn hmarked, decide_eq_false (fun h => hlisted.mp h hmarked)]
  · rw [hs.left k hkn hmarked, decide_eq_true (hlisted.mpr hmarked)]

theorem collect_eq {n b : Nat} {sieve : List Bool} (hs : Sieved n b sieve) (hb : n < b) :
    collect n sieve = some ((List.range (n + 1)).filter Listed) := by
  have hturn (i : Nat) (l : List Nat)
      (hl : 1 ≤ i ∧ i ≤ n + 1 ∧ l = (List.range i).filter Listed)
      (hi : decide (i < n + 1) = true) :
      ∃ l', (do return if ← sieve[i]? then l ++ [i] else l) = some l' ∧ 1 ≤ i + 1 ∧
        i + 1 ≤ n + 1 ∧ l' = (List.range (i + 1)).filter Listed := by
    obtain ⟨hpos, -, rfl⟩ := hl
    have hlt := of_decide_eq_true hi
    refine ⟨_, by rw [hs.listed hb hpos (by omega)]; rfl, by omega, hlt, ?_⟩
    simp only [List.range_succ, List.filter_append, List.filter_cons, List.filter_nil]
    split
    · rfl
    · rw [List.append_nil]
  have hnone : [] = (List.range 1).filter Listed := by decide
  obtain ⟨i, l, hrun, ⟨-, hle, rfl⟩, hstop⟩ :=
    ForLoop.holds (fun i l => 1 ≤ i ∧ i ≤ n + 1 ∧ l = (List.range i).filter Listed) (n + 1)
      Nat.one_pos (show n + 1 - 1 < n + 2 by omega) ⟨le_rfl, by omega, hnone⟩
      (fun i l _ hi => decide_eq_false (by omega)) hturn
  have hend : i = n + 1 := Nat.le_antisymm hle (Nat.le_of_not_lt (of_decide_eq_false hstop))
  rw [collect, hrun, hend]

theorem filter_listed {n : Nat} (hn : 1 ≤ n) :
    (List.range (n + 1)).filter Listed = 1 :: primesBelow (n + 1) := by
  refine Py.eq_cons_primesBelow (List.pairwise_lt_range.filter _) fun v => ?_
  rw [List.mem_filter, List.mem_range, decide_eq_true_eq, Listed]
  constructor
  · intro ⟨hlt, h⟩
    exact h.imp_right fun hv => ⟨hv, hlt⟩
  · intro h
    obtain rfl | ⟨hv, hlt⟩ := h
    · exact ⟨by omega, .inl rfl⟩
    · exact ⟨hlt, .inr hv⟩

/-- **The program lists 1 and the primes up to its bound**, the bound included. -/
theorem eratosthenes_eq (n : Nat) :
    eratosthenes n = some (if n = 0 then [] else 1 :: primesBelow (n + 1)) := by
  have hstart : Sieved n 2 (List.replicate (n + 1) true) := by
    refine ⟨List.length_replicate, fun k _ h => ?_, fun k hk _ => ?_⟩
    · obtain ⟨d, hd, hlt, -⟩ := h
      omega
    · rw [List.getElem?_replicate, if_pos (by omega)]
  obtain ⟨s₁, htwo, hs₁⟩ := hstart.markOff le_rfl
  obtain ⟨s₂, b, hall, hb, hs₂⟩ := hs₁.markAll
  have hlist : (List.range (n + 1)).filter Listed =
      if n = 0 then [] else 1 :: primesBelow (n + 1) := by
    by_cases hn : n = 0
    · subst hn
      rfl
    · rw [if_neg hn, filter_listed (by omega)]
  rw [eratosthenes, htwo, Option.bind_eq_bind, Option.bind_some, hall, Option.bind_some,
    collect_eq hs₂ hb, hlist]

end VleoNotebook.Sieve.Py2
