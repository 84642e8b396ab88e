import VleoNotebook.Sieve.Seive
import VleoNotebook.Sieve.Seive2Py
import VleoNotebook.Sieve.SeiveP5

/-! The sieves of `benchmark` side by side.

Each goes its own way, and what they find is the same but for 1, which two of them list, and
for the bound, which two of them take with it. -/
namespace VleoNotebook.Sieve

open Py (primesBelow)

/-- What the sieve in Perl lists. -/
theorem filter_listed {max : Nat} (hmax : 2 ≤ max) :
    (List.range (max + 1)).filter (P5.Listed max) = 1 :: primesBelow max := by
  refine Py.eq_cons_primesBelow (List.pairwise_lt_range.filter _) fun v => ?_
  rw [List.mem_filter, List.mem_range, decide_eq_true_eq, P5.Listed]
  constructor
  · intro hv
    obtain ⟨-, -, hlt, hlisted⟩ := hv
    exact hlisted.imp_right fun hprime => ⟨hprime, hlt⟩
  · intro h
    obtain rfl | ⟨hv, hlt⟩ := h
    · exact ⟨by omega, le_rfl, by omega, .inl rfl⟩
    · exact ⟨by omega, hv.one_lt.le, hlt, .inr hv⟩

/-- **The sieves agree**: the list of `seive.py` comes behind 1 in the one in Perl, and in
`seive2.py` if its bound is less by one; and `isprime` of the one in C says what is in it, as
far as it goes. -/
theorem sieves_agree (n : Nat) (hn : 4 ≤ n) : ∃ l, Py.sieve n = some l ∧
    P5.seive n = some (1 :: l, l.length + 1) ∧
    Py2.eratosthenes (n - 1) = some (1 :: l) ∧
    ∃ sieve, C.make = some sieve ∧ ∀ v : Nat, v < n → v ≤ 2 * C.p2 →
      C.isprime sieve v = some (decide (v ∈ l)) := by
  obtain ⟨sieve, b, hmake, hb, hs⟩ := C.make_eq
  refine ⟨primesBelow n, Py.sieve_of_le hn, ?_, ?_, sieve, hmake, fun v hv hbits => ?_⟩
  · rw [P5.seive_eq, filter_listed (by omega), List.length_cons]
  · rw [Py2.eratosthenes_eq, if_neg (by omega), Nat.sub_add_cancel (by omega)]
  · rw [hs.isprime_eq hb, if_pos (.inl (by omega))]
    refine congrArg some (decide_eq_decide.mpr ?_)
    rw [Py.mem_primesBelow, Int.toNat_natCast, and_iff_right (Int.natCast_nonneg v),
      and_iff_left hv]

theorem sieves_agree_ten : ∃ l, Py.sieve 10 = some l ∧ P5.seive 10 = some (1 :: l, l.length + 1) ∧
    Py2.eratosthenes (10 - 1) = some (1 :: l) ∧
    ∃ sieve, C.make = some sieve ∧ ∀ v : Nat, v < 10 → v ≤ 2 * C.p2 →
      C.isprime sieve v = some (decide (v ∈ l)) :=
  sieves_agree 10 (by decide)

end VleoNotebook.Sieve
