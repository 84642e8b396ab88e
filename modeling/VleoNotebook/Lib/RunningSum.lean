import Mathlib.Algebra.BigOperators.Group.List.Basic
import Mathlib.Algebra.Order.Group.Defs
import Mathlib.Data.Nat.Find
import Mathlib.Order.Interval.Set.Basic

/-! Running sums of weights.

Every number up to the total belongs to the first running sum that reaches it
(`existsUnique_reaches`). Weights that are not negative so divide what lies between 0 and the
total into intervals, each as long as its weight (`reaches_zero_iff`, `reaches_succ_iff`). The
first one has both its ends, the others only their upper one. -/
namespace RunningSum
variable {𝕜 : Type} [AddCommGroup 𝕜] {ws : List 𝕜}

/-- The sum of the weights in front of position `i`. -/
def upto (ws : List 𝕜) (i : Nat) : 𝕜 := (ws.take i).sum

@[simp] theorem upto_zero (ws : List 𝕜) : upto ws 0 = 0 := rfl

@[simp] theorem upto_cons_succ (w : 𝕜) (ws : List 𝕜) (i : Nat) :
    upto (w :: ws) (i + 1) = w + upto ws i := List.sum_cons

@[simp] theorem upto_length (ws : List 𝕜) : upto ws ws.length = ws.sum := by
  rw [upto, List.take_length]

theorem upto_succ {i : Nat} {w : 𝕜} (hw : ws[i]? = some w) : upto ws (i + 1) = upto ws i + w := by
  rw [upto, upto, List.take_add_one, hw, List.sum_append, Option.toList_some, List.sum_singleton]

variable [LinearOrder 𝕜] {r : 𝕜}

/-- The first running sum that reaches `r` is the one with the weight at `i`. -/
def Reaches (ws : List 𝕜) (r : 𝕜) (i : Nat) : Prop :=
  i < ws.length ∧ r ≤ upto ws (i + 1) ∧ ∀ j < i, upto ws (j + 1) < r

theorem Reaches.unique {i j : Nat} (hi : Reaches ws r i) (hj : Reaches ws r j) : i = j := by
  obtain ⟨-, hri, hlti⟩ := hi
  obtain ⟨-, hrj, hltj⟩ := hj
  obtain hlt | heq | hlt := Nat.lt_trichotomy i j
  · exact absurd hri (not_le_of_gt (hltj i hlt))
  · exact heq
  · exact absurd hrj (not_le_of_gt (hlti j hlt))

/-- **Some running sum is the first to reach a number up to the total.** -/
theorem existsUnique_reaches (hne : ws ≠ []) (hr : r ≤ ws.sum) : ∃! i, Reaches ws r i := by
  have hpos : 0 < ws.length := List.length_pos_of_ne_nil hne
  have hlast : r ≤ upto ws (ws.length - 1 + 1) := by
    rwa [Nat.sub_add_cancel hpos, upto_length]
  have hex : ∃ i, r ≤ upto ws (i + 1) := ⟨_, hlast⟩
  have hfirst : Reaches ws r (Nat.find hex) :=
    ⟨Nat.lt_of_le_of_lt (Nat.find_min' hex hlast) (Nat.sub_lt hpos Nat.one_pos),
      Nat.find_spec hex, fun j hj => lt_of_not_ge (Nat.find_min hex hj)⟩
  exact ⟨_, hfirst, fun i hi => hi.unique hfirst⟩

/-- The first weight gets the interval from 0 on, with both its ends. -/
theorem reaches_zero_iff {w : 𝕜} (hw : ws[0]? = some w) : Reaches ws r 0 ↔ r ≤ w := by
  have hlt : 0 < ws.length := (List.getElem?_eq_some_iff.mp hw).1
  rw [Reaches, upto_succ hw, upto_zero, zero_add, and_iff_right hlt]
  exact and_iff_left fun j hj => absurd hj (Nat.not_lt_zero j)

theorem reaches_cons_zero (w : 𝕜) (ws : List 𝕜) : Reaches (w :: ws) r 0 ↔ r ≤ w :=
  reaches_zero_iff rfl

variable [IsOrderedAddMonoid 𝕜]

/-- Behind the first weight the sums run from it on. -/
theorem reaches_cons_succ (w : 𝕜) (ws : List 𝕜) (i : Nat) :
    Reaches (w :: ws) r (i + 1) ↔ w < r ∧ Reaches ws (r - w) i := by
  have hbefore : (∀ j < i + 1, upto (w :: ws) (j + 1) < r) ↔
      w < r ∧ ∀ j < i, upto ws (j + 1) < r - w := by
    simp only [Nat.forall_lt_succ_left, upto_cons_succ, upto_zero, add_zero, lt_sub_iff_add_lt']
  rw [Reaches, Reaches, hbefore, upto_cons_succ, sub_le_iff_le_add', List.length_cons,
    Nat.succ_lt_succ_iff]
  exact ⟨fun ⟨hlt, hr, hw, hj⟩ => ⟨hw, hlt, hr, hj⟩, fun ⟨hw, hlt, hr, hj⟩ => ⟨hlt, hr, hw, hj⟩⟩

/-! ### Weights that are not negative -/

theorem upto_mono (hws : ∀ w ∈ ws, 0 ≤ w) : Monotone (upto ws) := by
  refine monotone_nat_of_le_succ fun i => ?_
  obtain hlt | hge := Nat.lt_or_ge i ws.length
  · rw [upto_succ (List.getElem?_eq_getElem hlt)]
    exact le_add_of_nonneg_right (hws _ (List.getElem_mem hlt))
  · rw [upto, upto, List.take_of_length_le hge, List.take_of_length_le (Nat.le_succ_of_le hge)]

theorem upto_nonneg (hws : ∀ w ∈ ws, 0 ≤ w) (i : Nat) : 0 ≤ upto ws i :=
  upto_mono hws (Nat.zero_le i)

theorem upto_le_sum (hws : ∀ w ∈ ws, 0 ≤ w) {i : Nat} (hi : i ≤ ws.length) :
    upto ws i ≤ ws.sum := by
  rw [← upto_length]
  exact upto_mono hws hi

/-- A later one gets what lies behind the sum in front of it, up to its own. -/
theorem reaches_succ_iff (hws : ∀ w ∈ ws, 0 ≤ w) {i : Nat} {w : 𝕜} (hw : ws[i + 1]? = some w) :
    Reaches ws r (i + 1) ↔ r ∈ Set.Ioc (upto ws (i + 1)) (upto ws (i + 1) + w) := by
  have hlt : i + 1 < ws.length := (List.getElem?_eq_some_iff.mp hw).1
  rw [Reaches, upto_succ hw, and_iff_right hlt, and_comm]
  refine and_congr_left fun _ => ⟨fun h => h i (Nat.lt_succ_self i), fun h j hj => ?_⟩
  exact lt_of_le_of_lt (upto_mono hws (Nat.succ_le_of_lt hj)) h

end RunningSum
