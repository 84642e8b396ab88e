import VleoNotebook.Lib.RunningSum
import Mathlib.Algebra.Order.Ring.Rat

/-! Blocks drawn by their weights (`World.py`, `Block.py`).

`weightedChoice` draws a number up to the total of the weights and returns the first item
whose running sum reaches it. So every item gets an interval as long as its weight, and
together they are all there is to draw. But the comparison is not strict: a draw of 0 returns
the first item even if its weight is 0. In every other case the choice goes by the weights
(`proportional_iff`). Numbers are exact here. -/
namespace VleoNotebook.Game

open RunningSum (Reaches upto)

section
variable {α 𝕜 : Type}

def weights (choices : List (α × 𝕜)) : List 𝕜 := choices.map Prod.snd

theorem length_weights (choices : List (α × 𝕜)) : (weights choices).length = choices.length :=
  List.length_map _

theorem getElem?_weights {choices : List (α × 𝕜)} {i : Nat} {c : α × 𝕜}
    (hc : choices[i]? = some c) : (weights choices)[i]? = some c.2 := by
  rw [weights, List.getElem?_map, hc, Option.map_some]

theorem weights_nonneg [LE 𝕜] [Zero 𝕜] {choices : List (α × 𝕜)}
    (hw : ∀ c ∈ choices, 0 ≤ c.2) : ∀ w ∈ weights choices, 0 ≤ w := by
  intro w hmem
  obtain ⟨c, hc, rfl⟩ := List.mem_map.mp hmem
  exact hw c hc

/-- The choices with their positions for items. -/
def positions (choices : List (α × 𝕜)) : List (Nat × 𝕜) := choices.mapIdx fun i c => (i, c.2)

theorem weights_positions (choices : List (α × 𝕜)) :
    weights (positions choices) = weights choices := by
  refine List.ext_getElem? fun i => ?_
  rw [weights, weights, positions, List.getElem?_map, List.getElem?_mapIdx, List.getElem?_map,
    Option.map_map]
  rfl

variable [AddCommGroup 𝕜] [LinearOrder 𝕜]

/-- `for c, w in choices: ...`, and the assertion behind the loop. -/
def choose (r : 𝕜) : 𝕜 → List (α × 𝕜) → Option α
  | _, [] => none
  | upto, (c, w) :: choices => if upto + w ≥ r then some c else choose r (upto + w) choices

/-- `weightedChoice(choices)`; `random.uniform` is a parameter. -/
def weightedChoice (uniform : 𝕜 → 𝕜 → 𝕜) (choices : List (α × 𝕜)) : Option α :=
  let total := (weights choices).sum
  let r := uniform 0 total
  choose r 0 choices

/-- The draws that return the item at position `i`. -/
def draws (choices : List (α × 𝕜)) (i : Nat) : Set 𝕜 :=
  {r | r ∈ Set.Icc 0 (weights choices).sum ∧
    weightedChoice (fun _ _ => r) (positions choices) = some i}

/-- The set is an interval of this length, with both its ends or the upper one. -/
def IsInterval (S : Set 𝕜) (length : 𝕜) : Prop :=
  ∃ a b, b - a = length ∧ (S = Set.Icc a b ∨ S = Set.Ioc a b)

/-- A choice by weights. -/
structure Proportional (choices : List (α × 𝕜)) : Prop where
  /-- Every draw returns the item at some position; the assertion is not reached. -/
  returned : ∀ r ∈ Set.Icc 0 (weights choices).sum, ∃ i c, choices[i]? = some c ∧
    r ∈ draws choices i ∧ weightedChoice (fun _ _ => r) choices = some c.1
  unique : ∀ i j r, r ∈ draws choices i → r ∈ draws choices j → i = j
  interval : ∀ i c, choices[i]? = some c → IsInterval (draws choices i) c.2
  /-- No draw returns an item of weight 0. -/
  weighted : ∀ i c, choices[i]? = some c → c.2 = 0 → draws choices i = ∅

/-! ### The first running sum that reaches the draw -/

variable [IsOrderedAddMonoid 𝕜]

theorem choose_eq_some_iff (r upto : 𝕜) (choices : List (α × 𝕜)) (c : α) :
    choose r upto choices = some c ↔
      ∃ i w, choices[i]? = some (c, w) ∧ Reaches (weights choices) (r - upto) i := by
  induction choices generalizing upto with
  | nil => exact iff_of_false (by simp [choose]) (by simp)
  | cons d choices ih =>
    obtain ⟨d, w⟩ := d
    have hcons : weights ((d, w) :: choices) = w :: weights choices := rfl
    have hreached : upto + w ≥ r ↔ r - upto ≤ w := sub_le_iff_le_add'.symm
    rw [choose, hcons]
    split
    next hle =>
      rw [hreached] at hle
      constructor
      · intro heq
        exact ⟨0, w, by rw [← Option.some.inj heq]; rfl, (RunningSum.reaches_cons_zero w _).mpr hle⟩
      · intro ⟨i, v, hi, hreaches⟩
        obtain rfl := hreaches.unique ((RunningSum.reaches_cons_zero w _).mpr hle)
        rw [(Prod.mk.inj (Option.some.inj hi)).1]
    next hlt =>
      rw [hreached] at hlt
      rw [ih, ← sub_sub]
      constructor
      · intro ⟨i, v, hi, hreaches⟩
        exact ⟨i + 1, v, hi,
          (RunningSum.reaches_cons_succ w _ i).mpr ⟨lt_of_not_ge hlt, hreaches⟩⟩
      · intro ⟨i, v, hi, hreaches⟩
        cases i with
        | zero => exact absurd ((RunningSum.reaches_cons_zero w _).mp hreaches) hlt
        | succ i => exact ⟨i, v, hi, ((RunningSum.reaches_cons_succ w _ i).mp hreaches).2⟩

theorem weightedChoice_eq_some_iff (r : 𝕜) (choices : List (α × 𝕜)) (c : α) :
    weightedChoice (fun _ _ => r) choices = some c ↔
      ∃ i w, choices[i]? = some (c, w) ∧ Reaches (weights choices) r i := by
  rw [weightedChoice, choose_eq_some_iff, sub_zero]

theorem mem_draws_iff {r : 𝕜} {choices : List (α × 𝕜)} {i : Nat} :
    r ∈ draws choices i ↔ r ∈ Set.Icc 0 (weights choices).sum ∧ Reaches (weights choices) r i := by
  refine and_congr_right fun _ => ?_
  rw [weightedChoice_eq_some_iff, weights_positions]
  constructor
  · intro ⟨j, w, hj, hreaches⟩
    rw [positions, List.getElem?_mapIdx] at hj
    obtain ⟨c, -, heq⟩ := Option.map_eq_some_iff.mp hj
    rwa [← (Prod.mk.inj heq).1]
  · intro hreaches
    have hi : i < choices.length := by
      rw [← length_weights]
      exact hreaches.1
    refine ⟨i, choices[i].2, ?_, hreaches⟩
    rw [positions, List.getElem?_mapIdx, List.getElem?_eq_getElem hi]
    rfl

/-! ### The intervals -/

variable {choices : List (α × 𝕜)}

theorem draws_unique {i j : Nat} {r : 𝕜} (hi : r ∈ draws choices i) (hj : r ∈ draws choices j) :
    i = j :=
  (mem_draws_iff.mp hi).2.unique (mem_draws_iff.mp hj).2

theorem exists_mem_draws (hne : choices ≠ []) {r : 𝕜} (hr : r ∈ Set.Icc 0 (weights choices).sum) :
    ∃ i c, choices[i]? = some c ∧ r ∈ draws choices i ∧
      weightedChoice (fun _ _ => r) choices = some c.1 := by
  have hweights : weights choices ≠ [] := by simpa [weights] using hne
  obtain ⟨i, hreaches, -⟩ := RunningSum.existsUnique_reaches hweights hr.2
  have hi : i < choices.length := by
    rw [← length_weights]
    exact hreaches.1
  exact ⟨i, choices[i], List.getElem?_eq_getElem hi, mem_draws_iff.mpr ⟨hr, hreaches⟩,
    (weightedChoice_eq_some_iff r choices _).mpr ⟨i, _, List.getElem?_eq_getElem hi, hreaches⟩⟩

/-- The sums in front of an item and behind it are not past the total. -/
theorem upto_add_le {i : Nat} {c : α × 𝕜} (hw : ∀ c ∈ choices, 0 ≤ c.2)
    (hc : choices[i]? = some c) :
    upto (weights choices) i + c.2 ≤ (weights choices).sum := by
  have hi := getElem?_weights hc
  rw [← RunningSum.upto_succ hi]
  exact RunningSum.upto_le_sum (weights_nonneg hw) (List.getElem?_eq_some_iff.mp hi).1

theorem draws_zero (hw : ∀ c ∈ choices, 0 ≤ c.2) {c : α × 𝕜} (hc : choices[0]? = some c) :
    draws choices 0 = Set.Icc 0 c.2 := by
  have hle := upto_add_le hw hc
  rw [RunningSum.upto_zero, zero_add] at hle
  ext r
  rw [mem_draws_iff, RunningSum.reaches_zero_iff (getElem?_weights hc)]
  exact ⟨fun h => ⟨h.1.1, h.2⟩, fun h => ⟨⟨h.1, h.2.trans hle⟩, h.2⟩⟩

theorem draws_succ (hw : ∀ c ∈ choices, 0 ≤ c.2) {i : Nat} {c : α × 𝕜}
    (hc : choices[i + 1]? = some c) :
    draws choices (i + 1) =
      Set.Ioc (upto (weights choices) (i + 1)) (upto (weights choices) (i + 1) + c.2) := by
  have hpos := RunningSum.upto_nonneg (weights_nonneg hw) (i + 1)
  have hle := upto_add_le hw hc
  ext r
  rw [mem_draws_iff, RunningSum.reaches_succ_iff (weights_nonneg hw) (getElem?_weights hc)]
  exact ⟨And.right, fun h => ⟨⟨hpos.trans h.1.le, h.2.trans hle⟩, h⟩⟩

theorem isInterval_draws (hw : ∀ c ∈ choices, 0 ≤ c.2) {i : Nat} {c : α × 𝕜}
    (hc : choices[i]? = some c) : IsInterval (draws choices i) c.2 := by
  cases i with
  | zero => exact ⟨0, c.2, sub_zero _, Or.inl (draws_zero hw hc)⟩
  | succ i => exact ⟨_, _, add_sub_cancel_left _ _, Or.inr (draws_succ hw hc)⟩

/-- The first item is what 0 returns. -/
theorem zero_mem_draws (hw : ∀ c ∈ choices, 0 ≤ c.2) {c : α × 𝕜} (hc : choices[0]? = some c) :
    0 ∈ draws choices 0 := by
  rw [draws_zero hw hc]
  exact ⟨le_rfl, hw c (List.mem_of_getElem? hc)⟩

/-- A first item of weight 0 is returned all the same. -/
theorem Proportional.first_ne (h : Proportional choices) (hw : ∀ c ∈ choices, 0 ≤ c.2)
    {c : α × 𝕜} (hc : choices[0]? = some c) : c.2 ≠ 0 := by
  intro hzero
  have hnone := h.weighted 0 c hc hzero
  exact Set.eq_empty_iff_forall_notMem.mp hnone 0 (zero_mem_draws hw hc)

theorem proportional_of_first_ne (hw : ∀ c ∈ choices, 0 ≤ c.2) {c : α × 𝕜}
    (hc : choices[0]? = some c) (hfirst : c.2 ≠ 0) : Proportional choices := by
  have hne : choices ≠ [] := List.ne_nil_of_mem (List.mem_of_getElem? hc)
  refine ⟨fun r hr => exists_mem_draws hne hr, fun i j r => draws_unique,
    fun i d hd => isInterval_draws hw hd, fun i d hd hzero => ?_⟩
  cases i with
  | zero =>
    rw [Option.some.inj (hc.symm.trans hd)] at hfirst
    exact absurd hzero hfirst
  | succ i => rw [draws_succ hw hd, hzero, add_zero, Set.Ioc_self]

/-- **The choice goes by the weights** if and only if the first weight is not 0. -/
theorem proportional_iff (choices : List (α × 𝕜)) (hne : choices ≠ [])
    (hw : ∀ c ∈ choices, 0 ≤ c.2) : Proportional choices ↔ (choices.head hne).2 ≠ 0 := by
  have hhead : choices[0]? = some (choices.head hne) := by
    rw [← List.head?_eq_getElem?, List.head?_eq_some_head hne]
  exact ⟨fun h => h.first_ne hw hhead, proportional_of_first_ne hw hhead⟩

end

theorem proportional_three :
    Proportional [('a', (1 : ℚ)), ('b', 2), ('c', 4)] ↔
      ([('a', (1 : ℚ)), ('b', 2), ('c', 4)].head (List.cons_ne_nil _ _)).2 ≠ 0 :=
  proportional_iff _ (List.cons_ne_nil _ _) (by decide)

/-- A draw of 0 returns the item of weight 0. -/
theorem zero_weight_drawn :
    (0 : ℚ) ∈ Set.Icc 0 (weights [('a', (0 : ℚ)), ('b', 1)]).sum ∧
      weightedChoice (fun _ _ => 0) [('a', (0 : ℚ)), ('b', 1)] = some 'a' := by
  refine ⟨⟨le_rfl, ?_⟩, ?_⟩
  · simp [weights]
  · simp [weightedChoice, choose]

end VleoNotebook.Game
