import VleoNotebook.Game.WeightedChoice
import Mathlib.Tactic.NormNum

/-! The blocks of a row (`World.py`, `Block.py`).

A row is filled from the blocks it may have with the weights they have in it. Where every one of
them has a weight, the choice goes by the weights only in the rows past 25: in the others it can
take quartz, which has weight 0 there and is registered first (`proportional_row_iff`). -/
namespace VleoNotebook.Game

inductive Block where
  | stone
  | dirt
  | coal
  | iron
  | cuprum
  | quarts

namespace Block

/-- `p(y)`; a row that no branch is for has no weight. -/
def p : Block → Int → Option ℚ
  | stone, y =>
    if y > 20 then some 0.3
    else if y > 5 then some 0.8
    else if y > 3 then some 0.5
    else if y < 3 then some 0.1
    else if y = 0 then some 0.0
    else none
  | dirt, y =>
    if y > 10 then some 0.0
    else if y > 3 then some 0.3
    else if y < 3 then some 0.9
    else if y = 0 then some 1.0
    else none
  | coal, y =>
    if y < 5 then some 0.0
    else if y > 5 then some 0.1
    else if y > 10 then some 0.5
    else if y > 20 then some 0.2
    else none
  | iron, y =>
    if y < 5 then some 0.0
    else if y > 7 then some 0.2
    else if y > 15 then some 0.5
    else if y > 25 then some 0.3
    else none
  | cuprum, y =>
    if y < 5 then some 0.00001
    else if y > 10 then some 0.05
    else if y > 15 then some 0.1
    else if y > 30 then some 0.3
    else if y > 35 then some 0.08
    else none
  | quarts, y =>
    if y < 25 then some 0.0
    else if y > 25 then some 0.2
    else if y > 30 then some 0.12
    else none

theorem p_nonneg {b : Block} {y : Int} {w : ℚ} (h : b.p y = some w) : 0 ≤ w := by
  cases b with
  | stone | dirt | coal | iron | cuprum | quarts =>
    simp only [p] at h
    split_ifs at h <;> (obtain rfl := Option.some.inj h; norm_num)

theorem p_quarts {y : Int} {w : ℚ} (h : quarts.p y = some w) : w ≠ 0 ↔ 25 < y := by
  simp only [p] at h
  split_ifs at h with hlt hgt
  · obtain rfl := Option.some.inj h
    exact iff_of_false (by norm_num) (by omega)
  · obtain rfl := Option.some.inj h
    exact iff_of_true (by norm_num) hgt
  · omega

end Block

/-- The blocks the world is made with. -/
def registeredBlocks : List Block := [.quarts, .cuprum, .iron, .coal, .stone, .dirt]

/-- `[(b,b.p(y)) for b in self.registeredBlocks]`, where every block has a weight to add. -/
def rowChoices (registeredBlocks : List Block) (y : Int) : Option (List (Block × ℚ)) :=
  registeredBlocks.mapM fun b => (b.p y).map fun w => (b, w)

theorem rowChoices_nonneg {blocks : List Block} {y : Int} {choices : List (Block × ℚ)}
    (h : rowChoices blocks y = some choices) : ∀ c ∈ choices, 0 ≤ c.2 := by
  induction blocks generalizing choices with
  | nil =>
    obtain rfl := Option.some.inj h
    exact nofun
  | cons b blocks ih =>
    rw [rowChoices, List.mapM_cons] at h
    obtain ⟨c, hc, h⟩ := Option.bind_eq_some_iff.mp h
    obtain ⟨rest, hrest, h⟩ := Option.bind_eq_some_iff.mp h
    obtain rfl := Option.some.inj h
    obtain ⟨w, hw, rfl⟩ := Option.map_eq_some_iff.mp hc
    rw [List.forall_mem_cons]
    exact ⟨Block.p_nonneg hw, ih hrest⟩

/-- **In the rows past 25, and only there, the world is filled by the weights.** -/
theorem proportional_row_iff {y : Int} {choices : List (Block × ℚ)}
    (h : rowChoices registeredBlocks y = some choices) : Proportional choices ↔ 25 < y := by
  have hw := rowChoices_nonneg h
  rw [rowChoices, registeredBlocks, List.mapM_cons] at h
  obtain ⟨c, hc, h⟩ := Option.bind_eq_some_iff.mp h
  obtain ⟨rest, -, h⟩ := Option.bind_eq_some_iff.mp h
  obtain rfl := Option.some.inj h
  obtain ⟨w, hquarts, rfl⟩ := Option.map_eq_some_iff.mp hc
  rw [← Block.p_quarts hquarts]
  exact ⟨fun hprop => hprop.first_ne hw rfl, proportional_of_first_ne hw rfl⟩

end VleoNotebook.Game
