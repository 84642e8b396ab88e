import Mathlib.Algebra.Group.Basic
import Mathlib.Logic.Function.Iterate

/-! Cellular automata over a group.

The cells are the elements of a group, every cell looks at the same offsets from itself, and
all change at once. So the automaton has no cell of its own kind: it commutes with every
shift (`next_shift`). -/

/-- The offsets a cell looks at, and what becomes of it. -/
structure Automaton (G α : Type*) where
  offsets : List G
  rule : α → List α → α

namespace Automaton
variable {G α : Type*} [AddCommGroup G] (A : Automaton G α)

/-- What a cell sees. -/
def seen (g : G → α) (c : G) : List α := A.offsets.map fun o => g (c + o)

def next (g : G → α) : G → α := fun c => A.rule (g c) (A.seen g c)

/-- Every cell moved by `v`. -/
def shift (v : G) (g : G → α) : G → α := fun c => g (c - v)

theorem seen_shift (v : G) (g : G → α) (c : G) : A.seen (shift v g) c = A.seen g (c - v) := by
  refine List.map_congr_left fun o _ => ?_
  rw [shift, add_sub_right_comm]

/-- **An automaton commutes with shifts.** -/
theorem next_shift (v : G) (g : G → α) : A.next (shift v g) = shift v (A.next g) := by
  funext c
  show A.rule (g (c - v)) (A.seen (shift v g) c) = A.rule (g (c - v)) (A.seen g (c - v))
  rw [seen_shift]

end Automaton
