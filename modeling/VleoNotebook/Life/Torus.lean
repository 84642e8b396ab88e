import VleoNotebook.Lib.Automaton
import VleoNotebook.Life.Boards
import Mathlib.Data.ZMod.Basic

/-! The Game of Life on a torus.

The cells are pairs of a row and a column, both modulo the size of the board, and a cell sees
the eight around it, one that is around it on both sides as often as it is. `nextGen` takes a
board that shows a state of this automaton to one that shows the next (`Holds.nextGen`), so
that its runs are those of the automaton (`nextGens_eq`) and no cell is at a border
(`nextGen_shift`). -/
namespace VleoNotebook.Life

open Python (Ref Heap forRange forRange_holds mapM_eq_some)

/-- The states of the cells of a torus, by row and column. -/
abbrev Torus (h w : Nat) : Type := ZMod h × ZMod w → Bool

/-- A living cell goes on with two or three living ones around it, a dead one begins to live
with three. -/
def lives (cell : Bool) (around : List Bool) : Bool :=
  bif cell then around.count true == 2 || around.count true == 3 else around.count true == 3

def life (h w : Nat) : Automaton (ZMod h × ZMod w) Bool where
  offsets := [(-1, -1), (-1, 0), (-1, 1), (0, -1), (0, 1), (1, -1), (1, 0), (1, 1)]
  rule := lives

/-- A cell as the board has it. -/
def bit (cell : Bool) : Int := bif cell then 1 else 0

theorem bit_eq_one (cell : Bool) : bit cell = 1 ↔ cell = true := by
  cases cell <;> decide

theorem sum_bit (cells : List Bool) : (cells.map bit).sum = cells.count true := by
  induction cells with
  | nil => rfl
  | cons cell cells ih =>
    rw [List.map_cons, List.sum_cons, ih, List.count_cons]
    cases cell <;> simp [bit, Int.add_comm]

namespace World

/-- The board shows this state. -/
def Shows (mem : Memory) (board : Ref) {h w : Nat} (g : Torus h w) : Prop :=
  ∀ y x : Nat, y < h → x < w → cell mem board y x = some (bit (g (y, x)))

theorem exists_emod (i : Int) {n : Nat} (hn : 0 < n) :
    ∃ k : Nat, i % n = k ∧ k < n ∧ (k : ZMod n) = i := by
  have hmod : 0 ≤ i % (n : Int) := Int.emod_nonneg i (by omega)
  have hlt : i % (n : Int) < n := Int.emod_lt_of_pos i (by omega)
  obtain ⟨k, hk⟩ := Int.eq_ofNat_of_zero_le hmod
  refine ⟨k, hk, by omega, ?_⟩
  rw [← ZMod.intCast_mod i n, hk, Int.cast_natCast]

/-- Indices go round the board. -/
theorem Shows.wrapped {mem : Memory} {board : Ref} {h w : Nat} {g : Torus h w}
    (hg : Shows mem board g) (hh : 0 < h) (hw : 0 < w) (i j : Int) :
    cell mem board (i.fmod h) (j.fmod w) = some (bit (g (i, j))) := by
  obtain ⟨y, hy, hylt, hyi⟩ := exists_emod i hh
  obtain ⟨x, hx, hxlt, hxj⟩ := exists_emod j hw
  rw [Int.fmod_eq_emod_of_nonneg i (by omega), Int.fmod_eq_emod_of_nonneg j (by omega), hy, hx,
    hg y x hylt hxlt, hyi, hxj]

/-- `sigma` counts the living cells around. -/
theorem sigma_eq {mem : Memory} {self : World} {g : Torus self.h self.w}
    (hg : Shows mem self.board g) {y x : Nat} (hy : y < self.h) (hx : x < self.w) :
    sigma mem self x y = some ((((life self.h self.w).seen g (y, x)).count true : Nat) : Int) := by
  have hcell (dy dx : Int) :
      cell mem self.board ((y + dy).fmod self.h) ((x + dx).fmod self.w) =
        some (bit (g ((y : ZMod self.h) + dy, (x : ZMod self.w) + dx))) := by
    rw [hg.wrapped (by omega) (by omega), Int.cast_add, Int.cast_add, Int.cast_natCast,
      Int.cast_natCast]
  rw [← sum_bit]
  simp only [sigma, around, List.foldlM_cons, List.foldlM_nil, hcell]
  simp only [Automaton.seen, life, List.map_cons, List.map_nil, List.sum_cons, List.sum_nil]
  simp [add_assoc]

/-- The tests of `nextCellGen` are the rule. -/
theorem bit_lives (cell : Bool) (around : List Bool) :
    bit (lives cell around) =
      if bit cell = 1 then
        (if ((around.count true : Nat) : Int) > 3 ∨ ((around.count true : Nat) : Int) < 2 then 0
          else 1)
      else if ((around.count true : Nat) : Int) = 3 then 1 else 0 := by
  unfold lives
  generalize around.count true = alive
  cases cell with
  | true =>
    rw [if_pos ((bit_eq_one true).mpr rfl), cond_true]
    by_cases h : alive = 2 ∨ alive = 3
    · rw [if_neg (by omega)]
      obtain rfl | rfl := h <;> rfl
    · rw [if_pos (by omega), bit, Bool.or_eq_false_iff.mpr (by simpa [not_or] using h)]
      rfl
  | false =>
    rw [if_neg (by decide), cond_false]
    by_cases h : alive = 3
    · rw [h]
      rfl
    · rw [if_neg (by omega), beq_false_of_ne h]
      rfl

/-- A cell becomes what the automaton makes of it. -/
theorem nextCellGen_eq {mem : Memory} {self : World} {g : Torus self.h self.w}
    (hg : Shows mem self.board g) {y x : Nat} (hy : y < self.h) (hx : x < self.w) :
    nextCellGen mem self x y = some (bit ((life self.h self.w).next g (y, x))) := by
  have hnext : (life self.h self.w).next g (y, x) =
      lives (g (y, x)) ((life self.h self.w).seen g (y, x)) := rfl
  rw [nextCellGen, sigma_eq hg hy hx, hnext, bit_lives, hg y x hy hx]
  simp only [Option.bind_eq_bind, Option.bind_some, Option.pure_def]
  split <;> rfl

/-! ### Runs -/

/-- A world in a state of the automaton: `board` shows it, and shares no row with `boardNext`,
whose cells may be any. -/
structure Holds (mem : Memory) (world : World) {h w : Nat} (g : Torus h w) (rs rs' : List Ref) :
    Prop where
  height : world.h = h
  width : world.w = w
  board : IsBoard mem world.board rs h w
  boardNext : IsBoard mem world.boardNext rs' h w
  apart : world.board ≠ world.boardNext
  nodup : (rs ++ rs').Nodup
  shows : Shows mem world.board g

/-- **`nextGen` is a step of the automaton**, and the two boards change places. -/
theorem Holds.nextGen {mem : Memory} {self : World} {h w : Nat} {g : Torus h w} {rs rs' : List Ref}
    (hs : Holds mem self g rs rs') :
    ∃ mem' self', nextGen mem self = some (mem', self') ∧
      Holds mem' self' ((life h w).next g) rs' rs ∧ self'.t = self.t + 1 := by
  obtain ⟨rfl, rfl, hb, hb', hapart, hnodup, hg⟩ := hs
  obtain ⟨-, hnodup', hdisjoint⟩ := List.nodup_append'.mp hnodup
  obtain ⟨mem', hrun, hrewritten, hdone⟩ :=
    writeCells hb hb' hdisjoint hnodup' fun y x hy hx => nextCellGen_eq hg hy hx
  refine ⟨mem', ⟨self.boardNext, self.board, some self.board, self.t + 1, self.h, self.w⟩,
    ?_, ?_, rfl⟩
  · rw [World.nextGen, hrun]
    rfl
  · refine ⟨rfl, rfl, hb'.rewritten hrewritten, hb.rewritten hrewritten, hapart.symm,
      List.nodup_append_comm.mp hnodup, fun y x hy hx => ?_⟩
    have hlt : y < rs'.length := by rw [hb'.height]; exact hy
    have hr : rs'[y]? = some rs'[y] := List.getElem?_eq_getElem hlt
    rw [cell_eq (hb'.rewritten hrewritten) hr hx, hdone y x _ hy hr hx]

theorem Holds.nextGens {mem : Memory} {self : World} {h w : Nat} {g : Torus h w}
    {rs rs' : List Ref} (hs : Holds mem self g rs rs') (n : Nat) :
    ∃ mem' self' rs₁ rs₂, nextGens n mem self = some (mem', self') ∧
      Holds mem' self' ((life h w).next^[n] g) rs₁ rs₂ ∧ self'.t = self.t + n := by
  induction n generalizing mem self g rs rs' with
  | zero => exact ⟨mem, self, rs, rs', rfl, hs, rfl⟩
  | succ n ih =>
    obtain ⟨mem₁, self₁, hstep, hs₁, ht₁⟩ := hs.nextGen
    obtain ⟨mem', self', rs₁, rs₂, hrun, hs', ht'⟩ := ih hs₁
    refine ⟨mem', self', rs₁, rs₂, ?_, hs', by omega⟩
    rw [World.nextGens, hstep]
    exact hrun

/-- Other cells in `boardNext` make no difference. -/
theorem Holds.rewritten {mem mem' : Memory} {self : World} {h w : Nat} {g : Torus h w}
    {rs rs' : List Ref} (hs : Holds mem self g rs rs') (hm : Rewritten mem rs' mem') :
    Holds mem' self g rs rs' where
  height := hs.height
  width := hs.width
  board := hs.board.rewritten hm
  boardNext := hs.boardNext.rewritten hm
  apart := hs.apart
  nodup := hs.nodup
  shows := fun y x hy hx => by
    obtain ⟨-, -, hdisjoint⟩ := List.nodup_append'.mp hs.nodup
    rw [cell_rewritten hs.board hm hdisjoint, hs.shows y x hy hx]

/-- A state as a list of rows of cells. -/
def render {h w : Nat} (g : Torus h w) : List (List Int) :=
  (List.range h).map fun y : Nat => (List.range w).map fun x : Nat => bit (g (y, x))

theorem Holds.view {mem : Memory} {self : World} {h w : Nat} {g : Torus h w} {rs rs' : List Ref}
    (hs : Holds mem self g rs rs') : view mem self = some (render g) := by
  have hrows (r : Ref) (hr : r ∈ rs) : mem.rows[r]? = some (mem.rows.getD r []) := by
    obtain ⟨row, hrow, -⟩ := Option.map_eq_some_iff.mp (hs.board.width r hr)
    rw [List.getD_eq_getElem?_getD, hrow, Option.getD_some]
  rw [World.view, hs.board.rows]
  show rs.mapM (fun r => mem.rows[r]?) = _
  rw [mapM_eq_some hrows, Option.some_inj, render]
  have hlen : (rs.map (mem.rows.getD · [])).length = h := by rw [List.length_map, hs.board.height]
  refine List.ext_getElem? fun y => ?_
  rw [List.getElem?_map, List.getElem?_map]
  obtain hy | hy := Nat.lt_or_ge y h
  · have hlt : y < rs.length := by rw [hs.board.height]; exact hy
    have hr : rs[y]? = some rs[y] := List.getElem?_eq_getElem hlt
    obtain ⟨row, hrow, hwidth⟩ :=
      Option.map_eq_some_iff.mp (hs.board.width rs[y] (List.getElem_mem hlt))
    rw [hr, List.getElem?_range hy, Option.map_some, Option.map_some, List.getD_eq_getElem?_getD,
      hrow, Option.getD_some, Option.some_inj]
    refine List.ext_getElem? fun x => ?_
    rw [List.getElem?_map]
    obtain hx | hx := Nat.lt_or_ge x w
    · have hcell := hs.shows y x hy hx
      rw [cell_eq hs.board hr hx, cellOf, hrow] at hcell
      rw [List.getElem?_range hx]
      exact hcell
    · rw [List.getElem?_eq_none (by omega), List.getElem?_eq_none (by simpa using hx)]
      rfl
  · rw [List.getElem?_eq_none (by rw [hs.board.height]; exact hy),
      List.getElem?_eq_none (by simpa using hy)]
    rfl

end World

end VleoNotebook.Life
