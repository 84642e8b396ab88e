import VleoNotebook.Life.Torus

/-! Runs of a world from its board.

`__init__` makes the two boards of new rows that take turns in memory (`init_holds`), so a run
from any board of zeros and ones is a run of the automaton (`nextGens_eq`), on every torus
(`nextGen_shift`). -/
namespace VleoNotebook.Life.World

open Python (Ref Heap item item_natCast forRange forRange_holds)

/-! ### The board given -/

/-- `b0[y][x]` -/
def givenCell (b0 : Option (List (List Int))) (y x : Nat) : Option Int :=
  ((b0.getD [])[y]?).bind (·[x]?)

/-- Where the world has a cell, the board given has a zero or a one. -/
def ZeroOne (w h : Nat) (b0 : Option (List (List Int))) : Prop :=
  given b0 = true → ∀ y < h, ∀ x < w, givenCell b0 y x = some 0 ∨ givenCell b0 y x = some 1

instance (w h : Nat) (b0 : Option (List (List Int))) : Decidable (ZeroOne w h b0) :=
  inferInstanceAs (Decidable (_ → _))

/-- Whether a cell lives at first. -/
def startCell (b0 : Option (List (List Int))) (y x : Nat) : Bool :=
  given b0 && givenCell b0 y x == some 1

/-- The state at first, without a cell alive if no board is given. -/
def start (w h : Nat) (b0 : Option (List (List Int))) : Torus h w :=
  fun c => startCell b0 c.1.val c.2.val

theorem given_eq_true {b0 : Option (List (List Int))} (h : given b0 = true) :
    ∃ b, b0 = some b := by
  cases b0 with
  | none => cases h
  | some b => exact ⟨b, rfl⟩

theorem item_given {w h : Nat} {b0 : Option (List (List Int))} (hb0 : ZeroOne w h b0)
    (hgiven : given b0 = true) {y x : Nat} (hy : y < h) (hx : x < w) :
    ∃ b row, b0 = some b ∧ item b y = some row ∧ item row x = some (bit (startCell b0 y x)) := by
  have hbit : givenCell b0 y x = some (bit (startCell b0 y x)) := by
    rw [startCell, hgiven]
    obtain hc | hc := hb0 hgiven y hy x hx <;> rw [hc] <;> rfl
  obtain ⟨b, rfl⟩ := given_eq_true hgiven
  obtain ⟨row, hrow, hcell⟩ := Option.bind_eq_some_iff.mp hbit
  exact ⟨b, row, rfl, item_natCast hrow, item_natCast hcell⟩

theorem startCell_of_not_given {b0 : Option (List (List Int))} (h : given b0 = false) (y x : Nat) :
    bit (startCell b0 y x) = 0 := by
  rw [startCell, h]
  rfl

/-! ### The memory at first -/

/-- The rows of the boards take turns. -/
def rowRefs (y : Nat) : List Ref := (List.range y).map (2 * ·)

def rowRefsNext (y : Nat) : List Ref := (List.range y).map (2 * · + 1)

/-- The first cells of a row. -/
def rowStart (b0 : Option (List (List Int))) (y x : Nat) : List Int :=
  (List.range x).map fun x => bit (startCell b0 y x)

def rowsStart (w : Nat) (b0 : Option (List (List Int))) (y : Nat) : List (List Int) :=
  (List.range y).flatMap fun y => [rowStart b0 y w, List.replicate w 0]

theorem rowStart_succ (b0 : Option (List (List Int))) (y x : Nat) :
    rowStart b0 y (x + 1) = rowStart b0 y x ++ [bit (startCell b0 y x)] := by
  rw [rowStart, List.range_succ, List.map_append]
  rfl

theorem length_rowStart (b0 : Option (List (List Int))) (y x : Nat) :
    (rowStart b0 y x).length = x := by
  rw [rowStart, List.length_map, List.length_range]

theorem rowsStart_succ (w : Nat) (b0 : Option (List (List Int))) (y : Nat) :
    rowsStart w b0 (y + 1) = rowsStart w b0 y ++ [rowStart b0 y w, List.replicate w 0] := by
  rw [rowsStart, List.range_succ, List.flatMap_append, List.flatMap_singleton]
  rfl

theorem length_rowsStart (w : Nat) (b0 : Option (List (List Int))) (y : Nat) :
    (rowsStart w b0 y).length = 2 * y := by
  induction y with
  | zero => rfl
  | succ y ih =>
    rw [rowsStart_succ, List.length_append, ih]
    rfl

/-- The memory with the rows before `y` finished. -/
def memoryAt (w : Nat) (b0 : Option (List (List Int))) (y : Nat) : Memory where
  boards := [rowRefs y, rowRefsNext y]
  rows := rowsStart w b0 y

theorem getElem?_rowRefs {y k : Nat} (h : y < k) : (rowRefs k)[y]? = some (2 * y) := by
  rw [rowRefs, List.getElem?_map, List.getElem?_range h]
  rfl

theorem getElem?_rowRefsNext {y k : Nat} (h : y < k) :
    (rowRefsNext k)[y]? = some (2 * y + 1) := by
  rw [rowRefsNext, List.getElem?_map, List.getElem?_range h]
  rfl

/-! ### The loops of `__init__` -/

/-- The world in the making. -/
def newWorld (w h : Nat) : World :=
  { board := 0, boardNext := 1, boardTmp := none, t := 0, h, w }

/-- Two rows in the making, behind the finished ones. -/
def withRows (w : Nat) (b0 : Option (List (List Int))) (y : Nat) (a b : List Int) : Memory where
  boards := [rowRefs (y + 1), rowRefsNext (y + 1)]
  rows := rowsStart w b0 y ++ [a, b]

section
variable (w : Nat) (b0 : Option (List (List Int))) (y : Nat) (a b : List Int)

theorem getElem?_withRows : (withRows w b0 y a b).rows[2 * y]? = some a := by
  have hlen := length_rowsStart w b0 y
  rw [withRows, List.getElem?_append_right (by omega), hlen, Nat.sub_self]
  rfl

theorem getElem?_withRows_next : (withRows w b0 y a b).rows[2 * y + 1]? = some b := by
  have hlen := length_rowsStart w b0 y
  rw [withRows, List.getElem?_append_right (by omega), hlen, Nat.add_sub_cancel_left]
  rfl

theorem set_withRows (a' : List Int) :
    (withRows w b0 y a b).rows.set (2 * y) a' = (withRows w b0 y a' b).rows := by
  have hlen := length_rowsStart w b0 y
  rw [withRows, List.set_append_right _ _ (by omega), hlen, Nat.sub_self]
  rfl

theorem set_withRows_next (b' : List Int) :
    (withRows w b0 y a b).rows.set (2 * y + 1) b' = (withRows w b0 y a b').rows := by
  have hlen := length_rowsStart w b0 y
  rw [withRows, List.set_append_right _ _ (by omega), hlen, Nat.add_sub_cancel_left]
  rfl

theorem getItem_withRows : (withRows w b0 y a b).boards.getItem 0 y = some (2 * y) :=
  Heap.getItem_eq rfl (getElem?_rowRefs (Nat.lt_succ_self y))

theorem getItem_withRows_next : (withRows w b0 y a b).boards.getItem 1 y = some (2 * y + 1) :=
  Heap.getItem_eq rfl (getElem?_rowRefsNext (Nat.lt_succ_self y))

theorem pushCell_board (v : Int) :
    pushCell (withRows w b0 y a b) 0 y v = some (withRows w b0 y (a ++ [v]) b) := by
  rw [pushCell, getItem_withRows]
  simp only [Option.bind_eq_bind, Option.bind_some, Heap.push_eq (getElem?_withRows w b0 y a b),
    set_withRows]
  rfl

theorem pushCell_boardNext (v : Int) :
    pushCell (withRows w b0 y a b) 1 y v = some (withRows w b0 y a (b ++ [v])) := by
  rw [pushCell, getItem_withRows_next]
  simp only [Option.bind_eq_bind, Option.bind_some,
    Heap.push_eq (getElem?_withRows_next w b0 y a b), set_withRows_next]
  rfl

theorem setCell_board {x : Nat} (hx : x < a.length) (v : Int) :
    setCell (withRows w b0 y a b) 0 y x v = some (withRows w b0 y (a.set x v) b) := by
  rw [setCell, getItem_withRows]
  simp only [Option.bind_eq_bind, Option.bind_some,
    Heap.setItem_eq (getElem?_withRows w b0 y a b) hx, set_withRows]
  rfl

end

theorem initCell_eq {w h : Nat} {b0 : Option (List (List Int))} (hb0 : ZeroOne w h b0) {y x : Nat}
    (hy : y < h) (hx : x < w) :
    initCell (newWorld w h) b0 y
        (withRows w b0 y (rowStart b0 y x) (List.replicate x 0)) x =
      some (withRows w b0 y (rowStart b0 y (x + 1)) (List.replicate (x + 1) 0)) := by
  have hlen := length_rowStart b0 y x
  rw [initCell, newWorld, pushCell_board, Option.bind_eq_bind, Option.bind_some,
    pushCell_boardNext, Option.bind_eq_bind, Option.bind_some, rowStart_succ,
    List.replicate_succ']
  split
  next hgiven =>
    have hset : (rowStart b0 y x ++ [0]).set x (bit (startCell b0 y x)) =
        rowStart b0 y x ++ [bit (startCell b0 y x)] := by
      rw [List.set_append_right _ _ (by omega), hlen, Nat.sub_self]
      rfl
    obtain ⟨b, row, rfl, hrow, hcell⟩ := item_given hb0 hgiven hy hx
    simp only [Option.bind_eq_bind, Option.bind_some, hrow, hcell]
    rw [setCell_board _ _ _ _ _ (by rw [List.length_append, hlen]; exact Nat.lt_succ_self x), hset]
  next hgiven =>
    rw [startCell_of_not_given (by simpa using hgiven)]
    rfl

theorem initRow_eq {w h : Nat} {b0 : Option (List (List Int))} (hb0 : ZeroOne w h b0) {y : Nat}
    (hy : y < h) :
    initRow (newWorld w h) b0 (memoryAt w b0 y) y = some (memoryAt w b0 (y + 1)) := by
  have hrows : (rowsStart w b0 y ++ [[]]).length = 2 * y + 1 := by
    rw [List.length_append, length_rowsStart]
    rfl
  have hrefs : rowRefs (y + 1) = rowRefs y ++ [2 * y] := by
    rw [rowRefs, List.range_succ, List.map_append]
    rfl
  have hrefsNext : rowRefsNext (y + 1) = rowRefsNext y ++ [2 * y + 1] := by
    rw [rowRefsNext, List.range_succ, List.map_append]
    rfl
  have hpush : pushRow (memoryAt w b0 y) 0 = some
      { boards := [rowRefs (y + 1), rowRefsNext y], rows := rowsStart w b0 y ++ [[]] } := by
    rw [pushRow, Heap.create, memoryAt, length_rowsStart, hrefs]
    rfl
  have hpushNext : pushRow
      { boards := [rowRefs (y + 1), rowRefsNext y], rows := rowsStart w b0 y ++ [[]] } 1 =
        some (withRows w b0 y (rowStart b0 y 0) (List.replicate 0 0)) := by
    rw [pushRow, Heap.create, hrows, withRows, hrefsNext, List.append_assoc]
    rfl
  have hcells (x : Nat) (mem : Memory) (hx : x < w)
      (hmem : mem = withRows w b0 y (rowStart b0 y x) (List.replicate x 0)) :
      ∃ mem', initCell (newWorld w h) b0 y mem x = some mem' ∧
        mem' = withRows w b0 y (rowStart b0 y (x + 1)) (List.replicate (x + 1) 0) :=
    ⟨_, hmem ▸ initCell_eq hb0 hy hx, rfl⟩
  obtain ⟨mem, hrun, rfl⟩ := forRange_holds
    (fun x mem => mem = withRows w b0 y (rowStart b0 y x) (List.replicate x 0)) rfl hcells
  have hrow : initRow (newWorld w h) b0 (memoryAt w b0 y) y = forRange w
      (initCell (newWorld w h) b0 y) (withRows w b0 y (rowStart b0 y 0) (List.replicate 0 0)) := by
    rw [initRow, newWorld, hpush, Option.bind_eq_bind, Option.bind_some, hpushNext]
    rfl
  rw [hrow, hrun, withRows, ← rowsStart_succ]
  rfl

theorem init_eq {w h : Nat} {b0 : Option (List (List Int))} (hb0 : ZeroOne w h b0) :
    init w h b0 = some (memoryAt w b0 h, newWorld w h) := by
  have hrows (y : Nat) (mem : Memory) (hy : y < h) (hmem : mem = memoryAt w b0 y) :
      ∃ mem', initRow (newWorld w h) b0 mem y = some mem' ∧ mem' = memoryAt w b0 (y + 1) :=
    ⟨_, hmem ▸ initRow_eq hb0 hy, rfl⟩
  obtain ⟨mem, hrun, rfl⟩ := forRange_holds (fun y mem => mem = memoryAt w b0 y) rfl hrows
  show (forRange h (initRow (newWorld w h) b0) (memoryAt w b0 0)).bind _ = _
  rw [hrun]
  rfl

/-! ### The world at first -/

theorem getElem?_rowsStart (w : Nat) (b0 : Option (List (List Int))) {h y : Nat} (hy : y < h) :
    (rowsStart w b0 h)[2 * y]? = some (rowStart b0 y w) ∧
      (rowsStart w b0 h)[2 * y + 1]? = some (List.replicate w 0) := by
  induction h with
  | zero => exact absurd hy (Nat.not_lt_zero y)
  | succ h ih =>
    have hlen := length_rowsStart w b0 h
    rw [rowsStart_succ]
    obtain rfl | hlt := Nat.eq_or_lt_of_le (Nat.le_of_lt_succ hy)
    · exact ⟨getElem?_withRows w b0 y _ _, getElem?_withRows_next w b0 y _ _⟩
    · rw [List.getElem?_append_left (by omega), List.getElem?_append_left (by omega)]
      exact ih hlt

theorem nodup_rowRefs (h : Nat) : (rowRefs h ++ rowRefsNext h).Nodup := by
  refine List.nodup_append'.mpr ⟨?_, ?_, ?_⟩
  · exact List.nodup_range.map fun i j hij => by simpa using hij
  · exact List.nodup_range.map fun i j hij => by simpa using hij
  · intro r hr hr'
    obtain ⟨i, -, hi⟩ := List.mem_map.mp hr
    obtain ⟨j, -, hj⟩ := List.mem_map.mp hr'
    have heq : (2 * i : Nat) = 2 * j + 1 := hi.trans hj.symm
    omega

theorem start_eq (b0 : Option (List (List Int))) {w h y x : Nat} (hy : y < h) (hx : x < w) :
    start w h b0 (y, x) = startCell b0 y x := by
  rw [start, ZMod.val_natCast_of_lt hy, ZMod.val_natCast_of_lt hx]

theorem start_holds (w h : Nat) (b0 : Option (List (List Int))) :
    Holds (memoryAt w b0 h) (newWorld w h) (start w h b0) (rowRefs h) (rowRefsNext h) := by
  have hboard : IsBoard (memoryAt w b0 h) 0 (rowRefs h) h w := by
    refine ⟨rfl, by rw [rowRefs, List.length_map, List.length_range], fun r hr => ?_⟩
    obtain ⟨y, hy, rfl⟩ := List.mem_map.mp hr
    rw [memoryAt, (getElem?_rowsStart w b0 (List.mem_range.mp hy)).1, Option.map_some,
      length_rowStart]
  have hboardNext : IsBoard (memoryAt w b0 h) 1 (rowRefsNext h) h w := by
    refine ⟨rfl, by rw [rowRefsNext, List.length_map, List.length_range], fun r hr => ?_⟩
    obtain ⟨y, hy, rfl⟩ := List.mem_map.mp hr
    rw [memoryAt, (getElem?_rowsStart w b0 (List.mem_range.mp hy)).2, Option.map_some,
      List.length_replicate]
  refine ⟨rfl, rfl, hboard, hboardNext, Nat.zero_ne_one, nodup_rowRefs h, fun y x hy hx => ?_⟩
  show cell (memoryAt w b0 h) 0 y x = _
  rw [cell_eq hboard (getElem?_rowRefs hy) hx, cellOf, memoryAt, (getElem?_rowsStart w b0 hy).1,
    Option.bind_some, rowStart, List.getElem?_map, List.getElem?_range hx, start_eq b0 hy hx]
  rfl

/-- `board` and `boardNext` are two lists, and no row is in both. -/
def Apart (mem : Memory) (self : World) : Prop :=
  self.board ≠ self.boardNext ∧
    ∀ rs rs', mem.boards[self.board]? = some rs → mem.boards[self.boardNext]? = some rs' →
      rs.Disjoint rs'

theorem Holds.apart_rows {mem : Memory} {self : World} {h w : Nat} {g : Torus h w}
    {rs rs' : List Ref} (hs : Holds mem self g rs rs') : Apart mem self := by
  refine ⟨hs.apart, fun rs₁ rs₂ h₁ h₂ => ?_⟩
  obtain ⟨-, -, hdisjoint⟩ := List.nodup_append'.mp hs.nodup
  rw [hs.board.rows] at h₁
  rw [hs.boardNext.rows] at h₂
  obtain rfl := Option.some.inj h₁
  obtain rfl := Option.some.inj h₂
  exact hdisjoint

/-- **Runs of a world are runs of the automaton**, from any board of zeros and ones and whatever
cells are in `boardNext`: the two boards stay two, and `t` counts the steps. -/
theorem nextGens_eq (w h : Nat) (b0 : Option (List (List Int))) (hb0 : ZeroOne w h b0) :
    ∃ mem self rs', init w h b0 = some (mem, self) ∧ mem.boards[self.boardNext]? = some rs' ∧
      ∀ stale, Rewritten mem rs' stale → ∀ n, ∃ mem' self',
        nextGens n stale self = some (mem', self') ∧
          view mem' self' = some (render ((life h w).next^[n] (start w h b0))) ∧
          Apart mem' self' ∧ self'.t = self.t + n := by
  refine ⟨_, _, _, init_eq hb0, rfl, fun stale hstale n => ?_⟩
  obtain ⟨mem', self', rs₁, rs₂, hrun, hs, ht⟩ :=
    ((start_holds w h b0).rewritten hstale).nextGens n
  exact ⟨mem', self', hrun, hs.view, hs.apart_rows, ht⟩

/-- Three cells in a column, on a torus of four by four. -/
theorem nextGens_column :
    let b0 : Option (List (List Int)) :=
      some [[0, 1, 0, 0], [0, 1, 0, 0], [0, 1, 0, 0], [0, 0, 0, 0]]
    ∃ mem self rs', init 4 4 b0 = some (mem, self) ∧ mem.boards[self.boardNext]? = some rs' ∧
      ∀ stale, Rewritten mem rs' stale → ∀ n, ∃ mem' self',
        nextGens n stale self = some (mem', self') ∧
          view mem' self' = some (render ((life 4 4).next^[n] (start 4 4 b0))) ∧
          Apart mem' self' ∧ self'.t = self.t + n :=
  nextGens_eq 4 4 (some [[0, 1, 0, 0], [0, 1, 0, 0], [0, 1, 0, 0], [0, 0, 0, 0]]) (by decide)

/-! ### The torus -/

/-- `nextGen` of a board. -/
def nextBoard (w h : Nat) (board : List (List Int)) : Option (List (List Int)) := do
  let (mem, self) ← init w h (some board)
  let (mem, self) ← nextGen mem self
  view mem self

/-- The board moved by `a` rows and `b` columns, what leaves it coming in on the other side. -/
def shiftBoard (w h : Nat) (a b : Int) (board : List (List Int)) : List (List Int) :=
  (List.range h).map fun y : Nat => (List.range w).map fun x : Nat =>
    (board.getD ((y - a) % h).toNat []).getD ((x - b) % w).toNat 0

/-- `h` rows of `w` cells, all zeros and ones. -/
def ZeroOneBoard (w h : Nat) (board : List (List Int)) : Prop :=
  board.length = h ∧ ∀ row ∈ board, row.length = w ∧ ∀ v ∈ row, v = 0 ∨ v = 1

instance (w h : Nat) (board : List (List Int)) : Decidable (ZeroOneBoard w h board) :=
  inferInstanceAs (Decidable (_ ∧ _))

theorem getElem?_render {h w : Nat} (g : Torus h w) {y x : Nat} (hy : y < h) (hx : x < w) :
    ((render g)[y]?).bind (·[x]?) = some (bit (g (y, x))) := by
  rw [render, List.getElem?_map, List.getElem?_range hy, Option.map_some, Option.bind_some,
    List.getElem?_map, List.getElem?_range hx, Option.map_some]

theorem getD_render {h w : Nat} (g : Torus h w) {y x : Nat} (hy : y < h) (hx : x < w) :
    ((render g).getD y []).getD x 0 = bit (g (y, x)) := by
  obtain ⟨row, hrow, hcell⟩ := Option.bind_eq_some_iff.mp (getElem?_render g hy hx)
  rw [List.getD_eq_getElem?_getD, List.getD_eq_getElem?_getD, hrow, Option.getD_some, hcell,
    Option.getD_some]

/-- A board of zeros and ones shows a state. -/
theorem exists_render {w h : Nat} {board : List (List Int)} (hboard : ZeroOneBoard w h board) :
    ∃ g : Torus h w, board = render g := by
  obtain ⟨hheight, hrows⟩ := hboard
  refine ⟨fun c => (board.getD c.1.val []).getD c.2.val 0 == 1, ?_⟩
  refine List.ext_getElem (by rw [render, List.length_map, List.length_range, hheight]) ?_
  intro y hy hy'
  obtain ⟨hwidth, hcells⟩ := hrows board[y] (List.getElem_mem hy)
  simp only [render, List.getElem_map, List.getElem_range]
  refine List.ext_getElem (by rw [List.length_map, List.length_range, hwidth]) ?_
  intro x hx hx'
  have hcell : (board.getD y []).getD x 0 = board[y][x] := by
    rw [List.getD_eq_getElem?_getD, List.getD_eq_getElem?_getD, List.getElem?_eq_getElem hy,
      Option.getD_some, List.getElem?_eq_getElem hx, Option.getD_some]
  rw [List.getElem_map, List.getElem_range, ZMod.val_natCast_of_lt (by omega),
    ZMod.val_natCast_of_lt (by omega), hcell]
  obtain hv | hv := hcells board[y][x] (List.getElem_mem hx) <;> rw [hv] <;> rfl

/-- A world given a board that shows a state begins with it. -/
theorem start_render {w h : Nat} (hh : 0 < h) (hw : 0 < w) (g : Torus h w) :
    start w h (some (render g)) = g := by
  have hheight : NeZero h := ⟨by omega⟩
  have hwidth : NeZero w := ⟨by omega⟩
  funext c
  have hcell := getElem?_render g (ZMod.val_lt c.1) (ZMod.val_lt c.2)
  rw [ZMod.natCast_zmod_val, ZMod.natCast_zmod_val] at hcell
  have hgiven : given (some (render g)) = true := by
    rw [given, render, List.isEmpty_map, Bool.not_eq_true', List.isEmpty_eq_false_iff]
    exact List.ne_nil_of_length_pos (by rw [List.length_range]; exact hh)
  show (given (some (render g)) && ((render g)[c.1.val]?).bind (·[c.2.val]?) == some 1) = g c
  rw [hgiven, hcell]
  cases g c <;> rfl

theorem nextBoard_render {w h : Nat} (hh : 0 < h) (hw : 0 < w) (g : Torus h w) :
    nextBoard w h (render g) = some (render ((life h w).next g)) := by
  have hzeroOne : ZeroOne w h (some (render g)) := by
    intro _ y hy x hx
    rw [givenCell, Option.getD_some, getElem?_render g hy hx]
    cases g (y, x)
    · exact Or.inl rfl
    · exact Or.inr rfl
  obtain ⟨mem', self', hrun, hs, -⟩ := (start_holds w h (some (render g))).nextGen
  rw [start_render hh hw] at hs
  rw [nextBoard, init_eq hzeroOne]
  simp only [Option.bind_eq_bind, Option.bind_some, hrun]
  exact hs.view

theorem shiftBoard_render {w h : Nat} (hh : 0 < h) (hw : 0 < w) (a b : Int) (g : Torus h w) :
    shiftBoard w h a b (render g) = render (Automaton.shift (a, b) g) := by
  refine List.map_congr_left fun y _ => List.map_congr_left fun x _ => ?_
  obtain ⟨y', hy, hylt, hy'⟩ := exists_emod (y - a) hh
  obtain ⟨x', hx, hxlt, hx'⟩ := exists_emod (x - b) hw
  rw [hy, hx, Int.toNat_natCast, Int.toNat_natCast, getD_render g hylt hxlt, hy', hx',
    Int.cast_sub, Int.cast_sub, Int.cast_natCast, Int.cast_natCast]
  rfl

/-- **The world is a torus**: a board that is shifted goes on as it would have and is shifted
then, so that no cell is at a border. -/
theorem nextGen_shift (w h : Nat) (hw : 1 ≤ w) (hh : 1 ≤ h) (board : List (List Int))
    (hboard : ZeroOneBoard w h board) (a b : Int) :
    ∃ next, nextBoard w h board = some next ∧
      nextBoard w h (shiftBoard w h a b board) = some (shiftBoard w h a b next) := by
  obtain ⟨g, rfl⟩ := exists_render hboard
  refine ⟨_, nextBoard_render hh hw g, ?_⟩
  rw [shiftBoard_render hh hw, nextBoard_render hh hw, shiftBoard_render hh hw,
    Automaton.next_shift]

/-- A board of one row. -/
theorem nextGen_shift_row :
    ∃ next, nextBoard 3 1 [[0, 1, 1]] = some next ∧
      nextBoard 3 1 (shiftBoard 3 1 7 (-4) [[0, 1, 1]]) = some (shiftBoard 3 1 7 (-4) next) :=
  nextGen_shift 3 1 (by decide) (by decide) [[0, 1, 1]] (by decide) 7 (-4)

end VleoNotebook.Life.World
