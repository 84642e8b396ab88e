import VleoNotebook.Tetris.Board

/-! Full lines of `tetris.py`.

`removeFullLines` lists the full rows and then, from the top one down, pulls every row
above down by one, square by square. What it comes to is that the full rows are taken out
and as many empty ones put on top (`removeFullLines_eq`). The row it pulls down last is
the one above the board, which is there because `clearBoard` has been called twice. -/
namespace VleoNotebook.Tetris

/-! ### Squares and rows -/

/-- A square of the list, empty beyond its end. -/
def cell (l : List Tetrominoe) (y x : Nat) : Tetrominoe := (l[y * 10 + x]?).getD .noShape

def row (l : List Tetrominoe) (y : Nat) : List Tetrominoe := (List.range 10).map (cell l y)

/-- The rows of the board, from the bottom up. -/
def rows (l : List Tetrominoe) : List (List Tetrominoe) := (List.range 22).map (row l)

def Full (r : List Tetrominoe) : Prop := ∀ c ∈ r, c ≠ .noShape

instance (r : List Tetrominoe) : Decidable (Full r) :=
  inferInstanceAs (Decidable (∀ c ∈ r, c ≠ .noShape))

def emptyRow : List Tetrominoe := List.replicate 10 .noShape

theorem cell_set {l : List Tetrominoe} {x y x' y' : Nat} (v : Tetrominoe) (hx : x < 10)
    (hx' : x' < 10) (h : y * 10 + x < l.length) :
    cell (l.set (y * 10 + x) v) y' x' = if y' = y ∧ x' = x then v else cell l y' x' := by
  rw [cell, cell, List.getElem?_set]
  by_cases heq : y' = y ∧ x' = x
  · obtain ⟨rfl, rfl⟩ := heq
    rw [if_pos rfl, if_pos h, if_pos ⟨rfl, rfl⟩]
    rfl
  · have hne : y * 10 + x ≠ y' * 10 + x' := by omega
    rw [if_neg hne, if_neg heq]

namespace Board
variable {b : Board}

theorem shapeAt_eq {x y : Nat} (h : y * 10 + x < b.board.length) :
    b.shapeAt x y = some (cell b.board y x) := by
  have hindex : (y : ℤ) * boardWidth + x = ((y * 10 + x : Nat) : ℤ) := by
    push_cast [boardWidth]
    rfl
  rw [shapeAt, hindex, cell]
  refine Python.item_natCast ?_
  rw [List.getElem?_eq_getElem h]
  rfl

theorem setShapeAt_eq {x y : Nat} (h : y * 10 + x < b.board.length) (v : Tetrominoe) :
    b.setShapeAt x y v = some {b with board := b.board.set (y * 10 + x) v} := by
  have hindex : (y : ℤ) * boardWidth + x = ((y * 10 + x : Nat) : ℤ) := by
    push_cast [boardWidth]
    rfl
  rw [setShapeAt, hindex, Python.position_natCast h]
  rfl

/-! ### Finding the full rows -/

theorem taken_eq {i : Nat} (h : i * 10 + 10 ≤ b.board.length) :
    b.taken i = some ((row b.board i).countP (· ≠ .noShape)) := by
  obtain ⟨n, hloop, rfl⟩ : ∃ n, b.taken i = some n ∧
      n = ((List.range 10).map (cell b.board i)).countP (· ≠ .noShape) := by
    refine Python.forRange_holds
      (fun j n => n = ((List.range j).map (cell b.board i)).countP (· ≠ .noShape)) rfl
      fun j n (hj : j < 10) hn => ⟨_, by rw [shapeAt_eq (show i * 10 + j < _ by omega)]; rfl, ?_⟩
    subst hn
    rw [List.range_succ, List.map_append, List.countP_append]
    by_cases hcell : cell b.board i j = .noShape
    · simp [hcell]
    · simp [hcell]
  exact hloop

theorem countP_row_iff (l : List Tetrominoe) (y : Nat) :
    (row l y).countP (· ≠ .noShape) = 10 ↔ Full (row l y) := by
  have hlen : (row l y).length = 10 := by simp [row]
  conv_lhs => rhs; rw [← hlen]
  rw [List.countP_eq_length]
  simp [Full]

theorem rowsToRemove_eq (h : 220 ≤ b.board.length) :
    b.rowsToRemove = some ((List.range 22).filter fun y => Full (row b.board y)) := by
  obtain ⟨found, hloop, rfl⟩ : ∃ found, b.rowsToRemove = some found ∧
      found = (List.range 22).filter fun y => Full (row b.board y) := by
    refine Python.forRange_holds
      (fun i found => found = (List.range i).filter fun y => Full (row b.board y)) rfl
      fun i found (hi : i < 22) hfound => ⟨_, by rw [taken_eq (show i * 10 + 10 ≤ _ by omega)]; rfl, ?_⟩
    subst hfound
    simp only [countP_row_iff]
    rw [List.range_succ, List.filter_append]
    by_cases hfull : Full (row b.board i)
    · simp [hfull]
    · simp [hfull]
  exact hloop

/-! ### Taking one out -/

/-- The board with another list on it. -/
def withBoard (b : Board) (l : List Tetrominoe) : Board := {b with board := l}

theorem pullDown_eq {l k : Nat} (hl : l < 10) (h : k * 10 + 20 ≤ b.board.length) :
    b.pullDown k l =
      some (b.withBoard (b.board.set (k * 10 + l) (cell b.board (k + 1) l))) := by
  have hup : b.shapeAt l (k + 1) = some (cell b.board (k + 1) l) :=
    shapeAt_eq (show (k + 1) * 10 + l < b.board.length by omega)
  rw [pullDown, hup]
  exact setShapeAt_eq (show k * 10 + l < b.board.length by omega) _

/-- A row becomes the one above it. -/
theorem pullRow_eq {k : Nat} (h : k * 10 + 20 ≤ b.board.length) : ∃ l',
    Python.forRange boardWidth (fun b l => b.pullDown k l) b = some (b.withBoard l') ∧
      l'.length = b.board.length ∧ ∀ y x, x < 10 →
        cell l' y x = if y = k then cell b.board (k + 1) x else cell b.board y x := by
  obtain ⟨b', hloop, l', rfl, hlen, hcell⟩ : ∃ b',
      Python.forRange boardWidth (fun b l => b.pullDown k l) b = some b' ∧ ∃ l',
        b' = b.withBoard l' ∧ l'.length = b.board.length ∧ ∀ y x, x < 10 →
          cell l' y x = if y = k ∧ x < 10 then cell b.board (k + 1) x else cell b.board y x := by
    refine Python.forRange_holds (fun j b' => ∃ l', b' = b.withBoard l' ∧
      l'.length = b.board.length ∧ ∀ y x, x < 10 →
        cell l' y x = if y = k ∧ x < j then cell b.board (k + 1) x else cell b.board y x)
      ⟨b.board, rfl, rfl, fun y x _ => by simp⟩ fun j b' (hj : j < 10) hturn => ?_
    obtain ⟨l', rfl, hlen, hcell⟩ := hturn
    refine ⟨_, pullDown_eq hj (show k * 10 + 20 ≤ l'.length by omega), _, rfl, ?_, ?_⟩
    · rw [List.length_set]
      exact hlen
    · intro y x hx
      have hup : cell l' (k + 1) j = cell b.board (k + 1) j := by
        rw [hcell _ _ hj, if_neg (by omega)]
      show cell (l'.set (k * 10 + j) (cell l' (k + 1) j)) y x = _
      rw [cell_set _ hj hx (by omega), hup, hcell y x hx]
      by_cases hy : y = k
      · subst hy
        obtain hlt | rfl | hgt := Nat.lt_trichotomy x j
        · rw [if_neg (by omega), if_pos (by omega), if_pos (by omega)]
        · rw [if_pos ⟨rfl, rfl⟩, if_pos (by omega)]
        · rw [if_neg (by omega), if_neg (by omega), if_neg (by omega)]
      · rw [if_neg (by omega), if_neg (by omega), if_neg (by omega)]
  refine ⟨l', hloop, hlen, fun y x hx => ?_⟩
  rw [hcell y x hx]
  simp only [hx, and_true]

/-- The rows from `m` on become those above them. -/
theorem removeLine_cell {m : Nat} (hm : m ≤ 22) (h : 230 ≤ b.board.length) : ∃ l',
    b.removeLine m = some (b.withBoard l') ∧ l'.length = b.board.length ∧ ∀ y x, x < 10 →
      cell l' y x = if m ≤ y ∧ y < 22 then cell b.board (y + 1) x else cell b.board y x := by
  obtain ⟨b', hloop, l', rfl, hlen, hcell⟩ : ∃ b', b.removeLine m = some b' ∧ ∃ l',
      b' = b.withBoard l' ∧ l'.length = b.board.length ∧ ∀ y x, x < 10 → cell l' y x =
        if m ≤ y ∧ y < m + (22 - m) then cell b.board (y + 1) x else cell b.board y x := by
    refine Python.forRange_holds (fun i b' => ∃ l', b' = b.withBoard l' ∧
      l'.length = b.board.length ∧ ∀ y x, x < 10 → cell l' y x =
        if m ≤ y ∧ y < m + i then cell b.board (y + 1) x else cell b.board y x)
      ⟨b.board, rfl, rfl, fun y x _ => by rw [if_neg (by omega)]⟩
      fun i b' (hi : i < 22 - m) hturn => ?_
    obtain ⟨l', rfl, hlen, hcell⟩ := hturn
    obtain ⟨l'', hrow, hlen', hcell'⟩ := pullRow_eq
      (show (m + i) * 10 + 20 ≤ (b.withBoard l').board.length from
        (by omega : (m + i) * 10 + 20 ≤ l'.length))
    refine ⟨_, hrow, l'', rfl, hlen'.trans hlen, fun y x hx => ?_⟩
    rw [hcell' y x hx]
    show (if y = m + i then cell l' (m + i + 1) x else cell l' y x) = _
    by_cases hy : y = m + i
    · subst hy
      rw [if_pos rfl, if_pos (by omega), hcell _ x hx, if_neg (by omega)]
    · rw [if_neg hy, hcell y x hx]
      by_cases hold : m ≤ y ∧ y < m + i
      · rw [if_pos hold, if_pos (by omega)]
      · rw [if_neg hold, if_neg (by omega)]
  refine ⟨l', hloop, hlen, fun y x hx => ?_⟩
  rw [hcell y x hx, Nat.add_sub_cancel' hm]

/-- The row is taken out, and the one above the board comes in. -/
theorem removeLine_rows {m : Nat} (hm : m < 22) (h : 230 ≤ b.board.length) : ∃ l',
    b.removeLine m = some (b.withBoard l') ∧ l'.length = b.board.length ∧
      rows l' = (rows b.board).eraseIdx m ++ [row b.board 22] ∧
        ∀ y, 22 ≤ y → row l' y = row b.board y := by
  obtain ⟨l', hremove, hlen, hcell⟩ := removeLine_cell hm.le h
  have hrow (y : Nat) : row l' y =
      if m ≤ y ∧ y < 22 then row b.board (y + 1) else row b.board y := by
    split
    · rename_i hy
      refine List.map_congr_left fun x hx => ?_
      rw [hcell y x (List.mem_range.mp hx), if_pos hy]
    · rename_i hy
      refine List.map_congr_left fun x hx => ?_
      rw [hcell y x (List.mem_range.mp hx), if_neg hy]
  refine ⟨l', hremove, hlen, ?_, fun y hy => by rw [hrow, if_neg (by omega)]⟩
  have hlength : (rows b.board).length = 22 := by simp [rows]
  refine List.ext_getElem ?_ fun y hy _ => ?_
  · rw [List.length_append, List.length_eraseIdx, hlength, if_pos hm, rows, List.length_map]
    rfl
  · have hy22 : y < 22 := by simpa [rows] using hy
    have hleft : (rows l')[y] = row l' y := by simp [rows]
    refine hleft.trans ?_
    rw [hrow, List.getElem_append]
    simp only [List.length_eraseIdx, hlength, if_pos hm]
    by_cases hlast : y = 21
    · subst hlast
      rw [dif_neg (by omega), if_pos (by omega)]
      rfl
    · rw [dif_pos (by omega), List.getElem_eraseIdx]
      by_cases hlt : y < m
      · rw [dif_pos hlt, if_neg (by omega)]
        simp [rows]
      · rw [dif_neg hlt, if_pos (by omega)]
        simp [rows]

end Board

/-! ### Taking out all of them -/

/-- Taking out from the last one down the places where `p` holds leaves the others. -/
theorem takeOut_eq {α : Type} (p : α → Prop) [DecidablePred p] (e : α) (n : Nat) (f : Nat → α) :
    ((List.range n).filter fun i => p (f i)).reverse.foldl (fun l i => l.eraseIdx i ++ [e])
        ((List.range n).map f) =
      ((List.range n).map f).filter (fun a => ¬ p a) ++
        List.replicate ((List.range n).filter fun i => p (f i)).length e := by
  -- what is behind the first place is taken out as it is without the first
  have hcons (a : α) (is : List Nat) (l : List α) :
      (is.map (· + 1)).foldl (fun l i => l.eraseIdx i ++ [e]) (a :: l) =
        a :: is.foldl (fun l i => l.eraseIdx i ++ [e]) l := by
    induction is generalizing l with
    | nil => rfl
    | cons i is ih => exact ih (l.eraseIdx i ++ [e])
  induction n generalizing f with
  | zero => rfl
  | succ n ih =>
    have hmap : (List.range (n + 1)).map f = f 0 :: (List.range n).map fun i => f (i + 1) := by
      rw [List.range_succ_eq_map, List.map_cons, List.map_map]
      rfl
    have hfilter : ((List.range (n + 1)).filter fun i => p (f i)) =
        (if p (f 0) then [0] else []) ++
          ((List.range n).filter fun i => p (f (i + 1))).map (· + 1) := by
      rw [List.range_succ_eq_map, List.filter_cons, List.filter_map]
      by_cases hp : p (f 0)
      · simp only [hp, decide_true, if_true]
        rfl
      · simp only [hp, decide_false, if_false, Bool.false_eq_true, List.nil_append]
        rfl
    rw [hmap, hfilter, List.reverse_append, List.foldl_append, ← List.map_reverse, hcons, ih]
    by_cases hp : p (f 0)
    · simp [hp, List.replicate_succ']
    · simp [hp]

namespace Board
variable {b : Board}

/-- Rows are taken out in any order, where an empty one is above the board. -/
theorem removeLines_rows {ms : List Nat} (hms : ∀ m ∈ ms, m < 22) (h : 230 ≤ b.board.length)
    (hhidden : row b.board 22 = emptyRow) : ∃ l',
      ms.foldlM removeLine b = some (b.withBoard l') ∧ l'.length = b.board.length ∧
        rows l' = ms.foldl (fun l m => l.eraseIdx m ++ [emptyRow]) (rows b.board) ∧
          ∀ y, 22 ≤ y → row l' y = row b.board y := by
  induction ms generalizing b with
  | nil => exact ⟨b.board, rfl, rfl, rfl, fun y _ => rfl⟩
  | cons m ms ih =>
    obtain ⟨hm, hms⟩ := List.forall_mem_cons.mp hms
    obtain ⟨l, hremove, hlen, hrows, hkept⟩ := removeLine_rows hm h
    obtain ⟨l', hloop, hlen', hrows', hkept'⟩ := ih (b := b.withBoard l) hms
      (show 230 ≤ l.length by omega) ((hkept 22 (Nat.le_refl 22)).trans hhidden)
    refine ⟨l', ?_, hlen'.trans hlen, ?_, fun y hy => (hkept' y hy).trans (hkept y hy)⟩
    · rw [List.foldlM_cons, hremove]
      exact hloop
    · rw [hrows', List.foldl_cons, ← hhidden, ← hrows]
      rfl

/-- The number of full rows. -/
def fullLines (b : Board) : Nat := (rows b.board).countP fun r => Full r

/-- **The full rows are taken out, the others keep their order, and as many empty ones come on
top.** -/
theorem removeFullLines_eq (b : Board) (h : 230 ≤ b.board.length)
    (hhidden : row b.board 22 = emptyRow) : ∃ l',
      b.removeFullLines = some ((b.withBoard l').countLines b.fullLines) ∧
        l'.length = b.board.length ∧ rows l' =
          (rows b.board).filter (fun r => ¬ Full r) ++ List.replicate b.fullLines emptyRow ∧
            ∀ y, 22 ≤ y → row l' y = row b.board y := by
  have hfound := rowsToRemove_eq (show 220 ≤ b.board.length by omega)
  have hcount : ((List.range 22).filter fun y => Full (row b.board y)).length = b.fullLines := by
    rw [fullLines, rows, List.countP_map, List.countP_eq_length_filter]
    rfl
  have hlow : ∀ m ∈ ((List.range 22).filter fun y => Full (row b.board y)).reverse, m < 22 :=
    fun m hm => List.mem_range.mp (List.mem_filter.mp (List.mem_reverse.mp hm)).1
  obtain ⟨l', hloop, hlen, hrows, hkept⟩ := removeLines_rows hlow h hhidden
  refine ⟨l', ?_, hlen, ?_, hkept⟩
  · rw [removeFullLines, hfound]
    simp only [Option.bind_eq_bind, Option.bind_some, hloop, List.length_reverse, hcount]
    rfl
  · rw [hrows, rows, takeOut_eq Full emptyRow 22 (row b.board), hcount]

/-- One row is full, and there is one row above the board. -/
def oneLine : Board :=
  {initBoard with board := List.replicate 10 .zShape ++ List.replicate 220 .noShape}

theorem length_oneLine : 230 ≤ oneLine.board.length := by
  rw [oneLine, List.length_append, List.length_replicate, List.length_replicate]

theorem removeFullLines_oneLine : ∃ l',
    oneLine.removeFullLines = some ((oneLine.withBoard l').countLines oneLine.fullLines) ∧
      l'.length = oneLine.board.length ∧ rows l' =
        (rows oneLine.board).filter (fun r => ¬ Full r) ++
          List.replicate oneLine.fullLines emptyRow ∧
          ∀ y, 22 ≤ y → row l' y = row oneLine.board y :=
  removeFullLines_eq oneLine length_oneLine (by decide +kernel)

end Board

end VleoNotebook.Tetris
