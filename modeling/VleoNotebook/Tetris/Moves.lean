import Mathlib.Algebra.Order.BigOperators.Group.List
import Mathlib.Algebra.Order.Ring.Nat
import Mathlib.Data.List.FinRange
import VleoNotebook.Tetris.Lines

/-! Pieces of `tetris.py` on the board.

A piece has four squares, each another one and one of them its own place, however it is
turned (`Shape.Piece`). Where it is free of what is on the board it moves (`tryMove_eq`);
placed, it takes four squares more (`place_eq`), and a line taken out frees ten
(`occupied_removed`). -/
namespace VleoNotebook.Tetris

/-! ### Pieces and their turns -/

/-- A shape that is a piece, turned in whatever way. -/
structure Shape.Piece (s : Shape) : Prop where
  shape : s.pieceShape ≠ .noShape
  injective : Function.Injective s.coords
  origin : ∃ i, s.coords i = (0, 0)

namespace Shape
variable {s : Shape}

theorem Piece.rotateLeft (h : s.Piece) : s.rotateLeft.Piece := by
  unfold Shape.rotateLeft
  split
  · exact h
  · refine ⟨h.shape, fun i j hij => h.injective ?_, ?_⟩
    · obtain ⟨hy, hx⟩ := Prod.mk.inj hij
      exact Prod.ext (Int.neg_inj.mp hx) hy
    · obtain ⟨i, hi⟩ := h.origin
      exact ⟨i, by simp only [x, y, hi, Int.neg_zero]⟩

theorem Piece.rotateRight (h : s.Piece) : s.rotateRight.Piece := by
  unfold Shape.rotateRight
  split
  · exact h
  · refine ⟨h.shape, fun i j hij => h.injective ?_, ?_⟩
    · obtain ⟨hy, hx⟩ := Prod.mk.inj hij
      exact Prod.ext hx (Int.neg_inj.mp hy)
    · obtain ⟨i, hi⟩ := h.origin
      exact ⟨i, by simp only [x, y, hi, Int.neg_zero]⟩

theorem setRandomShape_piece (n : Fin 7) : (setRandomShape n).Piece := by
  have hshape : ∀ n, (setRandomShape n).pieceShape ≠ .noShape := by decide
  have hinjective : ∀ n i j, (setRandomShape n).coords i = (setRandomShape n).coords j → i = j := by
    decide
  have horigin : ∀ n, ∃ i, (setRandomShape n).coords i = (0, 0) := by decide
  exact ⟨hshape n, hinjective n, horigin n⟩

end Shape

/-! ### Where a piece is free -/

/-- A square of the piece is on the board and empty. -/
def FreeAt (l : List Tetrominoe) (s : Shape) (x y : ℤ) (i : Fin 4) : Prop :=
  (0 ≤ x + s.x i ∧ x + s.x i < 10) ∧ (0 ≤ y - s.y i ∧ y - s.y i < 22) ∧
    cell l (y - s.y i).toNat (x + s.x i).toNat = .noShape

instance (l : List Tetrominoe) (s : Shape) (x y : ℤ) (i : Fin 4) : Decidable (FreeAt l s x y i) :=
  inferInstanceAs (Decidable (_ ∧ _ ∧ _))

def Free (l : List Tetrominoe) (s : Shape) (x y : ℤ) : Prop := ∀ i, FreeAt l s x y i

instance (l : List Tetrominoe) (s : Shape) (x y : ℤ) : Decidable (Free l s x y) :=
  inferInstanceAs (Decidable (∀ _, _))

/-- A piece is never below the board. -/
theorem Free.nonneg {l : List Tetrominoe} {s : Shape} {x y : ℤ} (h : Free l s x y)
    (hs : s.Piece) : 0 ≤ y ∧ y < 22 := by
  obtain ⟨i, hi⟩ := hs.origin
  obtain ⟨-, hy, -⟩ := h i
  have hzero : s.y i = 0 := congrArg Prod.snd hi
  rw [hzero, Int.sub_zero] at hy
  exact hy

namespace Board
variable {b : Board}

theorem shapeAt_int {x y : ℤ} (hx : 0 ≤ x ∧ x < 10) (hy : 0 ≤ y ∧ y < 22)
    (h : 220 ≤ b.board.length) : b.shapeAt x y = some (cell b.board y.toNat x.toNat) := by
  obtain ⟨n, rfl⟩ := Int.eq_ofNat_of_zero_le hx.1
  obtain ⟨m, rfl⟩ := Int.eq_ofNat_of_zero_le hy.1
  exact shapeAt_eq (show m * 10 + n < b.board.length by omega)

theorem setShapeAt_int {x y : ℤ} (hx : 0 ≤ x ∧ x < 10) (hy : 0 ≤ y ∧ y < 22)
    (h : 220 ≤ b.board.length) (v : Tetrominoe) :
    b.setShapeAt x y v = some (b.withBoard (b.board.set (y.toNat * 10 + x.toNat) v)) := by
  obtain ⟨n, rfl⟩ := Int.eq_ofNat_of_zero_le hx.1
  obtain ⟨m, rfl⟩ := Int.eq_ofNat_of_zero_le hy.1
  exact setShapeAt_eq (show m * 10 + n < b.board.length by omega) v

theorem fits_eq (h : 220 ≤ b.board.length) (s : Shape) (x y : ℤ) (is : List (Fin 4)) :
    b.fits s x y is = some (decide (∀ i ∈ is, FreeAt b.board s x y i)) := by
  induction is with
  | nil => rfl
  | cons i is ih =>
    simp only [fits, List.forall_mem_cons]
    by_cases hout : x + s.x i < 0 ∨ x + s.x i ≥ boardWidth ∨ y - s.y i < 0 ∨ y - s.y i ≥ boardHeight
    · have hnot : ¬ FreeAt b.board s x y i := by
        intro hfree
        obtain ⟨hx, hy, -⟩ := hfree
        simp only [boardWidth, boardHeight] at hout
        omega
      rw [if_pos hout, decide_eq_false (fun hall => hnot hall.1)]
      rfl
    · have hbounds : (0 ≤ x + s.x i ∧ x + s.x i < 10) ∧ 0 ≤ y - s.y i ∧ y - s.y i < 22 := by
        simp only [boardWidth, boardHeight] at hout
        omega
      rw [if_neg hout, shapeAt_int hbounds.1 hbounds.2 h]
      simp only [Option.bind_eq_bind, Option.bind_some, ih]
      by_cases hcell : cell b.board (y - s.y i).toNat (x + s.x i).toNat = .noShape
      · have hfree : FreeAt b.board s x y i := ⟨hbounds.1, hbounds.2, hcell⟩
        rw [if_neg (not_not.mpr hcell)]
        simp only [hfree, true_and]
      · rw [if_pos hcell, decide_eq_false (fun hall => hcell hall.1.2.2)]
        rfl

/-- **A piece moves to where it is free.** -/
theorem tryMove_eq (h : 220 ≤ b.board.length) (s : Shape) (x y : ℤ) : b.tryMove s x y =
    some (if Free b.board s x y then (true, {b with curPiece := s, curX := x, curY := y})
      else (false, b)) := by
  rw [tryMove, fits_eq h]
  have hall : (∀ i ∈ List.finRange 4, FreeAt b.board s x y i) ↔ Free b.board s x y := by
    simp [Free]
  simp only [hall, Option.bind_eq_bind, Option.bind_some]
  by_cases hfree : Free b.board s x y
  · simp only [hfree, decide_true, if_true]
    rfl
  · simp only [hfree, decide_false, if_false]
    rfl

/-- How many squares are taken. -/
def occupied (b : Board) : Nat := b.board.countP (· ≠ .noShape)

/-- The row is that of a list with one square set. -/
theorem row_set {l : List Tetrominoe} {x y : Nat} (v : Tetrominoe) (hx : x < 10)
    (h : y * 10 + x < l.length) {y' : Nat} (hy : y' ≠ y) :
    row (l.set (y * 10 + x) v) y' = row l y' := by
  refine List.map_congr_left fun x' hx' => ?_
  rw [cell_set v hx (List.mem_range.mp hx') h, if_neg (fun heq => hy heq.1)]

/-- One square of a piece is set. -/
theorem place_square (h : 220 ≤ b.board.length) {s : Shape} (hs : s.Piece) {x y : ℤ} {i : Fin 4}
    (hfree : FreeAt b.board s x y i) : ∃ l',
      b.setShapeAt (x + s.x i) (y - s.y i) s.pieceShape = some (b.withBoard l') ∧
        l'.length = b.board.length ∧ (b.withBoard l').occupied = b.occupied + 1 ∧
          (∀ j, j ≠ i → FreeAt b.board s x y j → FreeAt l' s x y j) ∧
            (∀ y', 22 ≤ y' → row l' y' = row b.board y') ∧
              ∀ y' x', x' < 10 → cell l' y' x' = cell b.board y' x' ∨ x + s.x i = x' := by
  obtain ⟨hx, hy, hcell⟩ := hfree
  have hlt : (y - s.y i).toNat * 10 + (x + s.x i).toNat < b.board.length := by omega
  refine ⟨_, setShapeAt_int hx hy h _, List.length_set .., ?_, ?_, ?_, ?_⟩
  · have hold : b.board[(y - s.y i).toNat * 10 + (x + s.x i).toNat] = .noShape := by
      rw [cell, List.getElem?_eq_getElem hlt] at hcell
      exact hcell
    show (b.board.set _ _).countP _ = b.board.countP _ + 1
    rw [List.countP_set hlt, hold]
    simp [hs.shape]
  · intro j hj hfree
    obtain ⟨hx', hy', hcell'⟩ := hfree
    refine ⟨hx', hy', ?_⟩
    rw [cell_set _ (by omega) (by omega) hlt, if_neg ?_]
    · exact hcell'
    · intro heq
      have hxy : s.x j = s.x i ∧ s.y j = s.y i := by omega
      exact hj (hs.injective (Prod.ext hxy.1 hxy.2))
  · intro y' hy'
    exact row_set _ (by omega) hlt (by omega)
  · intro y' x' hx'
    rw [cell_set _ (by omega) hx' hlt]
    split
    · rename_i heq
      exact .inr (by omega)
    · exact .inl rfl

/-- **Placed, a piece takes four squares more.** -/
theorem place_eq (h : 220 ≤ b.board.length) (hs : b.curPiece.Piece)
    (hfree : Free b.board b.curPiece b.curX b.curY) : ∃ l',
      b.place = some (b.withBoard l') ∧ l'.length = b.board.length ∧
        (b.withBoard l').occupied = b.occupied + 4 ∧
          (∀ y, 22 ≤ y → row l' y = row b.board y) ∧ ∀ y x, x < 10 →
            cell l' y x = cell b.board y x ∨ ∃ i, b.curX + b.curPiece.x i = x := by
  suffices hloop : ∀ (is : List (Fin 4)) (l : List Tetrominoe), is.Nodup → 220 ≤ l.length →
      (∀ i ∈ is, FreeAt l b.curPiece b.curX b.curY i) → ∃ l',
        is.foldlM (fun b' i => b'.setShapeAt (b.curX + b.curPiece.x i) (b.curY - b.curPiece.y i)
          b.curPiece.pieceShape) (b.withBoard l) = some (b.withBoard l') ∧
        l'.length = l.length ∧ (b.withBoard l').occupied = (b.withBoard l).occupied + is.length ∧
        (∀ y, 22 ≤ y → row l' y = row l y) ∧ ∀ y x, x < 10 →
          cell l' y x = cell l y x ∨ ∃ i, b.curX + b.curPiece.x i = x by
    exact hloop (List.finRange 4) b.board (List.nodup_finRange 4) h fun i _ => hfree i
  intro is
  induction is with
  | nil => exact fun l _ _ _ => ⟨l, rfl, rfl, rfl, fun _ _ => rfl, fun _ _ _ => .inl rfl⟩
  | cons i is ih =>
    intro l hnodup hlen hfree
    obtain ⟨hi, hnodup⟩ := List.nodup_cons.mp hnodup
    obtain ⟨hfreeAt, hfree⟩ := List.forall_mem_cons.mp hfree
    obtain ⟨l', hset, hlen', hocc, hkept, hhidden, hcell⟩ :=
      place_square (b := b.withBoard l) hlen hs hfreeAt
    have hlen'' : l'.length = l.length := hlen'
    obtain ⟨l'', hloop, hlen₂, hocc₂, hhidden₂, hcell₂⟩ := ih l' hnodup (by omega) fun j hj =>
      hkept j (fun heq => hi (heq ▸ hj)) (hfree j hj)
    refine ⟨l'', ?_, hlen₂.trans hlen'', ?_,
      fun y hy => (hhidden₂ y hy).trans (hhidden y hy), fun y x hx => ?_⟩
    · rw [List.foldlM_cons, hset]
      exact hloop
    · have hocc' : (b.withBoard l').occupied = (b.withBoard l).occupied + 1 := hocc
      rw [hocc₂, hocc', List.length_cons]
      omega
    · rcases hcell₂ y x hx with heq | hi
      · rcases hcell y x hx with heq' | hx'
        · exact .inl (heq.trans heq')
        · exact .inr ⟨i, hx'⟩
      · exact .inr hi

end Board

/-! ### What a line taken out frees -/

theorem row_eq_emptyRow_iff {l : List Tetrominoe} {y : Nat} :
    row l y = emptyRow ↔ ∀ x < 10, cell l y x = .noShape := by
  rw [row, emptyRow, List.eq_replicate_iff]
  simp

theorem row_eq_take {l : List Tetrominoe} {y : Nat} (h : y * 10 + 10 ≤ l.length) :
    row l y = (l.drop (y * 10)).take 10 := by
  refine List.ext_getElem (by simp [row]; omega) fun x hx _ => ?_
  have hx10 : x < 10 := by simpa [row] using hx
  simp [row, cell, List.getElem?_eq_getElem (show y * 10 + x < l.length by omega)]

theorem flatten_rows {l : List Tetrominoe} (h : 220 ≤ l.length) :
    (rows l).flatten = l.take 220 := by
  suffices hrows : ∀ n, n * 10 ≤ l.length →
      ((List.range n).map (row l)).flatten = l.take (n * 10) from hrows 22 h
  intro n hn
  induction n with
  | zero => rfl
  | succ n ih =>
    rw [List.range_succ, List.map_append, List.flatten_append, ih (by omega), Nat.succ_mul,
      List.take_add]
    simp [row_eq_take (show n * 10 + 10 ≤ l.length by omega)]

theorem countP_eq_sum {l : List Tetrominoe} (h : 220 ≤ l.length)
    (hhidden : ∀ y, 22 ≤ y → row l y = emptyRow) :
    l.countP (· ≠ .noShape) = ((rows l).map (List.countP (· ≠ .noShape))).sum := by
  have hrest : (l.drop 220).countP (· ≠ .noShape) = 0 := by
    rw [List.countP_eq_zero]
    intro v hv
    obtain ⟨i, hi⟩ := List.mem_iff_getElem?.mp hv
    rw [List.getElem?_drop] at hi
    have hcell := row_eq_emptyRow_iff.mp (hhidden ((220 + i) / 10) (by omega)) ((220 + i) % 10)
      (Nat.mod_lt _ (by decide))
    have hindex : (220 + i) / 10 * 10 + (220 + i) % 10 = 220 + i := by omega
    rw [cell, hindex, hi] at hcell
    simpa using hcell
  conv_lhs => rw [← List.take_append_drop 220 l]
  rw [List.countP_append, hrest, ← flatten_rows h, List.countP_flatten, Nat.add_zero]

theorem sum_filter_full {rs : List (List Tetrominoe)} (h : ∀ r ∈ rs, r.length = 10) :
    (rs.map (List.countP (· ≠ .noShape))).sum =
      ((rs.filter fun r => ¬ Full r).map (List.countP (· ≠ .noShape))).sum +
        10 * rs.countP fun r => Full r := by
  induction rs with
  | nil => rfl
  | cons r rs ih =>
    obtain ⟨hr, hrs⟩ := List.forall_mem_cons.mp h
    rw [List.map_cons, List.sum_cons, ih hrs, List.filter_cons, List.countP_cons]
    by_cases hfull : Full r
    · have hten : r.countP (· ≠ .noShape) = 10 := by
        rw [← hr, List.countP_eq_length]
        simpa [Full] using hfull
      rw [hten]
      simp only [hfull, not_true_eq_false, decide_false, decide_true, Bool.false_eq_true, if_false,
        if_true]
      omega
    · simp only [hfull, not_false_eq_true, decide_false, decide_true, Bool.false_eq_true, if_false,
        if_true, List.map_cons, List.sum_cons]
      omega

namespace Board

/-- **Each line taken out frees ten squares.** -/
theorem occupied_removed {b : Board} {l' : List Tetrominoe} (h : 220 ≤ b.board.length)
    (hhidden : ∀ y, 22 ≤ y → row b.board y = emptyRow) (hlen : l'.length = b.board.length)
    (hkept : ∀ y, 22 ≤ y → row l' y = row b.board y) (hrows : rows l' =
      (rows b.board).filter (fun r => ¬ Full r) ++ List.replicate b.fullLines emptyRow) :
    b.occupied = (b.withBoard l').occupied + 10 * b.fullLines := by
  have hten : ∀ r ∈ rows b.board, r.length = 10 := by
    intro r hr
    obtain ⟨y, -, rfl⟩ := List.mem_map.mp hr
    simp [row]
  have hempty : emptyRow.countP (· ≠ .noShape) = 0 := by decide
  show b.board.countP _ = l'.countP _ + _
  rw [countP_eq_sum h hhidden, countP_eq_sum (by omega) fun y hy => (hkept y hy).trans (hhidden y hy),
    sum_filter_full hten, hrows, List.map_append, List.sum_append, List.map_replicate, hempty]
  simp [fullLines]

end Board

end VleoNotebook.Tetris
