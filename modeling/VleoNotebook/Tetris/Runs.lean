import VleoNotebook.Lib.Runs
import VleoNotebook.Tetris.Moves

/-! Games of `tetris.py`.

Whatever keys are pressed and whatever pieces come, no game dies of an `IndexError`, and
after every event the board is `Valid`: the piece lies on empty squares of it, no row is
full, and the squares of all pieces are accounted for (`run_valid`). -/
namespace VleoNotebook.Tetris

namespace Board

/-! ### What every event keeps -/

/-- What is kept of the squares. -/
structure Clear (b : Board) : Prop where
  length : b.board.length = 440
  /-- Nothing is above the board. -/
  hidden : ∀ y, 22 ≤ y → row b.board y = emptyRow
  noFull : b.fullLines = 0

/-- There is a piece, or a line has been taken out, or the game is over. -/
structure Valid (b : Board) : Prop extends Clear b where
  piece : b.curPiece.pieceShape ≠ .noShape → b.isStarted = true ∧ b.isWaitingAfterLine = false ∧
    b.curPiece.Piece ∧ Free b.board b.curPiece b.curX b.curY
  none : b.curPiece.pieceShape = .noShape → b.isWaitingAfterLine = b.isStarted
  waiting : b.isWaitingAfterLine = true → b.isPaused = false
  timer : b.timer = (b.isStarted && !b.isPaused)
  /-- Four squares for each piece, less ten for each line. A piece that is not on the board is the
  current one, or the one the game was lost with. -/
  counted : 4 * b.drawn = b.occupied + 10 * b.numLinesRemoved +
    if b.isWaitingAfterLine then 0 else 4

variable {random : Nat → Fin 7} {b : Board}

/-! ### A new piece -/

theorem newPiece_eq (h : 220 ≤ b.board.length) : b.newPiece random =
    some (if Free b.board (b.deal random).curPiece (b.deal random).curX (b.deal random).curY then
      b.deal random else (b.deal random).gameOver) := by
  have hmove := tryMove_eq (b := b.deal random) h (b.deal random).curPiece (b.deal random).curX
    (b.deal random).curY
  rw [newPiece, hmove]
  by_cases hfree : Free b.board (b.deal random).curPiece (b.deal random).curX (b.deal random).curY
  · rw [if_pos hfree]
    have hfree' : Free (b.deal random).board _ _ _ := hfree
    rw [if_pos hfree']
    rfl
  · rw [if_neg hfree]
    have hfree' : ¬ Free (b.deal random).board _ _ _ := hfree
    rw [if_neg hfree']
    rfl

theorem newPiece_valid (random : Nat → Fin 7) (h : b.Clear) (hstarted : b.isStarted = true)
    (hpaused : b.isPaused = false) (hwaiting : b.isWaitingAfterLine = false) (htimer : b.timer = true)
    (hcounted : 4 * b.drawn = b.occupied + 10 * b.numLinesRemoved) :
    ∃ b', b.newPiece random = some b' ∧ b'.Valid := by
  refine ⟨_, newPiece_eq (by rw [h.length]; decide), ?_⟩
  have hpiece := Shape.setRandomShape_piece (random b.drawn)
  have hcount : 4 * (b.drawn + 1) = b.occupied + 10 * b.numLinesRemoved + 4 := by omega
  split
  · rename_i hfree
    exact {
      length := h.length
      hidden := h.hidden
      noFull := h.noFull
      piece := fun _ => ⟨hstarted, hwaiting, hpiece, hfree⟩
      none := fun hnone => absurd hnone hpiece.shape
      waiting := fun _ => hpaused
      timer := by
        show b.timer = (b.isStarted && !b.isPaused)
        rw [htimer, hstarted, hpaused]
        rfl
      counted := by
        show 4 * (b.drawn + 1) = _ + if b.isWaitingAfterLine then 0 else 4
        rw [hwaiting]
        exact hcount }
  · exact {
      length := h.length
      hidden := h.hidden
      noFull := h.noFull
      piece := fun hnone => absurd rfl hnone
      none := fun _ => hwaiting
      waiting := fun _ => hpaused
      timer := rfl
      counted := by
        show 4 * (b.drawn + 1) = _ + if b.isWaitingAfterLine then 0 else 4
        rw [hwaiting]
        exact hcount }

/-! ### The piece falls -/

theorem filter_full_eq_zero (rs : List (List Tetrominoe)) (n : Nat) :
    ((rs.filter fun r => ¬ Full r) ++ List.replicate n emptyRow).countP (fun r => Full r) = 0 := by
  rw [List.countP_eq_zero]
  intro r hr
  rcases List.mem_append.mp hr with hr | hr
  · simpa using (List.mem_filter.mp hr).2
  · rw [List.eq_of_mem_replicate hr]
    decide

theorem pieceDropped_valid (h : b.Valid) (hshape : b.curPiece.pieceShape ≠ .noShape)
    (hpaused : b.isPaused = false) : ∃ b', b.pieceDropped random = some b' ∧ b'.Valid := by
  obtain ⟨hstarted, hwaiting, hpiece, hfree⟩ := h.piece hshape
  have hlen := h.length
  obtain ⟨l, hplace, hlength, hocc, hhidden, -⟩ := place_eq (by omega) hpiece hfree
  have hlength' : (b.withBoard l).board.length = 440 := hlength.trans hlen
  have hempty : ∀ y, 22 ≤ y → row (b.withBoard l).board y = emptyRow := fun y hy =>
    (hhidden y hy).trans (h.hidden y hy)
  obtain ⟨l', hremove, hlen', hrows, hkept⟩ := removeFullLines_eq (b.withBoard l) (by omega)
    (hempty 22 (Nat.le_refl 22))
  have hfreed := occupied_removed (by omega) hempty hlen' hkept hrows
  have hclear : (b.withBoard l').Clear := {
    length := hlen'.trans hlength'
    hidden := fun y hy => (hkept y hy).trans (hempty y hy)
    noFull := by
      rw [fullLines]
      exact (congrArg (List.countP fun r => Full r) hrows).trans (filter_full_eq_zero _ _) }
  have htimer : b.timer = true := by rw [h.timer, hstarted, hpaused]; rfl
  have hcounted := h.counted
  rw [hwaiting] at hcounted
  have hocc' : ((b.withBoard l).withBoard l').occupied = (b.withBoard l').occupied := rfl
  simp only [Bool.false_eq_true, if_false] at hcounted
  rw [pieceDropped, hplace]
  simp only [Option.bind_eq_bind, Option.bind_some, hremove]
  by_cases hfull : (b.withBoard l).fullLines > 0
  · simp only [countLines, if_pos hfull]
    refine ⟨_, rfl, ?_⟩
    exact {
      length := hclear.length
      hidden := hclear.hidden
      noFull := hclear.noFull
      piece := fun hnone => absurd rfl hnone
      none := fun _ => hstarted.symm
      waiting := fun _ => hpaused
      timer := h.timer
      counted := by
        show 4 * b.drawn = (b.withBoard l').occupied +
          10 * (b.numLinesRemoved + (b.withBoard l).fullLines) + 0
        omega }
  · simp only [countLines, if_neg hfull]
    have hnot : ¬ b.isWaitingAfterLine = true := by rw [hwaiting]; exact Bool.false_ne_true
    have hnew : ∃ b', (b.withBoard l').newPiece random = some b' ∧ b'.Valid :=
      newPiece_valid random hclear hstarted hpaused hwaiting htimer (by
        show 4 * b.drawn = (b.withBoard l').occupied + 10 * b.numLinesRemoved
        omega)
    have hcond : ¬ ((b.withBoard l).withBoard l').isWaitingAfterLine = true := hnot
    rw [if_pos hcond]
    exact hnew

/-- A piece that moves stays on empty squares. -/
theorem tryMove_valid (h : b.Valid) (hshape : b.curPiece.pieceShape ≠ .noShape) {s : Shape}
    (hs : s.Piece) (x y : ℤ) : ∃ moved b', b.tryMove s x y = some (moved, b') ∧ b'.Valid ∧
      (moved = false → b' = b) := by
  obtain ⟨hstarted, hwaiting, -, -⟩ := h.piece hshape
  rw [tryMove_eq (by rw [h.length]; decide)]
  by_cases hfree : Free b.board s x y
  · rw [if_pos hfree]
    refine ⟨_, _, rfl, ?_, nofun⟩
    exact {
      length := h.length
      hidden := h.hidden
      noFull := h.noFull
      piece := fun _ => ⟨hstarted, hwaiting, hs, hfree⟩
      none := fun hnone => absurd hnone hs.shape
      waiting := h.waiting
      timer := h.timer
      counted := h.counted }
  · rw [if_neg hfree]
    exact ⟨_, _, rfl, h, fun _ => rfl⟩

/-- The piece so many rows further down. -/
def lowered (b : Board) (n : Nat) : Board := {b with curY := b.curY - n}

theorem lowered_zero (b : Board) : b.lowered 0 = b := by
  simp [lowered]

theorem lowered_valid (h : b.Valid) (hshape : b.curPiece.pieceShape ≠ .noShape) {n : Nat}
    (hfree : Free b.board b.curPiece b.curX (b.curY - n)) : (b.lowered n).Valid := by
  obtain ⟨hstarted, hwaiting, hpiece, -⟩ := h.piece hshape
  exact {
    length := h.length
    hidden := h.hidden
    noFull := h.noFull
    piece := fun _ => ⟨hstarted, hwaiting, hpiece, hfree⟩
    none := fun hnone => absurd hnone hshape
    waiting := h.waiting
    timer := h.timer
    counted := h.counted }

/-- The loop of `dropDown` stops above the first place that is not free. -/
theorem lower_eq (h : 220 ≤ b.board.length) (hpiece : b.curPiece.Piece) {y : Nat}
    (hy : b.curY = y) : ∃ n, b.lower y = some (b.lowered n) ∧
      (∀ k < n, Free b.board b.curPiece b.curX (b.curY - (k + 1 : Nat))) ∧
        ¬ Free b.board b.curPiece b.curX (b.curY - (n + 1 : Nat)) := by
  induction y generalizing b with
  | zero =>
    refine ⟨0, by rw [lowered_zero]; rfl, nofun, fun hfree => ?_⟩
    have hnonneg := hfree.nonneg hpiece
    omega
  | succ y ih =>
    have hdown : (y : ℤ) = b.curY - (0 + 1 : Nat) := by omega
    rw [lower, tryMove_eq h, hdown]
    by_cases hfree : Free b.board b.curPiece b.curX (b.curY - (0 + 1 : Nat))
    · rw [if_pos hfree]
      obtain ⟨n, hlower, hpassed, hstop⟩ := ih (b := b.lowered 1) h hpiece
        (show b.curY - (1 : Nat) = y by omega)
      have hshift (k : Nat) : (b.lowered 1).curY - (k + 1 : Nat) = b.curY - (k + 1 + 1 : Nat) := by
        show b.curY - (1 : Nat) - (k + 1 : Nat) = _
        push_cast
        omega
      refine ⟨n + 1, ?_, ?_, ?_⟩
      · have hsame : (b.lowered 1).lowered n = b.lowered (n + 1) := by
          have hcurY : b.curY - (1 : Nat) - n = b.curY - (n + 1 : Nat) := by omega
          show {b with curY := b.curY - (1 : Nat) - n} = _
          rw [hcurY]
          rfl
        rw [← hsame, ← hlower]
        rfl
      · intro k hk
        cases k with
        | zero => exact hfree
        | succ k =>
          rw [← hshift]
          exact hpassed k (by omega)
      · rw [← hshift]
        exact hstop
    · rw [if_neg hfree]
      exact ⟨0, by rw [lowered_zero]; rfl, nofun, hfree⟩

/-- Where the piece stops it is free. -/
theorem free_of_passed (h : Free b.board b.curPiece b.curX b.curY) {n : Nat}
    (hpassed : ∀ k < n, Free b.board b.curPiece b.curX (b.curY - (k + 1 : Nat))) :
    Free b.board b.curPiece b.curX (b.curY - n) := by
  cases n with
  | zero => simpa using h
  | succ n => exact hpassed n (Nat.lt_succ_self n)

theorem dropDown_valid (h : b.Valid) (hshape : b.curPiece.pieceShape ≠ .noShape)
    (hpaused : b.isPaused = false) : ∃ b', b.dropDown random = some b' ∧ b'.Valid := by
  obtain ⟨-, -, hpiece, hfree⟩ := h.piece hshape
  have hnonneg := hfree.nonneg hpiece
  obtain ⟨n, hlower, hpassed, -⟩ := lower_eq (by rw [h.length]; decide) hpiece
    (show b.curY = b.curY.toNat by omega)
  have hvalid := lowered_valid h hshape (free_of_passed hfree hpassed)
  rw [dropDown, hlower]
  exact pieceDropped_valid hvalid hshape hpaused

theorem oneLineDown_valid (h : b.Valid) (hshape : b.curPiece.pieceShape ≠ .noShape)
    (hpaused : b.isPaused = false) : ∃ b', b.oneLineDown random = some b' ∧ b'.Valid := by
  obtain ⟨-, -, hpiece, -⟩ := h.piece hshape
  obtain ⟨moved, b', hmove, hvalid, hsame⟩ := tryMove_valid h hshape hpiece b.curX (b.curY - 1)
  rw [oneLineDown, hmove]
  cases moved with
  | true => exact ⟨b', rfl, hvalid⟩
  | false =>
    obtain rfl := hsame rfl
    exact pieceDropped_valid h hshape hpaused

/-! ### Events -/

theorem pause_valid (h : b.Valid) (hshape : b.curPiece.pieceShape ≠ .noShape) : b.pause.Valid := by
  obtain ⟨hstarted, hwaiting, hpiece, hfree⟩ := h.piece hshape
  have hplaced : ∀ c : Board, c.board = b.board → c.curPiece = b.curPiece → c.curX = b.curX →
      c.curY = b.curY → c.isStarted = b.isStarted → c.isWaitingAfterLine = b.isWaitingAfterLine →
      c.drawn = b.drawn → c.numLinesRemoved = b.numLinesRemoved →
      c.timer = (c.isStarted && !c.isPaused) → c.Valid := by
    intro c hboard hcur hx hy hs hw hd hn htimer
    exact {
      length := by rw [hboard]; exact h.length
      hidden := by rw [hboard]; exact h.hidden
      noFull := by rw [fullLines, hboard]; exact h.noFull
      piece := by rw [hboard, hcur, hx, hy, hs, hw]; exact h.piece
      none := by rw [hcur, hs, hw]; exact h.none
      waiting := fun hc => by rw [hw, hwaiting] at hc; cases hc
      timer := htimer
      counted := by rw [occupied, hboard, hw, hd, hn]; exact h.counted }
  rw [pause, if_neg (not_not.mpr hstarted)]
  by_cases hpaused : (!b.isPaused) = true
  · rw [if_pos hpaused]
    refine hplaced _ rfl rfl rfl rfl rfl rfl rfl rfl ?_
    show false = (b.isStarted && !!b.isPaused)
    rw [hpaused, Bool.not_true, Bool.and_false]
  · rw [if_neg hpaused]
    refine hplaced _ rfl rfl rfl rfl rfl rfl rfl rfl ?_
    show true = (b.isStarted && !!b.isPaused)
    rw [Bool.eq_false_iff.mpr hpaused, hstarted]
    rfl

theorem move_valid (h : b.Valid) (hshape : b.curPiece.pieceShape ≠ .noShape)
    (hpaused : b.isPaused = false) (key : Key) : ∃ b', b.move random key = some b' ∧ b'.Valid := by
  obtain ⟨-, -, hpiece, -⟩ := h.piece hshape
  have hmove {s : Shape} (hs : s.Piece) (x y : ℤ) :
      ∃ b', (do return (← b.tryMove s x y).2) = some b' ∧ b'.Valid := by
    obtain ⟨moved, b', hmove, hvalid, -⟩ := tryMove_valid h hshape hs x y
    exact ⟨b', by rw [hmove]; rfl, hvalid⟩
  cases key with
  | left | right => exact hmove hpiece _ _
  | down => exact hmove hpiece.rotateRight _ _
  | up => exact hmove hpiece.rotateLeft _ _
  | space => exact dropDown_valid h hshape hpaused
  | d => exact oneLineDown_valid h hshape hpaused
  | p | other => exact ⟨b, rfl, h⟩

theorem keyPress_valid (h : b.Valid) (key : Key) :
    ∃ b', b.keyPress random key = some b' ∧ b'.Valid := by
  unfold keyPress
  split
  · exact ⟨b, rfl, h⟩
  · rename_i hplaying
    obtain ⟨-, hshape⟩ := not_or.mp hplaying
    split
    · exact ⟨_, rfl, pause_valid h hshape⟩
    · split
      · exact ⟨b, rfl, h⟩
      · rename_i hpaused
        exact move_valid h hshape (Bool.eq_false_iff.mpr hpaused) key

theorem timerEvent_valid (h : b.Valid) : ∃ b', b.timerEvent random = some b' ∧ b'.Valid := by
  by_cases htimer : b.timer = true
  · have hrunning := h.timer
    rw [htimer] at hrunning
    obtain ⟨hstarted, hnot⟩ := Bool.and_eq_true_iff.mp hrunning.symm
    have hpaused : b.isPaused = false := by simpa using hnot
    rw [timerEvent, if_pos htimer]
    by_cases hwaiting : b.isWaitingAfterLine = true
    · rw [if_pos hwaiting]
      have hcounted := h.counted
      rw [if_pos hwaiting] at hcounted
      have hclear : ({b with isWaitingAfterLine := false} : Board).Clear :=
        ⟨h.length, h.hidden, h.noFull⟩
      exact newPiece_valid random hclear hstarted hpaused rfl htimer hcounted
    · rw [if_neg hwaiting]
      refine oneLineDown_valid h (fun hnone => hwaiting ?_) hpaused
      rw [h.none hnone, hstarted]
  · exact ⟨b, by rw [timerEvent, if_neg htimer], h⟩

theorem step_valid (h : b.Valid) (e : Event) : ∃ b', b.step random e = some b' ∧ b'.Valid := by
  cases e with
  | key k => exact keyPress_valid h k
  | timer => exact timerEvent_valid h

/-! ### Games -/

theorem cell_replicate (n y x : Nat) : cell (List.replicate n .noShape) y x = .noShape := by
  rw [cell, List.getElem?_replicate]
  split <;> rfl

/-- There is a place for every piece on an empty board. -/
theorem free_top (m : Nat) (piece : Fin 7) : Free (List.replicate m .noShape)
    (Shape.setRandomShape piece) (boardWidth / 2 + 1)
      (boardHeight - 1 + (Shape.setRandomShape piece).minY) := by
  have hinside : ∀ (piece : Fin 7) (i : Fin 4),
      (0 ≤ (boardWidth / 2 + 1 : ℤ) + (Shape.setRandomShape piece).x i ∧
        (boardWidth / 2 + 1 : ℤ) + (Shape.setRandomShape piece).x i < 10) ∧
      0 ≤ (boardHeight - 1 + (Shape.setRandomShape piece).minY : ℤ) -
          (Shape.setRandomShape piece).y i ∧
        (boardHeight - 1 + (Shape.setRandomShape piece).minY : ℤ) -
          (Shape.setRandomShape piece).y i < 22 := by
    decide
  intro i
  obtain ⟨hx, hy⟩ := hinside piece i
  exact ⟨hx, hy, cell_replicate ..⟩

/-- The board in front of the first piece. -/
def opened : Board :=
  ({initBoard with isStarted := true, isWaitingAfterLine := false, numLinesRemoved := 0} :
    Board).clearBoard.emit (toString 0)

theorem opened_board : opened.board = List.replicate 440 .noShape := by
  show ([] ++ List.replicate 220 Tetrominoe.noShape) ++ List.replicate 220 .noShape = _
  rw [List.nil_append, List.replicate_append_replicate]

/-- The board at the start of a game. -/
def started (random : Nat → Fin 7) : Board := {opened.deal random with timer := true}

theorem start_eq (random : Nat → Fin 7) : initBoard.start random = some (started random) := by
  have hlen : 220 ≤ opened.board.length := by
    rw [opened_board, List.length_replicate]
    decide
  have hnew : opened.newPiece random = some (opened.deal random) := by
    rw [newPiece_eq hlen, if_pos]
    rw [opened_board]
    exact free_top 440 (random opened.drawn)
  have hstart : initBoard.start random =
      (opened.newPiece random).bind fun b => some {b with timer := true} := rfl
  rw [hstart, hnew]
  rfl

theorem opened_clear : opened.Clear where
  length := by rw [opened_board, List.length_replicate]
  hidden := fun y _ => by
    rw [opened_board]
    exact row_eq_emptyRow_iff.mpr fun x _ => cell_replicate ..
  noFull := by
    rw [fullLines, List.countP_eq_zero]
    intro r hr
    obtain ⟨y, -, rfl⟩ := List.mem_map.mp hr
    have hempty : row opened.board y = emptyRow := by
      rw [opened_board]
      exact row_eq_emptyRow_iff.mpr fun x _ => cell_replicate ..
    rw [hempty]
    decide

theorem opened_occupied : opened.occupied = 0 := by
  rw [occupied, opened_board, List.countP_replicate]
  rfl

theorem started_valid (random : Nat → Fin 7) : (started random).Valid := by
  have hpiece := Shape.setRandomShape_piece (random opened.drawn)
  exact {
    length := opened_clear.length
    hidden := opened_clear.hidden
    noFull := opened_clear.noFull
    piece := fun _ => ⟨rfl, rfl, hpiece, by
      show Free opened.board _ _ _
      rw [opened_board]
      exact free_top 440 (random opened.drawn)⟩
    none := fun hnone => absurd hnone hpiece.shape
    waiting := fun _ => rfl
    timer := rfl
    counted := by
      show 4 * (0 + 1) = opened.occupied + 10 * 0 + 4
      rw [opened_occupied] }

theorem run_of_valid (h : b.Valid) (es : List Event) :
    ∃ b', Runs.run (step random) b es = some b' ∧ b'.Valid := by
  induction es generalizing b with
  | nil => exact ⟨b, rfl, h⟩
  | cons e es ih =>
    obtain ⟨b', hstep, hvalid⟩ := step_valid h e
    obtain ⟨b'', hrun, hvalid'⟩ := ih hvalid
    exact ⟨b'', by rw [Runs.run, hstep]; exact hrun, hvalid'⟩

/-- **Whatever is pressed and whatever comes, no game dies of an `IndexError`, and after every
event the piece lies on empty squares of the board, no row is full, and the squares of all pieces
are accounted for.** -/
theorem run_valid (random : Nat → Fin 7) (es : List Event) :
    ∃ b, (initBoard.start random).bind (Runs.run (step random) · es) = some b ∧ b.Valid := by
  obtain ⟨b, hrun, hvalid⟩ := run_of_valid (started_valid random) es
  exact ⟨b, by rw [start_eq]; exact hrun, hvalid⟩

/-! ### Dropping -/

/-- A key that moves the piece. -/
theorem step_key (h : b.Valid) (hshape : b.curPiece.pieceShape ≠ .noShape)
    (hpaused : b.isPaused = false) (key : Key) (hkey : key ≠ .p) :
    b.step random (.key key) = b.move random key := by
  obtain ⟨hstarted, -, -, -⟩ := h.piece hshape
  have hgo : ¬ (¬ b.isStarted ∨ b.curPiece.pieceShape = .noShape) := by simp [hstarted, hshape]
  show b.keyPress random key = _
  rw [keyPress, if_neg hgo, if_neg hkey, if_neg (by rw [hpaused]; decide)]

theorem oneLineDown_of_free (h : 220 ≤ b.board.length)
    (hfree : Free b.board b.curPiece b.curX (b.curY - 1)) :
    b.oneLineDown random = some (b.lowered 1) := by
  rw [oneLineDown, tryMove_eq h, if_pos hfree]
  rfl

theorem oneLineDown_of_not_free (h : 220 ≤ b.board.length)
    (hfree : ¬ Free b.board b.curPiece b.curX (b.curY - 1)) :
    b.oneLineDown random = b.pieceDropped random := by
  rw [oneLineDown, tryMove_eq h, if_neg hfree]
  rfl

/-- **The space bar does what `D` does, pressed until the piece has come to rest**: so many times
the piece goes down by one row, and the next time it stays. -/
theorem space_eq_run_d (random : Nat → Fin 7) (b : Board) (h : b.Valid)
    (hshape : b.curPiece.pieceShape ≠ .noShape) (hpaused : b.isPaused = false) :
    ∃ n, (∀ k ≤ n, Runs.run (step random) b (List.replicate k (.key .d)) = some (b.lowered k)) ∧
      Runs.run (step random) b (List.replicate (n + 1) (.key .d)) =
        b.step random (.key .space) := by
  obtain ⟨-, -, hpiece, hfree⟩ := h.piece hshape
  have hnonneg := hfree.nonneg hpiece
  have hlen : 220 ≤ b.board.length := by
    rw [h.length]
    decide
  obtain ⟨n, hlower, hpassed, hstop⟩ := lower_eq hlen hpiece
    (show b.curY = b.curY.toNat by omega)
  have hvalid : ∀ k ≤ n, (b.lowered k).Valid := fun k hk =>
    lowered_valid h hshape (free_of_passed hfree fun j hj => hpassed j (by omega))
  have hdown (k : Nat) : (b.lowered k).curY - 1 = b.curY - (k + 1 : Nat) := by
    show b.curY - k - 1 = _
    omega
  have hpresses : ∀ k ≤ n,
      Runs.run (step random) b (List.replicate k (.key .d)) = some (b.lowered k) := by
    intro k hk
    induction k with
    | zero =>
      rw [lowered_zero]
      rfl
    | succ k ih =>
      have hnext : (b.lowered k).step random (.key .d) = some ((b.lowered k).lowered 1) :=
        (step_key (hvalid k (by omega)) hshape hpaused .d (by decide)).trans
          (oneLineDown_of_free (b := b.lowered k) hlen (by
            rw [hdown]
            exact hpassed k (by omega)))
      have hsame : (b.lowered k).lowered 1 = b.lowered (k + 1) := by
        have hcurY : b.curY - k - (1 : Nat) = b.curY - (k + 1 : Nat) := by omega
        show {b with curY := b.curY - k - (1 : Nat)} = _
        rw [hcurY]
        rfl
      rw [List.replicate_succ', Runs.run_append, ih (by omega), Option.bind_some, Runs.run, hnext,
        hsame]
      rfl
  refine ⟨n, hpresses, ?_⟩
  have hlast : (b.lowered n).step random (.key .d) = (b.lowered n).pieceDropped random :=
    (step_key (hvalid n (Nat.le_refl n)) hshape hpaused .d (by decide)).trans
      (oneLineDown_of_not_free (b := b.lowered n) hlen (by
        rw [hdown]
        exact hstop))
  have hspace : b.step random (.key .space) = b.dropDown random :=
    step_key h hshape hpaused .space (by decide)
  rw [hspace, dropDown, hlower, List.replicate_succ', Runs.run_append,
    hpresses n (Nat.le_refl n), Option.bind_some, Runs.run, hlast]
  show ((b.lowered n).pieceDropped random).bind some = (b.lowered n).pieceDropped random
  cases (b.lowered n).pieceDropped random <;> rfl

/-- A line at the start, dropped. -/
theorem space_eq_run_d_line : ∃ n,
    (∀ k ≤ n, Runs.run (step fun _ => 2) (started fun _ => 2) (List.replicate k (.key .d)) =
      some ((started fun _ => 2).lowered k)) ∧
    Runs.run (step fun _ => 2) (started fun _ => 2) (List.replicate (n + 1) (.key .d)) =
      (started fun _ => 2).step (fun _ => 2) (.key .space) :=
  space_eq_run_d (fun _ => 2) (started fun _ => 2) (started_valid _) (by decide) rfl

end Board

end VleoNotebook.Tetris
