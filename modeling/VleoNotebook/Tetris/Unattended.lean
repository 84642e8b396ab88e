import VleoNotebook.Tetris.Runs

/-! A game of `tetris.py` that nobody plays.

All pieces fall down the three columns in the middle, so that no row fills up, and 16 of
them take all the squares there are: the game is over after 390 ticks of the timer,
whatever pieces come (`unattended_ends`). -/
namespace VleoNotebook.Tetris.Board
variable {random : Nat → Fin 7} {b : Board}

/-- What is kept if no key is pressed. -/
structure Alone (b : Board) : Prop extends Valid b where
  playing : b.isPaused = false ∧ b.isWaitingAfterLine = false
  lines : b.numLinesRemoved = 0
  falling : b.curPiece.pieceShape ≠ .noShape →
    b.curX = 6 ∧ ∃ n, b.curPiece = Shape.setRandomShape n
  middle : ∀ y x, x < 10 → cell b.board y x ≠ .noShape → 5 ≤ x ∧ x ≤ 7
  said : b.messages = if b.isStarted then ["0"] else ["Game over", "0"]

theorem x_setRandomShape : ∀ n i, -1 ≤ (Shape.setRandomShape n).x i ∧
    (Shape.setRandomShape n).x i ≤ 1 := by
  decide

theorem minY_setRandomShape : ∀ n, -1 ≤ (Shape.setRandomShape n).minY ∧
    (Shape.setRandomShape n).minY ≤ 0 := by
  decide

/-! ### Squares in the middle -/

theorem fullLines_eq_zero {l : List Tetrominoe}
    (h : ∀ y x, x < 10 → cell l y x ≠ .noShape → 5 ≤ x ∧ x ≤ 7) :
    (b.withBoard l).fullLines = 0 := by
  rw [fullLines, List.countP_eq_zero]
  intro r hr hfull
  obtain ⟨y, -, rfl⟩ := List.mem_map.mp hr
  have hfirst := of_decide_eq_true hfull (cell l y 0)
    (List.mem_map_of_mem (List.mem_range.mpr (by decide)))
  have hcolumn := h y 0 (by decide) hfirst
  omega

theorem countP_row_le {l : List Tetrominoe}
    (h : ∀ y x, x < 10 → cell l y x ≠ .noShape → 5 ≤ x ∧ x ≤ 7) (y : Nat) :
    (row l y).countP (· ≠ .noShape) ≤ 3 := by
  have hthree : (List.range 10).countP (fun x => 5 ≤ x ∧ x ≤ 7) = 3 := by decide
  rw [row, List.countP_map, ← hthree]
  refine List.countP_mono_left fun x hx hcell => ?_
  have hcolumn := h y x (List.mem_range.mp hx) (by simpa using hcell)
  simpa using hcolumn

/-- Sixteen pieces fill the middle. -/
theorem Alone.drawn_le (h : b.Alone) : b.drawn ≤ 17 := by
  have hsum : b.occupied ≤ 22 * 3 := by
    rw [occupied, countP_eq_sum (by rw [h.length]; decide) h.hidden]
    refine (List.sum_le_card_nsmul _ 3 fun n hn => ?_).trans ?_
    · obtain ⟨r, hr, rfl⟩ := List.mem_map.mp hn
      obtain ⟨y, -, rfl⟩ := List.mem_map.mp hr
      exact countP_row_le h.middle y
    · simp [rows]
  have hcounted := h.counted
  rw [h.lines, h.playing.2] at hcounted
  simp only [Bool.false_eq_true, if_false] at hcounted
  omega

/-! ### A tick -/

theorem removeFullLines_of_none (h : 220 ≤ b.board.length) (hfull : b.fullLines = 0) :
    b.removeFullLines = some b := by
  have hnone : ((List.range 22).filter fun y => Full (row b.board y)) = [] := by
    rw [fullLines, List.countP_eq_zero] at hfull
    refine List.filter_eq_nil_iff.mpr fun y hy => hfull _ (List.mem_map_of_mem hy)
  rw [removeFullLines, rowsToRemove_eq h, hnone]
  rfl

/-- How many ticks are left at most. -/
def ticksLeft (b : Board) : Nat :=
  if b.isStarted then (17 - b.drawn) * 23 + (b.curY.toNat + 1) else 0

/-- A piece that comes when another is in place. -/
theorem newPiece_alone (random : Nat → Fin 7) (h : b.Clear) (hstarted : b.isStarted = true)
    (hplaying : b.isPaused = false ∧ b.isWaitingAfterLine = false) (htimer : b.timer = true)
    (hcounted : 4 * b.drawn = b.occupied + 10 * b.numLinesRemoved)
    (hlines : b.numLinesRemoved = 0) (hsaid : b.messages = ["0"])
    (hmiddle : ∀ y x, x < 10 → cell b.board y x ≠ .noShape → 5 ≤ x ∧ x ≤ 7) :
    ∃ b', b.newPiece random = some b' ∧ b'.Alone ∧
      b'.ticksLeft ≤ (17 - (b.drawn + 1)) * 23 + 22 := by
  obtain ⟨b', hnew, hvalid⟩ :=
    newPiece_valid random h hstarted hplaying.1 hplaying.2 htimer hcounted
  refine ⟨b', hnew, ?_⟩
  rw [newPiece_eq (by rw [h.length]; decide)] at hnew
  obtain rfl := Option.some.inj hnew
  clear hnew
  by_cases hfree : Free b.board (b.deal random).curPiece (b.deal random).curX (b.deal random).curY
  · rw [if_pos hfree] at hvalid ⊢
    refine ⟨{hvalid with
      playing := hplaying
      lines := hlines
      falling := fun _ => ⟨rfl, _, rfl⟩
      middle := hmiddle
      said := by
        show b.messages = if b.isStarted then _ else _
        rw [hsaid, hstarted]
        rfl}, ?_⟩
    have hmin := minY_setRandomShape (random b.drawn)
    have htop : (b.deal random).curY = 21 + (Shape.setRandomShape (random b.drawn)).minY := rfl
    have hon : (b.deal random).isStarted = true := hstarted
    rw [ticksLeft, if_pos hon]
    show (17 - (b.drawn + 1)) * 23 + _ ≤ _
    omega
  · rw [if_neg hfree] at hvalid ⊢
    refine ⟨{hvalid with
      playing := hplaying
      lines := hlines
      falling := fun hnone => absurd rfl hnone
      middle := hmiddle
      said := by
        show "Game over" :: b.messages = _
        rw [hsaid]
        rfl}, Nat.zero_le _⟩

/-- **A tick takes the game nearer to its end.** -/
theorem Alone.tick (random : Nat → Fin 7) (h : b.Alone) (hstarted : b.isStarted = true) :
    ∃ b', b.step random .timer = some b' ∧ b'.Alone ∧ b'.ticksLeft < b.ticksLeft := by
  have hlen : 220 ≤ b.board.length := by
    rw [h.length]
    decide
  have htimer : b.timer = true := by
    rw [h.timer, hstarted, h.playing.1]
    rfl
  have hshape : b.curPiece.pieceShape ≠ .noShape := by
    intro hnone
    have hover := h.none hnone
    rw [h.playing.2, hstarted] at hover
    cases hover
  obtain ⟨-, -, hpiece, hfree⟩ := h.piece hshape
  obtain ⟨hx, n, hn⟩ := h.falling hshape
  have hnonneg := hfree.nonneg hpiece
  have hstep : b.step random .timer = b.oneLineDown random := by
    show b.timerEvent random = _
    rw [timerEvent, if_pos htimer, if_neg (by rw [h.playing.2]; decide)]
  have hleft : b.ticksLeft = (17 - b.drawn) * 23 + (b.curY.toNat + 1) := by
    rw [ticksLeft, if_pos hstarted]
  rw [hstep]
  by_cases hdown : Free b.board b.curPiece b.curX (b.curY - 1)
  · refine ⟨_, oneLineDown_of_free hlen hdown, ?_, ?_⟩
    · exact {lowered_valid h.toValid hshape hdown with
        playing := h.playing
        lines := h.lines
        falling := h.falling
        middle := h.middle
        said := h.said}
    · have hbelow := hdown.nonneg hpiece
      have hon : (b.lowered 1).isStarted = true := hstarted
      rw [hleft, ticksLeft, if_pos hon]
      show (17 - b.drawn) * 23 + ((b.curY - (1 : Nat)).toNat + 1) < _
      omega
  · rw [oneLineDown_of_not_free hlen hdown]
    obtain ⟨l, hplace, hlength, hocc, hhidden, hcell⟩ := place_eq hlen hpiece hfree
    have hmiddle : ∀ y x, x < 10 → cell l y x ≠ .noShape → 5 ≤ x ∧ x ≤ 7 := by
      intro y x hx10 hne
      rcases hcell y x hx10 with heq | hi
      · rw [heq] at hne
        exact h.middle y x hx10 hne
      · obtain ⟨i, hi⟩ := hi
        have hoffset := x_setRandomShape n i
        rw [hx, hn] at hi
        omega
    have hfull : (b.withBoard l).fullLines = 0 := fullLines_eq_zero hmiddle
    have hclear : (b.withBoard l).Clear :=
      ⟨hlength.trans h.length, fun y hy => (hhidden y hy).trans (h.hidden y hy), hfull⟩
    have hcounted := h.counted
    rw [h.playing.2] at hcounted
    simp only [Bool.false_eq_true, if_false] at hcounted
    have hsaid := h.said
    rw [if_pos hstarted] at hsaid
    obtain ⟨b', hnew, halone, hticks⟩ := newPiece_alone random hclear hstarted
      h.playing htimer (by
        show 4 * b.drawn = (b.withBoard l).occupied + 10 * b.numLinesRemoved
        omega) h.lines hsaid hmiddle
    refine ⟨b', ?_, halone, ?_⟩
    · rw [pieceDropped, hplace]
      simp only [Option.bind_eq_bind, Option.bind_some]
      rw [removeFullLines_of_none (by rw [hclear.length]; decide) hfull]
      have hcond : ¬ (b.withBoard l).isWaitingAfterLine = true := by
        show ¬ b.isWaitingAfterLine = true
        rw [h.playing.2]
        decide
      rw [Option.bind_some, if_pos hcond]
      exact hnew
    · have hticks' : b'.ticksLeft ≤ (17 - (b.drawn + 1)) * 23 + 22 := hticks
      have hdrawn := halone.drawn_le
      have hdealt : b.drawn + 1 ≤ b'.drawn := by
        rw [newPiece_eq (by rw [hclear.length]; decide)] at hnew
        obtain rfl := Option.some.inj hnew
        split <;> exact Nat.le_refl _
      omega

/-- Nothing happens any more. -/
theorem Alone.tick_over (h : b.Alone) (hover : b.isStarted = false) :
    b.step random .timer = some b := by
  have htimer : ¬ b.timer = true := by
    rw [h.timer, hover, Bool.false_and]
    exact Bool.false_ne_true
  show b.timerEvent random = _
  rw [timerEvent, if_neg htimer]

theorem Alone.run (random : Nat → Fin 7) (h : b.Alone) {n : Nat} (hn : b.ticksLeft ≤ n) :
    ∃ b', Runs.run (step random) b (List.replicate n .timer) = some b' ∧ b'.Alone ∧
      b'.isStarted = false := by
  induction n generalizing b with
  | zero =>
    refine ⟨b, rfl, h, ?_⟩
    by_contra hstarted
    have hon : b.isStarted = true := by simpa using hstarted
    rw [ticksLeft, if_pos hon] at hn
    omega
  | succ n ih =>
    by_cases hstarted : b.isStarted = true
    · obtain ⟨b', hstep, halone, hless⟩ := h.tick random hstarted
      obtain ⟨b'', hrun, hend⟩ := ih halone (by omega)
      exact ⟨b'', by rw [List.replicate_succ, Runs.run, hstep]; exact hrun, hend⟩
    · have hover := Bool.eq_false_iff.mpr hstarted
      have hzero : b.ticksLeft ≤ n := by
        rw [ticksLeft, if_neg hstarted]
        exact Nat.zero_le n
      obtain ⟨b'', hrun, hend⟩ := ih h hzero
      exact ⟨b'', by rw [List.replicate_succ, Runs.run, h.tick_over hover]; exact hrun, hend⟩

theorem started_alone (random : Nat → Fin 7) :
    (started random).Alone ∧ (started random).ticksLeft ≤ 390 := by
  have hmin := minY_setRandomShape (random opened.drawn)
  refine ⟨{started_valid random with
    playing := ⟨rfl, rfl⟩
    lines := rfl
    falling := fun _ => ⟨rfl, _, rfl⟩
    middle := fun y x _ hne => by
      have hempty : cell opened.board y x = .noShape := by
        rw [opened_board]
        exact cell_replicate ..
      exact absurd hempty hne
    said := rfl}, ?_⟩
  show (17 - 1) * 23 + ((21 + (Shape.setRandomShape (random opened.drawn)).minY).toNat + 1) ≤ _
  omega

/-- **Left alone, every game is over after 390 ticks**, without a line and whatever pieces come. -/
theorem unattended_ends (random : Nat → Fin 7) (n : Nat) :
    ∃ b, (initBoard.start random).bind (Runs.run (step random) · (List.replicate (390 + n) .timer)) =
      some b ∧ b.isStarted = false ∧ b.numLinesRemoved = 0 ∧ b.messages = ["Game over", "0"] := by
  obtain ⟨halone, hticks⟩ := started_alone random
  obtain ⟨b, hrun, hend, hover⟩ := halone.run random (show _ ≤ 390 + n by omega)
  refine ⟨b, by rw [start_eq]; exact hrun, hover, hend.lines, ?_⟩
  rw [hend.said, hover]
  rfl

end VleoNotebook.Tetris.Board
