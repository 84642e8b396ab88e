import Mathlib.Data.Fin.VecNotation
import VleoNotebook.Lib.Python

/-! The game of `tetris.py`.

The board is one list, row by row from the bottom up, which `clearBoard` makes longer each
time it is called. Where the program would die of an `IndexError` there is no result. The
numbers of `random.randint` are a stream, of which the board has used up so many. -/
namespace VleoNotebook.Tetris

/-! ### Pieces -/

inductive Tetrominoe where
  | noShape
  | zShape
  | sShape
  | lineShape
  | tShape
  | squareShape
  | lShape
  | mirroredLShape
deriving DecidableEq, Repr

def coordsTable : Tetrominoe → Fin 4 → ℤ × ℤ
  | .noShape => ![(0, 0), (0, 0), (0, 0), (0, 0)]
  | .zShape => ![(0, -1), (0, 0), (-1, 0), (-1, 1)]
  | .sShape => ![(0, -1), (0, 0), (1, 0), (1, 1)]
  | .lineShape => ![(0, -1), (0, 0), (0, 1), (0, 2)]
  | .tShape => ![(-1, 0), (0, 0), (1, 0), (0, 1)]
  | .squareShape => ![(0, 0), (1, 0), (0, 1), (1, 1)]
  | .lShape => ![(-1, -1), (0, -1), (0, 0), (0, 1)]
  | .mirroredLShape => ![(1, -1), (0, -1), (0, 0), (0, 1)]

structure Shape where
  coords : Fin 4 → ℤ × ℤ
  pieceShape : Tetrominoe

namespace Shape

/-- A shape behind `setShape`. -/
def setShape (shape : Tetrominoe) : Shape := ⟨coordsTable shape, shape⟩

/-- A shape behind `setRandomShape`, of the numbers 1 to 7. -/
def setRandomShape (n : Fin 7) : Shape :=
  setShape (![.zShape, .sShape, .lineShape, .tShape, .squareShape, .lShape, .mirroredLShape] n)

def x (s : Shape) (index : Fin 4) : ℤ := (s.coords index).1

def y (s : Shape) (index : Fin 4) : ℤ := (s.coords index).2

def minY (s : Shape) : ℤ := (List.finRange 4).foldl (fun m i => min m (s.y i)) (s.y 0)

def rotateLeft (s : Shape) : Shape :=
  if s.pieceShape = .squareShape then s else ⟨fun i => (s.y i, -s.x i), s.pieceShape⟩

def rotateRight (s : Shape) : Shape :=
  if s.pieceShape = .squareShape then s else ⟨fun i => (-s.y i, s.x i), s.pieceShape⟩

end Shape

/-! ### The board -/

def boardWidth : Nat := 10

def boardHeight : Nat := 22

structure Board where
  board : List Tetrominoe
  curPiece : Shape
  curX : ℤ
  curY : ℤ
  numLinesRemoved : Nat
  isWaitingAfterLine : Bool
  isStarted : Bool
  isPaused : Bool
  /-- The timer is active. -/
  timer : Bool
  /-- What `msg2Statusbar` has emitted, the last first. -/
  messages : List String
  /-- How many numbers `random.randint` has given. -/
  drawn : Nat

inductive Key where
  | p
  | left
  | right
  | down
  | up
  | space
  | d
  | other
deriving DecidableEq, Repr

inductive Event where
  | key (k : Key)
  | timer
deriving DecidableEq, Repr

namespace Board

def shapeAt (b : Board) (x y : ℤ) : Option Tetrominoe :=
  Python.item b.board (y * boardWidth + x)

def setShapeAt (b : Board) (x y : ℤ) (shape : Tetrominoe) : Option Board := do
  return {b with
    board := b.board.set (← Python.position b.board.length (y * boardWidth + x)) shape}

def clearBoard (b : Board) : Board :=
  {b with board := b.board ++ List.replicate (boardHeight * boardWidth) .noShape}

/-- `initBoard`. There is no piece before `start`, and nothing asks for it. -/
def initBoard : Board :=
  clearBoard ⟨[], .setShape .noShape, 0, 0, 0, false, false, false, false, [], 0⟩

def emit (b : Board) (message : String) : Board := {b with messages := message :: b.messages}

/-- The loop of `tryMove`: whether none of its turns returns. -/
def fits (b : Board) (newPiece : Shape) (newX newY : ℤ) : List (Fin 4) → Option Bool
  | [] => some true
  | i :: is => do
    let x := newX + newPiece.x i
    let y := newY - newPiece.y i
    if x < 0 ∨ x ≥ boardWidth ∨ y < 0 ∨ y ≥ boardHeight then return false
    if (← b.shapeAt x y) ≠ .noShape then return false
    b.fits newPiece newX newY is

def tryMove (b : Board) (newPiece : Shape) (newX newY : ℤ) : Option (Bool × Board) := do
  if ← b.fits newPiece newX newY (List.finRange 4) then
    return (true, {b with curPiece := newPiece, curX := newX, curY := newY})
  else return (false, b)

/-- The piece of the next number, at the top. -/
def deal (random : Nat → Fin 7) (b : Board) : Board :=
  let piece := Shape.setRandomShape (random b.drawn)
  {b with
    drawn := b.drawn + 1, curPiece := piece, curX := boardWidth / 2 + 1
    curY := boardHeight - 1 + piece.minY}

/-- What `newPiece` does with a piece that there is no place for. -/
def gameOver (b : Board) : Board :=
  {b.emit "Game over" with
    curPiece := .setShape .noShape, timer := false, isStarted := false}

def newPiece (random : Nat → Fin 7) (b : Board) : Option Board := do
  let b := b.deal random
  let (moved, b) ← b.tryMove b.curPiece b.curX b.curY
  if moved then return b else return b.gameOver

/-- `n`, the squares of a row that are taken. -/
def taken (b : Board) (i : Nat) : Option Nat :=
  Python.forRange boardWidth (fun n j => do
    return if (← b.shapeAt j i) = .noShape then n else n + 1) 0

/-- `rowsToRemove`, before it is reversed. -/
def rowsToRemove (b : Board) : Option (List Nat) :=
  Python.forRange boardHeight (fun rows i => do
    return if (← b.taken i) = 10 then rows ++ [i] else rows) []

/-- `setShapeAt(l, k, self.shapeAt(l, k + 1))` -/
def pullDown (b : Board) (k l : Nat) : Option Board := do
  b.setShapeAt l k (← b.shapeAt l (k + 1))

/-- The loops over the rows from `m` on and their squares. -/
def removeLine (b : Board) (m : Nat) : Option Board :=
  Python.forRange (boardHeight - m) (fun b i =>
    Python.forRange boardWidth (fun b l => b.pullDown (m + i) l) b) b

/-- `removeFullLines` behind its loops. -/
def countLines (b : Board) (numFullLines : Nat) : Board :=
  if numFullLines > 0 then
    {b.emit (toString (b.numLinesRemoved + numFullLines)) with
      numLinesRemoved := b.numLinesRemoved + numFullLines
      isWaitingAfterLine := true, curPiece := .setShape .noShape}
  else b

def removeFullLines (b : Board) : Option Board := do
  let rows := (← b.rowsToRemove).reverse
  let b ← rows.foldlM removeLine b
  return b.countLines rows.length

/-- The loop of `pieceDropped`. -/
def place (b : Board) : Option Board :=
  (List.finRange 4).foldlM (fun b' i =>
    b'.setShapeAt (b.curX + b.curPiece.x i) (b.curY - b.curPiece.y i) b.curPiece.pieceShape) b

def pieceDropped (random : Nat → Fin 7) (b : Board) : Option Board := do
  let b ← (← b.place).removeFullLines
  if ¬ b.isWaitingAfterLine then b.newPiece random else return b

/-- The loop of `dropDown`. -/
def lower (b : Board) : (newY : Nat) → Option Board
  | 0 => some b
  | newY + 1 => do
    let (moved, b) ← b.tryMove b.curPiece b.curX newY
    if moved then b.lower newY else return b

def dropDown (random : Nat → Fin 7) (b : Board) : Option Board := do
  (← b.lower b.curY.toNat).pieceDropped random

def oneLineDown (random : Nat → Fin 7) (b : Board) : Option Board := do
  let (moved, b) ← b.tryMove b.curPiece b.curX (b.curY - 1)
  if moved then return b else b.pieceDropped random

def start (random : Nat → Fin 7) (b : Board) : Option Board := do
  if b.isPaused then return b
  let b := {b with isStarted := true, isWaitingAfterLine := false, numLinesRemoved := 0}.clearBoard
  let b ← (b.emit (toString b.numLinesRemoved)).newPiece random
  return {b with timer := true}

def pause (b : Board) : Board :=
  if ¬ b.isStarted then b
  else
    let b := {b with isPaused := !b.isPaused}
    if b.isPaused then {b with timer := false}.emit "paused"
    else {b with timer := true}.emit (toString b.numLinesRemoved)

/-- What `keyPressEvent` does with the other keys. -/
def move (random : Nat → Fin 7) (b : Board) : Key → Option Board
  | .left => do return (← b.tryMove b.curPiece (b.curX - 1) b.curY).2
  | .right => do return (← b.tryMove b.curPiece (b.curX + 1) b.curY).2
  | .down => do return (← b.tryMove b.curPiece.rotateRight b.curX b.curY).2
  | .up => do return (← b.tryMove b.curPiece.rotateLeft b.curX b.curY).2
  | .space => b.dropDown random
  | .d => b.oneLineDown random
  | .p | .other => some b

/-- `keyPressEvent` -/
def keyPress (random : Nat → Fin 7) (b : Board) (key : Key) : Option Board :=
  if ¬ b.isStarted ∨ b.curPiece.pieceShape = .noShape then some b
  else if key = .p then some b.pause
  else if b.isPaused then some b
  else b.move random key

/-- `timerEvent`. A timer that is stopped has no events. -/
def timerEvent (random : Nat → Fin 7) (b : Board) : Option Board :=
  if b.timer then
    if b.isWaitingAfterLine then {b with isWaitingAfterLine := false}.newPiece random
    else b.oneLineDown random
  else some b

/-- One event. -/
def step (random : Nat → Fin 7) (b : Board) : Event → Option Board
  | .key k => b.keyPress random k
  | .timer => b.timerEvent random

end Board

end VleoNotebook.Tetris
