import VleoNotebook.Lib.Python

/-! The Game of Life on a board that is a list of rows (`World`).

A world has two boards, lists of rows that are lists of cells. `nextGen` computes every cell of
the one from the other and then exchanges the two names. Drawing a world and the given
positions are left out. -/
namespace VleoNotebook.Life

open Python (Ref Heap item forRange)

/-- The lists of rows and the rows. -/
structure Memory where
  boards : Heap Ref
  rows : Heap Int

/-- `boardTmp` is only there after the first `nextGen`. -/
structure World where
  board : Ref
  boardNext : Ref
  boardTmp : Option Ref
  t : Nat
  h : Nat
  w : Nat

namespace World

/-- `board[y][x]` -/
def cell (mem : Memory) (board : Ref) (y x : Int) : Option Int := do
  mem.rows.getItem (← mem.boards.getItem board y) x

/-- `board[y][x] = v` -/
def setCell (mem : Memory) (board : Ref) (y x v : Int) : Option Memory := do
  return { mem with rows := ← mem.rows.setItem (← mem.boards.getItem board y) x v }

/-- `board[y].append(v)` -/
def pushCell (mem : Memory) (board : Ref) (y v : Int) : Option Memory := do
  return { mem with rows := ← mem.rows.push (← mem.boards.getItem board y) v }

/-- `board.append([])` -/
def pushRow (mem : Memory) (board : Ref) : Option Memory := do
  let (row, rows) := mem.rows.create
  return { boards := ← mem.boards.push board row, rows }

/-! ### `__init__` -/

/-- `if b0:`, of a board given or not. -/
def given (b0 : Option (List (List Int))) : Bool :=
  match b0 with
  | none => false
  | some b0 => !b0.isEmpty

/-- The body of the inner loop. -/
def initCell (self : World) (b0 : Option (List (List Int))) (y : Nat) (mem : Memory) (x : Nat) :
    Option Memory := do
  let mem ← pushCell mem self.board y 0
  let mem ← pushCell mem self.boardNext y 0
  if given b0 then
    setCell mem self.board y x (← item (← item (← b0) y) x)
  else
    return mem

/-- The body of the outer loop. -/
def initRow (self : World) (b0 : Option (List (List Int))) (mem : Memory) (y : Nat) :
    Option Memory := do
  let mem ← pushRow mem self.board
  let mem ← pushRow mem self.boardNext
  forRange self.w (self.initCell b0 y) mem

/-- `__init__` -/
def init (w h : Nat) (b0 : Option (List (List Int))) : Option (Memory × World) := do
  let (board, boards) := Heap.create []
  let (boardNext, boards) := Heap.create boards
  let self := { board, boardNext, boardTmp := none, t := 0, h, w }
  let mem ← forRange h (self.initRow b0) { boards, rows := [] }
  return (mem, self)

/-! ### `nextGen` -/

/-- What `dy` and `dx` run through, `range(-1,2)`. -/
def around : List Int := [-1, 0, 1]

/-- The sum of the cells around. -/
def sigma (mem : Memory) (self : World) (x y : Nat) : Option Int :=
  around.foldlM (fun sigma dy => around.foldlM (fun sigma dx =>
    if dx = 0 ∧ dy = 0 then
      some sigma
    else do
      return sigma + (← cell mem self.board (Int.fmod (y + dy) self.h) (Int.fmod (x + dx) self.w)))
    sigma) 0

def nextCellGen (mem : Memory) (self : World) (x y : Nat) : Option Int := do
  let sigma ← sigma mem self x y
  if (← cell mem self.board y x) = 1 then
    return if sigma > 3 ∨ sigma < 2 then 0 else 1
  else
    return if sigma = 3 then 1 else 0

/-- The body of the loops of `nextGen`. -/
def writeCell (self : World) (y : Nat) (mem : Memory) (x : Nat) : Option Memory := do
  setCell mem self.boardNext y x (← nextCellGen mem self x y)

def nextGen (mem : Memory) (self : World) : Option (Memory × World) := do
  let mem ← forRange self.h (fun mem y => forRange self.w (self.writeCell y) mem) mem
  let self := { self with boardTmp := some self.board }
  let self := { self with board := self.boardNext }
  let self := { self with boardNext := ← self.boardTmp }
  return (mem, { self with t := self.t + 1 })

/-- `nextGen` so many times over. -/
def nextGens : Nat → Memory → World → Option (Memory × World)
  | 0, mem, self => some (mem, self)
  | n + 1, mem, self => do
    let (mem, self) ← nextGen mem self
    nextGens n mem self

/-- The board as a list of rows of cells. -/
def view (mem : Memory) (self : World) : Option (List (List Int)) := do
  (← mem.boards[self.board]?).mapM fun r => mem.rows[r]?

end World

end VleoNotebook.Life
