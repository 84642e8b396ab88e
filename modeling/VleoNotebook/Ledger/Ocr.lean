import VleoNotebook.Lib.Csv
import VleoNotebook.Lib.Exact
import VleoNotebook.Lib.Runs
import VleoNotebook.Ledger.Statement

/-! How `psbOcrToCSV` reads bank statements.

The program is the machine that waits at one of its `while(<>)` loops for the next line
(`Point`). A line makes it go round the loop, or leave it and run on to the next loop;
so does the end of the input, at which each loop just ends. What it dies of is an error.
No decision of the reader looks at the accounts it keeps, so what happens to these is
told apart: the reader makes entries, and the books are what these come to (`books`).
The amounts are added up exactly. -/
namespace VleoNotebook.Ledger.Ocr

open Perl (Text Decimal Number Regex Line field IsTrue Contains unQuote unQuoteStar readUnquote)

/-! ### Cells and numbers -/

/-- `@lin`, as far as it is looked at. -/
structure Cells where
  cell0 : Text
  cell1 : Text
  cell2 : Text
  cell3 : Text
deriving DecidableEq

namespace Cells

/-- `split(MATCH_CSV)` -/
def split (s : Text) : Cells :=
  let lin := Perl.splitCsv s
  ⟨field lin 0, field lin 1, field lin 2, field lin 3⟩

/-- The same done to each of the cells. -/
def map (f : Text → Text) (lin : Cells) : Cells :=
  ⟨f lin.cell0, f lin.cell1, f lin.cell2, f lin.cell3⟩

def reShuffle (lin : Cells) : Cells := ⟨lin.cell3, lin.cell2, lin.cell0, lin.cell1⟩

/-- The head line of a block of transactions, cleaned. -/
def IsHead (lin : Cells) : Prop :=
  lin.cell0 = [] ∧ lin.cell1 = "Other Account Transactions".toList ∧ lin.cell2 = "Date".toList ∧
    lin.cell3 = "Amount".toList

/-- The head line in the other layout. -/
def IsShuffledHead (lin : Cells) : Prop :=
  lin.cell3 = [] ∧ lin.cell2 = "Other Account Transactions".toList ∧ lin.cell0 = "Date".toList ∧
    lin.cell1 = "Amount".toList

instance (lin : Cells) : Decidable lin.IsHead := inferInstanceAs (Decidable (_ ∧ _ ∧ _ ∧ _))

instance (lin : Cells) : Decidable lin.IsShuffledHead :=
  inferInstanceAs (Decidable (_ ∧ _ ∧ _ ∧ _))

/-- The line that ends a block, unquoted. -/
def IsBlank (lin : Cells) : Prop :=
  ¬ IsTrue lin.cell0 ∧ ¬ IsTrue lin.cell1 ∧ ¬ IsTrue lin.cell2 ∧ ¬ IsTrue lin.cell3

/-- A line that is passed over: in a shuffled block one with the last cell, else one with
the first cell only. -/
def IsPassed (lin : Cells) (reshuffle : Bool) : Prop :=
  if reshuffle then ¬ IsTrue lin.cell1 ∧ ¬ IsTrue lin.cell2 ∧ IsTrue lin.cell3
  else IsTrue lin.cell0 ∧ ¬ IsTrue lin.cell1 ∧ ¬ IsTrue lin.cell2 ∧ ¬ IsTrue lin.cell3

instance (lin : Cells) : Decidable lin.IsBlank := inferInstanceAs (Decidable (_ ∧ _ ∧ _ ∧ _))

instance (lin : Cells) : (reshuffle : Bool) → Decidable (lin.IsPassed reshuffle)
  | true => inferInstanceAs (Decidable (_ ∧ _ ∧ _))
  | false => inferInstanceAs (Decidable (_ ∧ _ ∧ _ ∧ _))

/-- None of the cells goes over the end of the line. -/
structure InLine (lin : Cells) : Prop where
  cell0 : '\n' ∉ lin.cell0
  cell1 : '\n' ∉ lin.cell1
  cell2 : '\n' ∉ lin.cell2
  cell3 : '\n' ∉ lin.cell3

theorem inLine_split {s : Text} (h : '\n' ∉ s.dropLast) :
    ((split s).map unQuote).InLine := by
  constructor <;> exact Perl.newline_not_mem_unQuote (Perl.newline_last_field h _)

end Cells

/-- `m/(-)?(\d+)(\.(\d+))?(-)?/` -/
def amountPattern : Regex Char :=
  .seq [.opt (.group 1 (.lit ['-'])), .group 2 (.plus digit),
    .opt (.group 3 (.cat (.lit ['.']) (.group 4 (.plus digit)))), .opt (.group 5 (.lit ['-']))]

/-- `readAmount`, called with a cell of `$_`. -/
def readAmount (line v : Text) : Except String Decimal :=
  if ¬ IsTrue v then .error "readAmout missing argument"
  else
    let v := ((readUnquote v).filter (· ≠ ',')).filter fun c => ¬ Perl.isSpace c
    match (Regex.search amountPattern v).map (·.stop) with
    | none => .error ("readAmount: incorrect amount format in " ++ String.ofList line)
    | some m =>
      let whole := (m.cap 2).getD []
      let places := (m.cap 4).getD []
      .ok ⟨m.cap 1 = some ['-'] ∨ m.cap 5 = some ['-'], Perl.ofDigits (whole ++ places),
        places.length⟩

/-- `m/(\d+)-(\d+)/` -/
def dayPattern : Regex Char :=
  .seq [.group 1 (.plus digit), .lit ['-'], .group 2 (.plus digit)]

/-- `m/^(\d\d)(\d\d)(\d\d)$/` -/
def shortDatePattern : Regex Char :=
  .seq [.bos, .group 1 (.cat digit digit), .group 2 (.cat digit digit),
    .group 3 (.cat digit digit), atEnd]

/-- The month and the day in a cell. -/
def monthDay (pattern : Regex Char) (s : Text) : Option (Nat × Nat) :=
  (Regex.search pattern s).map fun m =>
    let number (n : Nat) := Perl.ofDigits ((m.stop.cap n).getD [])
    (number 1, number 2)

/-- A date as it stands on a statement. -/
structure DateText where
  month : Text
  day : Text
  year : Text
deriving DecidableEq

/-- The month, day and year between the minus signs. -/
def DateText.ofCell (s : Text) : DateText :=
  let parts := Perl.split '-' s
  ⟨field parts 0, field parts 1, field parts 2⟩

/-- `2000+$date{'year'}`, cut to a whole number: no sign is left in front of the year. It is not
bounded here; Perl prints it like this below `2 ** 63`, and where its text is a numeral. -/
def DateText.fullYear (d : DateText) : Nat :=
  let year := Decimal.numeral d.year
  2000 + year.digits / 10 ^ year.places

/-! ### The books -/

/-- What came to and went from an account. -/
structure Totals where
  deposits : ℚ
  withdrawals : ℚ
deriving DecidableEq

/-- What the reader finds that changes the accounts. -/
inductive Entry where
  /-- The main loop begins a turn. -/
  | turn
  | balanceForward (v : ℚ)
  /-- `$amountDepositsStmt` and `$amountWithdrawalsStmt` of a statement -/
  | summary (stmt : Totals)
  /-- A turn of the third loop of `readChecks` -/
  | check (t : Transaction)
  /-- A turn of the second loop of `readTransactions` -/
  | transaction (t : Transaction)

structure Books where
  i : Nat
  runningBalance : ℚ
  runningBalanceBeg : ℚ
  totalDeposits : ℚ
  totalWithdrawals : ℚ
  totalDepositsTrans : ℚ
  totalWithdrawalsTrans : ℚ
  amountDepositsTrans : ℚ
  amountWithdrawalsTrans : ℚ
  accountTransactions : List Transaction

/-- The books in the first turn of the main loop. -/
def Books.start : Books := ⟨1, 0, 0, 0, 0, 0, 0, 0, 0, []⟩

namespace Books

def addCheck (b : Books) (t : Transaction) : Books :=
  let amount := t.amount.value
  {b with
    amountWithdrawalsTrans := b.amountWithdrawalsTrans + amount
    accountTransactions := b.accountTransactions ++ [t]
    totalWithdrawalsTrans := b.totalWithdrawalsTrans + amount
    runningBalance := b.runningBalance - amount}

def addTransaction (b : Books) (t : Transaction) : Books :=
  let amount := t.amount.value
  let b := {b with
    accountTransactions := b.accountTransactions ++ [t]
    runningBalance := b.runningBalance + amount}
  if amount > 0 then
    {b with
      totalDepositsTrans := b.totalDepositsTrans + amount
      amountDepositsTrans := b.amountDepositsTrans + amount}
  else
    {b with
      totalWithdrawalsTrans := b.totalWithdrawalsTrans + -amount
      amountWithdrawalsTrans := b.amountWithdrawalsTrans + -amount}

def enter (b : Books) : Entry → Books
  | .turn => {b with i := b.i + 1}
  | .balanceForward v => if b.i = 1 then {b with runningBalanceBeg := v, runningBalance := v} else b
  | .summary stmt =>
    {b with
      totalDeposits := b.totalDeposits + stmt.deposits
      totalWithdrawals := b.totalWithdrawals + stmt.withdrawals
      amountDepositsTrans := 0
      amountWithdrawalsTrans := 0}
  | .check t => b.addCheck t
  | .transaction t => b.addTransaction t

end Books

/-- The books after these entries. -/
def books (log : List Entry) : Books := log.foldl Books.enter .start

/-! ### The reader -/

/-- The two calls of `readChecks`, and the two of `readTransactions`, for a statement. -/
inductive Block where
  | first
  | second
deriving DecidableEq, Repr

/-- The loop that reads the next line. -/
inductive Point where
  /-- `readDate("Statement Date", ...)` -/
  | statementDate
  /-- `readDate("Date Last Statement", ...)` -/
  | lastStatementDate
  /-- `readSummaryAmount("Balance Forward")` and its siblings -/
  | balanceForward
  | deposits
  | withdrawals (amountDepositsStmt : ℚ)
  | endingBalance
  /-- The three loops of `readChecks` -/
  | checksTitle (b : Block)
  | checksHead (b : Block)
  | checks (b : Block)
  /-- The two loops of `readTransactions` -/
  | transHead (b : Block)
  | trans (b : Block) (reshuffle : Bool)
  /-- Behind the main loop -/
  | done
deriving DecidableEq

/-- Where the program stands. Of the date of a statement only the year is used again, and
neither the date of the last one is nor the ending balance. -/
structure Reader where
  point : Point
  /-- `$_`, empty at the end of the input -/
  line : Text
  lin : Cells
  /-- `2000+$statementDate{'year'}` -/
  year : Nat
deriving DecidableEq

/-- At the head of the first statement. -/
def Reader.start : Reader := ⟨.statementDate, [], ⟨[], [], [], []⟩, 2000⟩

/-- Where the program gets to, with the entries made on the way, or what it dies of. -/
abbrev Outcome := Except String (Reader × List Entry)

namespace Reader

/-! ### Dates -/

/-- `readDate` behind its loop: `none` is the return value -1. -/
def readDate (dateName : String) (r : Reader) : Except String (Option (DateText × Cells)) :=
  if r.line = [] then .ok none
  else if ¬ Contains r.lin.cell0 dateName then
    .error ("readDate can't match dateName=" ++ dateName ++ " in " ++ String.ofList r.line)
  else
    let lin := {r.lin with cell1 := unQuote r.lin.cell1}
    .ok (some (DateText.ofCell lin.cell1, lin))

def readStatementDate (r : Reader) : Except String Reader :=
  match r.readDate "Statement Date" with
  | .error text => .error text
  | .ok none => .ok {r with point := .done}
  | .ok (some (date, lin)) =>
    .ok {r with point := .lastStatementDate, year := date.fullYear, lin := lin}

def readLastStatementDate (r : Reader) : Except String Reader :=
  match r.readDate "Date Last Statement" with
  | .error text => .error text
  | .ok none => .ok {r with point := .balanceForward} -- the return value is not looked at
  | .ok (some (_, lin)) => .ok {r with point := .balanceForward, lin := lin}

/-! ### The summary of a statement -/

/-- `readSummaryAmount` with the line that ends its loop. -/
def readSummaryAmount (fieldName : String) (r : Reader) : Except String (Text × Decimal) :=
  if ¬ Contains r.lin.cell1 fieldName then
    .error ("expected fieldName: " ++ fieldName ++ " not found in " ++ String.ofList r.line)
  else
    match readAmount r.line r.lin.cell2 with
    | .error text => .error text
    | .ok v => .ok (readUnquote r.lin.cell0, v)

/-- What `readSummaryAmount` returns at the end of the input. -/
def undefined : Text × Decimal := ([], ⟨false, 0, 0⟩)

/-- `$s == n` -/
def Equals (s : Text) (n : Nat) : Prop :=
  (Number.numify s).Equal (.num ⟨false, n, 0⟩)

instance (s : Text) (n : Nat) : Decidable (Equals s n) :=
  inferInstanceAs (Decidable (Number.Equal _ _))

/-- The main loop behind `readSummaryAmount("Balance Forward")`. -/
def haveBalanceForward (r : Reader) (v : Text × Decimal) : Outcome :=
  if ¬ (Equals v.1 783 ∨ Equals v.1 84) then
    .error ("expected value 783 or 084 not found in field0=" ++ String.ofList v.1 ++ " in " ++
      String.ofList r.line)
  else .ok ({r with point := .deposits}, [.balanceForward v.2.value])

def haveDeposits (r : Reader) (v : Text × Decimal) : Outcome :=
  .ok ({r with point := .withdrawals v.2.value}, [])

def haveWithdrawals (amountDepositsStmt : ℚ) (r : Reader) (v : Text × Decimal) : Outcome :=
  .ok ({r with point := .endingBalance}, [.summary ⟨amountDepositsStmt, v.2.value⟩])

def haveEndingBalance (r : Reader) (_ : Text × Decimal) : Outcome :=
  .ok ({r with point := .checksTitle .first}, [])

/-- A call of `readSummaryAmount` and what the main loop does with the values. -/
def summary (fieldName : String) (next : Reader → Text × Decimal → Outcome) (r : Reader) :
    Option Line → Outcome
  | none => next r undefined
  | some _ =>
    if ¬ IsTrue r.lin.cell1 then .ok (r, [])
    else
      match r.readSummaryAmount fieldName with
      | .error text => .error text
      | .ok v => next r v

/-! ### Transactions -/

/-- `readTransactions` behind its first loop. Without a head line it returns -1, which
the main loop puts up with behind the first block. -/
def readTransHead (b : Block) (r : Reader) : Outcome :=
  let r := {r with lin := r.lin.map unQuoteStar}
  if r.lin.IsHead then .ok ({r with point := .trans b false}, [])
  else if r.lin.IsShuffledHead then
    .ok ({r with point := .trans b true, lin := r.lin.reShuffle}, [])
  else
    match b with
    | .first => .error "Died"
    | .second =>
      -- the next turn, with the first line already read
      match r.readStatementDate with
      | .error text => .error text
      | .ok r => .ok (r, [.turn])

section Head
variable (b : Block) {r : Reader}

theorem readTransHead_head (h : (r.lin.map unQuoteStar).IsHead) :
    r.readTransHead b =
      .ok ({r with point := .trans b false, lin := r.lin.map unQuoteStar}, []) := by
  simp only [readTransHead, if_pos h]

theorem readTransHead_shuffledHead (h : ¬ (r.lin.map unQuoteStar).IsHead)
    (h' : (r.lin.map unQuoteStar).IsShuffledHead) :
    r.readTransHead b =
      .ok ({r with point := .trans b true, lin := (r.lin.map unQuoteStar).reShuffle}, []) := by
  simp only [readTransHead, if_neg h, if_pos h']

theorem readTransHead_first (h : ¬ (r.lin.map unQuoteStar).IsHead)
    (h' : ¬ (r.lin.map unQuoteStar).IsShuffledHead) : r.readTransHead .first = .error "Died" := by
  simp only [readTransHead, if_neg h, if_neg h']

theorem readTransHead_second (h : ¬ (r.lin.map unQuoteStar).IsHead)
    (h' : ¬ (r.lin.map unQuoteStar).IsShuffledHead) :
    r.readTransHead .second =
      ({r with lin := r.lin.map unQuoteStar}.readStatementDate).map fun r => (r, [.turn]) := by
  simp only [readTransHead, if_neg h, if_neg h']
  split
  · rename_i heq
    rw [heq]
    rfl
  · rename_i heq
    rw [heq]
    rfl

end Head

/-- `readTransactions` returns 1. -/
def endTrans (b : Block) (r : Reader) : Reader × List Entry :=
  match b with
  | .first => ({r with point := .transHead .second}, [])
  | .second => ({r with point := .statementDate}, [.turn])

/-- The cells of a line as `readTransactions` splits and unquotes them. -/
def transCells (l : Line) : Cells := (Cells.split (Perl.chomp l.text)).map unQuote

/-- The cells of a transaction, in the order of the first layout. -/
def orderedCells (reshuffle : Bool) (l : Line) : Cells :=
  if reshuffle then (transCells l).reShuffle else transCells l

theorem inLine_orderedCells (reshuffle : Bool) (l : Line) : (orderedCells reshuffle l).InLine := by
  have hcells : (transCells l).InLine := Cells.inLine_split fun hmem =>
    Perl.newline_not_mem_chomp l.newline_last (List.mem_of_mem_dropLast hmem)
  unfold orderedCells
  split
  · exact ⟨hcells.cell3, hcells.cell2, hcells.cell0, hcells.cell1⟩
  · exact hcells

/-- The month and day of a transaction. -/
def transDay (lin : Cells) : Option (Nat × Nat) :=
  match monthDay dayPattern lin.cell2 with
  | some md => some md
  | none => monthDay shortDatePattern lin.cell0

/-- A turn of the second loop of `readTransactions`. -/
def readTransLine (b : Block) (reshuffle : Bool) (r : Reader) (l : Line) : Outcome :=
  let r := {r with line := Perl.chomp l.text, lin := transCells l}
  if r.lin.IsBlank then .ok (endTrans b r)
  else if r.lin.IsPassed reshuffle then .ok (r, [])
  else
    let r := {r with lin := orderedCells reshuffle l}
    match transDay r.lin with
    | none => .error ("Can't parse <day>-<month> in " ++ String.ofList r.line)
    | some (month, day) =>
      match readAmount r.line r.lin.cell3 with
      | .error text => .error text
      | .ok amount =>
        .ok (r, [.transaction
          { number := none
            description := (orderedCells reshuffle l).cell1
            date := ⟨r.year, month, day⟩
            amount := amount
            newline_not_mem_number := nofun
            newline_not_mem_description := (inLine_orderedCells reshuffle l).cell1 }])

/-! ### Checks -/

/-- `readChecks` behind its first loop. -/
def readChecksTitle (b : Block) (r : Reader) : Outcome :=
  if Contains r.lin.cell0 "CHECKS" then .ok ({r with point := .checksHead b}, [])
  else
    match b with
    | .first => .error "Died"
    | .second =>
      -- there may be one block of checks only
      if ¬ (Contains r.lin.cell1 "Other Account Transactions" ∨ Contains r.lin.cell1 "Amount") then
        .error (if r.lin.cell1 = [] then "Died" else String.ofList r.lin.cell1)
      else r.readTransHead .first

/-- `readChecks` with the line that ends its second loop. -/
def readChecksHead (b : Block) (r : Reader) : Outcome :=
  let lin := {r.lin.map unQuote with cell1 := r.lin.cell1}
  if ¬ (lin.cell0 = "Number".toList ∧ lin.cell2 = "Date".toList ∧ lin.cell3 = "Amount".toList) then
    .error ("Expecting \"Number\",,\"Date\",\"Amount\",, got <" ++ String.ofList lin.cell0 ++ ":" ++
      String.ofList lin.cell2 ++ ":" ++ String.ofList lin.cell3 ++ ">")
  else .ok ({r with point := .checks b, lin := lin}, [])

/-- `readChecks` returns 1. -/
def endChecks (b : Block) (r : Reader) : Reader :=
  match b with
  | .first => {r with point := .checksTitle .second}
  | .second => {r with point := .transHead .first}

/-- The number of a check. -/
def checkNumber (l : Line) : Text := Perl.dropLastOne '*' (unQuote (Cells.split l.text).cell0)

theorem newline_not_mem_checkNumber (l : Line) : '\n' ∉ checkNumber l := fun hmem =>
  (Cells.inLine_split l.newline_last).cell0 ((Perl.dropLastOne_sublist _ _).subset hmem)

/-- A turn of the third loop of `readChecks`. -/
def readCheckLine (b : Block) (r : Reader) (l : Line) : Outcome :=
  if ¬ IsTrue r.lin.cell2 then .ok (endChecks b r, [])
  else
    let r := {r with lin := {r.lin with
      cell0 := checkNumber l, cell1 := unQuote r.lin.cell1, cell2 := unQuote r.lin.cell2}}
    match monthDay dayPattern r.lin.cell2 with
    | none => .error "Died"
    | some (month, day) =>
      match readAmount r.line r.lin.cell3 with
      | .error text => .error text
      | .ok amount =>
        .ok (r, [.check
          { number := some (checkNumber l)
            description := unQuote (Cells.split l.text).cell1
            date := ⟨r.year, month, day⟩
            amount := amount
            newline_not_mem_number := by
              rintro n ⟨⟩
              exact newline_not_mem_checkNumber l
            newline_not_mem_description := (Cells.inLine_split l.newline_last).cell1 }])

/-! ### The machine -/

/-- `while(<>)` and `@lin = split(MATCH_CSV)`; at the end of the input `@lin` stays. -/
def read (r : Reader) : Option Line → Reader
  | none => {r with line := []}
  | some l => {r with line := l.text, lin := Cells.split l.text}

theorem read_point (r : Reader) (next : Option Line) : (r.read next).point = r.point := by
  cases next <;> rfl

/-- No entry is made. -/
def quiet (r : Except String Reader) : Outcome := r.map fun r => (r, [])

/-- What the program does with the next line, or with the end of the input, up to the
next loop. -/
def step (r : Reader) (next : Option Line) : Outcome :=
  let t := r.read next
  match r.point with
  | .statementDate =>
    if next.isSome ∧ ¬ IsTrue t.lin.cell0 then .ok (t, []) else quiet t.readStatementDate
  | .lastStatementDate =>
    if next.isSome ∧ ¬ IsTrue t.lin.cell0 then .ok (t, []) else quiet t.readLastStatementDate
  | .balanceForward => t.summary "Balance Forward" haveBalanceForward next
  | .deposits => t.summary "Deposits" haveDeposits next
  | .withdrawals dep => t.summary "Withdrawals" (haveWithdrawals dep) next
  | .endingBalance => t.summary "Ending Balance" haveEndingBalance next
  | .checksTitle b =>
    if next.isSome ∧ ¬ IsTrue t.lin.cell0 then .ok (t, []) else t.readChecksTitle b
  | .checksHead b =>
    match next with
    | none => .ok ({t with point := .checks b}, [])
    | some _ => if ¬ IsTrue t.lin.cell0 then .ok (t, []) else t.readChecksHead b
  | .checks b =>
    match next with
    | none => .ok (endChecks b t, [])
    | some l => t.readCheckLine b l
  | .transHead b =>
    if next.isSome ∧ ¬ IsTrue t.lin.cell1 then .ok (t, []) else t.readTransHead b
  | .trans b reshuffle =>
    match next with
    | none => .ok (endTrans b t)
    | some l => t.readTransLine b reshuffle l
  | .done => .ok (r, [])

end Reader

/-! ### The program -/

/-- The reader and the entries it has made. -/
abbrev State := Reader × List Entry

/-- A step the program does not die of. -/
def step (s : State) (next : Option Line) : Option State :=
  match s.1.step next with
  | .error _ => none
  | .ok (r, es) => some (r, s.2 ++ es)

/-- The lines of a text. -/
def lines (input : Text) : List (Option Line) := (Perl.readLines input).map some

/-- The lines of the input and then its end, which no more than 16 loops find before the
main loop ends. -/
def reads (input : Text) : List (Option Line) := lines input ++ List.replicate 16 none

/-- The program on a text: where it ends with its entries, `none` if it dies. -/
def psbOcrToCSV (input : Text) : Option State := Runs.run step (.start, []) (reads input)

/-! ### The end of the input -/

/-- How many loops can find the end of the input before the main loop has ended. -/
def Point.left : Point → Nat
  | .lastStatementDate => 16
  | .balanceForward => 15
  | .deposits => 14
  | .withdrawals _ => 13
  | .endingBalance => 12
  | .checksTitle .first => 11
  | .checksHead .first => 10
  | .checks .first => 9
  | .checksTitle .second => 8
  | .checksHead .second => 7
  | .checks .second => 6
  | .transHead .first => 5
  | .trans .first _ => 4
  | .transHead .second => 3
  | .trans .second _ => 2
  | .statementDate => 1
  | .done => 0

theorem Point.left_le (p : Point) : p.left ≤ 16 := by
  unfold Point.left
  split <;> omega

theorem Point.eq_done_of_left {p : Point} (h : p.left = 0) : p = .done := by
  unfold Point.left at h
  split at h
  case h_17 => rfl
  all_goals omega

namespace Reader

theorem readStatementDate_of_line_nil {r : Reader} (h : r.line = []) :
    r.readStatementDate = .ok {r with point := .done} := by
  rw [readStatementDate, readDate, if_pos h]

theorem readLastStatementDate_of_line_nil {r : Reader} (h : r.line = []) :
    r.readLastStatementDate = .ok {r with point := .balanceForward} := by
  rw [readLastStatementDate, readDate, if_pos h]

/-- Behind its first loop `readTransactions` goes on to its second or ends the main loop. -/
theorem left_readTransHead {b : Block} {r r' : Reader} {es : List Entry} (hline : r.line = [])
    (h : r.readTransHead b = .ok (r', es)) : r'.point.left < (Point.transHead b).left := by
  have htrans (reshuffle : Bool) : (Point.trans b reshuffle).left < (Point.transHead b).left := by
    cases b <;> simp [Point.left]
  by_cases hhead : (r.lin.map unQuoteStar).IsHead
  · rw [readTransHead_head b hhead] at h
    obtain ⟨rfl, -⟩ := Prod.mk.inj (Except.ok.inj h)
    exact htrans false
  · by_cases hshuffled : (r.lin.map unQuoteStar).IsShuffledHead
    · rw [readTransHead_shuffledHead b hhead hshuffled] at h
      obtain ⟨rfl, -⟩ := Prod.mk.inj (Except.ok.inj h)
      exact htrans true
    · cases b with
      | first =>
        rw [readTransHead_first hhead hshuffled] at h
        cases h
      | second =>
        have hdone :=
          readStatementDate_of_line_nil (r := {r with lin := r.lin.map unQuoteStar}) hline
        rw [readTransHead_second hhead hshuffled, hdone] at h
        obtain ⟨rfl, -⟩ := Prod.mk.inj (Except.ok.inj h)
        exact Nat.zero_lt_succ _

theorem left_readChecksTitle {b : Block} {r r' : Reader} {es : List Entry} (hline : r.line = [])
    (h : r.readChecksTitle b = .ok (r', es)) : r'.point.left < (Point.checksTitle b).left := by
  simp only [readChecksTitle] at h
  split at h
  · obtain ⟨rfl, -⟩ := Prod.mk.inj (Except.ok.inj h)
    cases b <;> simp [Point.left]
  · cases b with
    | first => cases h
    | second =>
      simp only at h
      split at h
      · cases h
      · exact (left_readTransHead hline h).trans (by decide)

/-- At the end of the input each step leaves a loop behind. -/
theorem left_step_none {r r' : Reader} {es : List Entry} (h : r.step none = .ok (r', es)) :
    r'.point.left ≤ r.point.left - 1 := by
  have hline : (r.read none).line = [] := rfl
  cases hp : r.point with
  | statementDate =>
    simp only [step, hp, quiet, readStatementDate_of_line_nil hline] at h
    obtain ⟨rfl, -⟩ := Prod.mk.inj (Except.ok.inj h)
    exact Nat.zero_le _
  | lastStatementDate =>
    simp only [step, hp, quiet, readLastStatementDate_of_line_nil hline] at h
    obtain ⟨rfl, -⟩ := Prod.mk.inj (Except.ok.inj h)
    exact Nat.le_refl 15
  | balanceForward =>
    simp only [step, hp, summary, haveBalanceForward] at h
    split at h
    · cases h
    · obtain ⟨rfl, -⟩ := Prod.mk.inj (Except.ok.inj h)
      exact Nat.le_refl 14
  | deposits =>
    simp only [step, hp, summary, haveDeposits] at h
    obtain ⟨rfl, -⟩ := Prod.mk.inj (Except.ok.inj h)
    exact Nat.le_refl 13
  | withdrawals dep =>
    simp only [step, hp, summary, haveWithdrawals] at h
    obtain ⟨rfl, -⟩ := Prod.mk.inj (Except.ok.inj h)
    exact Nat.le_refl 12
  | endingBalance =>
    simp only [step, hp, summary, haveEndingBalance] at h
    obtain ⟨rfl, -⟩ := Prod.mk.inj (Except.ok.inj h)
    exact Nat.le_refl 11
  | checksTitle b =>
    simp only [step, hp] at h
    exact Nat.le_sub_one_of_lt (left_readChecksTitle hline h)
  | checksHead b =>
    simp only [step, hp] at h
    obtain ⟨rfl, -⟩ := Prod.mk.inj (Except.ok.inj h)
    cases b
    · exact Nat.le_refl 9
    · exact Nat.le_refl 6
  | checks b =>
    simp only [step, hp] at h
    obtain ⟨rfl, -⟩ := Prod.mk.inj (Except.ok.inj h)
    cases b
    · exact Nat.le_refl 8
    · exact Nat.le_refl 5
  | transHead b =>
    simp only [step, hp] at h
    exact Nat.le_sub_one_of_lt (left_readTransHead hline h)
  | trans b reshuffle =>
    simp only [step, hp] at h
    obtain ⟨rfl, -⟩ := Prod.mk.inj (Except.ok.inj h)
    cases b
    · exact Nat.le_refl 3
    · exact Nat.le_refl 1
  | done =>
    simp only [step, hp] at h
    obtain ⟨rfl, -⟩ := Prod.mk.inj (Except.ok.inj h)
    rw [hp]
    exact Nat.zero_le _

end Reader

/-- A step the program does not die of, taken apart. -/
theorem step_eq_some {s s' : State} {next : Option Line} (h : step s next = some s') :
    ∃ r es, s.1.step next = .ok (r, es) ∧ s' = (r, s.2 ++ es) := by
  unfold step at h
  cases hr : s.1.step next with
  | error text => simp [hr] at h
  | ok out => exact ⟨out.1, out.2, rfl, by simpa [hr] using h.symm⟩

theorem step_of_ok {s : State} {next : Option Line} {r : Reader} {es : List Entry}
    (h : s.1.step next = .ok (r, es)) : step s next = some (r, s.2 ++ es) := by
  simp only [step, h]

theorem left_run_none {n : Nat} {s s' : State} (hn : s.1.point.left ≤ n)
    (h : Runs.run step s (List.replicate n none) = some s') : s'.1.point.left = 0 := by
  induction n generalizing s with
  | zero =>
    obtain rfl : s = s' := Option.some.inj h
    exact Nat.le_zero.mp hn
  | succ n ih =>
    obtain ⟨t, ht, hrun⟩ := Runs.run_cons h
    obtain ⟨r, es, hr, rfl⟩ := step_eq_some ht
    exact ih ((Reader.left_step_none hr).trans (Nat.sub_le_of_le_add hn)) hrun

/-- The program that does not die has left its main loop: 16 loops are enough. -/
theorem done_of_psbOcrToCSV {input : Text} {s : State} (h : psbOcrToCSV input = some s) :
    s.1.point = .done := by
  rw [psbOcrToCSV, reads, Runs.run_append] at h
  obtain ⟨t, -, hend⟩ := Option.bind_eq_some_iff.mp h
  exact Point.eq_done_of_left (left_run_none t.1.point.left_le hend)

end VleoNotebook.Ledger.Ocr
