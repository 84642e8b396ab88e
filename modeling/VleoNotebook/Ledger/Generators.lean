import VleoNotebook.Lib.Csv
import VleoNotebook.Ledger.Postings

/-! How the three scripts that write postings go through their rows.

`csv2sqlledger_gl` reads lines of fields between colons, `psbCsv2sqlledger_gl` and
`psbCsv2sqlledger201302_gl` the rows that `Text::CSV` makes of a file, by the names of their
columns. Each pass through a loop leaves the row out, ends the program or makes a `Booking`:
a posting, and what is added to `$withdrTot` and `$depTot`. Amounts are printed by a
parameter, so that the same script runs with the doubles of `%.2f` and with exact numbers. -/
namespace VleoNotebook.Ledger

open Perl (Text Number Regex IsTrue Contains field split)
open Perl.Number (numify)

/-! ### Rows and bookings -/

/-- The options of `csv2sqlledger_gl`; one that is not given is empty. -/
structure CsvOptions where
  /-- The format of the dates -/
  optF : Text
  optM : Text
  optY : Text
  /-- Checks only -/
  optC : Bool
deriving DecidableEq

/-- The program called without options. -/
def CsvOptions.none : CsvOptions := ⟨[], [], [], false⟩

/-- The options `-m` and `-y` of the other two. -/
structure Filter where
  optM : Text
  optY : Text
deriving DecidableEq

/-- What `getline_hr` returns: the fields by the names of the columns. -/
abbrev Hash := String → Text

/-- `getline_hr`: of two columns of one name the last counts. -/
def hash (columnNames fields : List Text) : Hash := fun name =>
  match columnNames.zipIdx.reverse.find? (·.1 = name.toList) with
  | some column => field fields column.2
  | .none => []

/-- A row that one of the scripts reads. -/
inductive Row where
  | csv2sqlledger (o : CsvOptions) (line : Text)
  | psbCsv2sqlledger (o : Filter) (lin : Hash)
  | psbCsv2sqlledger201302 (o : Filter) (lin : Hash)

structure Booking where
  row : Row
  posting : Posting
  /-- What is added to `$withdrTot` -/
  withdr : Number
  /-- What is added to `$depTot` -/
  dep : Number

/-- How a pass through the loop ends. -/
inductive Pass where
  | next
  | last
  | die (text : String)
  | book (b : Booking)

/-- `next if $opt and $opt != $s` -/
def LeavesOut (opt s : Text) : Prop := IsTrue opt ∧ ¬ (numify opt).Equal (numify s)

instance (opt s : Text) : Decidable (LeavesOut opt s) := inferInstanceAs (Decidable (_ ∧ _))

/-- `sprintf("%04d-%02d-%02d", ...)` -/
def printDate (year month day : Text) : Text :=
  (numify year).padInt 4 ++ '-' :: ((numify month).padInt 2 ++ '-' :: (numify day).padInt 2)

/-- `$withdr != 0 and $dep != 0` -/
def BothDefined (withdr dep : Number) : Prop := withdr.IsNonzero ∧ dep.IsNonzero

instance (withdr dep : Number) : Decidable (BothDefined withdr dep) :=
  inferInstanceAs (Decidable (_ ∧ _))

/-! ### csv2sqlledger_gl -/

def mname2num : List (String × Nat) :=
  [("Jan", 1), ("Feb", 2), ("Mar", 3), ("Apr", 4), ("May", 5), ("Jun", 6), ("Jul", 7), ("Aug", 8),
    ("Sep", 9), ("Oct", 10), ("Nov", 11), ("Dec", 12)]

/-- `$mname2num{$month}` -/
def monthNumber (month : Text) : Text :=
  match mname2num.find? (·.1.toList = month) with
  | some entry => Nat.toDigits 10 entry.2
  | .none => []

/-- `\w` -/
def word : Regex Char := .sym fun c => c.isAlphanum || c = '_'

/-- `m/^(\d+)-(\w+)$/` -/
def dayMonthPattern : Regex Char :=
  .seq [.bos, .group 1 (.plus digit), .lit ['-'], .group 2 (.plus word), atEnd]

/-- What a group of a pattern matches, if the pattern does. -/
def group (pattern : Regex Char) (n : Nat) (s : Text) : Text :=
  ((Regex.search pattern s).bind (·.stop.cap n)).getD []

/-- `$mnum` and `$date` of a date field; with a format but 1 the program dies, with 2 as
`$opt_r` is looked at. -/
def csvDate (o : CsvOptions) (s : Text) : Option (Text × Text) :=
  if ¬ IsTrue o.optF then some (group datePattern 2 s, transdate (readDate s))
  else if (numify o.optF).Equal (.num ⟨false, 1, 0⟩) then
    let mnum := monthNumber (group dayMonthPattern 2 s)
    some (mnum, printDate o.optY mnum (group dayMonthPattern 1 s))
  else .none

/-- `$opt_C and ($memo eq "" or $memo =~ m/Wire/)` -/
def NoCheck (o : CsvOptions) (memo : Text) : Prop :=
  o.optC = true ∧ (memo = [] ∨ Contains memo "Wire")

instance (o : CsvOptions) (memo : Text) : Decidable (NoCheck o memo) :=
  inferInstanceAs (Decidable (_ ∧ _))

def csvPass (o : CsvOptions) (line : Text) : Pass :=
  let lin := split ':' line
  if field lin 1 = bankAccount then .next
  else if field lin 1 = [] then .last
  else
    match csvDate o (field lin 2) with
    | .none => .die "Died"
    | some (mnum, date) =>
      if LeavesOut o.optM mnum then .next
      else if NoCheck o (field lin 0) then .next
      else
        let withdr := numify (field lin 4)
        let dep := numify (field lin 5)
        if BothDefined withdr dep then
          .die ("withdr and dep both defined: " ++ String.ofList line)
        else .book ⟨.csv2sqlledger o line, {post lin with transdate := date}, withdr, dep⟩

/-- Without options the script does what `turn` does. -/
theorem csvPass_none (line : Text) : csvPass .none line =
    match turn line with
    | .next => .next
    | .last => .last
    | .die text => .die text
    | .posting p => .book ⟨.csv2sqlledger .none line, p, numify (field (split ':' line) 4),
        numify (field (split ':' line) 5)⟩ := by
  have hfalse : ¬ IsTrue [] := fun h => h.1 rfl
  have hdate (s : Text) : csvDate .none s = some (group datePattern 2 s, transdate (readDate s)) :=
    if_pos hfalse
  have hmonth (s : Text) : ¬ LeavesOut CsvOptions.none.optM s := fun h => hfalse h.1
  have hcheck (s : Text) : ¬ NoCheck .none s := fun h => Bool.false_ne_true h.1
  have hpost (lin : List Text) :
      {post lin with transdate := transdate (readDate (field lin 2))} = post lin := by
    simp only [post]
  simp only [csvPass, turn, hdate, if_neg (hmonth _), if_neg (hcheck _), BothDefined, hpost]
  by_cases hbank : field (split ':' line) 1 = bankAccount
  · simp only [if_pos hbank]
  · by_cases hlast : field (split ':' line) 1 = []
    · simp only [if_neg hbank, if_pos hlast]
    · simp only [if_neg hbank, if_neg hlast]
      split_ifs <;> simp only

/-! ### The two others -/

section Psb
variable (print : Number → Text)

/-- The posting of a row: paid from account 1060, or received by it. -/
def psbPosting (descr memo date : Text) (paid : Bool) (amount : Number) : Posting :=
  let corracct := Nat.toDigits 10 (descriptionToAccount descr amount).1
  let amt := print amount.abs
  { transdate := date
    description := descr
    accno1 := if paid then corracct else "1060".toList
    debit1 := amt
    accno2 := if paid then "1060".toList else corracct
    credit2 := amt
    side := if paid then 1 else 2
    memo := truthy memo }

def psbPass (o : Filter) (lin : Hash) : Pass :=
  if ¬ (numify (lin "Account Number")).Equal (.num ⟨false, 64084, 0⟩) then .next
  else
    let date := split '/' (lin "Post Date")
    if LeavesOut o.optY (field date 2) then .next
    else if LeavesOut o.optM (field date 0) then .next
    else
      let withdr := numify (lin "Debit")
      let dep := numify (lin "Credit")
      if BothDefined withdr dep then .die "withdr and dep both defined: "
      else
        let amount := if withdr.IsPos then withdr.neg else dep
        .book ⟨.psbCsv2sqlledger o lin, psbPosting print (lin "Description") (lin "Check")
          (printDate (field date 2) (field date 0) (field date 1)) withdr.IsPos amount, withdr, dep⟩

def psb201302Pass (o : Filter) (lin : Hash) : Pass :=
  let date := split '/' (lin "Date")
  if LeavesOut o.optY (field date 2) then .next
  else if LeavesOut o.optM (field date 0) then .next
  else
    let amount := numify (lin "Amount")
    let zero := numify []
    let book (isDebit : Bool) (amount withdr dep : Number) : Pass :=
      .book ⟨.psbCsv2sqlledger201302 o lin, psbPosting print (lin "Description")
        (lin "Check Number") (printDate (field date 2) (field date 0) (field date 1)) isDebit
        amount, withdr, dep⟩
    if lin "Credit or Debit" = "Debit".toList then book true amount.neg amount zero
    else if lin "Credit or Debit" = "Credit".toList then book false amount zero amount
    else .die "Nor Debit, nor Credit???:"

section Book
variable {print} {b : Booking}

/-- What `csv2sqlledger_gl` books of a line. -/
theorem csvPass_book {o : CsvOptions} {line : Text} (h : csvPass o line = .book b) :
    let lin := split ':' line
    ¬ BothDefined (numify (field lin 4)) (numify (field lin 5)) ∧
      ∃ date, b = ⟨.csv2sqlledger o line, {post lin with transdate := date}, numify (field lin 4),
        numify (field lin 5)⟩ := by
  unfold csvPass at h
  simp only at h
  split at h
  · cases h
  · split at h
    · cases h
    · split at h
      · cases h
      · rename_i mnum date _
        split_ifs at h with hleft hcheck hboth
        exact ⟨hboth, date, (Pass.book.inj h).symm⟩

theorem psbPass_book {o : Filter} {lin : Hash} (h : psbPass print o lin = .book b) :
    let withdr := numify (lin "Debit")
    let dep := numify (lin "Credit")
    ¬ BothDefined withdr dep ∧
      ∃ date, b = ⟨.psbCsv2sqlledger o lin, psbPosting print (lin "Description") (lin "Check") date
        withdr.IsPos (if withdr.IsPos then withdr.neg else dep), withdr, dep⟩ := by
  unfold psbPass at h
  simp only at h
  split at h
  · cases h
  · split at h
    · cases h
    · split at h
      · cases h
      · split at h
        · cases h
        · rename_i hboth
          exact ⟨hboth, _, (Pass.book.inj h).symm⟩

theorem psb201302Pass_book {o : Filter} {lin : Hash} (h : psb201302Pass print o lin = .book b) :
    let amount := numify (lin "Amount")
    let zero := numify []
    ∃ date, if lin "Credit or Debit" = "Debit".toList then
        b = ⟨.psbCsv2sqlledger201302 o lin, psbPosting print (lin "Description")
          (lin "Check Number") date true amount.neg, amount, zero⟩
      else b = ⟨.psbCsv2sqlledger201302 o lin, psbPosting print (lin "Description")
        (lin "Check Number") date false amount, zero, amount⟩ := by
  unfold psb201302Pass at h
  simp only at h
  split_ifs at h with hyear hmonth hdebit hcredit
  · exact ⟨_, by rw [if_pos hdebit]; exact (Pass.book.inj h).symm⟩
  · exact ⟨_, by rw [if_neg hdebit]; exact (Pass.book.inj h).symm⟩

end Book

/-! ### Files -/

def Row.pass : Row → Pass
  | .csv2sqlledger o line => csvPass o line
  | .psbCsv2sqlledger o lin => psbPass print o lin
  | .psbCsv2sqlledger201302 o lin => psb201302Pass print o lin

/-- The bookings of these rows, and the text the program dies with, if it does. -/
def bookings : List Row → List Booking × Option String
  | [] => ([], .none)
  | r :: rs =>
    match r.pass print with
    | .next => bookings rs
    | .last => ([], .none)
    | .die text => ([], some text)
    | .book b => (b :: (bookings rs).1, (bookings rs).2)

/-- What one of the scripts is given. A file of `Text::CSV` is what stands in the first row
and the rows behind it. -/
inductive Input where
  | csv2sqlledger (o : CsvOptions) (text : Text)
  | psbCsv2sqlledger (o : Filter) (fields : List Text) (rows : List (List Text))
  | psbCsv2sqlledger201302 (o : Filter) (fields : List Text) (rows : List (List Text))

def colNms : List Text :=
  ["Date", "Amount", "Credit or Debit", "Check Number", "Description"].map String.toList

/-- The rows the loop of the script goes through, unless it dies before it. -/
def Input.rows : Input → Except String (List Row)
  | .csv2sqlledger o text =>
    if IsTrue o.optF ∧ (numify o.optY).Below 2009 then .ok [] -- its usage is all it prints
    else .ok ((Perl.lines text).map (.csv2sqlledger o))
  | .psbCsv2sqlledger o fields rows =>
    if field fields 0 ≠ "Account Number".toList then .error "Died"
    else .ok (rows.map fun row => .psbCsv2sqlledger o (hash fields row))
  | .psbCsv2sqlledger201302 o fields rows =>
    if fields ≠ colNms then
      .error ("1st Row Mismatch. Required:(" ++ String.ofList (Perl.join ':' colNms) ++ ") Got:(" ++
        String.ofList (Perl.join ':' fields) ++ ")")
    else .ok (rows.map fun row => .psbCsv2sqlledger201302 o (hash fields row))

/-- The program on a file. -/
def Input.run (i : Input) : List Booking × Option String :=
  match i.rows with
  | .error text => ([], some text)
  | .ok rows => bookings print rows

/-- The program reads to the end. -/
theorem Input.run_eq {i : Input} (h : (i.run print).2 = .none) :
    i.run print = ((i.run print).1, .none) := Prod.ext rfl h

variable {print} in
theorem mem_bookings {rows : List Row} {b : Booking} (h : b ∈ (bookings print rows).1) :
    ∃ r ∈ rows, r.pass print = .book b := by
  induction rows with
  | nil => cases h
  | cons r rs ih =>
    have hrest (h : b ∈ (bookings print rs).1) : ∃ r' ∈ r :: rs, r'.pass print = .book b := by
      obtain ⟨r', hr', hpass⟩ := ih h
      exact ⟨r', List.mem_cons_of_mem r hr', hpass⟩
    unfold bookings at h
    split at h
    · exact hrest h
    · cases h
    · cases h
    · rename_i b' hpass
      rcases List.mem_cons.mp h with rfl | h
      · exact ⟨r, List.mem_cons_self, hpass⟩
      · exact hrest h

variable {print} in
theorem Input.mem_run {i : Input} {b : Booking} (h : b ∈ (i.run print).1) :
    ∃ r : Row, r.pass print = .book b := by
  unfold Input.run at h
  split at h
  · cases h
  · obtain ⟨r, -, hpass⟩ := mem_bookings h
    exact ⟨r, hpass⟩

end Psb

end VleoNotebook.Ledger
