import VleoNotebook.Ledger.Accounts

/-! What `psbOcrToCSV` writes for the transactions of a statement.

A transaction is a check, with its number, or a line of the account. It becomes a row
of seven fields joined by colons: check number, description, date, signed amount,
withdrawal, deposit and account. The rows follow a line for the bank account itself.
The description of a transaction that no pattern classifies is printed while it is
read, which is before all of them. -/
namespace VleoNotebook.Ledger

open Perl (Text Decimal pad)

structure Date where
  year : Nat
  month : Nat
  day : Nat
deriving DecidableEq, Repr

/-- A transaction as read from the statement. The amount is what `readAmount` returns,
on a check what is paid by it; no cell of a line goes over its end. -/
structure Transaction where
  /-- The number of a check. -/
  number : Option Text
  description : Text
  date : Date
  amount : Decimal
  newline_not_mem_number : ∀ n ∈ number, '\n' ∉ n
  newline_not_mem_description : '\n' ∉ description

namespace Transaction

/-- The amount as it changes the balance. -/
def signed (t : Transaction) : Decimal := if t.number.isSome then t.amount.neg else t.amount

/-- `sprintf("%04d %02d %02d", ...)`. Years, months and days are not bounded here; Perl prints
those below `2 ** 63` like this. -/
def dateField (d : Date) : Text := pad 4 d.year ++ ' ' :: (pad 2 d.month ++ ' ' :: pad 2 d.day)

/-- The corresponding account, and what looking it up prints. -/
def corrAcct (t : Transaction) : Nat × List Text :=
  descriptionToAccount t.description (.num t.signed)

def account (t : Transaction) : Text := Nat.toDigits 10 t.corrAcct.1

/-- What `readChecks` and `readTransactions` push for a transaction. -/
def row (t : Transaction) : List Text :=
  match t.number with
  | some number =>
    [number, t.description, dateField t.date, t.amount.neg.sprintf2, t.amount.sprintf2, [],
      t.account]
  | none =>
    [[], t.description, dateField t.date, t.amount.sprintf2,
      if t.amount.IsNeg then t.amount.neg.sprintf2 else [],
      if t.amount.IsPos then t.amount.sprintf2 else [], t.account]

def line (t : Transaction) : Text := Perl.join ':' t.row

end Transaction

/-- `:"PSB ACCOUNT 1060"::::` -/
def headLine : Text := ":\"PSB ACCOUNT 1060\"::::".toList

/-- The lines on the standard output for these transactions. -/
def outputLines (ts : List Transaction) : List Text :=
  ts.flatMap (fun t => t.corrAcct.2) ++ headLine :: ts.map Transaction.line

/-- The standard output. -/
def output (ts : List Transaction) : Text := Perl.printLines (outputLines ts)

/-! ### What the fields are made of -/

namespace Transaction

theorem isDigit_of_mem_account {t : Transaction} {c : Char} (h : c ∈ t.account) : c.isDigit :=
  Perl.isDigit_of_mem_toDigits h

theorem mem_dateField {d : Date} {c : Char} (h : c ∈ dateField d) : c.isDigit ∨ c = ' ' := by
  simp only [dateField, List.mem_append, List.mem_cons] at h
  rcases h with h | rfl | h | rfl | h
  · exact .inl (Perl.isDigit_of_mem_pad h)
  · exact .inr rfl
  · exact .inl (Perl.isDigit_of_mem_pad h)
  · exact .inr rfl
  · exact .inl (Perl.isDigit_of_mem_pad h)

/-- The symbols the script writes into the fields itself. -/
def Written (c : Char) : Prop := c.isDigit ∨ c ∈ [' ', '-', '.', 'I', 'n', 'f']

instance (c : Char) : Decidable (Written c) := inferInstanceAs (Decidable (_ ∨ _))

theorem Written.ne {c : Char} (h : Written c) : c ≠ ':' ∧ c ≠ '\n' := by
  constructor <;> rintro rfl <;> exact absurd h (by decide)

theorem written_of_mem_sprintf2 {x : Decimal} {c : Char} (h : c ∈ x.sprintf2) : Written c :=
  (Decimal.mem_sprintf2 h).imp id (List.mem_cons_of_mem _)

/-- Everything in a row is of the number, of the description, or written by the script. -/
theorem mem_row {t : Transaction} {f : Text} (hf : f ∈ t.row) {c : Char} (hc : c ∈ f) :
    (∃ n ∈ t.number, c ∈ n) ∨ c ∈ t.description ∨ Written c := by
  have hdate (h : c ∈ dateField t.date) : Written c :=
    (mem_dateField h).imp id fun h => List.mem_cons.mpr (.inl h)
  have haccount (h : c ∈ t.account) : Written c := .inl (isDigit_of_mem_account h)
  cases hn : t.number with
  | some number =>
    simp only [row, hn, List.mem_cons, List.not_mem_nil, or_false] at hf
    rcases hf with rfl | rfl | rfl | rfl | rfl | rfl | rfl
    · exact .inl ⟨_, rfl, hc⟩
    · exact .inr (.inl hc)
    · exact .inr (.inr (hdate hc))
    · exact .inr (.inr (written_of_mem_sprintf2 hc))
    · exact .inr (.inr (written_of_mem_sprintf2 hc))
    · cases hc
    · exact .inr (.inr (haccount hc))
  | none =>
    simp only [row, hn, List.mem_cons, List.not_mem_nil, or_false] at hf
    rcases hf with rfl | rfl | rfl | rfl | rfl | rfl | rfl
    · cases hc
    · exact .inr (.inl hc)
    · exact .inr (.inr (hdate hc))
    · exact .inr (.inr (written_of_mem_sprintf2 hc))
    · split at hc
      · exact .inr (.inr (written_of_mem_sprintf2 hc))
      · cases hc
    · split at hc
      · exact .inr (.inr (written_of_mem_sprintf2 hc))
      · cases hc
    · exact .inr (.inr (haccount hc))

theorem newline_not_mem_row {t : Transaction} {f : Text} (hf : f ∈ t.row) : '\n' ∉ f := by
  intro hc
  rcases mem_row hf hc with ⟨n, hn, h⟩ | h | h
  · exact t.newline_not_mem_number n hn h
  · exact t.newline_not_mem_description h
  · exact h.ne.2 rfl

/-- Neither the number nor the description holds a colon. -/
def ColonFree (t : Transaction) : Prop := ':' ∉ t.description ∧ ∀ n ∈ t.number, ':' ∉ n

theorem ColonFree.row {t : Transaction} (h : t.ColonFree) : ∀ f ∈ t.row, ':' ∉ f := by
  intro f hf hc
  rcases mem_row hf hc with ⟨n, hn, hmem⟩ | hmem | hmem
  · exact h.2 n hn hmem
  · exact h.1 hmem
  · exact hmem.ne.1 rfl

/-- Without further colons the row comes out of its line again. -/
theorem ColonFree.split_line {t : Transaction} (h : t.ColonFree) :
    Perl.split ':' t.line = t.row := by
  have hrow : t.row = t.row.dropLast ++ [t.account] := by
    cases hn : t.number <;> simp [Transaction.row, hn]
  have hfree := h.row
  rw [hrow] at hfree
  rw [line, hrow, Perl.split_join hfree Nat.toDigits_ne_nil]

end Transaction

theorem newline_not_mem_outputLines {ts : List Transaction} :
    ∀ l ∈ outputLines ts, '\n' ∉ l := by
  intro l hl
  rcases List.mem_append.mp hl with hl | hl
  · obtain ⟨t, -, hl⟩ := List.mem_flatMap.mp hl
    rw [mem_printed hl]
    exact t.newline_not_mem_description
  · rcases List.mem_cons.mp hl with rfl | hl
    · decide
    · obtain ⟨t, -, rfl⟩ := List.mem_map.mp hl
      intro hc
      obtain h | ⟨f, hf, hc⟩ := Perl.mem_join hc
      · cases h
      · exact Transaction.newline_not_mem_row hf hc

/-- The reader finds the lines as they were printed. -/
theorem lines_output (ts : List Transaction) : Perl.lines (output ts) = outputLines ts :=
  Perl.lines_printLines newline_not_mem_outputLines

end VleoNotebook.Ledger
