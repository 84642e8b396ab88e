import VleoNotebook.Ledger.Moves
import VleoNotebook.Ledger.Postings

/-! Which transactions are dated inside the period of their statement.

A period runs from the date of the last statement, which is no part of it, to the date of
the statement. It is shorter than a year, so that of a month and a day in it the year can be
told (`Period.contains_thisYear_iff`). The lines of a statement have no year, and all of them
get that of the statement (`year_of_mem_dated`): the wrong one where the period began in the
year before and the line is of that year (`datedInside_iff`). -/
namespace VleoNotebook.Ledger

/-! ### Periods -/

namespace Date

def Before (d e : Date) : Prop :=
  d.year < e.year ∨ d.year = e.year ∧ (d.month < e.month ∨ d.month = e.month ∧ d.day < e.day)

instance (d e : Date) : Decidable (d.Before e) := inferInstanceAs (Decidable (_ ∨ _))

end Date

/-- From the last statement to this one, in less than a year. -/
structure Period where
  last : Date
  this : Date
  ordered : last.Before this
  short : this.Before {last with year := last.year + 1}

namespace Period

def Contains (p : Period) (d : Date) : Prop := p.last.Before d ∧ ¬ p.this.Before d

/-- The month and day come behind those of the statement. -/
def Behind (p : Period) (month day : Nat) : Prop :=
  p.this.month < month ∨ p.this.month = month ∧ p.this.day < day

variable {p : Period} {y month day : Nat}

/-- A day of the period that is not behind the one of the statement is of the same year. -/
theorem contains_thisYear_iff (h : p.Contains ⟨y, month, day⟩) :
    p.this.year = y ↔ ¬ p.Behind month day := by
  have hshort := p.short
  simp only [Contains, Date.Before, Behind] at h hshort ⊢
  omega

end Period

namespace Ocr

open Perl (Text Line IsTrue field unQuoteStar)

/-! ### The dates of a statement -/

/-- The date a statement gives, its year as `fullYear` takes it. -/
def DateText.date (d : DateText) : Date :=
  let number (s : Text) := (Perl.Decimal.numeral s).digits / 10 ^ (Perl.Decimal.numeral s).places
  ⟨d.fullYear, number d.month, number d.day⟩

/-- `%statementDate` and `%lastStatementDate`, the second of which is never looked at. -/
structure Dates where
  statementDate : Option DateText
  lastStatementDate : Option DateText
deriving DecidableEq

/-- What a step from `r` to `r'` leaves in them: a date is read on the way to the next loop,
and it is what stands unquoted in the second cell. -/
def Dates.follow (v : Dates) (r r' : Reader) : Dates :=
  if r.point ≠ .lastStatementDate ∧ r'.point = .lastStatementDate then
    {v with statementDate := some (DateText.ofCell r'.lin.cell1)}
  else if r.point = .lastStatementDate ∧ r'.point = .balanceForward ∧ r'.line ≠ [] then
    {v with lastStatementDate := some (DateText.ofCell r'.lin.cell1)}
  else v

/-- The dates are the ends of this period. -/
def Dates.Hold (v : Dates) (p : Period) : Prop :=
  v.lastStatementDate.map DateText.date = some p.last ∧
    v.statementDate.map DateText.date = some p.this

/-- The checks and transactions among these entries. -/
def transactions (es : List Entry) : List Transaction := es.filterMap fun
  | .check t => some t
  | .transaction t => some t
  | _ => none

/-! ### What a step does to the year -/

/-- A step leaves the year and dates with it what it books, or it reads a statement date. -/
inductive YearStep (p : Point) (year : Nat) (r : Reader) (es : List Entry) : Prop where
  | keeps (hpoint : r.point = .lastStatementDate → p = .lastStatementDate) (hyear : r.year = year)
    (hes : ∀ t ∈ transactions es, t.date.year = year)
  | reads (hpoint : r.point = .lastStatementDate) (hp : p ≠ .lastStatementDate)
    (hyear : r.year = (DateText.ofCell r.lin.cell1).fullYear) (hes : transactions es = [])

/-- Where an outcome leads from this point and year. -/
def Outcome.YearsFrom (p : Point) (year : Nat) (o : Outcome) : Prop :=
  ∀ r es, o = .ok (r, es) → YearStep p year r es

/-- **Every step keeps the year or reads a statement date.** -/
theorem Reader.yearsFrom_step (r : Reader) (next : Option Line) :
    Outcome.YearsFrom r.point r.year (r.step next) := by
  intro r' es h
  have hbehind (hhead : r'.point.atHead = false) : r'.point ≠ .lastStatementDate := by
    intro hpoint
    rw [hpoint] at hhead
    cases hhead
  have hnone (hpoint : r'.point ≠ .lastStatementDate) (hyear : r'.year = r.year) {es : List Entry}
      (hes : transactions es = []) : YearStep r.point r.year r' es :=
    .keeps (fun h => absurd h hpoint) hyear (by rw [hes]; exact List.forall_mem_nil _)
  cases r.movesFrom_step next r' es h with
  | stays hpoint hyear => exact .keeps (fun h => hpoint ▸ h) hyear (List.forall_mem_nil _)
  | leaves hpoint hyear => exact hnone (hbehind hpoint) hyear rfl
  | date hp hpoint hyear => exact .reads hpoint (by rw [hp]; rintro ⟨⟩) hyear rfl
  | lastDate hp hpoint hyear => exact hnone (by rw [hpoint]; rintro ⟨⟩) hyear rfl
  | turn hpoint hyear => exact hnone hpoint hyear rfl
  | turnDate hp hpoint hyear => exact .reads hpoint hp hyear rfl
  | balanceForward v hp hpoint hyear => exact hnone (by rw [hpoint]; rintro ⟨⟩) hyear rfl
  | summary stmt hpoint hyear => exact hnone (by rw [hpoint]; rintro ⟨⟩) hyear rfl
  | check t hnumber hdate hpoint hyear =>
    exact .keeps (fun h => absurd h (hbehind hpoint)) hyear (List.forall_mem_singleton.mpr hdate)
  | transaction t hnumber hdate hpoint hyear =>
    exact .keeps (fun h => absurd h (hbehind hpoint)) hyear (List.forall_mem_singleton.mpr hdate)

/-! ### The program with its dates -/

/-- The state of the program, and with what it has booked the dates it had read by then. -/
structure Traced where
  state : State
  dates : Dates
  dated : List (Dates × Transaction)

namespace Traced

def start : Traced := ⟨(.start, []), ⟨none, none⟩, []⟩

def step (s : Traced) (next : Option Line) : Option Traced :=
  match s.state.1.step next with
  | .error _ => none
  | .ok (r, es) =>
    some ⟨(r, s.state.2 ++ es), s.dates.follow s.state.1 r,
      s.dated ++ (transactions es).map (s.dates, ·)⟩

/-- The dates decide nothing. -/
theorem map_run (s : Traced) (next : List (Option Line)) :
    (Runs.run step s next).map Traced.state = Runs.run Ocr.step s.state next := by
  induction next generalizing s with
  | nil => rfl
  | cons l next ih =>
    rw [Runs.run, Runs.run, step, Ocr.step]
    cases s.state.1.step l with
    | error text => rfl
    | ok out => exact ih _

/-- Everything booked is dated, in its order. -/
theorem dated_run {s t : Traced} {next : List (Option Line)} (h : Runs.run step s next = some t)
    (hs : s.dated.map Prod.snd = transactions s.state.2) :
    t.dated.map Prod.snd = transactions t.state.2 := by
  have hstep : ∀ (s : Traced) (l : Option Line) (t : Traced),
      s.dated.map Prod.snd = transactions s.state.2 → step s l = some t →
        t.dated.map Prod.snd = transactions t.state.2 := by
    intro s l t hs ht
    rw [step] at ht
    split at ht
    · cases ht
    · obtain rfl := Option.some.inj ht
      simp only [List.map_append, List.map_map, hs, transactions, List.filterMap_append]
      exact congrArg _ (List.map_id _)
  exact Runs.run_invariant hstep hs h

/-- The year is that of the last statement date read, and so it is for all that is booked. -/
structure YearKept (s : Traced) : Prop where
  year : ∀ d ∈ s.dates.statementDate, s.state.1.year = d.fullYear
  booked : ∀ e ∈ s.dated, ∀ d ∈ e.1.statementDate, e.2.date.year = d.fullYear

theorem yearKept_start : YearKept start where
  year := by rintro d ⟨⟩
  booked := List.forall_mem_nil _

theorem follow_statementDate_of_keeps {v : Dates} {r r' : Reader}
    (h : r'.point = .lastStatementDate → r.point = .lastStatementDate) :
    (v.follow r r').statementDate = v.statementDate := by
  unfold Dates.follow
  rw [if_neg fun hreads => hreads.1 (h hreads.2)]
  split <;> rfl

theorem follow_of_reads {v : Dates} {r r' : Reader} (h : r.point ≠ .lastStatementDate)
    (h' : r'.point = .lastStatementDate) :
    (v.follow r r').statementDate = some (DateText.ofCell r'.lin.cell1) := by
  unfold Dates.follow
  rw [if_pos ⟨h, h'⟩]

theorem yearKept_step (s : Traced) (next : Option Line) (t : Traced) (hs : YearKept s)
    (h : step s next = some t) : YearKept t := by
  rw [step] at h
  split at h
  · cases h
  · rename_i r es hstep
    obtain rfl := Option.some.inj h
    cases Reader.yearsFrom_step s.state.1 next r es hstep with
    | keeps hpoint hyear hes =>
      refine ⟨fun d hd => ?_, fun e he d hd => ?_⟩
      · rw [follow_statementDate_of_keeps hpoint] at hd
        exact hyear.trans (hs.year d hd)
      · rcases List.mem_append.mp he with he | he
        · exact hs.booked e he d hd
        · obtain ⟨t, ht, rfl⟩ := List.mem_map.mp he
          exact (hes t ht).trans (hs.year d hd)
    | reads hpoint hp hyear hes =>
      refine ⟨fun d hd => ?_, fun e he => hs.booked e ?_⟩
      · rw [follow_of_reads hp hpoint] at hd
        rw [hyear, ← Option.some.inj hd]
      · rwa [hes, List.map_nil, List.append_nil] at he

end Traced

/-- What the program books of a text, if it does not die, with the dates it had read. -/
def datedTransactions (input : Text) : List (Dates × Transaction) :=
  ((Runs.run Traced.step .start (reads input)).map Traced.dated).getD []

/-- They are the transactions the program ends with. -/
theorem datedTransactions_snd {input : Text} {s : State} (h : psbOcrToCSV input = some s) :
    (datedTransactions input).map Prod.snd = transactions s.2 := by
  have hrun := Traced.map_run .start (reads input)
  rw [show Runs.run step Traced.start.state (reads input) = some s from h] at hrun
  obtain ⟨t, ht, rfl⟩ := Option.map_eq_some_iff.mp hrun
  rw [datedTransactions, ht]
  exact Traced.dated_run ht rfl

/-- **Whatever is booked has the year of its statement date.** -/
theorem year_of_mem_dated {input : Text} {e : Dates × Transaction}
    (he : e ∈ datedTransactions input) {d : DateText} (hd : d ∈ e.1.statementDate) :
    e.2.date.year = d.fullYear := by
  unfold datedTransactions at he
  cases h : Runs.run Traced.step .start (reads input) with
  | none =>
    rw [h] at he
    cases he
  | some t =>
    rw [h] at he
    exact (Runs.run_invariant Traced.yearKept_step Traced.yearKept_start h).booked e he d hd

/-! ### Inside the period -/

/-- If its month and day are in the period of the statement, then the date in the row of the
transaction is the one with the year that places it there. -/
def DatedInside (e : Dates × Transaction) : Prop :=
  ∀ p : Period, e.1.Hold p → ∀ year, p.Contains ⟨year, e.2.date.month, e.2.date.day⟩ →
    field e.2.row 2 = Transaction.dateField ⟨year, e.2.date.month, e.2.date.day⟩

/-- The month and day are in the period of the statement and come behind those of its date:
they are of the year before. -/
def OfYearBefore (e : Dates × Transaction) : Prop :=
  ∃ p : Period, e.1.Hold p ∧ (∃ year, p.Contains ⟨year, e.2.date.month, e.2.date.day⟩) ∧
    p.Behind e.2.date.month e.2.date.day

theorem field_row_date (t : Transaction) : field t.row 2 = Transaction.dateField t.date := by
  cases hn : t.number <;> simp [Transaction.row, hn, field]

theorem dateField_inj {d e : Date} (h : Transaction.dateField d = Transaction.dateField e) :
    d = e := by
  rw [← readDate_dateField d, h, readDate_dateField e]

theorem datedInside_of_mem {input : Text} {e : Dates × Transaction}
    (he : e ∈ datedTransactions input) : DatedInside e ↔ ¬ OfYearBefore e := by
  -- the year of the transaction is the one of the period's end
  have hyear {p : Period} (hp : e.1.Hold p) : e.2.date.year = p.this.year := by
    obtain ⟨d, hd, hdate⟩ := Option.map_eq_some_iff.mp hp.2
    rw [year_of_mem_dated he hd, ← hdate]
    rfl
  have hrow {p : Period} (hp : e.1.Hold p) (year : Nat) :
      field e.2.row 2 = Transaction.dateField ⟨year, e.2.date.month, e.2.date.day⟩ ↔
        p.this.year = year := by
    rw [field_row_date, ← hyear hp]
    constructor
    · exact fun h => congrArg Date.year (dateField_inj h)
    · rintro rfl
      rfl
  constructor
  · rintro h ⟨p, hp, ⟨year, hcontains⟩, hbehind⟩
    exact (Period.contains_thisYear_iff hcontains).mp
      ((hrow hp year).mp (h p hp year hcontains)) hbehind
  · intro h p hp year hcontains
    refine (hrow hp year).mpr ((Period.contains_thisYear_iff hcontains).mpr fun hbehind => ?_)
    exact h ⟨p, hp, ⟨year, hcontains⟩, hbehind⟩

/-- **Every transaction is dated inside the period of its statement** if and only if none of
them is of the year before the statement's. -/
theorem datedInside_iff (input : Text) : (∀ e ∈ datedTransactions input, DatedInside e) ↔
    ∀ e ∈ datedTransactions input, ¬ OfYearBefore e :=
  forall₂_congr fun _ he => datedInside_of_mem he

/-! ### A statement over the turn of a year -/

/-- A check of December on the statement of January. -/
def januaryStatement : Text := Perl.printLines <| List.map String.toList
  ["Statement Date,01-20-09", "Date Last Statement,12-20-08", "783,Balance Forward,\"1,000.00\"",
    "1,Deposits,16.00", "2,Withdrawals,12.00", ",Ending Balance,\"1,004.00\"", "CHECKS",
    "Number,,Date,Amount", "101,RENT,12-28,12.00", "",
    "\"\",Other Account Transactions,Date,Amount", ",WIRE,01-03,16.00", ""]

theorem januaryStatement_misdated :
    ¬ ∀ e ∈ datedTransactions januaryStatement, DatedInside e := by
  intro h
  have hbooked : ((datedTransactions januaryStatement).map fun e => (e.1, e.2.date)).head? =
      some (⟨some ⟨"01".toList, "20".toList, "09".toList⟩,
        some ⟨"12".toList, "20".toList, "08".toList⟩⟩, ⟨2009, 12, 28⟩) := by
    decide +kernel
  obtain ⟨e, he, heq⟩ := List.mem_map.mp (List.mem_of_mem_head? hbooked)
  obtain ⟨hdates, hdate⟩ := Prod.mk.inj heq
  have hinside := h e he ⟨⟨2008, 12, 20⟩, ⟨2009, 1, 20⟩, by decide, by decide⟩
    (by rw [hdates]; exact ⟨by decide, by decide⟩) 2008
  rw [field_row_date, hdate] at hinside
  have hyear := congrArg Date.year (dateField_inj (hinside ⟨by decide, by decide⟩))
  exact absurd hyear (by decide)

end Ocr

end VleoNotebook.Ledger
