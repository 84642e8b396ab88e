import Mathlib.Tactic.IntervalCases
import VleoNotebook.Ledger.Generators

/-! Which of the documented date formats `csv2sqlledger_gl` reads back.

The pattern for year, month and day takes as many digits for each as it can, so a blank that
is left out moves digits of what follows to what stands in front (`readDate_unseparated` and
its siblings). A day and the name of a month are read as they are. For the third format the
script looks at an option it does not have, and dies. -/
namespace VleoNotebook.Ledger

open Perl (Text Regex Cursor IsTrue field split pad)
open Perl.Number (numify)

/-! ### Dates and formats -/

def daysIn (year month : Nat) : Nat :=
  if month = 2 then if year % 4 = 0 ∧ (year % 100 ≠ 0 ∨ year % 400 = 0) then 29 else 28
  else if month ∈ [4, 6, 9, 11] then 30
  else 31

/-- A date of the calendar, its year of up to 4 digits. -/
structure Date.IsCalendar (d : Date) : Prop where
  year : 0 < d.year ∧ d.year < 10000
  month : 0 < d.month ∧ d.month ≤ 12
  day : 0 < d.day ∧ d.day ≤ daysIn d.year d.month

/-- The formats the help text describes. -/
inductive DateFormat where
  /-- Without `-f`: 4 digit year, 2 digit month, 2 digit day, with or without a blank between
  them -/
  | yearMonthDay (blank₁ blank₂ : Bool)
  /-- `-f 1`: `<day>-<Month>`, the day with zeros in front up to a width -/
  | dayMonth (width : Nat)
  /-- `-f 2`: `<month>-<day>` -/
  | monthDay (width width' : Nat)
deriving DecidableEq

def monthName (month : Nat) : Text :=
  ((mname2num.find? (·.2 = month)).map (·.1.toList)).getD []

def blank (b : Bool) : Text := if b then [' '] else []

namespace DateFormat

/-- A date in this format. -/
def write (d : Date) : DateFormat → Text
  | yearMonthDay blank₁ blank₂ =>
    pad 4 d.year ++ (blank blank₁ ++ (pad 2 d.month ++ (blank blank₂ ++ pad 2 d.day)))
  | dayMonth width => pad width d.day ++ '-' :: monthName d.month
  | monthDay width width' => pad width d.month ++ '-' :: pad width' d.day

/-- The options that ask for it, for dates of this year. -/
def Selected (o : CsvOptions) (year : Nat) : DateFormat → Prop
  | yearMonthDay _ _ => ¬ IsTrue o.optF
  | dayMonth _ => o.optF = "1".toList ∧ o.optY = pad 4 year
  | monthDay _ _ => o.optF = "2".toList ∧ o.optY = pad 4 year

/-- Both blanks are written, or the month is a name. -/
def Reads : DateFormat → Prop
  | yearMonthDay blank₁ blank₂ => blank₁ = true ∧ blank₂ = true
  | dayMonth _ => True
  | monthDay _ _ => False

end DateFormat

/-! ### Year, month and day -/

theorem isDigit_pad (w n : Nat) : ∀ c ∈ pad w n, c.isDigit := fun _ => Perl.isDigit_of_mem_pad

/-- Two digits. -/
theorem pad_two {n : Nat} (h : n < 100) :
    ∃ a b, pad 2 n = [a, b] ∧ a.isDigit ∧ b.isDigit := by
  obtain ⟨a, b, hab⟩ := List.length_eq_two.mp (Perl.length_pad (w := 2) (by decide) h)
  have hdigits := isDigit_pad 2 n
  rw [hab] at hdigits
  exact ⟨a, b, hab, hdigits a (by simp), hdigits b (by simp)⟩

/-- The pattern behind the second blank, and the last digit it needs. -/
theorem first_lastDigit {run : Text} (hrun : ∀ c ∈ run, c.isDigit) (hne : run ≠ []) {b : Char}
    (hb : b.isDigit) (start : Bool) (caps : List (Nat × Text)) :
    (Regex.outcomes (.seq [.group 2 (.plus digit), .opt (.sym Perl.isSpace),
      .group 3 (.plus digit), atEnd]) ⟨start, run ++ [b], caps⟩).head? =
      some ⟨false, [], (3, [b]) :: (2, run) :: caps⟩ := by
  refine Regex.outcomes_cat_group_plus_append hrun hne [b] 2 start caps ?_
  have hspace := Perl.Decimal.not_isSpace_of_isDigit hb
  simp [Regex.outcomes_plus, Regex.outcomes_star, digit, atEnd, hb, hspace]

/-- The three groups of a date. -/
def dateCaps (x y z : Text) : List (Nat × Text) := [(3, z), (2, y), (1, x)]

theorem readDate_of_first {s x y z : Text}
    (h : Regex.first datePattern true s = some ⟨false, [], dateCaps x y z⟩) :
    readDate s = ⟨Perl.ofDigits x, Perl.ofDigits y, Perl.ofDigits z⟩ := by
  rw [readDate, Regex.search_first h]
  rfl

section Unseparated
variable {x y : Text} (hx : ∀ c ∈ x, c.isDigit) (hxne : x ≠ []) {a b : Char}
include hx hxne

/-- Digits without a blank are all the year's but the last two. -/
theorem first_noBlank (ha : a.isDigit) (hb : b.isDigit) :
    Regex.first datePattern true (x ++ [a, b]) = some ⟨false, [], dateCaps x [a] [b]⟩ := by
  refine Regex.head?_outcomes_cat (d := ⟨true, x ++ [a, b], []⟩) rfl ?_
  refine Regex.outcomes_cat_group_plus_append hx hxne [a, b] 1 true [] ?_
  have hspace := Perl.Decimal.not_isSpace_of_isDigit ha
  have hspace' := Perl.Decimal.not_isSpace_of_isDigit hb
  simp [Regex.outcomes_plus, Regex.outcomes_star, digit, atEnd, dateCaps, ha, hb, hspace, hspace']

/-- Behind a blank all digits but the last are the month's. -/
theorem first_blank (hy : ∀ c ∈ y, c.isDigit) (hyne : y ≠ []) (hb : b.isDigit) :
    Regex.first datePattern true (x ++ ' ' :: (y ++ [b])) =
      some ⟨false, [], dateCaps x y [b]⟩ := by
  have hblank : ∀ c ∈ (' ' :: (y ++ [b])).head?, c.isDigit = false := by
    rintro c ⟨⟩
    rfl
  refine Regex.head?_outcomes_cat (d := ⟨true, x ++ ' ' :: (y ++ [b]), []⟩) rfl ?_
  refine Regex.head?_outcomes_cat (Regex.outcomes_group_plus_sym hx hxne hblank 1 true []) ?_
  exact Regex.head?_outcomes_cat (Regex.outcomes_opt_sym rfl _ _ _) (first_lastDigit hy hyne hb _ _)

end Unseparated

section Separators
variable {d : Date} (h : d.IsCalendar)
include h

theorem Date.IsCalendar.day_lt : d.day < 100 := by
  have hday := h.day.2
  unfold daysIn at hday
  split_ifs at hday <;> omega

theorem Date.IsCalendar.month_lt : d.month < 100 := by
  have hmonth := h.month.2
  omega

/-- Where the first blank is left out, digits of the month count as the year's. -/
theorem year_readDate_noFirstBlank (blank₂ : Bool) :
    (readDate (DateFormat.write d (.yearMonthDay false blank₂))).year = d.year * 100 + d.month := by
  obtain ⟨a, b, hday, ha, hb⟩ := pad_two h.day_lt
  have hlen := Perl.length_pad (w := 2) (by decide) h.month_lt
  have hdigits : ∀ c ∈ pad 4 d.year ++ pad 2 d.month, c.isDigit := fun c hc =>
    (List.mem_append.mp hc).elim (isDigit_pad 4 d.year c) (isDigit_pad 2 d.month c)
  have hne : pad 4 d.year ++ pad 2 d.month ≠ [] :=
    List.append_ne_nil_of_left_ne_nil (Perl.pad_ne_nil 4 d.year) _
  have hvalue : Perl.ofDigits (pad 4 d.year ++ pad 2 d.month) = d.year * 100 + d.month := by
    rw [Perl.ofDigits_append, Perl.ofDigits_pad, Perl.ofDigits_pad, hlen]
    omega
  cases blank₂ with
  | false =>
    have hfirst := first_noBlank hdigits hne ha hb
    rw [List.append_assoc, ← hday] at hfirst
    rw [DateFormat.write, blank, if_neg (by decide), List.nil_append, List.nil_append,
      readDate_of_first hfirst, hvalue]
  | true =>
    have hfirst := first_blank hdigits hne (y := [a]) (by simpa using ha) (List.cons_ne_nil a []) hb
    rw [List.append_assoc, List.singleton_append, ← hday] at hfirst
    rw [DateFormat.write, blank, blank, if_neg (by decide), if_pos rfl, List.nil_append,
      List.singleton_append, readDate_of_first hfirst, hvalue]

example : transdate (readDate "20091231".toList) = "200912-03-01".toList := by decide +kernel

/-- Where only the second one is, the first digit of the day counts as the month's. -/
theorem month_readDate_noSecondBlank :
    d.month * 10 ≤ (readDate (DateFormat.write d (.yearMonthDay true false))).month := by
  obtain ⟨a, b, hday, ha, hb⟩ := pad_two h.day_lt
  have hdigits : ∀ c ∈ pad 2 d.month ++ [a], c.isDigit := fun c hc =>
    (List.mem_append.mp hc).elim (isDigit_pad 2 d.month c) fun hc => List.mem_singleton.mp hc ▸ ha
  have hfirst := first_blank (isDigit_pad 4 d.year) (Perl.pad_ne_nil 4 d.year) hdigits
    (List.append_ne_nil_of_left_ne_nil (Perl.pad_ne_nil 2 d.month) [a]) hb
  rw [List.append_assoc, List.singleton_append, ← hday] at hfirst
  rw [DateFormat.write, blank, blank, if_pos rfl, if_neg (by decide), List.nil_append,
    List.singleton_append, readDate_of_first hfirst]
  change d.month * 10 ≤ Perl.ofDigits (pad 2 d.month ++ [a])
  rw [Perl.ofDigits_append, Perl.ofDigits_pad]
  exact Nat.le_add_right _ _

end Separators

/-! ### A day and the name of a month -/

theorem monthName_spec {month : Nat} (h : 0 < month ∧ month ≤ 12) :
    monthNumber (monthName month) = Nat.toDigits 10 month ∧ monthName month ≠ [] ∧
      (monthName month).all fun c => c.isAlphanum || c = '_' := by
  obtain ⟨hpos, hle⟩ := h
  interval_cases month <;> exact ⟨by decide, by decide, by decide⟩

theorem group_dayMonth {x name : Text} (hx : ∀ c ∈ x, c.isDigit) (hxne : x ≠ [])
    (hname : ∀ c ∈ name, c.isAlphanum || c = '_') (hne : name ≠ []) :
    group dayMonthPattern 1 (x ++ '-' :: name) = x ∧
      group dayMonthPattern 2 (x ++ '-' :: name) = name := by
  have hminus : ∀ c ∈ ('-' :: name).head?, c.isDigit = false := by
    rintro c ⟨⟩
    rfl
  have hend : ∀ c ∈ ([] : Text).head?, (c.isAlphanum || c = '_') = false := by
    rintro c ⟨⟩
  have hword := Regex.outcomes_group_plus_sym hname hne hend 2 false [(1, x)]
  rw [List.append_nil] at hword
  have hfirst : Regex.first dayMonthPattern true (x ++ '-' :: name) =
      some ⟨false, [], [(2, name), (1, x)]⟩ := by
    refine Regex.head?_outcomes_cat (d := ⟨true, x ++ '-' :: name, []⟩) rfl ?_
    refine Regex.head?_outcomes_cat (Regex.outcomes_group_plus_sym hx hxne hminus 1 true []) ?_
    exact Regex.head?_outcomes_cat (d := ⟨false, name, [(1, x)]⟩) rfl
      (Regex.head?_outcomes_cat hword rfl)
  have hstop := Regex.search_first hfirst
  obtain ⟨m, hm, hcursor⟩ := Option.map_eq_some_iff.mp hstop
  rw [group, group, hm, Option.bind_some, Option.bind_some, hcursor]
  exact ⟨rfl, rfl⟩

/-! ### What is posted -/

/-- A row that is to be posted: the program reads it, it is neither the account's nor the end,
has one amount, and is not left out by `-m` or `-C`; and a date in a format that is asked for. -/
structure DatedRow where
  options : CsvOptions
  line : Text
  date : Date
  format : DateFormat
  calendar : date.IsCalendar
  selected : format.Selected options date.year
  written : field (split ':' line) 2 = format.write date
  read : ∃ text rows, (Input.csv2sqlledger options text).rows = .ok rows ∧
    Row.csv2sqlledger options line ∈ rows
  not_account : field (split ':' line) 1 ≠ bankAccount
  not_end : field (split ':' line) 1 ≠ []
  one_amount : ¬ BothDefined (numify (field (split ':' line) 4)) (numify (field (split ':' line) 5))
  month_wanted : ¬ IsTrue options.optM ∨ (numify options.optM).Equal (.num ⟨false, date.month, 0⟩)
  check_wanted : ¬ NoCheck options (field (split ':' line) 0)

namespace DatedRow

/-- The row is posted with its date. -/
def ReadBack (r : DatedRow) : Prop :=
  ∃ b, csvPass r.options r.line = .book b ∧ b.posting.transdate = transdate r.date

variable (r : DatedRow)

theorem readBack_iff_csvDate : r.ReadBack ↔ ∃ mnum,
    csvDate r.options (r.format.write r.date) = some (mnum, transdate r.date) ∧
      ¬ LeavesOut r.options.optM mnum := by
  cases hdate : csvDate r.options (r.format.write r.date) with
  | none =>
    have hpass : csvPass r.options r.line = .die "Died" := by
      simp only [csvPass, if_neg r.not_account, if_neg r.not_end, r.written, hdate]
    constructor
    · rintro ⟨b, hb, -⟩
      rw [hpass] at hb
      cases hb
    · rintro ⟨mnum, hmnum, -⟩
      cases hmnum
  | some parsed =>
    obtain ⟨mnum, date⟩ := parsed
    have hpass : csvPass r.options r.line = if LeavesOut r.options.optM mnum then .next
        else .book ⟨.csv2sqlledger r.options r.line,
          {post (split ':' r.line) with transdate := date}, numify (field (split ':' r.line) 4),
          numify (field (split ':' r.line) 5)⟩ := by
      simp only [csvPass, if_neg r.not_account, if_neg r.not_end, if_neg r.check_wanted,
        if_neg r.one_amount, r.written, hdate]
    rw [ReadBack, hpass]
    constructor
    · rintro ⟨b, hb, htransdate⟩
      split at hb
      · cases hb
      · rename_i hleft
        obtain rfl := Pass.book.inj hb
        exact ⟨mnum, congrArg (fun date => some (mnum, date)) htransdate, hleft⟩
    · rintro ⟨mnum', hmnum, hleft⟩
      obtain ⟨rfl, rfl⟩ := Prod.mk.inj (Option.some.inj hmnum)
      rw [if_neg hleft]
      exact ⟨_, rfl, rfl⟩

/-- `-m` leaves out other months only. -/
theorem not_leavesOut {mnum : Text} (h : numify mnum = .num ⟨false, r.date.month, 0⟩) :
    ¬ LeavesOut r.options.optM mnum := by
  rintro ⟨htrue, hne⟩
  rw [h] at hne
  exact hne (r.month_wanted.resolve_left (not_not.mpr htrue))

end DatedRow

theorem digits_minus_inj {x y s t : Text} (hx : ∀ c ∈ x, c.isDigit) (hy : ∀ c ∈ y, c.isDigit)
    (h : x ++ '-' :: s = y ++ '-' :: t) : x = y ∧ s = t := by
  have hminus (s : Text) : ∀ c ∈ ('-' :: s).head?, c.isDigit = false := by simp
  have hxy := congrArg (List.takeWhile Char.isDigit) h
  rw [Regex.takeWhile_run hx (hminus s), Regex.takeWhile_run hy (hminus t)] at hxy
  subst hxy
  exact ⟨rfl, (List.cons.inj (List.append_cancel_left h)).2⟩

theorem transdate_inj {d e : Date} (h : transdate d = transdate e) : d = e := by
  obtain ⟨hyear, h⟩ := digits_minus_inj (isDigit_pad _ _) (isDigit_pad _ _) h
  obtain ⟨hmonth, hday⟩ := digits_minus_inj (isDigit_pad _ _) (isDigit_pad _ _) h
  have hpad {w m n : Nat} (h : pad w m = pad w n) : m = n := by
    rw [← Perl.ofDigits_pad w m, h, Perl.ofDigits_pad]
  obtain ⟨y, m, dd⟩ := d
  obtain ⟨y', m', dd'⟩ := e
  obtain rfl := hpad hyear
  obtain rfl := hpad hmonth
  obtain rfl := hpad hday
  rfl

theorem printDate_eq {d : Date} (h : d.IsCalendar) {year month day : Text}
    (hyear : numify year = .num ⟨false, d.year, 0⟩) (hmonth : numify month = .num ⟨false, d.month, 0⟩)
    (hday : numify day = .num ⟨false, d.day, 0⟩) : printDate year month day = transdate d := by
  have hsmall {n : Nat} (hn : n < 10000) : n < 2 ^ 63 := hn.trans (by decide)
  rw [printDate, hyear, hmonth, hday, Perl.Number.padInt_whole 4 (hsmall h.year.2),
    Perl.Number.padInt_whole 2 (hsmall (h.month_lt.trans (by decide))),
    Perl.Number.padInt_whole 2 (hsmall (h.day_lt.trans (by decide))), transdate]

namespace DatedRow
variable (r : DatedRow)

theorem readBack_yearMonthDay {blank₁ blank₂ : Bool}
    (hf : r.format = .yearMonthDay blank₁ blank₂) :
    r.ReadBack ↔ blank₁ = true ∧ blank₂ = true := by
  have hselected : ¬ IsTrue r.options.optF := by
    have h := r.selected
    rw [hf] at h
    exact h
  rw [readBack_iff_csvDate, hf, csvDate, if_pos hselected]
  by_cases hblanks : blank₁ = true ∧ blank₂ = true
  · refine iff_of_true ?_ hblanks
    obtain ⟨rfl, rfl⟩ := hblanks
    have hwrite : DateFormat.write r.date (.yearMonthDay true true) =
        Transaction.dateField r.date := rfl
    have hmonth : group datePattern 2 (Transaction.dateField r.date) = pad 2 r.date.month := by
      obtain ⟨m, hm, hcursor⟩ :=
        Option.map_eq_some_iff.mp (Regex.search_first (first_datePattern r.date))
      rw [group, hm, Option.bind_some, hcursor]
      rfl
    rw [hwrite, readDate_dateField, hmonth]
    exact ⟨_, rfl, r.not_leavesOut (Perl.Number.numify_pad 2 r.date.month)⟩
  · refine iff_of_false ?_ hblanks
    rintro ⟨mnum, hdate, -⟩
    have hread := transdate_inj (Prod.mk.inj (Option.some.inj hdate)).2
    have hyear := r.calendar.year.1
    have hmonth := r.calendar.month.1
    cases blank₁ with
    | false =>
      have hwrong := year_readDate_noFirstBlank r.calendar blank₂
      rw [hread] at hwrong
      omega
    | true =>
      obtain rfl : blank₂ = false := by simpa using hblanks
      have hwrong := month_readDate_noSecondBlank r.calendar
      rw [hread] at hwrong
      omega

theorem readBack_dayMonth {width : Nat} (hf : r.format = .dayMonth width) : r.ReadBack := by
  have hselected := r.selected
  rw [hf] at hselected
  obtain ⟨hoptF, hoptY⟩ := hselected
  obtain ⟨hnumber, hne, hname⟩ := monthName_spec r.calendar.month
  obtain ⟨hday, hmonth⟩ := group_dayMonth (isDigit_pad width r.date.day)
    (Perl.pad_ne_nil width r.date.day) (List.all_eq_true.mp hname) hne
  have htrue : ¬ ¬ IsTrue r.options.optF := by
    rw [hoptF]
    decide
  have hone : (numify r.options.optF).Equal (.num ⟨false, 1, 0⟩) := by
    rw [hoptF]
    decide +kernel
  have hmnum : numify (Nat.toDigits 10 r.date.month) = .num ⟨false, r.date.month, 0⟩ := by
    rw [Perl.Number.numify_digits (fun _ => Perl.isDigit_of_mem_toDigits) Nat.toDigits_ne_nil,
      Perl.ofDigits_toDigits]
  have hprint := printDate_eq r.calendar (Perl.Number.numify_pad 4 r.date.year) hmnum
    (Perl.Number.numify_pad width r.date.day)
  rw [readBack_iff_csvDate, hf, csvDate, if_neg htrue, if_pos hone, DateFormat.write]
  simp only [hday, hmonth, hnumber, hoptY, hprint]
  exact ⟨_, rfl, r.not_leavesOut hmnum⟩

theorem two_ne_one : ¬ (numify "2".toList).Equal (.num ⟨false, 1, 0⟩) := by decide +kernel

theorem not_readBack_monthDay {width width' : Nat} (hf : r.format = .monthDay width width') :
    ¬ r.ReadBack := by
  have hselected := r.selected
  rw [hf] at hselected
  have htrue : ¬ ¬ IsTrue r.options.optF := by
    rw [hselected.1]
    decide
  have hone : ¬ (numify r.options.optF).Equal (.num ⟨false, 1, 0⟩) := by
    rw [hselected.1]
    exact two_ne_one
  rw [readBack_iff_csvDate, csvDate, if_neg htrue, if_neg hone]
  rintro ⟨mnum, hnone, -⟩
  cases hnone

/-- **A row is posted with its date** if and only if the date has both its blanks or the
month is a name. -/
theorem readBack_iff : r.ReadBack ↔ r.format.Reads := by
  cases hf : r.format with
  | yearMonthDay blank₁ blank₂ => exact r.readBack_yearMonthDay hf
  | dayMonth width => exact iff_of_true (r.readBack_dayMonth hf) trivial
  | monthDay width width' => exact iff_of_false (r.not_readBack_monthDay hf) id

end DatedRow

/-- Where the usage is not printed any line can be read. -/
theorem read_of_not_usage {o : CsvOptions} {line : Text}
    (husage : ¬ (IsTrue o.optF ∧ (numify o.optY).Below 2009)) (hline : '\n' ∉ line) :
    ∃ text rows, (Input.csv2sqlledger o text).rows = .ok rows ∧
      Row.csv2sqlledger o line ∈ rows := by
  have hlines : Perl.lines (Perl.printLines [line]) = [line] :=
    Perl.lines_printLines (List.forall_mem_singleton.mpr hline)
  refine ⟨Perl.printLines [line], [.csv2sqlledger o line], ?_, List.mem_singleton_self _⟩
  rw [Input.rows, if_neg husage, hlines]
  rfl

/-- With a year from 2009 on the program reads its rows. -/
theorem not_usage_2009 : ¬ (IsTrue "2".toList ∧ (numify "2009".toList).Below 2009) := by
  decide +kernel

theorem not_usage_2013 : ¬ (IsTrue "1".toList ∧ (numify "2013".toList).Below 2009) := by
  decide +kernel

/-- A row with the name of the month, which is read back. -/
def payDay : DatedRow where
  options := ⟨"1".toList, [], "2013".toList, false⟩
  line := ":PAYCHECK:02-Apr:-12.00:12.00::5410".toList
  date := ⟨2013, 4, 2⟩
  format := .dayMonth 2
  calendar := ⟨by decide, by decide, by decide⟩
  selected := ⟨rfl, by decide⟩
  written := by decide
  read := read_of_not_usage not_usage_2013 (by decide)
  not_account := by decide
  not_end := by decide
  one_amount := by decide +kernel
  month_wanted := .inl (by decide)
  check_wanted := by decide

example : payDay.ReadBack := payDay.readBack_dayMonth rfl

/-- The last day of a year, as month and day. -/
def newYearsEve : DatedRow where
  options := ⟨"2".toList, [], "2009".toList, false⟩
  line := ":RENT:12-31:-12.00:12.00::5400".toList
  date := ⟨2009, 12, 31⟩
  format := .monthDay 2 2
  calendar := ⟨by decide, by decide, by decide⟩
  selected := ⟨rfl, by decide⟩
  written := by decide
  read := read_of_not_usage not_usage_2009 (by decide)
  not_account := by decide
  not_end := by decide
  one_amount := by decide +kernel
  month_wanted := .inl (by decide)
  check_wanted := by decide

theorem newYearsEve_dies :
    csvPass newYearsEve.options newYearsEve.line = .die "Died" ∧ ¬ ∀ r : DatedRow, r.ReadBack := by
  refine ⟨?_, fun h => newYearsEve.not_readBack_monthDay rfl (h newYearsEve)⟩
  have hdate (s : Text) : csvDate newYearsEve.options s = .none := by
    rw [csvDate, if_neg (not_not.mpr (by decide)), newYearsEve, if_neg DatedRow.two_ne_one]
  simp only [csvPass, if_neg newYearsEve.not_account, if_neg newYearsEve.not_end, hdate]

end VleoNotebook.Ledger
