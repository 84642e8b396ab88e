import Mathlib.Tactic.Linarith
import VleoNotebook.Lib.Exact
import VleoNotebook.Ledger.Generators

/-! The postings of a file and the totals printed behind it.

What the postings bring to account 1060 is `$depTot - $withdrTot` but for what single rows
are off by (`Row.skew`): amounts below zero, whose sign the postings lose and the totals do
not, and the account posted against itself. So the postings agree with the totals exactly
when these make up for each other (`balanced_iff`). -/
namespace VleoNotebook.Ledger

open Perl (Text Number field split)
open Perl.Number (numify print2)

/-! ### What is asked -/

/-- The amount of a field. -/
def amountOf (s : Text) : ℚ := (numify s).value

/-- What a posting brings to account 1060. -/
def Posting.net (p : Posting) : ℚ :=
  (if p.accno1 = "1060".toList then amountOf p.debit1 else 0) -
    if p.accno2 = "1060".toList then amountOf p.credit2 else 0

def depTot (bs : List Booking) : ℚ := (bs.map (·.dep.value)).sum

def withdrTot (bs : List Booking) : ℚ := (bs.map (·.withdr.value)).sum

/-- The postings agree with the totals, and each in its legs. -/
structure Balanced (bs : List Booking) : Prop where
  totals : (bs.map (·.posting.net)).sum = depTot bs - withdrTot bs
  legs : ∀ b ∈ bs, b.posting.debit1 = b.posting.credit2

/-- What the posting of a row is off by. -/
def Row.skew : Row → ℚ
  | .csv2sqlledger _ line =>
    let withdr := amountOf (field (split ':' line) 4)
    let dep := amountOf (field (split ':' line) 5)
    if field (split ':' line) 6 = "1060".toList then withdr - dep else min withdr 0
  | .psbCsv2sqlledger _ lin => min (amountOf (lin "Debit")) 0 - 2 * min (amountOf (lin "Credit")) 0
  | .psbCsv2sqlledger201302 _ lin =>
    if lin "Credit or Debit" = "Debit".toList then 2 * min (amountOf (lin "Amount")) 0
    else -(2 * min (amountOf (lin "Amount")) 0)

/-! ### The other account -/

/-- No table leads to account 1060. -/
theorem descriptionToAccount_ne (desc : Text) (amount : Number) :
    (descriptionToAccount desc amount).1 ≠ 1060 := by
  have hall : ∀ entry ∈ corrAcctCode amount, entry.1 ≠ 1060 := by
    unfold corrAcctCode
    split <;> decide
  unfold descriptionToAccount
  cases h : (corrAcctCode amount).account desc with
  | none =>
    simp only
    split <;> decide
  | some acct =>
    obtain ⟨entry, hentry, hacct⟩ := List.exists_of_findSome?_eq_some h
    split at hacct
    · obtain rfl := Option.some.inj hacct
      exact hall entry hentry
    · cases hacct

theorem corracct_ne (desc : Text) (amount : Number) :
    Nat.toDigits 10 (descriptionToAccount desc amount).1 ≠ "1060".toList := by
  intro h
  have hnumber := congrArg Perl.ofDigits h
  rw [Perl.ofDigits_toDigits] at hnumber
  exact descriptionToAccount_ne desc amount hnumber

/-! ### One row -/

/-- A booking that is off by what its row says. -/
structure Booking.Skewed (b : Booking) : Prop where
  net : b.posting.net = b.dep.value - b.withdr.value + b.row.skew
  legs : b.posting.debit1 = b.posting.credit2

/-- Below zero the size of a number is off by twice the number. -/
theorem abs_eq_sub_min (x : ℚ) : |x| = x - 2 * min x 0 := by
  rcases le_total 0 x with hx | hx
  · rw [abs_of_nonneg hx, min_eq_right hx]
    ring
  · rw [abs_of_nonpos hx, min_eq_left hx]
    ring

theorem net_psbPosting {x : Number} (h : x.AtMostTwo) (descr memo date : Text) (paid : Bool) :
    (psbPosting print2 descr memo date paid x).net = if paid then -|x.value| else |x.value| := by
  have hprint : amountOf (print2 x.abs) = |x.value| := by
    rw [amountOf, Number.value_numify_print2 h.abs, Number.value_abs]
  have hne := corracct_ne descr x
  cases paid with
  | true =>
    simp only [Posting.net, psbPosting, if_true, if_neg hne, hprint, zero_sub]
  | false =>
    simp only [Posting.net, psbPosting, Bool.false_eq_true, if_false, if_true, if_neg hne, hprint,
      sub_zero]

/-- The account of a line is 1060 where the line says so. -/
theorem corracct_eq_iff {acct n : Text} (h : n ≠ "1060".toList) :
    (if acct = "\"\"".toList then n else acct) = "1060".toList ↔ acct = "1060".toList := by
  split
  · rename_i hquotes
    rw [hquotes]
    exact iff_of_false h (by decide)
  · exact Iff.rfl

/-- A line is off by a withdrawal below zero, or by all of it where it is posted from
account 1060 to itself. -/
theorem skewed_csv2sqlledger {b : Booking} {o : CsvOptions} {line : Text}
    (h : csvPass o line = .book b) (hwithdr : b.withdr.AtMostTwo) (hdep : b.dep.AtMostTwo) :
    b.Skewed := by
  obtain ⟨hboth, date, rfl⟩ := csvPass_book h
  refine ⟨?_, rfl⟩
  simp only at hwithdr hdep
  obtain ⟨lin, hlin⟩ : ∃ lin, lin = split ':' line := ⟨_, rfl⟩
  rw [← hlin] at hwithdr hdep hboth
  simp only [Posting.net, Row.skew, post, ← hlin, amountOf]
  by_cases hpaid : (numify (field lin 4)).IsPos
  · have hpos := hwithdr.isPos_iff.mp hpaid
    have hzero : (numify (field lin 5)).value = 0 := by
      by_contra hne
      exact hboth ⟨Number.isNonzero_of_isPos hpaid, hdep.isNonzero_iff.mpr hne⟩
    simp only [if_pos hpaid, corracct_eq_iff (n := "9999".toList) (by decide), if_true, hzero,
      min_eq_right hpos.le]
    split <;> ring
  · have hneg : (numify (field lin 4)).value ≤ 0 := by
      rw [← not_lt, ← hwithdr.isPos_iff]
      exact hpaid
    simp only [if_neg hpaid, corracct_eq_iff (n := "9998".toList) (by decide), if_true,
      min_eq_left hneg]
    split <;> ring

theorem skewed_psbCsv2sqlledger {b : Booking} {o : Filter} {lin : Hash}
    (h : psbPass print2 o lin = .book b) (hwithdr : b.withdr.AtMostTwo) (hdep : b.dep.AtMostTwo) :
    b.Skewed := by
  obtain ⟨hboth, date, rfl⟩ := psbPass_book h
  refine ⟨?_, rfl⟩
  simp only at hwithdr hdep
  simp only [Row.skew, amountOf]
  by_cases hpaid : (numify (lin "Debit")).IsPos
  · have hpos := hwithdr.isPos_iff.mp hpaid
    have hzero : (numify (lin "Credit")).value = 0 := by
      by_contra hne
      exact hboth ⟨Number.isNonzero_of_isPos hpaid, hdep.isNonzero_iff.mpr hne⟩
    rw [if_pos hpaid, net_psbPosting hwithdr.neg, Number.value_neg, abs_neg, abs_of_pos hpos,
      hzero, min_eq_right hpos.le]
    simp [hpaid]
  · have hneg : (numify (lin "Debit")).value ≤ 0 := by
      rw [← not_lt, ← hwithdr.isPos_iff]
      exact hpaid
    rw [if_neg hpaid, net_psbPosting hdep, min_eq_left hneg]
    simp only [hpaid, decide_false, Bool.false_eq_true, if_false]
    rw [abs_eq_sub_min]
    ring

theorem skewed_psbCsv2sqlledger201302 {b : Booking} {o : Filter} {lin : Hash}
    (h : psb201302Pass print2 o lin = .book b) (hwithdr : b.withdr.AtMostTwo)
    (hdep : b.dep.AtMostTwo) : b.Skewed := by
  obtain ⟨date, hb⟩ := psb201302Pass_book h
  have hnil := Number.value_numify_nil
  split at hb
  · rename_i hdebit
    subst hb
    refine ⟨?_, rfl⟩
    simp only at hwithdr
    simp only [Row.skew, amountOf, if_pos hdebit]
    rw [net_psbPosting hwithdr.neg, Number.value_neg, abs_neg, if_pos rfl, hnil]
    rw [abs_eq_sub_min]
    ring
  · rename_i hdebit
    subst hb
    refine ⟨?_, rfl⟩
    simp only at hdep
    simp only [Row.skew, amountOf, if_neg hdebit]
    rw [net_psbPosting hdep, if_neg Bool.false_ne_true, hnil]
    rw [abs_eq_sub_min]
    ring

/-! ### All rows -/

theorem Row.skewed {r : Row} {b : Booking} (h : r.pass print2 = .book b)
    (hwithdr : b.withdr.AtMostTwo) (hdep : b.dep.AtMostTwo) : b.Skewed := by
  cases r with
  | csv2sqlledger o line => exact skewed_csv2sqlledger h hwithdr hdep
  | psbCsv2sqlledger o lin => exact skewed_psbCsv2sqlledger h hwithdr hdep
  | psbCsv2sqlledger201302 o lin => exact skewed_psbCsv2sqlledger201302 h hwithdr hdep

theorem sum_net {bs : List Booking} (h : ∀ b ∈ bs, b.Skewed) :
    (bs.map (·.posting.net)).sum = depTot bs - withdrTot bs + (bs.map (·.row.skew)).sum := by
  induction bs with
  | nil => simp [depTot, withdrTot]
  | cons b bs ih =>
    have hnet := (h b List.mem_cons_self).net
    have ih := ih fun c hc => h c (List.mem_cons_of_mem b hc)
    simp only [depTot, withdrTot, List.map_cons, List.sum_cons] at ih ⊢
    linarith

theorem Input.skewed {i : Input} {bs : List Booking} (hread : i.run print2 = (bs, none))
    (hplaces : ∀ b ∈ bs, b.withdr.AtMostTwo ∧ b.dep.AtMostTwo) : ∀ b ∈ bs, b.Skewed := by
  intro b hb
  have hmem : b ∈ (i.run print2).1 := by
    rw [hread]
    exact hb
  obtain ⟨r, hpass⟩ := Input.mem_run hmem
  exact r.skewed hpass (hplaces b hb).1 (hplaces b hb).2

/-- **The postings of a file agree with its totals exactly when what its rows are off by
adds up to nothing.** -/
theorem balanced_iff (i : Input) (bs : List Booking) (hread : i.run print2 = (bs, none))
    (hplaces : ∀ b ∈ bs, b.withdr.AtMostTwo ∧ b.dep.AtMostTwo) :
    Balanced bs ↔ (bs.map (·.row.skew)).sum = 0 := by
  have hskewed := i.skewed hread hplaces
  have hsum := sum_net hskewed
  constructor
  · intro h
    rw [h.totals] at hsum
    linarith
  · intro h
    rw [h, add_zero] at hsum
    exact ⟨hsum, fun b hb => (hskewed b hb).legs⟩

namespace Sample

/-- A check and a deposit. -/
def february : Input := .psbCsv2sqlledger201302 ⟨[], []⟩ colNms <| List.map (List.map String.toList)
  [["02/04/2013", "12.00", "Debit", "101", "PAYCHECK"],
    ["02/05/2013", "16.50", "Credit", "", "WIRE"]]

/-- A deposit that is taken back. -/
def reversal : Input := .psbCsv2sqlledger ⟨[], []⟩
  (["Account Number", "Post Date", "Check", "Description", "Debit", "Credit"].map String.toList)
  [["64084", "02/06/2013", "", "DEPOSIT", "", "-5.00"].map String.toList]

end Sample

theorem february_balanced : Balanced (Sample.february.run print2).1 :=
  (balanced_iff Sample.february _ (Input.run_eq print2 (by decide +kernel))
    (by decide +kernel)).mpr (by decide +kernel)

/-- The reversal is posted as a deposit. -/
theorem reversal_not_balanced : ¬ ∀ (i : Input) (bs : List Booking), i.run print2 = (bs, none) →
    (∀ b ∈ bs, b.withdr.AtMostTwo ∧ b.dep.AtMostTwo) → Balanced bs := by
  intro hall
  have hread := Input.run_eq (i := Sample.reversal) print2 (by decide +kernel)
  have hplaces : ∀ b ∈ (Sample.reversal.run print2).1, b.withdr.AtMostTwo ∧ b.dep.AtMostTwo := by
    decide +kernel
  have hskew : ((Sample.reversal.run print2).1.map (·.row.skew)).sum = 10 := by decide +kernel
  have hsum := sum_net (Sample.reversal.skewed hread hplaces)
  rw [(hall Sample.reversal _ hread hplaces).totals, hskew] at hsum
  linarith

end VleoNotebook.Ledger
