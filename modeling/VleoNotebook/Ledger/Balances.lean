import VleoNotebook.Ledger.Pipeline
import VleoNotebook.Ledger.Reconcile
import VleoNotebook.Ledger.Balance

/-! What the ledger says of a statement, end to end.

A text of statements goes through `psbOcrToCSV`, and what it writes goes through
`csv2sqlledger`. Where every transaction is `Clean`, the postings bring to account 1060
and take from it what the books of the first script say has come and gone, so that the
balance the statements begin with and the postings lead to the running balance of the books
(`carried`); the ending balance a statement names is not looked at. The totals of the first
script are read off its runs (`sided_step`), those of the second off its postings
(`net_of_posted`). -/
namespace VleoNotebook.Ledger

open Perl (Text Decimal Number Line)
open Perl.Number (numify)

/-! ### What is asked -/

/-- What the postings bring to account 1060. -/
def received (ps : List Posting) : ℚ :=
  (ps.map fun p => if p.accno1 = "1060".toList then amountOf p.debit1 else 0).sum

/-- What the postings take from account 1060. -/
def paid (ps : List Posting) : ℚ :=
  (ps.map fun p => if p.accno2 = "1060".toList then amountOf p.credit2 else 0).sum

/-- The postings say what the books say. -/
structure Carried (b : Ocr.Books) (ps : List Posting) : Prop where
  deposits : received ps = b.totalDepositsTrans
  withdrawals : paid ps = b.totalWithdrawalsTrans
  balance : b.runningBalanceBeg + (ps.map Posting.net).sum = b.runningBalance
  legs : ∀ p ∈ ps, p.debit1 = p.credit2 ∧ 0 < amountOf p.debit1
  sides : ∀ p ∈ ps, p.accno1 = "1060".toList ↔ p.accno2 ≠ "1060".toList

/-! ### What the books add up -/

/-- What came in with a transaction. -/
def Transaction.cameIn (t : Transaction) : ℚ := max t.signed.value 0

/-- What went out with a transaction. -/
def Transaction.wentOut (t : Transaction) : ℚ := max (-t.signed.value) 0

namespace Ocr

/-- The two totals are those of the transactions, by sign. -/
structure Books.Sides (b : Books) : Prop where
  deposits : b.totalDepositsTrans = (b.accountTransactions.map Transaction.cameIn).sum
  withdrawals : b.totalWithdrawalsTrans = (b.accountTransactions.map Transaction.wentOut).sum

/-- No check is for an amount below zero. -/
def ChecksPaid (ts : List Transaction) : Prop :=
  ∀ t ∈ ts, t.number.isSome → t.amount.negative = false

theorem Books.Sides.addCheck {b : Books} (h : b.Sides) {t : Transaction} (ht : t.number.isSome)
    (hpaid : t.amount.negative = false) : (b.addCheck t).Sides := by
  have hsigned : t.signed.value = -t.amount.value := by
    rw [Transaction.signed, if_pos ht, Decimal.value_neg]
  have hnonneg := Decimal.value_nonneg hpaid
  have hin : t.cameIn = 0 := by
    rw [Transaction.cameIn, hsigned, max_eq_right (neg_nonpos.mpr hnonneg)]
  have hout : t.wentOut = t.amount.value := by
    rw [Transaction.wentOut, hsigned, neg_neg, max_eq_left hnonneg]
  constructor <;>
    simp only [Books.addCheck, List.map_append, List.sum_append, List.map_cons, List.map_nil,
      List.sum_cons, List.sum_nil, add_zero, hin, hout]
  · exact h.deposits
  · rw [h.withdrawals]

theorem Books.Sides.addTransaction {b : Books} (h : b.Sides) {t : Transaction}
    (ht : t.number.isSome = false) : (b.addTransaction t).Sides := by
  have hsigned : t.signed.value = t.amount.value := by
    rw [Transaction.signed, ht]
    rfl
  by_cases hpos : t.amount.value > 0
  · have hin : t.cameIn = t.amount.value := by
      rw [Transaction.cameIn, hsigned, max_eq_left hpos.le]
    have hout : t.wentOut = 0 := by
      rw [Transaction.wentOut, hsigned, max_eq_right (neg_nonpos.mpr hpos.le)]
    constructor <;>
      simp only [Books.addTransaction, if_pos hpos, List.map_append, List.sum_append, List.map_cons,
        List.map_nil, List.sum_cons, List.sum_nil, add_zero, hin, hout]
    · rw [h.deposits]
    · exact h.withdrawals
  · have hle : t.amount.value ≤ 0 := not_lt.mp hpos
    have hin : t.cameIn = 0 := by
      rw [Transaction.cameIn, hsigned, max_eq_right hle]
    have hout : t.wentOut = -t.amount.value := by
      rw [Transaction.wentOut, hsigned, max_eq_left (neg_nonneg.mpr hle)]
    constructor <;>
      simp only [Books.addTransaction, if_neg hpos, List.map_append, List.sum_append, List.map_cons,
        List.map_nil, List.sum_cons, List.sum_nil, add_zero, hin, hout]
    · exact h.deposits
    · rw [h.withdrawals]

/-- While no check is for an amount below zero, the totals are those by sign. -/
def Sided (s : State) : Prop :=
  ChecksPaid (books s.2).accountTransactions → (books s.2).Sides

theorem sided_start : Sided (.start, []) := fun _ => ⟨rfl, rfl⟩

/-- **Every step keeps the totals those of the transactions by sign.** -/
theorem sided_step (s : State) (next : Option Line) (s' : State) (h : Sided s)
    (hstep : step s next = some s') : Sided s' := by
  obtain ⟨r, log⟩ := s
  obtain ⟨r', es, hr, rfl⟩ := step_eq_some hstep
  intro hpaid
  cases Reader.makesFrom_step r next r' es hr with
  | nothing hhead =>
    simp only [List.append_nil] at hpaid ⊢
    exact h hpaid
  | turn =>
    simp only [books_concat, Books.enter] at hpaid ⊢
    exact ⟨(h hpaid).deposits, (h hpaid).withdrawals⟩
  | balanceForward v hhead hhead' =>
    simp only [books_concat] at hpaid ⊢
    by_cases hi : (books log).i = 1
    · simp only [Books.enter, if_pos hi] at hpaid ⊢
      exact ⟨(h hpaid).deposits, (h hpaid).withdrawals⟩
    · simp only [Books.enter, if_neg hi] at hpaid ⊢
      exact h hpaid
  | summary stmt hhead =>
    simp only [books_concat, Books.enter] at hpaid ⊢
    exact ⟨(h hpaid).deposits, (h hpaid).withdrawals⟩
  | check t ht hhead =>
    simp only [books_concat] at hpaid ⊢
    obtain ⟨hbefore, hlast⟩ := List.forall_mem_append.mp hpaid
    exact (h hbefore).addCheck ht (hlast t List.mem_cons_self ht)
  | transaction t ht hhead =>
    simp only [books_concat, Books.enter] at hpaid ⊢
    have hgrown : ((books log).addTransaction t).accountTransactions =
        (books log).accountTransactions ++ [t] := by
      simp only [Books.addTransaction]
      split <;> rfl
    rw [hgrown] at hpaid
    exact (h (List.forall_mem_append.mp hpaid).1).addTransaction ht

/-- **Of every input that does not kill the program, the totals are those of the transactions by
sign**, if no check is for an amount below zero. -/
theorem sided_psbOcrToCSV {input : Text} {s : State} (h : psbOcrToCSV input = some s) : Sided s :=
  Runs.run_invariant sided_step sided_start h

theorem agree_psbOcrToCSV {input : Text} {s : State} (h : psbOcrToCSV input = some s) :
    Agree s.2 :=
  (Runs.run_invariant settled_step settled_start h).agree

end Ocr

/-! ### What a posting brings -/

theorem amountOf_of_denotes {s : Text} {x : Decimal} (h : Denotes s x) : amountOf s = |x.value| := by
  obtain ⟨whole, frac, rfl, hwhole, hfrac, hne, hne', hvalue⟩ := h
  have hread : numify (whole ++ '.' :: frac) =
      .num ⟨false, Perl.ofDigits (whole ++ frac), frac.length⟩ :=
    Number.numify_point false hwhole hfrac hne
  have habs : |x.value| = x.digits / 10 ^ x.places := by
    rw [← Decimal.value_abs, Decimal.value, Decimal.abs]
    simp
  have hcast : (Perl.ofDigits (whole ++ frac) : ℚ) * 10 ^ x.places =
      x.digits * 10 ^ frac.length := by
    exact_mod_cast hvalue
  rw [amountOf, hread, Number.value_num, habs, Decimal.value, if_neg Bool.false_ne_true, one_mul,
    div_eq_div_iff (by positivity) (by positivity), hcast]

/-- The account of a transaction is never the bank's own. -/
theorem Transaction.account_ne (t : Transaction) : t.account ≠ "1060".toList :=
  corracct_ne t.description (.num t.signed)

theorem abs_signed (t : Transaction) : |t.signed.value| = |t.amount.value| := by
  unfold Transaction.signed
  split
  · rw [Decimal.value_neg, abs_neg]
  · rfl

/-- **A posting brings and takes what its transaction does.** -/
theorem net_of_posted {t : Transaction} {p : Posting} (h : Posted t p) (hne : t.amount.digits ≠ 0) :
    (if p.accno1 = "1060".toList then amountOf p.debit1 else 0) = t.cameIn ∧
      (if p.accno2 = "1060".toList then amountOf p.credit2 else 0) = t.wentOut ∧
      (p.accno1 = "1060".toList ↔ p.accno2 ≠ "1060".toList) := by
  have hdebit : amountOf p.debit1 = |t.signed.value| := by
    rw [amountOf_of_denotes h.debit, abs_signed]
  have hdigits : t.signed.digits ≠ 0 := by
    unfold Transaction.signed
    split <;> exact hne
  have haccount := t.account_ne
  rw [h.credit, hdebit]
  cases hsign : t.signed.negative with
  | false =>
    obtain ⟨hone, htwo⟩ := h.received hsign hdigits
    have hnonneg := Decimal.value_nonneg hsign
    rw [if_pos hone, htwo, if_neg haccount, abs_of_nonneg hnonneg]
    exact ⟨(max_eq_left hnonneg).symm, (max_eq_right (neg_nonpos.mpr hnonneg)).symm,
      iff_of_true hone haccount⟩
  | true =>
    obtain ⟨hone, htwo⟩ := h.paid hsign hdigits
    have hnonpos := Decimal.value_nonpos hsign
    rw [if_pos htwo, hone, if_neg haccount, abs_of_nonpos hnonpos]
    exact ⟨(max_eq_right hnonpos).symm, (max_eq_left (neg_nonneg.mpr hnonpos)).symm,
      iff_of_false haccount fun h => h htwo⟩

theorem amountOf_pos {t : Transaction} {p : Posting} (h : Posted t p) (hne : t.amount.digits ≠ 0) :
    0 < amountOf p.debit1 := by
  rw [amountOf_of_denotes h.debit, ← Decimal.value_abs, Decimal.value, Decimal.abs]
  have hdigits : (0 : ℚ) < t.amount.digits := by exact_mod_cast Nat.pos_of_ne_zero hne
  simp only [Bool.false_eq_true, if_false, one_mul]
  positivity

/-! ### All of them -/

/-- Clean transactions are posted, one by one. -/
theorem postings_of_clean {ts : List Transaction} (h : ∀ t ∈ ts, Clean t) : Faithful ts := by
  have hclean (t : Transaction) (ht : t ∈ ts) := (clean_iff t).mp (h t ht)
  have hprinted : ts.flatMap (fun t => t.corrAcct.2) = [] :=
    List.flatMap_eq_nil_iff.mpr fun t ht => (hclean t ht).2.1
  rw [Faithful, csv2sqlledger_output hprinted, rows_iff fun t ht => (hclean t ht).1]
  exact fun t ht => (hclean t ht).2.2

theorem sums_of_posted {ts : List Transaction} {ps : List Posting} (h : List.Forall₂ Posted ts ps)
    (hne : ∀ t ∈ ts, t.amount.digits ≠ 0) :
    received ps = (ts.map Transaction.cameIn).sum ∧ paid ps = (ts.map Transaction.wentOut).sum := by
  induction h with
  | nil => exact ⟨rfl, rfl⟩
  | cons hposted hrest ih =>
    obtain ⟨hfirst, hne⟩ := List.forall_mem_cons.mp hne
    obtain ⟨hin, hout, -⟩ := net_of_posted hposted hfirst
    obtain ⟨hreceived, hpaid⟩ := ih hne
    simp only [received, paid, List.map_cons, List.sum_cons] at hreceived hpaid ⊢
    exact ⟨by rw [hin, hreceived], by rw [hout, hpaid]⟩

theorem sum_net_eq (ps : List Posting) : (ps.map Posting.net).sum = received ps - paid ps := by
  induction ps with
  | nil => simp [received, paid]
  | cons p ps ih =>
    simp only [received, paid, List.map_cons, List.sum_cons, Posting.net] at ih ⊢
    linarith

/-- What holds of every posting of a transaction holds of every posting. -/
theorem forall_of_posted {P : Posting → Prop} {ts : List Transaction} {ps : List Posting}
    (h : List.Forall₂ Posted ts ps) (hall : ∀ t ∈ ts, ∀ p, Posted t p → P p) : ∀ p ∈ ps, P p := by
  induction h with
  | nil => nofun
  | cons hposted hrest ih =>
    obtain ⟨hfirst, hall⟩ := List.forall_mem_cons.mp hall
    exact List.forall_mem_cons.mpr ⟨hfirst _ hposted, ih hall⟩

/-- **The ledger carries the statements' books.** Of every text the first script gets through,
with all its transactions clean, the second posts the whole output, and what the postings
bring to account 1060 and take from it are the totals of the books: from the balance the
statements begin with they lead to `$runningBalance`. -/
theorem carried {input : Text} {s : Ocr.State} (h : Ocr.psbOcrToCSV input = some s)
    (hclean : ∀ t ∈ (Ocr.books s.2).accountTransactions, Clean t) :
    ∃ ps, csv2sqlledger (output (Ocr.books s.2).accountTransactions) = (ps, none) ∧
      Carried (Ocr.books s.2) ps := by
  obtain ⟨ps, hread, hposted⟩ := postings_of_clean hclean
  have hne (t : Transaction) (ht : t ∈ (Ocr.books s.2).accountTransactions) :=
    (hclean t ht).amount.nonzero
  obtain ⟨hdeposits, hwithdrawals⟩ := Ocr.sided_psbOcrToCSV h fun t ht => (hclean t ht).amount.check
  obtain ⟨hreceived, hpaid⟩ := sums_of_posted hposted hne
  have hbalance := (Ocr.agree_psbOcrToCSV h).balance
  rw [← hdeposits] at hreceived
  rw [← hwithdrawals] at hpaid
  refine ⟨ps, hread, hreceived, hpaid, ?_, ?_, ?_⟩
  · rw [sum_net_eq, hreceived, hpaid, hbalance]
    ring
  · exact forall_of_posted hposted fun t ht p hp => ⟨hp.credit.symm, amountOf_pos hp (hne t ht)⟩
  · exact forall_of_posted hposted fun t ht p hp => (net_of_posted hp (hne t ht)).2.2

/-! ### A statement -/

/-- A salary is paid by check, and a wire comes in. -/
def Sample.payday : Text := Perl.printLines <| List.map String.toList
  ["Statement Date,04-30-13", "Date Last Statement,03-31-13", "783,Balance Forward,\"1,000.00\"",
    "1,Deposits,16.00", "1,Withdrawals,12.00", ",Ending Balance,\"1,004.00\"", "CHECKS",
    "Number,,Date,Amount", "101,PAYCHECK,04-02,12.00", "",
    "\"\",Other Account Transactions,Date,Amount", ",WIRE,04-03,16.00", ""]

/-- Of a transaction only this decides whether it is clean. -/
def Transaction.shape (t : Transaction) : Option Text × Text × Decimal :=
  (t.number, t.description, t.amount)

theorem Clean.of_shape {t u : Transaction} (h : t.shape = u.shape) (hu : Clean u) : Clean t := by
  obtain ⟨number, description, date, amount, hnumber, hdescription⟩ := t
  obtain ⟨hn, hd, ha⟩ : number = u.number ∧ description = u.description ∧ amount = u.amount := by
    simpa [Transaction.shape] using h
  subst hn hd ha
  exact ⟨hu.classified, hu.description, hu.number, ⟨hu.amount.nonzero, hu.amount.exact,
    hu.amount.check⟩⟩

namespace Sample

def paydayCheck : Transaction :=
  ⟨some "101".toList, "PAYCHECK".toList, ⟨2013, 4, 2⟩, ⟨false, 1200, 2⟩, by decide, by decide⟩

theorem paydayWire_number (n : Text) (h : n ∈ (none : Option Text)) : '\n' ∉ n := by
  cases h

theorem paydayWire_description : '\n' ∉ "WIRE".toList := by decide

def paydayWire : Transaction :=
  ⟨none, "WIRE".toList, ⟨2013, 4, 3⟩, ⟨false, 1600, 2⟩, paydayWire_number, paydayWire_description⟩

theorem plain_cons {c : Char} {s : Text} (hblank : Perl.isSpace c = false) (hquote : c ≠ '"')
    (hlast : (c :: s).getLast? ≠ some '"') (hcolon : ':' ∉ c :: s) : Plain (c :: s) := by
  refine ⟨⟨fun d hd => ?_, fun h => hquote (Option.some.inj h), hlast⟩, hcolon⟩
  obtain rfl : c = d := Option.some.inj hd
  rw [hblank]
  exact Bool.false_ne_true

theorem paydayCheck_clean : Clean paydayCheck where
  classified := (classified_iff _ _).mpr (by decide +kernel)
  description := ⟨by decide, plain_cons (by decide) (by decide) (by decide) (by decide)⟩
  number := by
    intro n hn
    obtain rfl : "101".toList = n := Option.some.inj hn
    exact ⟨plain_cons (by decide) (by decide) (by decide) (by decide), by decide⟩
  amount := payable_of_cents rfl (by decide) (by decide) (by decide)

theorem paydayWire_clean : Clean paydayWire where
  classified := (classified_iff _ _).mpr (by decide +kernel)
  description := ⟨by decide, plain_cons (by decide) (by decide) (by decide) (by decide)⟩
  number := nofun
  amount := payable_of_cents rfl (by decide) (by decide) (by decide)

end Sample

theorem payday_carried : ∃ s ps, Ocr.psbOcrToCSV Sample.payday = some s ∧
    (Ocr.books s.2).accountTransactions.length = 2 ∧
      csv2sqlledger (output (Ocr.books s.2).accountTransactions) = (ps, none) ∧
        Carried (Ocr.books s.2) ps := by
  have hrun : (Ocr.psbOcrToCSV Sample.payday).map
      (fun s => (Ocr.books s.2).accountTransactions.map Transaction.shape) =
        some [Sample.paydayCheck.shape, Sample.paydayWire.shape] := by
    decide +kernel
  obtain ⟨s, hs, hshapes⟩ := Option.map_eq_some_iff.mp hrun
  have hclean : ∀ t ∈ (Ocr.books s.2).accountTransactions, Clean t := by
    intro t ht
    have hmem := List.mem_map_of_mem (f := Transaction.shape) ht
    rw [hshapes] at hmem
    rcases List.mem_cons.mp hmem with h | h
    · exact .of_shape h Sample.paydayCheck_clean
    · exact .of_shape (List.mem_singleton.mp h) Sample.paydayWire_clean
  obtain ⟨ps, hread, hcarried⟩ := carried hs hclean
  exact ⟨s, ps, hs, by rw [← List.length_map, hshapes]; rfl, hread, hcarried⟩

end VleoNotebook.Ledger
