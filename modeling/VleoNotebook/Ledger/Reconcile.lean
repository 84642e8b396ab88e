import Mathlib.Tactic.Linarith
import VleoNotebook.Ledger.Moves

/-! The books of `psbOcrToCSV` agree with each other.

Wherever the reader stands, the balance is the one it began with and what has come and
gone since, the totals of the year are the sums of those of the statements, and the
signed amounts printed for the transactions add up to what the balance has changed by
(`reconciled`). Every entry keeps this but the first balance, which is set only where
nothing has been booked yet (`Settled`). -/
namespace VleoNotebook.Ledger.Ocr

open Perl (Text Decimal Number Line IsTrue)
open Perl.Number (numify)

/-! ### What a step enters -/

/-- The entries a step from one point to another makes. -/
inductive Makes (p p' : Point) : List Entry → Prop where
  | nothing (h : p'.atHead → p.atHead) : Makes p p' []
  | turn : Makes p p' [.turn]
  | balanceForward (v : ℚ) (h : p.atHead) (h' : p'.atHead = false) : Makes p p' [.balanceForward v]
  | summary (stmt : Totals) (h : p'.atHead = false) : Makes p p' [.summary stmt]
  | check (t : Transaction) (ht : t.number.isSome) (h : p'.atHead = false) : Makes p p' [.check t]
  | transaction (t : Transaction) (ht : t.number.isSome = false) (h : p'.atHead = false) :
    Makes p p' [.transaction t]

theorem makes_nothing {p p' : Point} (h : p'.atHead = false) : Makes p p' [] := by
  refine .nothing fun hhead => ?_
  rw [h] at hhead
  cases hhead

/-- Where an outcome leads from this point. -/
def Outcome.MakesFrom (p : Point) (o : Outcome) : Prop := ∀ r es, o = .ok (r, es) → Makes p r.point es

/-- The entries every step makes. -/
theorem Reader.makesFrom_step (r : Reader) (next : Option Line) :
    Outcome.MakesFrom r.point (r.step next) := by
  intro r' es h
  cases r.movesFrom_step next r' es h with
  | stays hpoint hyear => exact .nothing (by rw [hpoint]; exact id)
  | leaves hpoint hyear => exact makes_nothing hpoint
  | date hp hpoint hyear => exact .nothing fun _ => by rw [hp]; rfl
  | lastDate hp hpoint hyear => exact .nothing fun _ => by rw [hp]; rfl
  | turn hpoint hyear => exact .turn
  | turnDate hp hpoint hyear => exact .turn
  | balanceForward v hp hpoint hyear =>
    exact .balanceForward v (by rw [hp]; rfl) (by rw [hpoint]; rfl)
  | summary stmt hpoint hyear => exact .summary stmt (by rw [hpoint]; rfl)
  | check t hnumber hdate hpoint hyear => exact .check t hnumber hpoint
  | transaction t hnumber hdate hpoint hyear => exact .transaction t hnumber hpoint

/-! ### What the books say -/

/-- The books, and the totals the transactions of each statement had come to when the
next one began; what was there before the first counts as one. -/
def closeOff (s : Books × List Totals) (e : Entry) : Books × List Totals :=
  (s.1.enter e,
    match e with
    | .summary _ => s.2 ++ [⟨s.1.amountDepositsTrans, s.1.amountWithdrawalsTrans⟩]
    | _ => s.2)

/-- The totals of the transactions of the statements before the current one. -/
def closed (log : List Entry) : List Totals := (log.foldl closeOff (.start, [])).2

/-- The totals of the transactions of each statement, the last of the current one. -/
def perStatement (log : List Entry) : List Totals :=
  closed log ++ [⟨(books log).amountDepositsTrans, (books log).amountWithdrawalsTrans⟩]

/-- The totals each statement gives for itself. -/
def reported (log : List Entry) : List Totals := log.filterMap fun
  | .summary stmt => some stmt
  | _ => none

/-- The signed amount in the row of a transaction, computed and printed exactly. -/
def amountColumn (t : Transaction) : Text := t.signed.print2

/-- The books agree. -/
structure Reconciled (log : List Entry) : Prop where
  balance : (books log).runningBalance = (books log).runningBalanceBeg +
    (books log).totalDepositsTrans - (books log).totalWithdrawalsTrans
  deposits : (books log).totalDepositsTrans = ((perStatement log).map Totals.deposits).sum
  withdrawals : (books log).totalWithdrawalsTrans = ((perStatement log).map Totals.withdrawals).sum
  reportedDeposits : (books log).totalDeposits = ((reported log).map Totals.deposits).sum
  reportedWithdrawals : (books log).totalWithdrawals = ((reported log).map Totals.withdrawals).sum
  column : (∀ t ∈ (books log).accountTransactions, t.amount.AtMostTwo) →
    ((books log).accountTransactions.map fun t => (numify (amountColumn t)).value).sum =
      (books log).runningBalance - (books log).runningBalanceBeg

/-- What stands in the row is printed the same by Perl while the doubles lie close enough. -/
theorem amountColumn_eq {t : Transaction} (h : t.amount.AtMostTwo)
    (hlt : t.amount.digits < 2 ^ 46 * 10 ^ t.amount.places) :
    Perl.field t.row 3 = amountColumn t := by
  have hrow : Perl.field t.row 3 = t.signed.sprintf2 := by
    cases hn : t.number <;> simp [Transaction.row, Transaction.signed, hn, Perl.field]
  rw [hrow, amountColumn]
  unfold Transaction.signed
  split
  · exact Decimal.sprintf2_eq_print2 h.neg hlt
  · exact Decimal.sprintf2_eq_print2 h hlt

/-! ### One more entry -/

theorem books_concat (log : List Entry) (e : Entry) : books (log ++ [e]) = (books log).enter e := by
  simp [books]

theorem reported_concat (log : List Entry) (e : Entry) : reported (log ++ [e]) =
    match e with
    | .summary stmt => reported log ++ [stmt]
    | _ => reported log := by
  rw [reported, List.filterMap_append, ← reported]
  cases e with
  | summary stmt => rfl
  | _ => exact List.append_nil _

theorem foldl_closeOff_fst (log : List Entry) (s : Books × List Totals) :
    (log.foldl closeOff s).1 = log.foldl Books.enter s.1 := by
  induction log generalizing s with
  | nil => rfl
  | cons e log ih => exact ih _

theorem closed_concat (log : List Entry) (e : Entry) :
    closed (log ++ [e]) = (closeOff (books log, closed log) e).2 := by
  have hbooks : (log.foldl closeOff (.start, [])).1 = books log := foldl_closeOff_fst log _
  rw [closed, List.foldl_append, closed, ← hbooks]
  rfl

/-- Nothing has been booked. -/
structure Books.Empty (b : Books) : Prop where
  transactions : b.accountTransactions = []
  deposits : b.totalDepositsTrans = 0
  withdrawals : b.totalWithdrawalsTrans = 0

/-- The books agree, with the amounts as they are before they are printed. -/
structure Agree (log : List Entry) : Prop where
  balance : (books log).runningBalance = (books log).runningBalanceBeg +
    (books log).totalDepositsTrans - (books log).totalWithdrawalsTrans
  deposits : (books log).totalDepositsTrans =
    ((closed log).map Totals.deposits).sum + (books log).amountDepositsTrans
  withdrawals : (books log).totalWithdrawalsTrans =
    ((closed log).map Totals.withdrawals).sum + (books log).amountWithdrawalsTrans
  reportedDeposits : (books log).totalDeposits = ((reported log).map Totals.deposits).sum
  reportedWithdrawals : (books log).totalWithdrawals = ((reported log).map Totals.withdrawals).sum
  amounts : ((books log).accountTransactions.map fun t => t.signed.value).sum =
    (books log).runningBalance - (books log).runningBalanceBeg

theorem agree_nil : Agree [] := by
  constructor <;> simp [books, closed, reported, Books.start]

theorem Agree.turn {log : List Entry} (h : Agree log) : Agree (log ++ [.turn]) := by
  constructor <;>
    simp only [books_concat, closed_concat, reported_concat, closeOff, Books.enter]
  · exact h.balance
  · exact h.deposits
  · exact h.withdrawals
  · exact h.reportedDeposits
  · exact h.reportedWithdrawals
  · exact h.amounts

/-- The first balance is set before anything is booked, and later ones are not looked at. -/
theorem Agree.balanceForward {log : List Entry} (h : Agree log) (v : ℚ)
    (hempty : (books log).i = 1 → (books log).Empty) : Agree (log ++ [.balanceForward v]) := by
  by_cases hi : (books log).i = 1
  · obtain ⟨htransactions, hdeposits, hwithdrawals⟩ := hempty hi
    constructor <;>
      simp only [books_concat, closed_concat, reported_concat, closeOff, Books.enter, if_pos hi]
    · rw [hdeposits, hwithdrawals, add_zero, sub_zero]
    · exact h.deposits
    · exact h.withdrawals
    · exact h.reportedDeposits
    · exact h.reportedWithdrawals
    · rw [htransactions, sub_self]
      rfl
  · constructor <;>
      simp only [books_concat, closed_concat, reported_concat, closeOff, Books.enter, if_neg hi]
    · exact h.balance
    · exact h.deposits
    · exact h.withdrawals
    · exact h.reportedDeposits
    · exact h.reportedWithdrawals
    · exact h.amounts

/-- With a summary the totals of one statement are closed and the next begin at nothing. -/
theorem Agree.summary {log : List Entry} (h : Agree log) (stmt : Totals) :
    Agree (log ++ [.summary stmt]) := by
  constructor <;>
    simp only [books_concat, closed_concat, reported_concat, closeOff, Books.enter, List.map_append,
      List.sum_append]
  · exact h.balance
  · rw [h.deposits]
    simp
  · rw [h.withdrawals]
    simp
  · rw [h.reportedDeposits]
    simp [reported]
  · rw [h.reportedWithdrawals]
    simp [reported]
  · exact h.amounts

theorem Agree.check {log : List Entry} (h : Agree log) {t : Transaction} (ht : t.number.isSome) :
    Agree (log ++ [.check t]) := by
  have hsigned : t.signed.value = -t.amount.value := by
    rw [Transaction.signed, if_pos ht, Decimal.value_neg]
  have hbalance := h.balance
  have hwithdrawals := h.withdrawals
  have hamounts := h.amounts
  constructor <;>
    simp only [books_concat, closed_concat, reported_concat, closeOff, Books.enter, Books.addCheck,
      List.map_append, List.sum_append, List.map_cons, List.map_nil, List.sum_cons, List.sum_nil]
  · linarith
  · exact h.deposits
  · linarith
  · exact h.reportedDeposits
  · exact h.reportedWithdrawals
  · linarith

theorem Agree.transaction {log : List Entry} (h : Agree log) {t : Transaction}
    (ht : t.number.isSome = false) : Agree (log ++ [.transaction t]) := by
  have hsigned : t.signed.value = t.amount.value := by
    rw [Transaction.signed, ht]
    rfl
  have hbalance := h.balance
  have hdeposits := h.deposits
  have hwithdrawals := h.withdrawals
  have hamounts := h.amounts
  by_cases hpos : t.amount.value > 0
  · constructor <;>
      simp only [books_concat, closed_concat, reported_concat, closeOff, Books.enter,
        Books.addTransaction, if_pos hpos, List.map_append, List.sum_append, List.map_cons,
        List.map_nil, List.sum_cons, List.sum_nil]
    · linarith
    · linarith
    · exact hwithdrawals
    · exact h.reportedDeposits
    · exact h.reportedWithdrawals
    · linarith
  · constructor <;>
      simp only [books_concat, closed_concat, reported_concat, closeOff, Books.enter,
        Books.addTransaction, if_neg hpos, List.map_append, List.sum_append, List.map_cons,
        List.map_nil, List.sum_cons, List.sum_nil]
    · linarith
    · exact hdeposits
    · linarith
    · exact h.reportedDeposits
    · exact h.reportedWithdrawals
    · linarith

/-- Printed and read again, the amounts of agreeing books come to the same. -/
theorem Agree.toReconciled {log : List Entry} (h : Agree log) : Reconciled log where
  balance := h.balance
  deposits := by
    rw [h.deposits, perStatement]
    simp
  withdrawals := by
    rw [h.withdrawals, perStatement]
    simp
  reportedDeposits := h.reportedDeposits
  reportedWithdrawals := h.reportedWithdrawals
  column := by
    intro hplaces
    rw [← h.amounts]
    refine congrArg List.sum (List.map_congr_left fun t ht => ?_)
    refine Number.value_numify_decimal ?_
    have htwo := hplaces t ht
    unfold Transaction.signed
    split
    · exact htwo.neg
    · exact htwo

/-! ### Along the input -/

/-- The books agree, and at the head of the first statement they are empty. -/
structure Settled (s : State) : Prop where
  agree : Agree s.2
  turns : 1 ≤ (books s.2).i
  empty : s.1.point.atHead → (books s.2).i = 1 → (books s.2).Empty

theorem settled_start : Settled (.start, []) :=
  ⟨agree_nil, Nat.le_refl 1, fun _ _ => ⟨rfl, rfl, rfl⟩⟩

/-- Turns are only counted up. -/
theorem turns_concat {log : List Entry} (h : 1 ≤ (books log).i) (e : Entry) :
    1 ≤ (books (log ++ [e])).i := by
  rw [books_concat]
  cases e with
  | turn => exact Nat.le_add_left 1 _
  | balanceForward v =>
    rw [Books.enter]
    split <;> exact h
  | summary stmt => exact h
  | check t => exact h
  | transaction t =>
    simp only [Books.enter, Books.addTransaction]
    split <;> exact h

/-- **Every step keeps the books settled.** -/
theorem settled_step (s : State) (next : Option Line) (s' : State) (h : Settled s)
    (hstep : step s next = some s') : Settled s' := by
  obtain ⟨r, log⟩ := s
  obtain ⟨hagree, hturns, hempty⟩ := h
  unfold step at hstep
  cases hr : r.step next with
  | error text => simp [hr] at hstep
  | ok out =>
    obtain ⟨r', es⟩ := out
    simp only [hr, Option.some.injEq] at hstep
    subst hstep
    -- behind the head it does not matter whether anything is booked
    have hlater {p : Point} {P : Prop} (hp : p.atHead = false) : p.atHead = true → P := fun h => by
      rw [hp] at h
      cases h
    cases Reader.makesFrom_step r next r' es hr with
    | nothing hhead =>
      simp only [List.append_nil]
      exact ⟨hagree, hturns, fun h => hempty (hhead h)⟩
    | turn =>
      refine ⟨hagree.turn, turns_concat hturns _, fun _ hone => ?_⟩
      -- the second turn has begun
      have hi : (books (log ++ [.turn])).i = (books log).i + 1 := by
        rw [books_concat]
        rfl
      simp only [hi] at hone hturns
      omega
    | balanceForward v hhead hhead' =>
      exact ⟨hagree.balanceForward v (hempty hhead), turns_concat hturns _, hlater hhead'⟩
    | summary stmt hhead => exact ⟨hagree.summary stmt, turns_concat hturns _, hlater hhead⟩
    | check t ht hhead => exact ⟨hagree.check ht, turns_concat hturns _, hlater hhead⟩
    | transaction t ht hhead =>
      exact ⟨hagree.transaction ht, turns_concat hturns _, hlater hhead⟩

/-- **At every point of every input the books are reconciled**: after each line, whatever
stands in it, until the program ends or dies. -/
theorem reconciled (input : Text) :
    Runs.Always step (fun s => Reconciled s.2) (.start, []) (reads input) :=
  (Runs.always_of_invariant settled_step (reads input) settled_start).mono fun _ h =>
    h.agree.toReconciled

end VleoNotebook.Ledger.Ocr
