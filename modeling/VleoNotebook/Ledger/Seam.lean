import VleoNotebook.Ledger.Ocr

/-! Statements read one text after the other.

Behind a statement the program may still wait for a second block of transactions, or be in
one that the end of the text cut off. The lines at the front of the next text, which it
would have passed over at the head of a statement, are then looked at otherwise. Where
these still lead to the date of the statement (`Leads`), the two are read as if each stood
alone; and if the first text does not end its last line, this and the first line of the
next are one, which then has to do what one of them does (`Glues`). That much is enough
(`psbOcrToCSV_append`). A page that is taken for the head of the second block ends the
program (`psbOcrToCSV_append_eq_none`). -/
namespace VleoNotebook.Ledger.Ocr

open Perl (Text Decimal Line IsTrue Contains unQuote unQuoteStar)

/-! ### Running on -/

/-- What stands in the log does not matter to the program. -/
theorem run_log (r : Reader) (log : List Entry) (lines : List (Option Line)) :
    Runs.run step (r, log) lines =
      (Runs.run step (r, []) lines).map fun s => (s.1, log ++ s.2) := by
  induction lines generalizing r log with
  | nil => simp [Runs.run]
  | cons l lines ih =>
    simp only [Runs.run, step]
    cases r.step l with
    | error text => rfl
    | ok out =>
      simp only [Option.bind_some, List.nil_append]
      rw [ih out.1 (log ++ out.2), ih out.1 out.2, Option.map_map]
      refine congrArg (Option.map · _) (funext fun s => ?_)
      simp [Function.comp_apply, List.append_assoc]

theorem run_cons_of_ok {r r' : Reader} {log es : List Entry} {l : Option Line}
    (h : r.step l = .ok (r', es)) (lines : List (Option Line)) :
    Runs.run step (r, log) (l :: lines) = Runs.run step (r', log ++ es) lines := by
  rw [Runs.run, step_of_ok h, Option.bind_some]

theorem run_cons_of_error {r : Reader} {log : List Entry} {l : Option Line} {text : String}
    (h : r.step l = .error text) (lines : List (Option Line)) :
    Runs.run step (r, log) (l :: lines) = none := by
  simp only [Runs.run, step, h, Option.bind_none]

/-- From here the program reads these lines and makes these entries, but for turns it may
count in front of them. -/
def Yields (r : Reader) (lines : List (Option Line)) (es : List Entry) : Prop :=
  ∀ log, ∃ k r', Runs.run step (r, log) lines = some (r', log ++ List.replicate k .turn ++ es)

theorem Yields.of_step {r r' : Reader} {l : Option Line} {lines : List (Option Line)}
    {es : List Entry} (j : Nat) (h : Yields r' lines es)
    (hstep : r.step l = .ok (r', List.replicate j .turn)) : Yields r (l :: lines) es := by
  intro log
  obtain ⟨k, r'', hrun⟩ := h (log ++ List.replicate j .turn)
  refine ⟨j + k, r'', ?_⟩
  rw [run_cons_of_ok hstep, hrun, List.replicate_add, List.append_assoc log]

theorem yields_of_run {r : Reader} {lines : List (Option Line)} {s : State}
    (h : Runs.run step (r, []) lines = some s) : Yields r lines s.2 := fun log =>
  ⟨0, s.1, by simp [run_log r log, h]⟩

/-! ### The end of a text -/

/-- The end of the input, found by `n` loops. -/
def eof (n : Nat) : List (Option Line) := List.replicate n none

theorem run_done {r : Reader} (h : r.point = .done) (n : Nat) :
    Runs.run step (r, []) (eof n) = some (r, []) := by
  induction n with
  | zero => rfl
  | succ n ih =>
    have hstep : r.step none = .ok (r, []) := by simp [Reader.step, h]
    rw [eof, List.replicate_succ, run_cons_of_ok hstep]
    exact ih

theorem run_statementDate {r : Reader} (h : r.point = .statementDate) (n : Nat) :
    Runs.run step (r, []) (eof (n + 1)) = some ({r.read none with point := .done}, []) := by
  have hread : (r.read none).readStatementDate = .ok {r.read none with point := .done} :=
    Reader.readStatementDate_of_line_nil rfl
  have hstep : r.step none = .ok ({r.read none with point := .done}, []) := by
    simp only [Reader.step, h, hread]
    rfl
  rw [eof, List.replicate_succ, run_cons_of_ok hstep]
  exact run_done rfl n

theorem yields_trans_second {r : Reader} {reshuffle : Bool}
    (h : r.point = .trans .second reshuffle) (n : Nat) : Yields r (eof (n + 2)) [] := by
  have hstep : r.step none = .ok ({r.read none with point := .statementDate}, [.turn]) := by
    simp only [Reader.step, h]
    rfl
  exact (yields_of_run (run_statementDate rfl n)).of_step 1 hstep

/-- The search for a second block finds the end of the input. The line before it may be
the head line of the first. -/
theorem yields_transHead_second {r : Reader} (h : r.point = .transHead .second) (n : Nat) :
    Yields r (eof (n + 3)) [] := by
  have hstep : r.step none = (r.read none).readTransHead .second := by
    simp only [Reader.step, h]
    rfl
  by_cases hhead : ((r.read none).lin.map unQuoteStar).IsHead
  · rw [Reader.readTransHead_head .second hhead] at hstep
    exact (yields_trans_second rfl n).of_step 0 hstep
  · by_cases hshuffled : ((r.read none).lin.map unQuoteStar).IsShuffledHead
    · rw [Reader.readTransHead_shuffledHead .second hhead hshuffled] at hstep
      exact (yields_trans_second rfl n).of_step 0 hstep
    · have hdone := Reader.readStatementDate_of_line_nil
        (r := {r.read none with lin := (r.read none).lin.map unQuoteStar}) rfl
      rw [Reader.readTransHead_second hhead hshuffled, hdone] at hstep
      exact (yields_of_run (run_done rfl (n + 2))).of_step 1 hstep

theorem yields_trans_first {r : Reader} {reshuffle : Bool} (h : r.point = .trans .first reshuffle)
    (n : Nat) : Yields r (eof (n + 4)) [] := by
  have hstep : r.step none = .ok ({r.read none with point := .transHead .second}, []) := by
    simp only [Reader.step, h]
    rfl
  exact (yields_transHead_second rfl n).of_step 0 hstep

theorem yields_trans {b : Block} {r : Reader} {reshuffle : Bool}
    (h : r.point = .trans b reshuffle) : Yields r (eof 16) [] := by
  cases b with
  | first => exact yields_trans_first h 12
  | second => exact yields_trans_second h 14

/-! ### The front of a text -/

/-- The point behind a block of transactions. -/
def Block.after : Block → Point
  | .first => .transHead .second
  | .second => .statementDate

/-- Cleaned as a head line would be, the date of a statement is still of the same year. -/
def SameYear (date : Text) : Prop :=
  (DateText.ofCell (unQuote (unQuoteStar date))).fullYear =
    (DateText.ofCell (unQuote date)).fullYear

/-- From this point the lines that are passed over at the head of a statement, those
without a first cell, lead to its date, and nothing is entered on the way. Between the
blocks they may have no second cell, but for a head line; a block they have to end. -/
def Leads : List Line → Point → Prop
  | _, .statementDate => True
  | [], .transHead .second => True
  | [], .trans _ _ => True
  | l :: ls, .transHead .second =>
    let lin := Cells.split l.text
    if IsTrue lin.cell0 then IsTrue lin.cell1 ∧ SameYear lin.cell1
    else if IsTrue lin.cell1 then (lin.map unQuoteStar).IsHead ∧ Leads ls (.trans .second false)
    else Leads ls (.transHead .second)
  | l :: ls, .trans b reshuffle =>
    ¬ IsTrue (Cells.split l.text).cell0 ∧
      if (Reader.transCells l).IsBlank then Leads ls b.after
      else (Reader.transCells l).IsPassed reshuffle ∧ Leads ls (.trans b reshuffle)
  | _, _ => False

namespace Reader

/-- The date of a statement where it is found. -/
theorem readStatementDate_of_line {r : Reader} (h : r.line ≠ []) :
    r.readStatementDate = if Contains r.lin.cell0 "Statement Date" then
      .ok ⟨.lastStatementDate, r.line, {r.lin with cell1 := unQuote r.lin.cell1},
        (DateText.ofCell (unQuote r.lin.cell1)).fullYear⟩
    else .error ("readDate can't match dateName=Statement Date in " ++ String.ofList r.line) := by
  rw [readStatementDate, readDate, if_neg h]
  by_cases hname : Contains r.lin.cell0 "Statement Date"
  · simp only [hname, not_true_eq_false, if_true, if_false]
  · simp only [hname, not_false_eq_true, if_true, if_false]
    rfl

/-- A line with a first cell is the date of the statement, or the program dies. -/
theorem step_statementDate {r : Reader} (h : r.point = .statementDate) {l : Line}
    (hcell : IsTrue (Cells.split l.text).cell0) :
    r.step (some l) = if Contains (Cells.split l.text).cell0 "Statement Date" then
      .ok (⟨.lastStatementDate, l.text,
        {Cells.split l.text with cell1 := unQuote (Cells.split l.text).cell1},
        (DateText.ofCell (unQuote (Cells.split l.text).cell1)).fullYear⟩, [])
    else .error ("readDate can't match dateName=Statement Date in " ++ String.ofList l.text) := by
  have hline : l.text ≠ [] := fun hnil => by
    rw [hnil] at hcell
    exact hcell.1 rfl
  have hread := readStatementDate_of_line (r := r.read (some l)) hline
  have hskip : ¬ ((some l).isSome = true ∧ ¬ IsTrue (r.read (some l)).lin.cell0) := fun hskip =>
    hskip.2 hcell
  simp only [step, h, if_neg hskip]
  by_cases hname : Contains (Cells.split l.text).cell0 "Statement Date"
  · have hread' := hread.trans (if_pos hname)
    rw [hread', if_pos hname]
    rfl
  · have hread' := hread.trans (if_neg hname)
    rw [hread', if_neg hname]
    rfl

theorem step_statementDate_skip {r : Reader} (h : r.point = .statementDate) {l : Line}
    (hcell : ¬ IsTrue (Cells.split l.text).cell0) :
    r.step (some l) = .ok (r.read (some l), []) := by
  have hskip : (some l).isSome = true ∧ ¬ IsTrue (r.read (some l)).lin.cell0 := ⟨rfl, hcell⟩
  simp only [step, h, if_pos hskip]

theorem step_transHead_skip {b : Block} {r : Reader} (h : r.point = .transHead b) {l : Line}
    (hcell : ¬ IsTrue (Cells.split l.text).cell1) :
    r.step (some l) = .ok (r.read (some l), []) := by
  have hskip : (some l).isSome = true ∧ ¬ IsTrue (r.read (some l)).lin.cell1 := ⟨rfl, hcell⟩
  simp only [step, h, if_pos hskip]

theorem step_transHead {b : Block} {r : Reader} (h : r.point = .transHead b) {l : Line}
    (hcell : IsTrue (Cells.split l.text).cell1) :
    r.step (some l) = (r.read (some l)).readTransHead b := by
  have hskip : ¬ ((some l).isSome = true ∧ ¬ IsTrue (r.read (some l)).lin.cell1) := fun hskip =>
    hskip.2 hcell
  simp only [step, h, if_neg hskip]

/-- The line with the date of a statement is no head line. -/
theorem not_head_of_statementDate {lin : Cells} (h : Contains lin.cell0 "Statement Date") :
    ¬ lin.IsHead ∧ ¬ lin.IsShuffledHead := by
  constructor
  · intro hhead
    rw [hhead.1] at h
    exact absurd h (by decide)
  · intro hhead
    rw [hhead.2.2.1] at h
    exact absurd h (by decide)

/-- Looked for a second block, the date of the statement is found as well. -/
theorem step_transHead_statementDate {r : Reader} (h : r.point = .transHead .second) {l : Line}
    (hname : Contains (Cells.split l.text).cell0 "Statement Date")
    (hcell : IsTrue (Cells.split l.text).cell1) :
    ∃ lin, r.step (some l) = .ok (⟨.lastStatementDate, l.text, lin,
      (DateText.ofCell (unQuote (unQuoteStar (Cells.split l.text).cell1))).fullYear⟩,
        [.turn]) := by
  obtain ⟨t, ht⟩ : ∃ t : Reader,
      t = {r.read (some l) with lin := (r.read (some l)).lin.map unQuoteStar} := ⟨_, rfl⟩
  have hclean : Contains t.lin.cell0 "Statement Date" := by
    rw [ht]
    refine Perl.contains_unQuoteStar hname ?_ ?_ (by decide) (by decide)
    · rintro c ⟨⟩
      decide
    · rintro c ⟨⟩
      decide
  have hline : t.line ≠ [] := by
    rw [ht]
    intro hnil
    rw [show l.text = [] from hnil] at hcell
    exact hcell.1 rfl
  have hyear : (DateText.ofCell (unQuote t.lin.cell1)).fullYear =
      (DateText.ofCell (unQuote (unQuoteStar (Cells.split l.text).cell1))).fullYear := by
    rw [ht]
    rfl
  have htext : t.line = l.text := by rw [ht]; rfl
  obtain ⟨hhead, hshuffled⟩ := not_head_of_statementDate hclean
  have hlin : t.lin = (r.read (some l)).lin.map unQuoteStar := by rw [ht]
  rw [hlin] at hhead hshuffled
  have hread := readStatementDate_of_line hline
  rw [if_pos hclean, hyear, htext] at hread
  refine ⟨{t.lin with cell1 := unQuote t.lin.cell1}, ?_⟩
  rw [step_transHead h hcell, readTransHead_second hhead hshuffled, ← ht, hread]
  rfl

theorem step_trans_blank {b : Block} {reshuffle : Bool} {r : Reader}
    (h : r.point = .trans b reshuffle) {l : Line} (hblank : (transCells l).IsBlank) :
    ∃ r' k, r.step (some l) = .ok (r', List.replicate k .turn) ∧ r'.point = b.after := by
  have hstep : r.step (some l) =
      .ok (endTrans b {r.read (some l) with line := Perl.chomp l.text, lin := transCells l}) := by
    simp only [step, h, readTransLine, if_pos hblank]
  rw [hstep]
  cases b with
  | first => exact ⟨_, 0, rfl, rfl⟩
  | second => exact ⟨_, 1, rfl, rfl⟩

theorem step_trans_passed {b : Block} {reshuffle : Bool} {r : Reader}
    (h : r.point = .trans b reshuffle) {l : Line} (hblank : ¬ (transCells l).IsBlank)
    (hpassed : (transCells l).IsPassed reshuffle) :
    ∃ r', r.step (some l) = .ok (r', []) ∧ r'.point = .trans b reshuffle := by
  refine ⟨{r.read (some l) with line := Perl.chomp l.text, lin := transCells l}, ?_, ?_⟩
  · simp only [step, h, readTransLine, if_neg hblank, if_pos hpassed]
  · exact (read_point r (some l)).trans h

end Reader

/-- A text that ends behind the date of its statement is not accepted. -/
theorem run_lastStatementDate_eof {r : Reader} (h : r.point = .lastStatementDate) (n : Nat) :
    Runs.run step (r, []) (eof (n + 2)) = none := by
  have hread : (r.read none).readLastStatementDate =
      .ok {r.read none with point := .balanceForward} :=
    Reader.readLastStatementDate_of_line_nil rfl
  have hstep : r.step none = .ok ({r.read none with point := .balanceForward}, []) := by
    simp only [Reader.step, h, hread]
    rfl
  -- the number of the balance is undefined
  have hnot (n : Nat) (hn : n ≠ 0) : ¬ Reader.Equals [] n := by
    rw [Reader.Equals, Perl.Number.numify_nil, Perl.Number.equal_num]
    rintro ⟨hsize, -⟩
    rw [Perl.Decimal.double_zero rfl] at hsize
    refine Perl.Decimal.double_ne_zero (x := ⟨false, n, 0⟩) ?_ hsize.symm
    exact Nat.mul_pos (Nat.pos_of_ne_zero hn) Perl.Decimal.one_pos
  have hundefined :
      ¬ (Reader.Equals Reader.undefined.1 783 ∨ Reader.Equals Reader.undefined.1 84) :=
    fun heq => heq.elim (hnot 783 (by decide)) (hnot 84 (by decide))
  have hdies : ∃ text, Reader.step {r.read none with point := .balanceForward} none =
      .error text := by
    simp only [Reader.step, Reader.summary, Reader.haveBalanceForward, if_pos hundefined]
    exact ⟨_, rfl⟩
  obtain ⟨text, hdies⟩ := hdies
  rw [eof, List.replicate_succ, run_cons_of_ok hstep, List.replicate_succ,
    run_cons_of_error hdies]

/-- The line with the date is not looked at again. -/
theorem run_lastStatementDate (line line' : Text) (lin lin' : Cells) (year : Nat)
    (ls : List Line) (n : Nat) :
    Runs.run step (⟨.lastStatementDate, line, lin, year⟩, []) (ls.map some ++ eof (n + 2)) =
      Runs.run step (⟨.lastStatementDate, line', lin', year⟩, [])
        (ls.map some ++ eof (n + 2)) := by
  cases ls with
  | nil =>
    have hleft := run_lastStatementDate_eof (r := ⟨.lastStatementDate, line, lin, year⟩) rfl n
    have hright := run_lastStatementDate_eof (r := ⟨.lastStatementDate, line', lin', year⟩) rfl n
    exact hleft.trans hright.symm
  | cons l ls => rfl

/-- Where a statement is waited for, an accepted line with a first cell is its date. -/
theorem run_date {r : Reader} (h : r.point = .statementDate) {l : Line}
    (hcell : IsTrue (Cells.split l.text).cell0) {rest : List (Option Line)} {s : State}
    (hrun : Runs.run step (r, []) (some l :: rest) = some s) :
    Contains (Cells.split l.text).cell0 "Statement Date" ∧ ∃ lin,
      Runs.run step (⟨.lastStatementDate, l.text, lin,
        (DateText.ofCell (unQuote (Cells.split l.text).cell1)).fullYear⟩, []) rest = some s := by
  have hdate := Reader.step_statementDate h hcell
  by_cases hname : Contains (Cells.split l.text).cell0 "Statement Date"
  · rw [if_pos hname] at hdate
    rw [run_cons_of_ok hdate] at hrun
    exact ⟨hname, _, hrun⟩
  · rw [if_neg hname] at hdate
    rw [run_cons_of_error hdate] at hrun
    cases hrun

theorem leads_statementDate (ls : List Line) : Leads ls .statementDate := by
  cases ls <;> trivial

/-- What leads on can also be the end. -/
theorem Leads.nil {ls : List Line} {p : Point} (h : Leads ls p) : Leads [] p := by
  cases ls with
  | nil => exact h
  | cons l ls =>
    cases p with
    | statementDate => trivial
    | transHead b =>
      cases b with
      | first => exact h.elim
      | second => trivial
    | trans b reshuffle => trivial
    | _ => exact h.elim

theorem yields_eof {r : Reader} (h : Leads [] r.point) : Yields r (eof 16) [] := by
  cases hp : r.point with
  | statementDate =>
    have hend := yields_of_run (run_statementDate hp 15)
    exact hend
  | transHead b =>
    rw [hp] at h
    cases b with
    | first => exact h.elim
    | second => exact yields_transHead_second hp 13
  | trans b reshuffle => exact yields_trans hp
  | _ =>
    rw [hp] at h
    exact h.elim

/-- A line at the front is passed over, or ends a block. -/
theorem Leads.step {l : Line} {ls : List Line} {r : Reader} (h : Leads (l :: ls) r.point)
    (hfront : ¬ IsTrue (Cells.split l.text).cell0) :
    ∃ r' k, r.step (some l) = .ok (r', List.replicate k .turn) ∧ Leads ls r'.point := by
  cases hp : r.point with
  | statementDate =>
    refine ⟨_, 0, Reader.step_statementDate_skip hp hfront, ?_⟩
    rw [r.read_point, hp]
    exact leads_statementDate ls
  | transHead b =>
    rw [hp] at h
    cases b with
    | first => exact h.elim
    | second =>
      simp only [Leads, if_neg hfront] at h
      by_cases hcell : IsTrue (Cells.split l.text).cell1
      · rw [if_pos hcell] at h
        have hhead := (Reader.step_transHead hp hcell).trans (Reader.readTransHead_head .second h.1)
        exact ⟨_, 0, hhead, h.2⟩
      · rw [if_neg hcell] at h
        refine ⟨_, 0, Reader.step_transHead_skip hp hcell, ?_⟩
        rw [r.read_point, hp]
        exact h
  | trans b reshuffle =>
    rw [hp] at h
    obtain ⟨-, h⟩ := h
    by_cases hblank : (Reader.transCells l).IsBlank
    · rw [if_pos hblank] at h
      obtain ⟨r', k, hstep, hpoint⟩ := Reader.step_trans_blank hp hblank
      exact ⟨r', k, hstep, hpoint ▸ h⟩
    · rw [if_neg hblank] at h
      obtain ⟨r', hstep, hpoint⟩ := Reader.step_trans_passed hp hblank h.1
      exact ⟨r', 0, hstep, hpoint ▸ h.2⟩
  | _ =>
    rw [hp] at h
    exact h.elim

/-- The line with the date is read as such. -/
theorem Leads.step_date {l : Line} {ls : List Line} {r : Reader} (h : Leads (l :: ls) r.point)
    (hfront : IsTrue (Cells.split l.text).cell0)
    (hname : Contains (Cells.split l.text).cell0 "Statement Date") :
    ∃ lin k, r.step (some l) = .ok (⟨.lastStatementDate, l.text, lin,
      (DateText.ofCell (unQuote (Cells.split l.text).cell1)).fullYear⟩,
        List.replicate k .turn) := by
  cases hp : r.point with
  | statementDate =>
    have hdate := Reader.step_statementDate hp hfront
    rw [if_pos hname] at hdate
    exact ⟨_, 0, hdate⟩
  | transHead b =>
    rw [hp] at h
    cases b with
    | first => exact h.elim
    | second =>
      simp only [Leads, if_pos hfront] at h
      obtain ⟨lin, hdate⟩ := Reader.step_transHead_statementDate hp hname h.1
      rw [show _ = _ from h.2] at hdate
      exact ⟨lin, 1, hdate⟩
  | trans b reshuffle =>
    rw [hp] at h
    exact absurd hfront h.1
  | _ =>
    rw [hp] at h
    exact h.elim

/-- **Where its front leads to its date, a text is read from there as if it stood alone.** -/
theorem yields_of_leads {ls : List Line} {r t : Reader} (h : Leads ls r.point)
    (ht : t.point = .statementDate) {s : State}
    (hrun : Runs.run step (t, []) (ls.map some ++ eof 16) = some s) :
    Yields r (ls.map some ++ eof 16) s.2 := by
  induction ls generalizing r t with
  | nil =>
    have hs := (run_statementDate ht 15).symm.trans hrun
    obtain rfl := Option.some.inj hs
    exact yields_eof h
  | cons l ls ih =>
    rw [List.map_cons, List.cons_append] at hrun ⊢
    by_cases hfront : IsTrue (Cells.split l.text).cell0
    · obtain ⟨hname, lin, hrest⟩ := run_date ht hfront hrun
      obtain ⟨lin', k, hstep⟩ := h.step_date hfront hname
      have hsame := (run_lastStatementDate l.text _ lin' lin _ ls 14).trans hrest
      exact (yields_of_run hsame).of_step k hstep
    · rw [run_cons_of_ok (Reader.step_statementDate_skip ht hfront)] at hrun
      obtain ⟨r', k, hstep, hlead⟩ := h.step hfront
      exact (ih hlead ((t.read_point _).trans ht) hrun).of_step k hstep

/-! ### The books of both -/

/-- The one books hold what the two others do. -/
structure Joined (b b₁ b₂ : Books) : Prop where
  transactions : b.accountTransactions = b₁.accountTransactions ++ b₂.accountTransactions
  totalDeposits : b.totalDeposits = b₁.totalDeposits + b₂.totalDeposits
  totalWithdrawals : b.totalWithdrawals = b₁.totalWithdrawals + b₂.totalWithdrawals
  totalDepositsTrans : b.totalDepositsTrans = b₁.totalDepositsTrans + b₂.totalDepositsTrans
  totalWithdrawalsTrans :
    b.totalWithdrawalsTrans = b₁.totalWithdrawalsTrans + b₂.totalWithdrawalsTrans

theorem Joined.enter {b b₁ b₂ : Books} (h : Joined b b₁ b₂) (e : Entry) :
    Joined (b.enter e) b₁ (b₂.enter e) := by
  obtain ⟨htransactions, h1, h2, h3, h4⟩ := h
  cases e with
  | turn => exact ⟨htransactions, h1, h2, h3, h4⟩
  | balanceForward v =>
    simp only [Books.enter]
    split <;> split <;> exact ⟨htransactions, h1, h2, h3, h4⟩
  | summary stmt =>
    exact ⟨htransactions, by simp [Books.enter, h1, add_assoc],
      by simp [Books.enter, h2, add_assoc], h3, h4⟩
  | check t =>
    exact ⟨by simp [Books.enter, Books.addCheck, htransactions], h1, h2, h3,
      by simp [Books.enter, Books.addCheck, h4, add_assoc]⟩
  | transaction t =>
    by_cases hpos : t.amount.value > 0
    · simp only [Books.enter, Books.addTransaction, if_pos hpos]
      exact ⟨by simp [htransactions], h1, h2, by simp [h3, add_assoc], h4⟩
    · simp only [Books.enter, Books.addTransaction, if_neg hpos]
      exact ⟨by simp [htransactions], h1, h2, h3, by simp [h4, add_assoc]⟩

theorem Joined.foldl {b b₁ b₂ : Books} (h : Joined b b₁ b₂) (es : List Entry) :
    Joined (es.foldl Books.enter b) b₁ (es.foldl Books.enter b₂) := by
  induction es generalizing b b₂ with
  | nil => exact h
  | cons e es ih => exact ih (h.enter e)

theorem books_turns (log : List Entry) (k : Nat) :
    books (log ++ List.replicate k .turn) = {books log with i := (books log).i + k} := by
  induction k with
  | zero => simp
  | succ k ih =>
    rw [List.replicate_succ', ← List.append_assoc, books, List.foldl_append, ← books, ih]
    rfl

/-- Turns are counted apart. -/
theorem joined_append (log : List Entry) (k k₁ : Nat) (es : List Entry) :
    Joined (books (log ++ List.replicate k .turn ++ es)) (books (log ++ List.replicate k₁ .turn))
      (books es) := by
  have hstart : Joined (books (log ++ List.replicate k .turn))
      (books (log ++ List.replicate k₁ .turn)) .start := by
    rw [books_turns, books_turns]
    constructor <;> simp [Books.start]
  rw [books, List.foldl_append]
  exact hstart.foldl es

theorem joined_nil_left (es : List Entry) : Joined (books es) (books []) (books es) := by
  constructor <;> simp [books, Books.start]

theorem joined_nil_right (es : List Entry) : Joined (books es) (books es) (books []) := by
  constructor <;> simp [books, Books.start]

/-! ### A line that runs on -/

/-- The line is the head line of a block, in either layout, and the others lead on. -/
def Opens (b : Block) (l : Line) (ls : List Line) : Prop :=
  ((Cells.split l.text).map unQuoteStar).IsHead ∧ Leads ls (.trans b false) ∨
    ((Cells.split l.text).map unQuoteStar).IsShuffledHead ∧ Leads ls (.trans b true)

/-- Where a second block of checks may begin, the line ends the search for it. -/
def IsTitle (l : Line) : Prop :=
  IsTrue (Cells.split l.text).cell0 ∧
    (Contains (Cells.split l.text).cell1 "Other Account Transactions" ∨
      Contains (Cells.split l.text).cell1 "Amount")

/-- A line of a block that is no transaction. -/
def IsIdle (reshuffle : Bool) (l : Line) : Prop :=
  (Reader.transCells l).IsBlank ∨ (Reader.transCells l).IsPassed reshuffle

/-- The description, the month and day, and the amount of a transaction. -/
def transactionIn (reshuffle : Bool) (l : Line) : Option (Text × (Nat × Nat) × Decimal) :=
  let lin := Reader.orderedCells reshuffle l
  match Reader.transDay lin, readAmount (Perl.chomp l.text) lin.cell3 with
  | some md, .ok amount => some (lin.cell1, md, amount)
  | _, _ => none

/-- At this point the line `g` can be read for the last line `u` of one text and the first
line `v` of another, of which `ls` is left: it does what `u` does, and `v` is a line that
is passed over at the head of a statement; or it is the date as `v` is, and `u` enters
nothing. -/
def Glues (u v g : Line) (ls : List Line) : Point → Prop
  | .statementDate =>
    if IsTrue (Cells.split v.text).cell0 then
      Contains (Cells.split g.text).cell0 "Statement Date" ∧
        (DateText.ofCell (unQuote (Cells.split g.text).cell1)).fullYear =
          (DateText.ofCell (unQuote (Cells.split v.text).cell1)).fullYear
    else ¬ IsTrue (Cells.split g.text).cell0
  | .transHead .second =>
    if IsTrue (Cells.split v.text).cell0 then
      Contains (Cells.split g.text).cell0 "Statement Date" ∧ IsTrue (Cells.split g.text).cell1 ∧
        (DateText.ofCell (unQuote (unQuoteStar (Cells.split g.text).cell1))).fullYear =
          (DateText.ofCell (unQuote (Cells.split v.text).cell1)).fullYear
    else Opens .second g ls ∨
      ¬ IsTrue (Cells.split g.text).cell1 ∧ Leads ls (.transHead .second)
  | .transHead .first =>
    ¬ IsTrue (Cells.split v.text).cell0 ∧ Opens .first u [] ∧ Opens .first g ls
  | .checksTitle .second =>
    ¬ IsTrue (Cells.split v.text).cell0 ∧ IsTitle u ∧ Opens .first u [] ∧
      IsTitle g ∧ Opens .first g ls
  | .trans b reshuffle =>
    ¬ IsTrue (Cells.split v.text).cell0 ∧
      if (Reader.transCells g).IsBlank then IsIdle reshuffle u ∧ Leads ls b.after
      else if (Reader.transCells g).IsPassed reshuffle then
        IsIdle reshuffle u ∧ Leads ls (.trans b reshuffle)
      else ¬ IsIdle reshuffle u ∧ transactionIn reshuffle g = transactionIn reshuffle u ∧
        Leads ls (.trans b reshuffle)
  | _ => False

/-! #### What the two lines do -/

theorem isTrue_of_contains {s : Text} (h : Contains s "Statement Date") : IsTrue s := by
  constructor
  · intro hnil
    rw [hnil] at h
    exact absurd h (by decide)
  · intro hzero
    rw [hzero] at h
    exact absurd h (by decide)

/-- Cleaning makes nothing true of what is not. -/
theorem isTrue_of_unQuoteStar {s : Text} (h : IsTrue (unQuoteStar s)) : IsTrue s := by
  constructor
  · intro hnil
    rw [hnil] at h
    exact absurd h (by decide)
  · intro hzero
    rw [hzero] at h
    exact absurd h (by decide)

theorem Opens.isTrue {b : Block} {l : Line} {ls : List Line} (h : Opens b l ls) :
    IsTrue (Cells.split l.text).cell1 := by
  refine isTrue_of_unQuoteStar ?_
  rcases h with ⟨h, -⟩ | ⟨h, -⟩
  · have hcell : unQuoteStar (Cells.split l.text).cell1 = _ := h.2.1
    rw [hcell]
    decide
  · have hcell : unQuoteStar (Cells.split l.text).cell1 = _ := h.2.2.2
    rw [hcell]
    decide

/-- A head line is no title of checks. -/
theorem Opens.not_contains_checks {b : Block} {l : Line} {ls : List Line} (h : Opens b l ls) :
    ¬ Contains (Cells.split l.text).cell0 "CHECKS" := by
  intro hname
  have hclean : Contains (unQuoteStar (Cells.split l.text).cell0) "CHECKS" := by
    refine Perl.contains_unQuoteStar hname ?_ ?_ (by decide) (by decide)
    · rintro c ⟨⟩
      decide
    · rintro c ⟨⟩
      decide
  rcases h with ⟨h, -⟩ | ⟨h, -⟩
  · have hcell : unQuoteStar (Cells.split l.text).cell0 = _ := h.1
    rw [hcell] at hclean
    exact absurd hclean (by decide)
  · have hcell : unQuoteStar (Cells.split l.text).cell0 = _ := h.2.2.1
    rw [hcell] at hclean
    exact absurd hclean (by decide)

namespace Reader

/-- The head line of a block is found. -/
theorem readTransHead_opens {b : Block} {r : Reader} {l : Line} {ls : List Line}
    (hlin : r.lin = Cells.split l.text) (h : Opens b l ls) :
    ∃ r', r.readTransHead b = .ok (r', []) ∧ Leads ls r'.point := by
  rw [Opens, ← hlin] at h
  rcases h with ⟨hhead, hlead⟩ | ⟨hshuffled, hlead⟩
  · exact ⟨_, readTransHead_head b hhead, hlead⟩
  · have hhead : ¬ (r.lin.map unQuoteStar).IsHead := fun hhead => by
      have hdate := hshuffled.2.2.1
      rw [hhead.1] at hdate
      exact absurd hdate (by decide)
    exact ⟨_, readTransHead_shuffledHead b hhead hshuffled, hlead⟩

theorem step_transHead_opens {b : Block} {r : Reader} (h : r.point = .transHead b) {l : Line}
    {ls : List Line} (hopens : Opens b l ls) :
    ∃ r', r.step (some l) = .ok (r', []) ∧ Leads ls r'.point := by
  rw [step_transHead h hopens.isTrue]
  exact readTransHead_opens rfl hopens

/-- Where a second block of checks may begin, the head line of the transactions is found as
well. -/
theorem step_checksTitle_opens {r : Reader} (h : r.point = .checksTitle .second) {l : Line}
    {ls : List Line} (htitle : IsTitle l) (hopens : Opens .first l ls) :
    ∃ r', r.step (some l) = .ok (r', []) ∧ Leads ls r'.point := by
  have hskip : ¬ ((some l).isSome = true ∧ ¬ IsTrue (r.read (some l)).lin.cell0) := fun hskip =>
    hskip.2 htitle.1
  have hchecks : ¬ Contains (r.read (some l)).lin.cell0 "CHECKS" := hopens.not_contains_checks
  have hstep : r.step (some l) = (r.read (some l)).readTransHead .first := by
    simp only [step, h, if_neg hskip, readChecksTitle, if_neg hchecks]
    exact if_neg (not_not.mpr htitle.2)
  rw [hstep]
  exact readTransHead_opens rfl hopens

/-- A line of a block that is a transaction, or that the program dies of. -/
theorem step_trans_transaction {b : Block} {reshuffle : Bool} {r : Reader}
    (h : r.point = .trans b reshuffle) {l : Line} (hidle : ¬ IsIdle reshuffle l) :
    match transactionIn reshuffle l with
    | none => ∃ text, r.step (some l) = .error text
    | some (description, md, amount) => ∃ r' t, r.step (some l) = .ok (r', [.transaction t]) ∧
        r'.point = .trans b reshuffle ∧ t.number = none ∧ t.description = description ∧
        t.date = ⟨r.year, md.1, md.2⟩ ∧ t.amount = amount := by
  obtain ⟨hblank, hpassed⟩ := not_or.mp hidle
  simp only [step, h, readTransLine, if_neg hblank, if_neg hpassed, transactionIn]
  cases hday : transDay (orderedCells reshuffle l) with
  | none => exact ⟨_, rfl⟩
  | some md =>
    cases hamount : readAmount (Perl.chomp l.text) (orderedCells reshuffle l).cell3 with
    | error text => exact ⟨text, rfl⟩
    | ok amount => exact ⟨_, _, rfl, (r.read_point _).trans h, rfl, rfl, rfl, rfl⟩

end Reader

/-- The program reads a line and makes these entries, but for turns it may count behind
them. -/
def Reader.Takes (r : Reader) (l : Line) (es : List Entry) (r' : Reader) : Prop :=
  ∃ k, r.step (some l) = .ok (r', es ++ List.replicate k .turn)

/-- From here the program reads `g` for `u` and `v`. -/
inductive Serves (r : Reader) (u v g : Line) (ls : List Line) : Prop
  | last (r₁ r₂ : Reader) (es : List Entry) (hu : r.Takes u es r₁) (hend : Leads [] r₁.point)
      (hg : r.Takes g es r₂) (hv : ¬ IsTrue (Cells.split v.text).cell0)
      (hlead : Leads ls r₂.point)
  | first (r₁ r₂ : Reader) (hu : r.Takes u [] r₁) (hend : Leads [] r₁.point)
      (hg : r.Takes g [] r₂) (hv : IsTrue (Cells.split v.text).cell0)
      (hdate : r₂.point = .lastStatementDate)
      (hyear : r₂.year = (DateText.ofCell (unQuote (Cells.split v.text).cell1)).fullYear)

theorem Reader.takes_nil {r r' : Reader} {l : Line} {k : Nat}
    (h : r.step (some l) = .ok (r', List.replicate k .turn)) : r.Takes l [] r' := ⟨k, h⟩

/-- At the head of a statement the last line of a text is passed over. -/
theorem takes_statementDate {r : Reader} (h : r.point = .statementDate) {u : Line}
    (haccepted : (Runs.run step (r, []) (some u :: eof 16)).isSome) :
    ∃ r₁, r.Takes u [] r₁ ∧ Leads [] r₁.point := by
  by_cases hcell : IsTrue (Cells.split u.text).cell0
  · obtain ⟨s, hrun⟩ := Option.isSome_iff_exists.mp haccepted
    obtain ⟨-, lin, hrest⟩ := run_date h hcell hrun
    rw [run_lastStatementDate_eof rfl 14] at hrest
    cases hrest
  · refine ⟨_, Reader.takes_nil (k := 0) (Reader.step_statementDate_skip h hcell), ?_⟩
    rw [r.read_point, h]
    trivial

/-- Behind the first block it is passed over, or the head line of a second. -/
theorem takes_transHead {r : Reader} (h : r.point = .transHead .second) {u : Line}
    (haccepted : (Runs.run step (r, []) (some u :: eof 16)).isSome) :
    ∃ r₁, r.Takes u [] r₁ ∧ Leads [] r₁.point := by
  by_cases hcell : IsTrue (Cells.split u.text).cell1
  · by_cases hopens : Opens .second u []
    · obtain ⟨r₁, hstep, hlead⟩ := Reader.step_transHead_opens h hopens
      exact ⟨r₁, Reader.takes_nil (k := 0) hstep, hlead⟩
    · -- what is no head line is taken for the date of a statement
      obtain ⟨hhead, hshuffled⟩ := not_or.mp hopens
      have hline : (r.read (some u)).line ≠ [] := fun hnil => by
        rw [show u.text = [] from hnil] at hcell
        exact hcell.1 rfl
      have hread := Reader.readStatementDate_of_line
        (r := {r.read (some u) with lin := (r.read (some u)).lin.map unQuoteStar}) hline
      have hstep := (Reader.step_transHead h hcell).trans
        (Reader.readTransHead_second (fun hhead' => hhead ⟨hhead', trivial⟩)
          fun hshuffled' => hshuffled ⟨hshuffled', trivial⟩)
      rw [hread] at hstep
      split_ifs at hstep
      · rw [run_cons_of_ok hstep, run_log, run_lastStatementDate_eof rfl 14] at haccepted
        cases haccepted
      · rw [run_cons_of_error hstep] at haccepted
        cases haccepted
  · refine ⟨_, Reader.takes_nil (k := 0) (Reader.step_transHead_skip h hcell), ?_⟩
    rw [r.read_point, h]
    trivial

/-- A line of a block that is no transaction leaves it open or ends it. -/
theorem takes_idle {b : Block} {reshuffle : Bool} {r : Reader} (h : r.point = .trans b reshuffle)
    {l : Line} (hidle : IsIdle reshuffle l) : ∃ r', r.Takes l [] r' ∧
      r'.point = if (Reader.transCells l).IsBlank then b.after else .trans b reshuffle := by
  by_cases hblank : (Reader.transCells l).IsBlank
  · obtain ⟨r', k, hstep, hpoint⟩ := Reader.step_trans_blank h hblank
    exact ⟨r', Reader.takes_nil hstep, hpoint.trans (if_pos hblank).symm⟩
  · obtain ⟨r', hstep, hpoint⟩ :=
      Reader.step_trans_passed h hblank (hidle.resolve_left hblank)
    exact ⟨r', Reader.takes_nil (k := 0) hstep, hpoint.trans (if_neg hblank).symm⟩

theorem leads_nil_after (b : Block) : Leads [] b.after := by
  cases b <;> trivial

/-- The line that two lines make of a block serves for both. -/
theorem serves_trans {b : Block} {reshuffle : Bool} {r : Reader} (h : r.point = .trans b reshuffle)
    {u v g : Line} {ls : List Line} (haccepted : (Runs.run step (r, []) (some u :: eof 16)).isSome)
    (hglues : Glues u v g ls (.trans b reshuffle)) : Serves r u v g ls := by
  obtain ⟨hv, hglues⟩ := hglues
  have hidle (hu : IsIdle reshuffle u) (hg : IsIdle reshuffle g)
      (hlead : Leads ls (if (Reader.transCells g).IsBlank then b.after else .trans b reshuffle)) :
      Serves r u v g ls := by
    obtain ⟨r₁, htakes₁, hpoint₁⟩ := takes_idle h hu
    obtain ⟨r₂, htakes₂, hpoint₂⟩ := takes_idle h hg
    refine .last r₁ r₂ [] htakes₁ ?_ htakes₂ hv (hpoint₂ ▸ hlead)
    rw [hpoint₁]
    split
    · exact leads_nil_after b
    · trivial
  by_cases hblank : (Reader.transCells g).IsBlank
  · rw [if_pos hblank] at hglues
    exact hidle hglues.1 (.inl hblank) (by rw [if_pos hblank]; exact hglues.2)
  rw [if_neg hblank] at hglues
  by_cases hpassed : (Reader.transCells g).IsPassed reshuffle
  · rw [if_pos hpassed] at hglues
    exact hidle hglues.1 (.inr hpassed) (by rw [if_neg hblank]; exact hglues.2)
  · rw [if_neg hpassed] at hglues
    obtain ⟨hu, hsame, hlead⟩ := hglues
    have hstep₁ := Reader.step_trans_transaction h hu
    have hstep₂ := Reader.step_trans_transaction h (not_or.mpr ⟨hblank, hpassed⟩)
    rw [hsame] at hstep₂
    cases hin : transactionIn reshuffle u with
    | none =>
      rw [hin] at hstep₁
      obtain ⟨text, hstep₁⟩ := hstep₁
      rw [run_cons_of_error hstep₁] at haccepted
      cases haccepted
    | some found =>
      rw [hin] at hstep₁ hstep₂
      obtain ⟨r₁, t₁, hstep₁, hpoint₁, hnumber₁, hdescription₁, hdate₁, hamount₁⟩ := hstep₁
      obtain ⟨r₂, t₂, hstep₂, hpoint₂, hnumber₂, hdescription₂, hdate₂, hamount₂⟩ := hstep₂
      have ht : t₂ = t₁ := by
        cases t₁
        cases t₂
        simp_all
      rw [ht] at hstep₂
      refine .last r₁ r₂ [.transaction t₁] ⟨0, hstep₁⟩ ?_ ⟨0, hstep₂⟩ hv (hpoint₂ ▸ hlead)
      rw [hpoint₁]
      trivial

/-- **A line that can be read for two is.** -/
theorem Glues.serves {u v g : Line} {ls : List Line} {r : Reader} (h : Glues u v g ls r.point)
    (haccepted : (Runs.run step (r, []) (some u :: eof 16)).isSome) : Serves r u v g ls := by
  cases hp : r.point with
  | statementDate =>
    rw [hp] at h
    obtain ⟨r₁, hu, hend⟩ := takes_statementDate hp haccepted
    by_cases hv : IsTrue (Cells.split v.text).cell0
    · rw [Glues, if_pos hv] at h
      have hg := Reader.step_statementDate hp (isTrue_of_contains h.1)
      rw [if_pos h.1] at hg
      exact .first r₁ _ hu hend (Reader.takes_nil (k := 0) hg) hv rfl h.2
    · rw [Glues, if_neg hv] at h
      have hg := Reader.step_statementDate_skip hp h
      refine .last r₁ _ [] hu hend (Reader.takes_nil (k := 0) hg) hv ?_
      rw [r.read_point, hp]
      exact leads_statementDate ls
  | transHead b =>
    rw [hp] at h
    cases b with
    | first =>
      obtain ⟨hv, hu, hg⟩ := h
      obtain ⟨r₁, hstep₁, hend⟩ := Reader.step_transHead_opens hp hu
      obtain ⟨r₂, hstep₂, hlead⟩ := Reader.step_transHead_opens hp hg
      exact .last r₁ r₂ [] ⟨0, hstep₁⟩ hend ⟨0, hstep₂⟩ hv hlead
    | second =>
      obtain ⟨r₁, hu, hend⟩ := takes_transHead hp haccepted
      by_cases hv : IsTrue (Cells.split v.text).cell0
      · rw [Glues, if_pos hv] at h
        obtain ⟨lin, hg⟩ := Reader.step_transHead_statementDate hp h.1 h.2.1
        exact .first r₁ _ hu hend (Reader.takes_nil (k := 1) hg) hv rfl h.2.2
      · rw [Glues, if_neg hv] at h
        rcases h with hopens | ⟨hcell, hlead⟩
        · obtain ⟨r₂, hg, hlead⟩ := Reader.step_transHead_opens hp hopens
          exact .last r₁ r₂ [] hu hend ⟨0, hg⟩ hv hlead
        · have hg := Reader.step_transHead_skip hp hcell
          refine .last r₁ _ [] hu hend (Reader.takes_nil (k := 0) hg) hv ?_
          rw [r.read_point, hp]
          exact hlead
  | checksTitle b =>
    rw [hp] at h
    cases b with
    | first => exact h.elim
    | second =>
      obtain ⟨hv, htitle₁, hu, htitle₂, hg⟩ := h
      obtain ⟨r₁, hstep₁, hend⟩ := Reader.step_checksTitle_opens hp htitle₁ hu
      obtain ⟨r₂, hstep₂, hlead⟩ := Reader.step_checksTitle_opens hp htitle₂ hg
      exact .last r₁ r₂ [] ⟨0, hstep₁⟩ hend ⟨0, hstep₂⟩ hv hlead
  | trans b reshuffle =>
    rw [hp] at h
    exact serves_trans hp haccepted h
  | _ =>
    rw [hp] at h
    exact h.elim

/-- What the program makes of the last line of a text, and what of the line it has become. -/
theorem Serves.run {r : Reader} {u v g : Line} {ls : List Line} (h : Serves r u v g ls) {s : State}
    (hrun : Runs.run step (.start, []) (some v :: (ls.map some ++ eof 16)) = some s)
    (log : List Entry) :
    ∃ es k₁ k r₁ r₂,
      Runs.run step (r, log) (some u :: eof 16) = some (r₁, log ++ es ++ List.replicate k₁ .turn) ∧
      Runs.run step (r, log) (some g :: (ls.map some ++ eof 16)) =
        some (r₂, log ++ es ++ List.replicate k .turn ++ s.2) := by
  cases h with
  | last r₁ r₂ es hu hend hg hv hlead =>
    obtain ⟨j₁, hu⟩ := hu
    obtain ⟨j, hg⟩ := hg
    rw [run_cons_of_ok (Reader.step_statementDate_skip rfl hv)] at hrun
    obtain ⟨k₁, r₁', hfirst⟩ := yields_eof hend (log ++ (es ++ List.replicate j₁ .turn))
    obtain ⟨k, r₂', hboth⟩ := yields_of_leads hlead (t := Reader.start.read (some v)) rfl hrun
      (log ++ (es ++ List.replicate j .turn))
    refine ⟨es, j₁ + k₁, j + k, r₁', r₂', ?_, ?_⟩
    · rw [run_cons_of_ok hu, hfirst]
      simp only [List.replicate_add, List.append_assoc, List.append_nil]
    · rw [run_cons_of_ok hg, hboth]
      simp only [List.replicate_add, List.append_assoc]
  | first r₁ r₂ hu hend hg hv hdate hyear =>
    obtain ⟨j₁, hu⟩ := hu
    obtain ⟨j, hg⟩ := hg
    obtain ⟨-, lin, hrest⟩ := run_date rfl hv hrun
    rw [← hyear] at hrest
    obtain ⟨point, line, lin', year⟩ := r₂
    obtain rfl : point = .lastStatementDate := hdate
    obtain ⟨k₁, r₁', hfirst⟩ := yields_eof hend (log ++ List.replicate j₁ .turn)
    obtain ⟨k, r₂', hboth⟩ := yields_of_run
      ((run_lastStatementDate line _ lin' lin year ls 14).trans hrest)
      (log ++ List.replicate j .turn)
    refine ⟨[], j₁ + k₁, j + k, r₁', r₂', ?_, ?_⟩
    · rw [run_cons_of_ok hu, List.nil_append, hfirst]
      simp only [List.replicate_add, List.append_assoc, List.append_nil]
    · rw [run_cons_of_ok hg, List.nil_append, hboth]
      simp only [List.replicate_add, List.append_assoc, List.append_nil]

/-! ### Two texts -/

/-- The lines of the second text go on behind those of the first: where the program stands
then, the front of the second leads to its date. -/
def Continues (s₁ s₂ : Text) : Prop :=
  s₁.getLast? = some '\n' ∧ ∃ s, Runs.run step (.start, []) (lines s₁) = some s ∧
    Leads (Perl.readLines s₂) s.1.point

/-- The last line of the first text has no newline, and where the program stands in front
of it the line that it and the first line of the second make can be read for both. -/
def RunsOn (s₁ s₂ : Text) : Prop :=
  ∃ front u v g ls, Perl.readLines s₁ = front ++ [u] ∧ '\n' ∉ u.text ∧
    Perl.readLines s₂ = v :: ls ∧ g.text = u.text ++ v.text ∧
    ∃ s, Runs.run step (.start, []) (front.map some) = some s ∧ Glues u v g ls s.1.point

/-- The texts can be read one after the other. -/
def Joins (s₁ s₂ : Text) : Prop :=
  s₁ = [] ∨ s₂ = [] ∨ Continues s₁ s₂ ∨ RunsOn s₁ s₂

theorem psbOcrToCSV_nil {s : State} (h : psbOcrToCSV [] = some s) : s.2 = [] := by
  have hrun := (run_statementDate (r := .start) rfl 15).symm.trans h
  obtain rfl := Option.some.inj hrun
  rfl

theorem append_of_continues {s₁ s₂ : Text} {r₁ r₂ : State} (h₁ : psbOcrToCSV s₁ = some r₁)
    (h₂ : psbOcrToCSV s₂ = some r₂) (h : Continues s₁ s₂) :
    ∃ r, psbOcrToCSV (s₁ ++ s₂) = some r ∧ Joined (books r.2) (books r₁.2) (books r₂.2) := by
  obtain ⟨hlast, ⟨r, log⟩, hs, hlead⟩ := h
  -- the first text alone
  obtain ⟨k₁, r', hend⟩ := yields_eof hlead.nil log
  have hfirst : psbOcrToCSV s₁ = some (r', log ++ List.replicate k₁ .turn ++ []) := by
    rw [psbOcrToCSV, reads, Runs.run_append, hs, Option.bind_some]
    exact hend
  obtain rfl := Option.some.inj (h₁.symm.trans hfirst)
  -- the second behind it
  obtain ⟨k, r'', hrun⟩ := yields_of_leads hlead (t := .start) rfl h₂ log
  refine ⟨(r'', log ++ List.replicate k .turn ++ r₂.2), ?_, ?_⟩
  · rw [psbOcrToCSV, reads, lines, Perl.readLines_append hlast, List.map_append,
      List.append_assoc, Runs.run_append, ← lines, hs, Option.bind_some]
    exact hrun
  · rw [List.append_nil]
    exact joined_append log k k₁ r₂.2

theorem append_of_runsOn {s₁ s₂ : Text} {r₁ r₂ : State} (h₁ : psbOcrToCSV s₁ = some r₁)
    (h₂ : psbOcrToCSV s₂ = some r₂) (h : RunsOn s₁ s₂) :
    ∃ r, psbOcrToCSV (s₁ ++ s₂) = some r ∧ Joined (books r.2) (books r₁.2) (books r₂.2) := by
  obtain ⟨front, u, v, g, ls, hlines₁, hu, hlines₂, hg, ⟨r, log⟩, hs, hglues⟩ := h
  have haccepted : (Runs.run step (r, log) (some u :: eof 16)).isSome := by
    rw [psbOcrToCSV, reads, lines, hlines₁, List.map_append, List.append_assoc, Runs.run_append,
      hs, Option.bind_some] at h₁
    exact Option.isSome_of_eq_some h₁
  rw [run_log, Option.isSome_map] at haccepted
  rw [psbOcrToCSV, reads, lines, hlines₂] at h₂
  obtain ⟨es, k₁, k, r', r'', hlast, hrun⟩ := (hglues.serves haccepted).run h₂ log
  have hfirst : psbOcrToCSV s₁ = some (r', log ++ es ++ List.replicate k₁ .turn) := by
    rw [psbOcrToCSV, reads, lines, hlines₁, List.map_append, List.append_assoc, Runs.run_append,
      hs, Option.bind_some]
    exact hlast
  obtain rfl := Option.some.inj (h₁.symm.trans hfirst)
  refine ⟨(r'', log ++ es ++ List.replicate k .turn ++ r₂.2), ?_, ?_⟩
  · rw [psbOcrToCSV, reads, lines, Perl.readLines_append_glued hlines₁ hu hlines₂ hg,
      List.map_append, List.append_assoc, Runs.run_append, hs, Option.bind_some]
    exact hrun
  · exact joined_append (log ++ es) k k₁ r₂.2

/-- Looked for the head of a second block, another line without a first cell ends the
program. -/
theorem Reader.readTransHead_front {r : Reader} (hline : r.line ≠ [])
    (hcell : ¬ IsTrue r.lin.cell0) (hhead : ¬ (r.lin.map unQuoteStar).IsHead) :
    ∃ text, r.readTransHead .second = .error text := by
  have hclean : unQuoteStar r.lin.cell0 = [] ∨ unQuoteStar r.lin.cell0 = ['0'] := by
    by_cases hnil : r.lin.cell0 = []
    · rw [hnil]
      exact .inl rfl
    · have hzero : r.lin.cell0 = ['0'] := by
        by_contra hne
        exact hcell ⟨hnil, hne⟩
      rw [hzero]
      exact .inr rfl
  have hshuffled : ¬ (r.lin.map unQuoteStar).IsShuffledHead := by
    intro hdate
    have hcell0 : unQuoteStar r.lin.cell0 = "Date".toList := hdate.2.2.1
    rcases hclean with h | h
    · rw [h] at hcell0
      exact absurd hcell0 (by decide)
    · rw [h] at hcell0
      exact absurd hcell0 (by decide)
  have hname : ¬ Contains (unQuoteStar r.lin.cell0) "Statement Date" := by
    rcases hclean with h | h
    · rw [h]
      decide
    · rw [h]
      decide
  have hread := (readStatementDate_of_line (r := {r with lin := r.lin.map unQuoteStar}) hline).trans
    (if_neg hname)
  rw [readTransHead_second hhead hshuffled, hread]
  exact ⟨_, rfl⟩

section Front
variable {l : Line} (hcell0 : ¬ IsTrue (Cells.split l.text).cell0)
  (hcell1 : IsTrue (Cells.split l.text).cell1)
  (hhead : ¬ ((Cells.split l.text).map unQuoteStar).IsHead)

include hcell0 hcell1 hhead in
theorem run_front_eq_none {s : State} (hpoint : s.1.point = .transHead .second) {front : List Line}
    (hfront : ∀ l' ∈ front, ¬ IsTrue (Cells.split l'.text).cell1) (rest : List (Option Line)) :
    Runs.run step s (front.map some ++ some l :: rest) = none := by
  obtain ⟨r, log⟩ := s
  induction front generalizing r with
  | nil =>
    have hline : (r.read (some l)).line ≠ [] := fun hnil => by
      rw [show l.text = [] from hnil] at hcell1
      exact hcell1.1 rfl
    obtain ⟨text, htext⟩ := Reader.readTransHead_front hline hcell0 hhead
    have hstep := (Reader.step_transHead hpoint hcell1).trans htext
    rw [List.map_nil, List.nil_append, run_cons_of_error hstep]
  | cons l' front ih =>
    have hskip := Reader.step_transHead_skip hpoint (hfront l' List.mem_cons_self)
    rw [List.map_cons, List.cons_append, run_cons_of_ok hskip, List.append_nil]
    exact ih (fun l'' hl'' => hfront l'' (List.mem_cons_of_mem l' hl'')) _
      ((r.read_point _).trans hpoint)

include hcell0 hcell1 hhead in
/-- Behind the first block the first front line with a second cell has to be a head line. -/
theorem psbOcrToCSV_append_eq_none {s₁ s₂ : Text} {s : State} {front rest : List Line}
    (hlast : s₁.getLast? = some '\n') (hs : Runs.run step (.start, []) (lines s₁) = some s)
    (hpoint : s.1.point = .transHead .second) (hlines : Perl.readLines s₂ = front ++ l :: rest)
    (hfront : ∀ l' ∈ front, ¬ IsTrue (Cells.split l'.text).cell1) :
    psbOcrToCSV (s₁ ++ s₂) = none := by
  rw [psbOcrToCSV, reads, lines, Perl.readLines_append hlast, hlines, List.map_append,
    List.append_assoc, Runs.run_append, ← lines, hs, Option.bind_some, List.map_append,
    List.map_cons, List.append_assoc]
  exact run_front_eq_none hcell0 hcell1 hhead hpoint hfront _

end Front

/-! ### Two statements -/

/-- A statement with one block of each kind. -/
def aprilStatement : Text := Perl.printLines <| List.map String.toList
  ["Statement Date,04-30-13", "Date Last Statement,03-31-13", "783,Balance Forward,\"1,000.00\"",
    "1,Deposits,16.00", "2,Withdrawals,12.00", ",Ending Balance,\"1,004.00\"", "CHECKS",
    "Number,,Date,Amount", "101,RENT,04-02,12.00", "",
    "\"\",Other Account Transactions,Date,Amount", ",WIRE,04-03,16.00", ""]

/-- The same on a second page. -/
def secondPage : Text := Perl.printLines [",Page 2".toList] ++ aprilStatement

def secondBlock : Text := Perl.printLines <| List.map String.toList
  ["\"\",Other Account Transactions,Date,Amount", ",WIRE,04-05,4.00", ""]

/-- A page number at the end of a text, without a newline. -/
def pageNumber : Text := ",Page 1 of 2".toList

theorem secondPage_accepted : (psbOcrToCSV secondPage).isSome := by decide +kernel

end VleoNotebook.Ledger.Ocr
