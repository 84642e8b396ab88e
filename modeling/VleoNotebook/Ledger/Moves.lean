import VleoNotebook.Ledger.Ocr

/-! What a step of `psbOcrToCSV` can do.

A step that the program does not die of goes round its loop or leaves it, for one behind
the head of the statement or for the next statement; on the way it reads the date of the
statement, which is the only thing that changes the year, or books something, which gets
that year (`movesFrom_step`). -/
namespace VleoNotebook.Ledger.Ocr

open Perl (Text Decimal Line IsTrue unQuoteStar)

/-- Where nothing of the statement has been booked. -/
def Point.atHead : Point → Bool
  | .statementDate | .lastStatementDate | .balanceForward => true
  | _ => false

/-- A step from this point in this year gets to `r` and makes these entries. -/
inductive Moves (p : Point) (year : Nat) (r : Reader) : List Entry → Prop where
  /-- The loop goes round. -/
  | stays (hpoint : r.point = p) (hyear : r.year = year) : Moves p year r []
  | leaves (hpoint : r.point.atHead = false) (hyear : r.year = year) : Moves p year r []
  | date (hp : p = .statementDate) (hpoint : r.point = .lastStatementDate)
    (hyear : r.year = (DateText.ofCell r.lin.cell1).fullYear) : Moves p year r []
  | lastDate (hp : p = .lastStatementDate) (hpoint : r.point = .balanceForward)
    (hyear : r.year = year) : Moves p year r []
  /-- The next statement begins. -/
  | turn (hpoint : r.point ≠ .lastStatementDate) (hyear : r.year = year) : Moves p year r [.turn]
  /-- It begins with its date already read. -/
  | turnDate (hp : p ≠ .lastStatementDate) (hpoint : r.point = .lastStatementDate)
    (hyear : r.year = (DateText.ofCell r.lin.cell1).fullYear) : Moves p year r [.turn]
  | balanceForward (v : ℚ) (hp : p = .balanceForward) (hpoint : r.point = .deposits)
    (hyear : r.year = year) : Moves p year r [.balanceForward v]
  | summary (stmt : Totals) (hpoint : r.point = .endingBalance) (hyear : r.year = year) :
    Moves p year r [.summary stmt]
  | check (t : Transaction) (hnumber : t.number.isSome) (hdate : t.date.year = year)
    (hpoint : r.point.atHead = false) (hyear : r.year = year) : Moves p year r [.check t]
  | transaction (t : Transaction) (hnumber : t.number.isSome = false) (hdate : t.date.year = year)
    (hpoint : r.point.atHead = false) (hyear : r.year = year) : Moves p year r [.transaction t]

/-- Where an outcome leads from this point and year. -/
def Outcome.MovesFrom (p : Point) (year : Nat) (o : Outcome) : Prop :=
  ∀ r es, o = .ok (r, es) → Moves p year r es

namespace Reader

theorem movesFrom_ok {p : Point} {year : Nat} {r : Reader} {es : List Entry}
    (h : Moves p year r es) : Outcome.MovesFrom p year (.ok (r, es)) := by
  intro r' es' heq
  obtain ⟨rfl, rfl⟩ := Prod.mk.inj (Except.ok.inj heq)
  exact h

theorem movesFrom_error {p : Point} {year : Nat} {text : String} :
    Outcome.MovesFrom p year (.error text) := by
  intro r es heq
  cases heq

variable {r : Reader}

/-! ### Loops that only look for something -/

theorem movesFrom_stay {p : Point} (hp : r.point = p) :
    Outcome.MovesFrom p r.year (.ok (r, [])) :=
  movesFrom_ok (.stays hp rfl)

/-- `readDate` answers with the year of the date, or -1 at the end of the input. -/
theorem readStatementDate_cases {r' : Reader} (h : r.readStatementDate = .ok r') :
    r'.point = .done ∧ r'.year = r.year ∨
      r'.point = .lastStatementDate ∧ r'.year = (DateText.ofCell r'.lin.cell1).fullYear := by
  simp only [readStatementDate, readDate] at h
  split at h
  · cases h
  · obtain rfl := Except.ok.inj h
    exact .inl ⟨rfl, rfl⟩
  · rename_i date lin heq
    obtain rfl := Except.ok.inj h
    split_ifs at heq
    · cases heq
    · obtain ⟨rfl, rfl⟩ := Prod.mk.inj (Option.some.inj (Except.ok.inj heq))
      exact .inr ⟨rfl, rfl⟩

theorem movesFrom_readStatementDate :
    Outcome.MovesFrom .statementDate r.year (quiet r.readStatementDate) := by
  intro r' es h
  cases hread : r.readStatementDate with
  | error text =>
    rw [hread] at h
    cases h
  | ok t =>
    rw [hread] at h
    obtain ⟨rfl, rfl⟩ := Prod.mk.inj (Except.ok.inj h)
    obtain ⟨hpoint, hyear⟩ | ⟨hpoint, hyear⟩ := readStatementDate_cases hread
    · exact .leaves (by rw [hpoint]; rfl) hyear
    · exact .date rfl hpoint hyear

theorem movesFrom_readLastStatementDate :
    Outcome.MovesFrom .lastStatementDate r.year (quiet r.readLastStatementDate) := by
  simp only [readLastStatementDate]
  split
  · exact movesFrom_error
  · exact movesFrom_ok (.lastDate rfl rfl rfl)
  · exact movesFrom_ok (.lastDate rfl rfl rfl)

theorem movesFrom_summary {p : Point} {fieldName : String}
    {next : Reader → Text × Decimal → Outcome} (hp : r.point = p)
    (hnext : ∀ v, Outcome.MovesFrom p r.year (next r v)) (line : Option Line) :
    Outcome.MovesFrom p r.year (r.summary fieldName next line) := by
  cases line with
  | none => exact hnext undefined
  | some l =>
    rw [summary]
    split
    · exact movesFrom_stay hp
    · split
      · exact movesFrom_error
      · exact hnext _

theorem movesFrom_haveBalanceForward (v : Text × Decimal) :
    Outcome.MovesFrom .balanceForward r.year (haveBalanceForward r v) := by
  rw [haveBalanceForward]
  split
  · exact movesFrom_error
  · exact movesFrom_ok (.balanceForward _ rfl rfl rfl)

/-! ### Transactions and checks -/

theorem movesFrom_readTransHead {p : Point} (hp : p ≠ .lastStatementDate) (b : Block)
    (r : Reader) : Outcome.MovesFrom p r.year (r.readTransHead b) := by
  simp only [readTransHead]
  split
  · exact movesFrom_ok (.leaves rfl rfl)
  · split
    · exact movesFrom_ok (.leaves rfl rfl)
    · cases b with
      | first => exact movesFrom_error
      | second =>
        simp only
        split
        · exact movesFrom_error
        · rename_i hread
          refine movesFrom_ok ?_
          obtain ⟨hpoint, hyear⟩ | ⟨hpoint, hyear⟩ := readStatementDate_cases hread
          · exact .turn (by rw [hpoint]; rintro ⟨⟩) hyear
          · exact .turnDate hp hpoint hyear

theorem movesFrom_endTrans (p : Point) (b : Block) :
    Outcome.MovesFrom p r.year (.ok (endTrans b r)) := by
  cases b with
  | first => exact movesFrom_ok (.leaves rfl rfl)
  | second => exact movesFrom_ok (.turn (by rintro ⟨⟩) rfl)

/-- A transaction gets the year of the statement. -/
theorem movesFrom_readTransLine {b : Block} {reshuffle : Bool} (hp : r.point = .trans b reshuffle)
    (l : Line) : Outcome.MovesFrom (.trans b reshuffle) r.year (r.readTransLine b reshuffle l) := by
  simp only [readTransLine]
  split
  · exact movesFrom_endTrans _ b
  · split
    · exact movesFrom_ok (.stays hp rfl)
    · split
      · exact movesFrom_error
      · split
        · exact movesFrom_error
        · exact movesFrom_ok (.transaction _ rfl rfl (by rw [hp]; rfl) rfl)

theorem movesFrom_readChecksTitle {p : Point} (hp : p ≠ .lastStatementDate) (b : Block) :
    Outcome.MovesFrom p r.year (r.readChecksTitle b) := by
  simp only [readChecksTitle]
  split
  · exact movesFrom_ok (.leaves rfl rfl)
  · cases b with
    | first => exact movesFrom_error
    | second =>
      simp only
      split
      · exact movesFrom_error
      · exact movesFrom_readTransHead hp .first r

theorem movesFrom_readChecksHead (p : Point) (b : Block) :
    Outcome.MovesFrom p r.year (r.readChecksHead b) := by
  simp only [readChecksHead]
  split
  · exact movesFrom_error
  · exact movesFrom_ok (.leaves rfl rfl)

theorem movesFrom_endChecks (p : Point) (b : Block) :
    Outcome.MovesFrom p r.year (.ok (endChecks b r, [])) := by
  cases b <;> exact movesFrom_ok (.leaves rfl rfl)

/-- So does a check. -/
theorem movesFrom_readCheckLine {b : Block} (hp : r.point = .checks b) (l : Line) :
    Outcome.MovesFrom (.checks b) r.year (r.readCheckLine b l) := by
  simp only [readCheckLine]
  split
  · exact movesFrom_endChecks _ b
  · split
    · exact movesFrom_error
    · split
      · exact movesFrom_error
      · exact movesFrom_ok (.check _ rfl rfl (by rw [hp]; rfl) rfl)

/-! ### The step -/

theorem read_year (r : Reader) (next : Option Line) : (r.read next).year = r.year := by
  cases next <;> rfl

/-- **What a step can do.** -/
theorem movesFrom_step (r : Reader) (next : Option Line) :
    Outcome.MovesFrom r.point r.year (r.step next) := by
  have hread := r.read_point next
  rw [← r.read_year next]
  cases hp : r.point with
  | statementDate =>
    simp only [step, hp]
    split
    · exact movesFrom_stay (hread.trans hp)
    · exact movesFrom_readStatementDate
  | lastStatementDate =>
    simp only [step, hp]
    split
    · exact movesFrom_stay (hread.trans hp)
    · exact movesFrom_readLastStatementDate
  | balanceForward =>
    simp only [step, hp]
    exact movesFrom_summary (hread.trans hp) movesFrom_haveBalanceForward next
  | deposits =>
    simp only [step, hp]
    exact movesFrom_summary (hread.trans hp) (fun v => movesFrom_ok (.leaves rfl rfl)) next
  | withdrawals dep =>
    simp only [step, hp]
    exact movesFrom_summary (hread.trans hp) (fun v => movesFrom_ok (.summary _ rfl rfl)) next
  | endingBalance =>
    simp only [step, hp]
    exact movesFrom_summary (hread.trans hp) (fun v => movesFrom_ok (.leaves rfl rfl)) next
  | checksTitle b =>
    simp only [step, hp]
    split
    · exact movesFrom_stay (hread.trans hp)
    · exact movesFrom_readChecksTitle (by rintro ⟨⟩) b
  | checksHead b =>
    simp only [step, hp]
    cases next with
    | none => exact movesFrom_ok (.leaves rfl rfl)
    | some l =>
      simp only
      split
      · exact movesFrom_stay (hread.trans hp)
      · exact movesFrom_readChecksHead _ b
  | checks b =>
    simp only [step, hp]
    cases next with
    | none => exact movesFrom_endChecks _ b
    | some l => exact movesFrom_readCheckLine (hread.trans hp) l
  | transHead b =>
    simp only [step, hp]
    split
    · exact movesFrom_stay (hread.trans hp)
    · exact movesFrom_readTransHead (by rintro ⟨⟩) b _
  | trans b reshuffle =>
    simp only [step, hp]
    cases next with
    | none => exact movesFrom_endTrans _ b
    | some l => exact movesFrom_readTransLine (hread.trans hp) l
  | done =>
    rw [r.read_year next]
    simp only [step, hp]
    exact movesFrom_stay hp

end Reader

end VleoNotebook.Ledger.Ocr
