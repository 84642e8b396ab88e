import VleoNotebook.Ledger.Statement

/-! What `csv2sqlledger_gl` makes of lines, without options.

The fields of a line are what stands between its colons. The line of the bank account
itself is passed over, and the first line without a second field ends the input. Any
other line becomes one posting: by a positive withdrawal from account 1060, else by the
deposit to it. A line with both ends the program. -/
namespace VleoNotebook.Ledger

open Perl (Text Decimal Regex field split pad)
open Perl.Number (numify)

/-- A call of `gl.pl`, as it finds the arguments once the shell has taken the quotes
and it the `%` escapes away. -/
structure Posting where
  transdate : Text
  description : Text
  accno1 : Text
  debit1 : Text
  accno2 : Text
  credit2 : Text
  /-- Which of the two accounts the source is given for, and the memo if there is one. -/
  side : Nat
  memo : Option Text
deriving DecidableEq

/-! ### Fields -/

/-- `m/^(\d+)\s?(\d+)\s?(\d+)$/` -/
def datePattern : Regex Char :=
  .seq [.bos, .group 1 (.plus digit), .opt (.sym Perl.isSpace), .group 2 (.plus digit),
    .opt (.sym Perl.isSpace), .group 3 (.plus digit), atEnd]

/-- The year, month and day of a date field; undef counts as 0. The numbers are not bounded here,
as those of Perl are. -/
def readDate (s : Text) : Date :=
  match (Regex.search datePattern s).map (·.stop) with
  | some m =>
    let number (n : Nat) := Perl.ofDigits ((m.cap n).getD [])
    ⟨number 1, number 2, number 3⟩
  | none => ⟨0, 0, 0⟩

/-- `sprintf("%04d-%02d-%02d", ...)`, of numbers below `2 ** 63` as Perl prints them. -/
def transdate (d : Date) : Text := pad 4 d.year ++ '-' :: (pad 2 d.month ++ '-' :: pad 2 d.day)

/-- `s/^\s*//; s/^"//g; s/"$//g` -/
def trim (s : Text) : Text := Perl.dropLastQuote (Perl.dropQuote (Perl.dropBlanks s))

/-- `"PSB ACCOUNT 1060"`, with the quotes. -/
def bankAccount : Text := "\"PSB ACCOUNT 1060\"".toList

/-- `if ($memo)` -/
def truthy (s : Text) : Option Text := if s = [] ∨ s = ['0'] then none else some s

/-! ### The loop -/

/-- The posting for the fields of a line. -/
def post (lin : List Text) : Posting :=
  let withdr := field lin 4
  let paid : Prop := (numify withdr).IsPos
  let amt := if paid then withdr else field lin 5
  let corracct :=
    if field lin 6 = "\"\"".toList then (if paid then "9999" else "9998").toList else field lin 6
  { transdate := transdate (readDate (field lin 2))
    description := trim (field lin 1)
    accno1 := if paid then corracct else "1060".toList
    debit1 := amt
    accno2 := if paid then "1060".toList else corracct
    credit2 := amt
    side := if paid then 1 else 2
    memo := truthy (trim (field lin 0)) }

/-- What a line leads to: `next`, `last`, `die` or a posting. -/
inductive Turn where
  | next
  | last
  | die (text : String)
  | posting (p : Posting)

def turn (line : Text) : Turn :=
  let lin := split ':' line
  if field lin 1 = bankAccount then .next
  else if field lin 1 = [] then .last
  else if (numify (field lin 4)).IsNonzero ∧ (numify (field lin 5)).IsNonzero then
    .die ("withdr and dep both defined: " ++ String.ofList line)
  else .posting (post lin)

/-- The postings for these lines, and the text the program dies with, if it does. -/
def postings : List Text → List Posting × Option String
  | [] => ([], none)
  | l :: ls =>
    match turn l with
    | .next => postings ls
    | .last => ([], none)
    | .die text => ([], some text)
    | .posting p => (p :: (postings ls).1, (postings ls).2)

/-- The program on a text. -/
def csv2sqlledger (input : Text) : List Posting × Option String := postings (Perl.lines input)

theorem post_description (lin : List Text) : (post lin).description = trim (field lin 1) := by
  rw [post]

theorem post_memo (lin : List Text) : (post lin).memo = truthy (trim (field lin 0)) := by
  rw [post]

/-- A posting is made of the fields of its line. -/
theorem turn_posting {l : Text} {p : Posting} (h : turn l = .posting p) :
    post (split ':' l) = p := by
  simp only [turn] at h
  split_ifs at h with hbank hlast hboth
  exact Turn.posting.inj h

/-! ### Reading a date -/

/-- The pattern takes a date apart where the script put it together. -/
theorem first_datePattern (d : Date) :
    Regex.first datePattern true (Transaction.dateField d) =
      some ⟨false, [], [(3, pad 2 d.day), (2, pad 2 d.month), (1, pad 4 d.year)]⟩ := by
  have hblank (rest : Text) : ∀ c ∈ (' ' :: rest).head?, c.isDigit = false := by
    rintro c ⟨⟩
    rfl
  have hdigits (w n : Nat) : ∀ c ∈ pad w n, c.isDigit := fun _ => Perl.isDigit_of_mem_pad
  refine Regex.head?_outcomes_cat (d := ⟨true, _, []⟩) rfl ?_
  refine Regex.head?_outcomes_cat (Regex.outcomes_group_plus_sym (hdigits 4 d.year)
    (Perl.pad_ne_nil 4 _) (hblank _) 1 true []) ?_
  refine Regex.head?_outcomes_cat (Regex.outcomes_opt_sym rfl _ _ _) ?_
  refine Regex.head?_outcomes_cat (Regex.outcomes_group_plus_sym (hdigits 2 d.month)
    (Perl.pad_ne_nil 2 _) (hblank _) 2 _ _) ?_
  refine Regex.head?_outcomes_cat (Regex.outcomes_opt_sym rfl _ _ _) ?_
  -- no blank stands behind the day
  have hend : ∀ c ∈ ([] : Text).head?, c.isDigit = false := nofun
  have hday := Regex.outcomes_group_plus_sym (hdigits 2 d.day) (Perl.pad_ne_nil 2 _) hend 3 false
    [(2, pad 2 d.month), (1, pad 4 d.year)]
  rw [List.append_nil] at hday
  exact Regex.head?_outcomes_cat hday rfl

theorem readDate_dateField (d : Date) : readDate (Transaction.dateField d) = d := by
  rw [readDate, Regex.search_first (first_datePattern d)]
  change (⟨Perl.ofDigits (pad 4 d.year), Perl.ofDigits (pad 2 d.month),
    Perl.ofDigits (pad 2 d.day)⟩ : Date) = d
  rw [Perl.ofDigits_pad, Perl.ofDigits_pad, Perl.ofDigits_pad]

/-! ### Trimming -/

/-- Nothing stands at the ends of a text that is trimmed. -/
structure Trimmed (s : Text) : Prop where
  no_blank : ∀ c ∈ s.head?, ¬ Perl.isSpace c
  no_quote : s.head? ≠ some '"'
  no_last_quote : s.getLast? ≠ some '"'

theorem trim_sublist (s : Text) : (trim s).Sublist s :=
  ((Perl.dropLastQuote_sublist _).trans (Perl.dropQuote_sublist _)).trans
    (Perl.dropBlanks_sublist s)

theorem trim_eq_self_iff {s : Text} (hs : '\n' ∉ s) : trim s = s ↔ Trimmed s := by
  constructor
  · intro h
    -- no step can take anything away
    have hlast := Perl.dropLastQuote_sublist (Perl.dropQuote (Perl.dropBlanks s))
    have hquote := Perl.dropQuote_sublist (Perl.dropBlanks s)
    have hblanks := Perl.dropBlanks_sublist s
    rw [← trim, h] at hlast
    have h1 : Perl.dropBlanks s = s := hblanks.antisymm (hlast.trans hquote)
    rw [h1] at hlast hquote
    have h2 : Perl.dropQuote s = s := hquote.antisymm hlast
    have h3 : Perl.dropLastQuote s = s := by
      rw [trim, h1, h2] at h
      exact h
    exact ⟨(Perl.dropBlanks_eq_self_iff s).mp h1, (Perl.dropQuote_eq_self_iff s).mp h2,
      (Perl.dropLastQuote_eq_self_iff hs).mp h3⟩
  · intro h
    rw [trim, (Perl.dropBlanks_eq_self_iff s).mpr h.no_blank,
      (Perl.dropQuote_eq_self_iff s).mpr h.no_quote,
      (Perl.dropLastQuote_eq_self_iff hs).mpr h.no_last_quote]

end VleoNotebook.Ledger
