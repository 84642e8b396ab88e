import Mathlib.Tactic.Linarith
import VleoNotebook.Ledger.Ocr

/-! Which cells `readAmount` reads as the amount that stands there.

The bank writes digits with an optional point, and with a minus sign in front or behind
(`BankAmount`). `readAmount` looks for the first digits of a cell. What stands in front of
them, the minus sign next to them apart, it does not look at, and neither at what stands
behind the number. So it is exact, or dies, just where no digit is found or nothing is
missed in this way (`readAmount_exact_iff`). -/
namespace VleoNotebook.Ledger.Ocr

open Perl (Text Decimal Regex Cursor IsTrue readUnquote)

/-! ### Amounts as the bank writes them -/

def minus (b : Bool) : Text := if b then ['-'] else []

/-- An amount with its signs; `frac` is what stands behind the point. -/
structure BankAmount where
  before : Bool
  whole : Text
  frac : Option Text
  after : Bool
  isDigit_whole : ∀ c ∈ whole, c.isDigit
  isDigit_frac : ∀ f ∈ frac, ∀ c ∈ f, c.isDigit
  some_digit : whole ++ frac.getD [] ≠ []
  one_sign : ¬ (before ∧ after)

namespace BankAmount

def point : Option Text → Text
  | none => []
  | some frac => '.' :: frac

def text (a : BankAmount) : Text :=
  minus a.before ++ (a.whole ++ (point a.frac ++ minus a.after))

/-- The number it stands for. -/
def number (a : BankAmount) : Decimal :=
  ⟨a.before || a.after, Perl.ofDigits (a.whole ++ a.frac.getD []), (a.frac.getD []).length⟩

/-- Nothing is lost when the search begins at the first digit and ends at the last one, or
behind a minus sign next to it. -/
def NothingMissed (a : BankAmount) : Prop :=
  a.number.digits = 0 ∨ a.whole ≠ [] ∧ ¬ (a.frac = some [] ∧ a.after)

/-- What `readAmount` makes of it. -/
def asRead (a : BankAmount) : Decimal :=
  if a.whole = [] then ⟨a.after, a.number.digits, 0⟩
  else ⟨a.before || (a.after && a.frac ≠ some []), a.number.digits, a.number.places⟩

end BankAmount

/-- A cell without its commas and blanks. -/
def compact (cell : Text) : Text := cell.filter fun c => c ≠ ',' ∧ ¬ Perl.isSpace c

/-- The whole cell is the amount, with or without quotes around it. -/
def Denotes (cell : Text) (a : BankAmount) : Prop :=
  compact cell = a.text ∨ compact cell = '"' :: (a.text ++ ['"'])

/-- What `readAmount` returns for a cell of a line, if it returns, is what the cell denotes. -/
def ReadsExactly (line cell : Text) : Prop :=
  ∀ x, readAmount line cell = .ok x → ∃ a, Denotes cell a ∧ x.value = a.number.value

/-! ### Finding the first digits -/

/-- The pattern behind the sign. -/
def numberPattern : Regex Char :=
  .seq [.group 2 (.plus digit), .opt (.group 3 (.cat (.lit ['.']) (.group 4 (.plus digit)))),
    .opt (.group 5 (.lit ['-']))]

/-- What the sign in front leaves in its group. -/
def signCaps (b : Bool) : List (Nat × Text) := if b then [(1, ['-'])] else []

theorem outcomes_numberPattern_nil {s : Text} (hs : ∀ c ∈ s.head?, c.isDigit = false) (b : Bool)
    (caps : List (Nat × Text)) : Regex.outcomes numberPattern ⟨b, s, caps⟩ = [] := by
  cases s with
  | nil => rfl
  | cons c s =>
    have hc : c.isDigit = false := hs c rfl
    simp [numberPattern, Regex.outcomes_plus, digit, hc]

theorem outcomes_opt_ne_nil (r : Regex Char) (c : Cursor Char) :
    Regex.outcomes (.opt r) c ≠ [] := by
  simp

/-- Digits are a number. -/
theorem outcomes_numberPattern_ne_nil {c : Char} (hc : c.isDigit) (s : Text) (b : Bool)
    (caps : List (Nat × Text)) : Regex.outcomes numberPattern ⟨b, c :: s, caps⟩ ≠ [] := by
  have hcat (r s : Regex Char) (c : Cursor Char) (hr : Regex.outcomes r c ≠ [])
      (hs : ∀ d, Regex.outcomes s d ≠ []) : Regex.outcomes (.cat r s) c ≠ [] := by
    obtain ⟨d, ds, hd⟩ := List.exists_cons_of_ne_nil hr
    rw [Regex.outcomes_cat, hd, List.flatMap_cons]
    exact List.append_ne_nil_of_left_ne_nil (hs d) _
  have hrun : Regex.outcomes (.group 2 (.plus digit)) ⟨b, c :: s, caps⟩ ≠ [] := by
    have hstar : Regex.outcomes (.star digit) ⟨false, s, caps⟩ ≠ [] := by
      intro hnil
      have h := Regex.outcomes_star_sym Char.isDigit ⟨false, s, caps⟩
      rw [← digit, hnil] at h
      cases h
    simp only [Regex.outcomes_group, Regex.outcomes_plus, ne_eq, List.map_eq_nil_iff, digit,
      Regex.outcomes_sym_cons, if_pos hc, List.flatMap_singleton]
    exact hstar
  refine hcat _ _ _ hrun fun d => hcat _ _ _ (outcomes_opt_ne_nil _ d) fun d => ?_
  exact hcat _ _ _ (outcomes_opt_ne_nil _ d) fun d => List.cons_ne_nil d []

/-- The sign is tried first. -/
theorem outcomes_amountPattern (b : Bool) (s : Text) :
    Regex.outcomes amountPattern ⟨b, s, []⟩ =
      (if s.head? = some '-' then
        Regex.outcomes numberPattern ⟨false, s.tail, signCaps true⟩ else []) ++
        Regex.outcomes numberPattern ⟨b, s, signCaps false⟩ := by
  change (Regex.outcomes (.opt (.group 1 (.lit ['-']))) ⟨b, s, []⟩).flatMap
    (Regex.outcomes numberPattern) = _
  cases s with
  | nil => rfl
  | cons c s =>
    by_cases hc : c = '-'
    · subst hc
      simp [signCaps]
    · simp [signCaps, hc]

/-- Digits are read alike at the start and behind it. -/
theorem outcomes_numberPattern_start (b : Bool) (c : Char) (s : Text) (caps : List (Nat × Text)) :
    Regex.outcomes numberPattern ⟨b, c :: s, caps⟩ =
      Regex.outcomes numberPattern ⟨false, c :: s, caps⟩ := rfl

/-- A digit is where the match begins. -/
theorem first_digit {c : Char} (hc : c.isDigit) (s : Text) (b : Bool) :
    Regex.first amountPattern b (c :: s) =
      (Regex.outcomes numberPattern ⟨false, c :: s, signCaps false⟩).head? := by
  have hminus : c ≠ '-' := by
    rintro rfl
    cases hc
  rw [Regex.first, outcomes_amountPattern, if_neg (by simpa using hminus), List.nil_append,
    outcomes_numberPattern_start]

/-- A minus sign is where it begins if a digit follows. -/
theorem first_minus (s : Text) (b : Bool) :
    Regex.first amountPattern b ('-' :: s) =
      (Regex.outcomes numberPattern ⟨false, s, signCaps true⟩).head? := by
  rw [Regex.first, outcomes_amountPattern, if_pos List.head?_cons, List.tail_cons,
    outcomes_numberPattern_nil (s := '-' :: s) (by rintro c ⟨⟩; rfl), List.append_nil]

/-- Nothing begins at other symbols. -/
theorem first_other {a : Char} (ha : a.isDigit = false) {s : Text}
    (hs : a = '-' → ∀ c ∈ s.head?, c.isDigit = false) (b : Bool) :
    Regex.first amountPattern b (a :: s) = none := by
  by_cases hminus : a = '-'
  · subst hminus
    rw [first_minus, outcomes_numberPattern_nil (hs rfl)]
    rfl
  · rw [Regex.first, outcomes_amountPattern, if_neg (by simpa using hminus), List.nil_append,
      outcomes_numberPattern_nil (s := a :: s) (by rintro c ⟨⟩; exact ha)]
    rfl

/-- **The match is at the first digit**, or at the minus sign in front of it. -/
theorem stop_search {pre : Text} (hpre : ∀ c ∈ pre, c.isDigit = false) {c : Char} (hc : c.isDigit)
    (s : Text) (b : Bool) :
    (Regex.searchFrom amountPattern b (pre ++ c :: s)).map (·.stop) =
      (Regex.outcomes numberPattern ⟨false, c :: s, signCaps (pre.getLast? = some '-')⟩).head? := by
  have hsome (caps : List (Nat × Text)) :
      ∃ d, (Regex.outcomes numberPattern ⟨false, c :: s, caps⟩).head? = some d := by
    obtain ⟨d, ds, hd⟩ :=
      List.exists_cons_of_ne_nil (outcomes_numberPattern_ne_nil hc s false caps)
    exact ⟨d, by rw [hd]; rfl⟩
  induction pre generalizing b with
  | nil =>
    obtain ⟨d, hd⟩ := hsome (signCaps false)
    rw [List.nil_append, Regex.stop_searchFrom_first ((first_digit hc s b).trans hd)]
    exact hd.symm
  | cons a pre ih =>
    have ha : a.isDigit = false := hpre a List.mem_cons_self
    have hpre' : ∀ x ∈ pre, x.isDigit = false := fun x hx => hpre x (List.mem_cons_of_mem a hx)
    cases pre with
    | nil =>
      by_cases hminus : a = '-'
      · subst hminus
        obtain ⟨d, hd⟩ := hsome (signCaps true)
        have hfirst := (first_minus (c :: s) b).trans hd
        rw [List.cons_append, List.nil_append, Regex.stop_searchFrom_first hfirst]
        exact hd.symm
      · have hskip := first_other (s := c :: s) ha (fun h => absurd h hminus) b
        rw [List.cons_append, List.nil_append, Regex.stop_searchFrom_skip hskip]
        simpa [hminus] using ih hpre' false
    | cons x xs =>
      have hskip := first_other (s := x :: xs ++ c :: s) ha
        (by rintro - y ⟨⟩; exact hpre' x List.mem_cons_self) b
      rw [List.cons_append, Regex.stop_searchFrom_skip hskip, ih hpre' false,
        List.getLast?_cons_cons]

theorem search_eq_none {s : Text} (hs : ∀ c ∈ s, c.isDigit = false) (b : Bool) :
    Regex.searchFrom amountPattern b s = none := by
  have hfirst (b : Bool) {s : Text} (hs : ∀ c ∈ s, c.isDigit = false) :
      Regex.first amountPattern b s = none := by
    rw [Regex.first, outcomes_amountPattern, List.head?_eq_none_iff,
      outcomes_numberPattern_nil fun c hc => hs c (List.mem_of_mem_head? hc)]
    split
    · rw [outcomes_numberPattern_nil fun c hc =>
        hs c (List.mem_of_mem_tail (List.mem_of_mem_head? hc))]
      rfl
    · rfl
  induction s generalizing b with
  | nil => exact Regex.searchFrom_nil (hfirst b hs)
  | cons a s ih =>
    rw [Regex.searchFrom_cons (hfirst b hs), ih fun c hc => hs c (List.mem_cons_of_mem a hc)]
    rfl

/-! ### What is dropped from a cell -/

/-- `^"([^"]*)"$` -/
def quotePattern : Regex Char :=
  .seq [.bos, .lit ['"'], .group 1 (.star (.sym (· ≠ '"'))), .lit ['"'], .eos (· = '\n')]

/-- It matches a whole text in quotes, and captures what is between them. -/
theorem mem_outcomes_quotePattern {s : Text} {d : Cursor Char}
    (hd : d ∈ Regex.outcomes quotePattern ⟨true, s, []⟩) :
    ∃ run, s = '"' :: (run ++ '"' :: d.rest) ∧ (d.rest = [] ∨ d.rest = ['\n']) ∧
      d.cap 1 = some run := by
  obtain ⟨c₁, h₁, hd⟩ := Regex.mem_outcomes_cat.mp hd
  obtain rfl := List.mem_singleton.mp h₁
  obtain ⟨c₂, h₂, hd⟩ := Regex.mem_outcomes_cat.mp hd
  obtain ⟨c₃, h₃, hd⟩ := Regex.mem_outcomes_cat.mp hd
  obtain ⟨c₄, h₄, hd⟩ := Regex.mem_outcomes_cat.mp hd
  obtain ⟨c₅, h₅, hd⟩ := Regex.mem_outcomes_cat.mp hd
  obtain rfl := List.mem_singleton.mp hd
  obtain ⟨hopen, -⟩ := Regex.mem_outcomes_lit h₂
  obtain ⟨e, he, rfl⟩ := List.mem_map.mp h₃
  obtain ⟨run, hrun, -, -⟩ := Regex.mem_outcomes_star_sym he
  obtain ⟨hclose, hcaps⟩ := Regex.mem_outcomes_lit h₄
  obtain ⟨rfl, hend⟩ := Regex.mem_outcomes_eos h₅
  have hopen : s = '"' :: c₂.rest := hopen
  have hclose : e.rest = '"' :: d.rest := hclose
  refine ⟨run, by rw [hopen, hrun, hclose], ?_, ?_⟩
  · refine hend.imp_right ?_
    rintro ⟨a, hrest, ha⟩
    rw [hrest, of_decide_eq_true ha]
  · rw [Cursor.cap, hcaps, hrun, List.length_append, Nat.add_sub_cancel, List.take_left']
    · rfl
    · rfl

/-- Only quotes around the whole cell are taken away; a newline may follow. -/
theorem readUnquote_cases (s : Text) :
    readUnquote s = s ∨ ∃ m nl, s = '"' :: (m ++ '"' :: nl) ∧ (nl = [] ∨ nl = ['\n']) ∧
      readUnquote s = m ++ nl := by
  have hbehind (xs : Text) : Regex.first quotePattern false xs = none := rfl
  have hkeep (xs : Text) (rep : Cursor Char → Text) :
      Regex.gsubFrom quotePattern rep false xs = xs :=
    Regex.gsubFrom_of_none quotePattern rep hbehind hbehind xs
  rw [readUnquote, ← quotePattern, Regex.gsub]
  cases hfirst : Regex.first quotePattern true s with
  | none =>
    left
    cases s with
    | nil => exact Regex.gsubFrom_nil quotePattern _ hfirst
    | cons a s => rw [Regex.gsubFrom_skip quotePattern _ hfirst, hkeep]
  | some d =>
    right
    obtain ⟨run, hs, hnl, hcap⟩ := mem_outcomes_quotePattern (List.mem_of_mem_head? hfirst)
    have hlt : d.rest.length < s.length := by
      rw [hs]
      simp
      omega
    refine ⟨run, d.rest, hs, hnl, ?_⟩
    rw [Regex.gsubFrom_match quotePattern _ hfirst hlt, hkeep, hcap]
    rfl

/-- `readAmount` drops quotes, then commas, then blanks. -/
def cleaned (cell : Text) : Text :=
  ((readUnquote cell).filter (· ≠ ',')).filter fun c => ¬ Perl.isSpace c

theorem cleaned_eq (cell : Text) : cleaned cell = compact (readUnquote cell) := by
  rw [cleaned, List.filter_filter, compact]
  refine List.filter_congr fun c _ => ?_
  simp [Bool.and_comm]

theorem compact_append (s t : Text) : compact (s ++ t) = compact s ++ compact t :=
  List.filter_append s t

theorem compact_quote (s : Text) : compact ('"' :: s) = '"' :: compact s := rfl

/-- Up to the quotes around it the text that is searched is the compact cell. -/
theorem cleaned_cases (cell : Text) :
    cleaned cell = compact cell ∨ compact cell = '"' :: (cleaned cell ++ ['"']) := by
  rw [cleaned_eq]
  obtain heq | ⟨m, nl, hcell, hnl, heq⟩ := readUnquote_cases cell
  · exact .inl (congrArg compact heq)
  · right
    have hblank : compact nl = [] := by
      rcases hnl with rfl | rfl <;> rfl
    rw [heq, hcell, compact_append, compact_quote, compact_append, compact_quote, hblank,
      List.append_nil]

theorem isDigit_compact {c : Char} (hc : c.isDigit) (cell : Text) :
    c ∈ compact cell ↔ c ∈ cell := by
  have hcomma : c ≠ ',' := by
    rintro rfl
    cases hc
  rw [compact, List.mem_filter]
  simp [hcomma, Decimal.not_isSpace_of_isDigit hc]

/-- No digit is dropped. -/
theorem isDigit_cleaned {c : Char} (hc : c.isDigit) (cell : Text) :
    c ∈ cleaned cell ↔ c ∈ cell := by
  rw [← isDigit_compact hc cell]
  rcases cleaned_cases cell with h | h
  · rw [h]
  · have hquote : c ≠ '"' := by
      rintro rfl
      cases hc
    rw [h]
    simp [hquote]

/-! ### What the groups hold -/

/-- What a minus sign behind the number leaves. -/
def afterCaps (after : Bool) : List (Nat × Text) := if after then [(5, ['-'])] else []

/-- What is not read of a cell has no digit in front. -/
theorem head?_minus (after : Bool) {q : Text} (hq : q = [] ∨ q = ['"']) :
    ∀ c ∈ (minus after ++ q).head?, c.isDigit = false := by
  rcases hq with rfl | rfl <;> cases after <;> simp [minus]

theorem outcomes_minus (after : Bool) {q : Text} (hq : q = [] ∨ q = ['"'])
    (caps : List (Nat × Text)) :
    (Regex.outcomes (.seq [.opt (.group 5 (.lit ['-']))]) ⟨false, minus after ++ q, caps⟩).head? =
      some ⟨false, q, afterCaps after ++ caps⟩ := by
  rcases hq with rfl | rfl <;> cases after <;> rfl

/-- A point with digits behind it is read. -/
theorem outcomes_point {f rest : Text} (hf : ∀ c ∈ f, c.isDigit) (hne : f ≠ [])
    (hrest : ∀ c ∈ rest.head?, c.isDigit = false) (caps : List (Nat × Text)) :
    ∃ g, (Regex.outcomes (.opt (.group 3 (.cat (.lit ['.']) (.group 4 (.plus digit)))))
      ⟨false, '.' :: (f ++ rest), caps⟩).head? = some ⟨false, rest, (3, g) :: (4, f) :: caps⟩ := by
  have hdot : (Regex.outcomes (.lit ['.']) ⟨false, '.' :: (f ++ rest), caps⟩).head? =
      some ⟨false, f ++ rest, caps⟩ := rfl
  have hgroup := Regex.head?_outcomes_group 3
    (Regex.head?_outcomes_cat hdot (Regex.outcomes_group_plus_sym hf hne hrest 4 false caps))
  exact ⟨_, by rw [Regex.outcomes_opt, List.head?_append, digit, hgroup, Option.some_or]⟩

/-- Else the cursor stays. -/
theorem outcomes_no_point {s : Text} (hs : ∀ t, s = '.' :: t → ∀ c ∈ t.head?, c.isDigit = false)
    (caps : List (Nat × Text)) :
    (Regex.outcomes (.opt (.group 3 (.cat (.lit ['.']) (.group 4 (.plus digit)))))
      ⟨false, s, caps⟩).head? = some ⟨false, s, caps⟩ := by
  have hnil : Regex.outcomes (.group 3 (.cat (.lit ['.']) (.group 4 (.plus digit))))
      ⟨false, s, caps⟩ = [] := by
    cases s with
    | nil => rfl
    | cons c s =>
      by_cases hc : c = '.'
      · subst hc
        have hs := hs s rfl
        cases s with
        | nil => rfl
        | cons x s =>
          have hx : x.isDigit = false := hs x rfl
          simp [Regex.outcomes_plus, digit, hx]
      · simp [hc]
  rw [Regex.outcomes_opt, hnil]
  rfl

section Number
variable {run : Text} (hrun : ∀ c ∈ run, c.isDigit) (hne : run ≠ []) (after : Bool) {q : Text}
  (hq : q = [] ∨ q = ['"']) (caps : List (Nat × Text))
include hrun hne hq

/-- Digits without a point. -/
theorem outcomes_whole :
    (Regex.outcomes numberPattern ⟨false, run ++ (minus after ++ q), caps⟩).head? =
      some ⟨false, q, afterCaps after ++ (2, run) :: caps⟩ := by
  have hstay : ∀ t, minus after ++ q = '.' :: t → ∀ c ∈ t.head?, c.isDigit = false := by
    rcases hq with rfl | rfl <;> cases after <;> simp [minus]
  refine Regex.head?_outcomes_cat
    (Regex.outcomes_group_plus_sym hrun hne (head?_minus after hq) 2 _ _) ?_
  exact Regex.head?_outcomes_cat (outcomes_no_point hstay _) (outcomes_minus after hq _)

/-- Digits with a fraction. -/
theorem outcomes_frac {f : Text} (hf : ∀ c ∈ f, c.isDigit) (hfne : f ≠ []) :
    ∃ g, (Regex.outcomes numberPattern
        ⟨false, run ++ '.' :: (f ++ (minus after ++ q)), caps⟩).head? =
      some ⟨false, q, afterCaps after ++ (3, g) :: (4, f) :: (2, run) :: caps⟩ := by
  obtain ⟨g, hg⟩ := outcomes_point hf hfne (head?_minus after hq) ((2, run) :: caps)
  have hdot : ∀ c ∈ ('.' :: (f ++ (minus after ++ q))).head?, c.isDigit = false := by
    rintro c ⟨⟩
    rfl
  refine ⟨g, ?_⟩
  refine Regex.head?_outcomes_cat (Regex.outcomes_group_plus_sym hrun hne hdot 2 _ _) ?_
  exact Regex.head?_outcomes_cat hg (outcomes_minus after hq _)

/-- Behind a bare point no minus sign is read. -/
theorem outcomes_bare :
    (Regex.outcomes numberPattern ⟨false, run ++ '.' :: (minus after ++ q), caps⟩).head? =
      some ⟨false, '.' :: (minus after ++ q), (2, run) :: caps⟩ := by
  have hdot : ∀ c ∈ ('.' :: (minus after ++ q)).head?, c.isDigit = false := by
    rintro c ⟨⟩
    rfl
  have hstay : ∀ t, '.' :: (minus after ++ q) = '.' :: t → ∀ c ∈ t.head?, c.isDigit = false := by
    rintro t heq
    rw [← (List.cons.inj heq).2]
    exact head?_minus after hq
  refine Regex.head?_outcomes_cat (Regex.outcomes_group_plus_sym hrun hne hdot 2 _ _) ?_
  exact Regex.head?_outcomes_cat (outcomes_no_point hstay _) rfl

end Number

/-! ### Reading a cell -/

theorem readAmount_of_stop (line : Text) {cell : Text} (htrue : IsTrue cell) {d : Cursor Char}
    (hd : (Regex.search amountPattern (cleaned cell)).map (·.stop) = some d) :
    readAmount line cell = .ok ⟨d.cap 1 = some ['-'] ∨ d.cap 5 = some ['-'],
      Perl.ofDigits ((d.cap 2).getD [] ++ (d.cap 4).getD []), ((d.cap 4).getD []).length⟩ := by
  rw [cleaned] at hd
  simp only [readAmount, if_neg (not_not.mpr htrue), hd]

/-- A cell that is true is refused if and only if there is no digit in it. -/
theorem readAmount_error_iff (line cell : Text) :
    (∀ x, readAmount line cell ≠ .ok x) ↔ ¬ IsTrue cell ∨ ∀ c ∈ cell, c.isDigit = false := by
  by_cases htrue : IsTrue cell
  · constructor
    · intro h
      right
      by_contra hdigit
      push Not at hdigit
      obtain ⟨c, hc, hdigit⟩ := hdigit
      have hdigit : c.isDigit := by simpa using hdigit
      -- the first one is found
      obtain ⟨pre, x, s, hs, hx, hpre⟩ : ∃ pre x s, cleaned cell = pre ++ x :: s ∧ x.isDigit ∧
          ∀ c ∈ pre, c.isDigit = false := by
        have hfind : ((cleaned cell).find? Char.isDigit).isSome :=
          List.find?_isSome.mpr ⟨c, (isDigit_cleaned hdigit cell).mpr hc, hdigit⟩
        obtain ⟨x, hx⟩ := Option.isSome_iff_exists.mp hfind
        obtain ⟨hx, pre, s, hs, hpre⟩ := List.find?_eq_some_iff_append.mp hx
        exact ⟨pre, x, s, hs, hx, fun c hc => by simpa using hpre c hc⟩
      obtain ⟨d, ds, hd⟩ := List.exists_cons_of_ne_nil
        (outcomes_numberPattern_ne_nil hx s false (signCaps (pre.getLast? = some '-')))
      have hstop := stop_search hpre hx s true
      rw [hd, ← hs] at hstop
      exact h _ (readAmount_of_stop line htrue hstop)
    · rintro (h | h) x hx
      · exact h htrue
      · have hclean : ∀ c ∈ cleaned cell, c.isDigit = false := fun c hc => by
          by_contra hdigit
          have hdigit : c.isDigit := by simpa using hdigit
          rw [h c ((isDigit_cleaned hdigit cell).mp hc)] at hdigit
          cases hdigit
        have hnone := search_eq_none hclean true
        rw [← Regex.search, cleaned] at hnone
        simp only [readAmount, if_neg (not_not.mpr htrue), hnone] at hx
        cases hx
  · simp only [readAmount, if_pos htrue]
    exact ⟨fun _ => .inl htrue, fun _ x hx => by cases hx⟩

theorem stop_search_run {pre run : Text} (hpre : ∀ c ∈ pre, c.isDigit = false)
    (hrun : ∀ c ∈ run, c.isDigit) (hne : run ≠ []) (rest : Text) :
    (Regex.search amountPattern (pre ++ (run ++ rest))).map (·.stop) =
      (Regex.outcomes numberPattern
        ⟨false, run ++ rest, signCaps (pre.getLast? = some '-')⟩).head? := by
  obtain ⟨c, run, rfl⟩ := List.exists_cons_of_ne_nil hne
  exact stop_search hpre (hrun c List.mem_cons_self) (run ++ rest) true

theorem quote_not_mem_text (a : BankAmount) : '"' ∉ a.text := by
  have hdigits {s : Text} (hs : ∀ c ∈ s, c.isDigit) : '"' ∉ s := fun hmem => by
    cases hs _ hmem
  have hminus (b : Bool) : '"' ∉ minus b := by
    cases b <;> decide
  have hpoint : '"' ∉ BankAmount.point a.frac := by
    cases hf : a.frac with
    | none => exact List.not_mem_nil
    | some f =>
      intro hmem
      exact hdigits (a.isDigit_frac f hf) ((List.mem_cons.mp hmem).resolve_left (by decide))
  simp only [BankAmount.text, List.mem_append, not_or]
  exact ⟨hminus _, hdigits a.isDigit_whole, hpoint, hminus _⟩

/-- The quotes around an amount may stay. -/
theorem cleaned_of_denotes {cell : Text} {a : BankAmount} (h : Denotes cell a) :
    ∃ q, (q = [] ∨ q = ['"']) ∧ cleaned cell = q ++ (a.text ++ q) := by
  rcases cleaned_cases cell with hclean | hclean
  · rcases h with h | h
    · exact ⟨[], .inl rfl, by rw [hclean, h, List.append_nil, List.nil_append]⟩
    · exact ⟨['"'], .inr rfl, hclean.trans h⟩
  · rcases h with h | h
    · refine absurd ?_ (quote_not_mem_text a)
      rw [← h, hclean]
      exact List.mem_cons_self
    · refine ⟨[], .inl rfl, ?_⟩
      rw [h] at hclean
      rw [List.append_cancel_right (List.cons.inj hclean).2, List.append_nil, List.nil_append]

section Sign
variable {q : Text} (hq : q = [] ∨ q = ['"']) (before : Bool)
include hq

theorem not_isDigit_sign : ∀ c ∈ q ++ minus before, c.isDigit = false := by
  rcases hq with rfl | rfl <;> cases before <;> simp [minus]

theorem getLast?_sign : decide ((q ++ minus before).getLast? = some '-') = before := by
  rcases hq with rfl | rfl <;> cases before <;> rfl

end Sign

section Denotes
variable (line : Text) {cell : Text} {a : BankAmount} (htrue : IsTrue cell) (h : Denotes cell a)
include htrue h

/-- Digits behind the point are found as if they stood in front of it. -/
theorem readAmount_of_frac (hwhole : a.whole = []) : readAmount line cell = .ok a.asRead := by
  obtain ⟨q, hq, hclean⟩ := cleaned_of_denotes h
  obtain ⟨f, hf⟩ : ∃ f, a.frac = some f := by
    refine Option.ne_none_iff_exists'.mp fun hnone => a.some_digit ?_
    rw [hwhole, hnone]
    rfl
  have hne : f ≠ [] := fun hnil => a.some_digit (by rw [hwhole, hf, hnil]; rfl)
  have hpre : ∀ c ∈ q ++ minus a.before ++ ['.'], c.isDigit = false := by
    intro c hc
    rcases List.mem_append.mp hc with hc | hc
    · exact not_isDigit_sign hq a.before c hc
    · rw [List.mem_singleton.mp hc]
      rfl
  have hstop := stop_search_run hpre (a.isDigit_frac f hf) hne (minus a.after ++ q)
  have hcell : cleaned cell = q ++ minus a.before ++ ['.'] ++ (f ++ (minus a.after ++ q)) := by
    rw [hclean, BankAmount.text, hwhole, hf]
    simp [BankAmount.point]
  rw [List.getLast?_concat, outcomes_whole (a.isDigit_frac f hf) hne a.after hq, ← hcell] at hstop
  rw [readAmount_of_stop line htrue hstop, BankAmount.asRead, if_pos hwhole, BankAmount.number,
    hwhole, hf]
  cases a.after <;> simp [Cursor.cap, List.lookup_cons, afterCaps, signCaps]

theorem readAmount_of_whole (hwhole : a.whole ≠ []) : readAmount line cell = .ok a.asRead := by
  obtain ⟨q, hq, hclean⟩ := cleaned_of_denotes h
  have hstop (rest : Text) :=
    stop_search_run (not_isDigit_sign hq a.before) a.isDigit_whole hwhole rest
  rw [getLast?_sign hq] at hstop
  have hcell : cleaned cell = q ++ minus a.before ++
      (a.whole ++ (BankAmount.point a.frac ++ (minus a.after ++ q))) := by
    rw [hclean, BankAmount.text]
    simp only [List.append_assoc]
  have hstop := hstop (BankAmount.point a.frac ++ (minus a.after ++ q))
  rw [← hcell] at hstop
  rw [BankAmount.asRead, if_neg hwhole, BankAmount.number]
  cases hf : a.frac with
  | none =>
    rw [hf, BankAmount.point, List.nil_append, outcomes_whole a.isDigit_whole hwhole a.after hq]
      at hstop
    rw [readAmount_of_stop line htrue hstop]
    cases a.before <;> cases a.after <;> rfl
  | some f =>
    rw [hf, BankAmount.point] at hstop
    by_cases hnil : f = []
    · rw [hnil, List.cons_append, List.nil_append, outcomes_bare a.isDigit_whole hwhole a.after hq]
        at hstop
      rw [readAmount_of_stop line htrue hstop, hnil]
      cases a.before <;> cases a.after <;> rfl
    · obtain ⟨g, hg⟩ := outcomes_frac a.isDigit_whole hwhole a.after hq (signCaps a.before)
        (a.isDigit_frac f hf) hnil
      rw [List.cons_append, hg] at hstop
      rw [readAmount_of_stop line htrue hstop]
      cases a.before <;> cases a.after <;>
        simp [Cursor.cap, List.lookup_cons, afterCaps, signCaps, hnil]

theorem readAmount_of_denotes : readAmount line cell = .ok a.asRead := by
  by_cases hwhole : a.whole = []
  · exact readAmount_of_frac line htrue h hwhole
  · exact readAmount_of_whole line htrue h hwhole

end Denotes

/-! ### What is exact -/

theorem value_eq_zero {x : Decimal} (h : x.digits = 0) : x.value = 0 := by
  rw [Decimal.value, h]
  simp

/-- Numerals with the same digits but another sign or point differ, unless they are zero. -/
theorem value_eq_iff {x y : Decimal} (hdigits : x.digits = y.digits) (hne : x.digits ≠ 0) :
    x.value = y.value ↔ x.negative = y.negative ∧ x.places = y.places := by
  have hdigit : (0 : ℚ) < y.digits := by exact_mod_cast Nat.pos_of_ne_zero (hdigits ▸ hne)
  have hpos (n : Nat) : (0 : ℚ) < y.digits / 10 ^ n := by positivity
  have hplaces : (y.digits : ℚ) / 10 ^ x.places = y.digits / 10 ^ y.places ↔
      x.places = y.places := by
    refine ⟨fun heq => ?_, fun heq => by rw [heq]⟩
    rw [div_eq_div_iff (by positivity) (by positivity), mul_right_inj' (ne_of_gt hdigit)] at heq
    exact (pow_right_injective₀ (by norm_num) (by norm_num) heq).symm
  have hx := hpos x.places
  have hy := hpos y.places
  unfold Decimal.value
  rw [hdigits]
  cases x.negative <;> cases y.negative
  · simpa using hplaces
  · refine iff_of_false (fun heq => ?_) (by simp)
    simp only [Bool.false_eq_true, if_false, if_true] at heq
    linarith
  · refine iff_of_false (fun heq => ?_) (by simp)
    simp only [Bool.false_eq_true, if_false, if_true] at heq
    linarith
  · simpa using hplaces

/-- What is read is the amount if and only if nothing is missed. -/
theorem value_asRead_iff (a : BankAmount) : a.asRead.value = a.number.value ↔ a.NothingMissed := by
  have hdigits : a.asRead.digits = a.number.digits := by
    unfold BankAmount.asRead
    split <;> rfl
  by_cases hzero : a.number.digits = 0
  · rw [value_eq_zero hzero, value_eq_zero (hdigits.trans hzero)]
    exact ⟨fun _ => .inl hzero, fun _ => rfl⟩
  · rw [value_eq_iff hdigits (hdigits ▸ hzero), BankAmount.NothingMissed]
    simp only [hzero, false_or]
    by_cases hwhole : a.whole = []
    · -- the digits behind the point have lost it
      refine iff_of_false (fun h => a.some_digit ?_) fun h => h.1 hwhole
      have hplaces := h.2
      rw [BankAmount.asRead, if_pos hwhole] at hplaces
      rw [hwhole, List.nil_append]
      exact List.eq_nil_of_length_eq_zero hplaces.symm
    · rw [BankAmount.asRead, if_neg hwhole]
      simp only [BankAmount.number, and_true, ne_eq, hwhole, not_false_eq_true, true_and]
      have hsign := a.one_sign
      cases hbefore : a.before <;> cases hafter : a.after <;> simp_all

/-- **`readAmount` refuses a cell or reads it exactly** just where the cell is empty or `0`,
or has no digits, or is an amount with digits in front of its point and no minus sign next to
it, or is a zero. -/
theorem readAmount_exact_iff (line cell : Text) :
    ReadsExactly line cell ↔ ¬ IsTrue cell ∨ (∀ c ∈ cell, c.isDigit = false) ∨
      ∃ a, Denotes cell a ∧ a.NothingMissed := by
  rw [← or_assoc, ← readAmount_error_iff line cell]
  constructor
  · intro h
    by_cases herror : ∀ x, readAmount line cell ≠ .ok x
    · exact .inl herror
    · right
      have htrue : IsTrue cell := by
        by_contra hfalse
        exact herror ((readAmount_error_iff line cell).mpr (.inl hfalse))
      push Not at herror
      obtain ⟨x, hx⟩ := herror
      obtain ⟨a, ha, hvalue⟩ := h x hx
      rw [readAmount_of_denotes line htrue ha] at hx
      obtain rfl := Except.ok.inj hx
      exact ⟨a, ha, (value_asRead_iff a).mp hvalue⟩
  · rintro (herror | ⟨a, ha, hmissed⟩) x hx
    · exact absurd hx (herror x)
    · refine ⟨a, ha, ?_⟩
      have htrue : IsTrue cell := by
        by_contra hfalse
        exact (readAmount_error_iff line cell).mpr (.inl hfalse) x hx
      rw [readAmount_of_denotes line htrue ha] at hx
      obtain rfl := Except.ok.inj hx
      exact (value_asRead_iff a).mpr hmissed

/-- Sixteen cents, as the bank writes them, are read as sixteen. -/
theorem sixteenCents_misread :
    readAmount "101,,\"12-05\",.16".toList ".16".toList = .ok ⟨false, 16, 0⟩ ∧
      ¬ ReadsExactly "101,,\"12-05\",.16".toList ".16".toList := by
  have hread : readAmount "101,,\"12-05\",.16".toList ".16".toList = .ok ⟨false, 16, 0⟩ := rfl
  refine ⟨hread, fun h => ?_⟩
  obtain ⟨a, ha, hvalue⟩ := h _ hread
  have hcell : IsTrue ".16".toList := by decide
  rw [readAmount_of_denotes _ hcell ha] at hread
  rw [← Except.ok.inj hread, value_asRead_iff] at hvalue
  have hdigits : a.number.digits = 16 := by
    have heq := congrArg Decimal.digits (Except.ok.inj hread)
    unfold BankAmount.asRead at heq
    split at heq <;> exact heq
  -- there are digits in front of the point, but the cell begins with it
  obtain ⟨hwhole, -⟩ := hvalue.resolve_left (by omega)
  obtain ⟨c, cs, hc⟩ := List.exists_cons_of_ne_nil hwhole
  have hdigit := a.isDigit_whole c (hc ▸ List.mem_cons_self)
  have hcompact : compact ".16".toList = '.' :: "16".toList := rfl
  rcases ha with ha | ha
  · rw [hcompact, BankAmount.text, hc] at ha
    cases hbefore : a.before with
    | true =>
      rw [hbefore] at ha
      exact absurd (List.cons.inj ha).1 (by decide)
    | false =>
      rw [hbefore] at ha
      rw [← (List.cons.inj ha).1] at hdigit
      cases hdigit
  · rw [hcompact] at ha
    exact absurd (List.cons.inj ha).1 (by decide)

end VleoNotebook.Ledger.Ocr
