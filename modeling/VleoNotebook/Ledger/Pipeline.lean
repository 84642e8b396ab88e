import VleoNotebook.Ledger.Postings

/-! From the statement to the ledger: one script's output read by the other.

The two share lines of fields without any quoting, and the first one's standard output
with what is printed on the way. Every transaction comes out as its posting exactly
when each of them is `Clean` (`faithful_iff_clean`). A description with a colon shifts
the fields of its own row only; one that no pattern classifies is printed in front of
everything and ends the input there. -/
namespace VleoNotebook.Ledger

open Perl (Text Decimal Number field split)
open Perl.Decimal (hundredths)
open Perl.Number (numify)

/-! ### What is asked -/

/-- The text is a numeral with a point for the magnitude of `x`. -/
def Denotes (s : Text) (x : Decimal) : Prop :=
  ∃ whole frac : Text, s = whole ++ '.' :: frac ∧ (∀ c ∈ whole, c.isDigit) ∧
    (∀ c ∈ frac, c.isDigit) ∧ whole ≠ [] ∧ frac ≠ [] ∧
      Perl.ofDigits (whole ++ frac) * 10 ^ x.places = x.digits * 10 ^ frac.length

/-- The posting is the one for the transaction. -/
structure Posted (t : Transaction) (p : Posting) : Prop where
  transdate : p.transdate = transdate t.date
  description : p.description = t.description
  number : p.memo = t.number.filter (· ≠ [])
  debit : Denotes p.debit1 t.amount
  credit : p.credit2 = p.debit1
  received : t.signed.negative = false → t.signed.digits ≠ 0 →
    p.accno1 = "1060".toList ∧ p.accno2 = t.account
  paid : t.signed.negative = true → t.signed.digits ≠ 0 →
    p.accno1 = t.account ∧ p.accno2 = "1060".toList

/-- The second script, on what the first one writes, posts every transaction, in order. -/
def Faithful (ts : List Transaction) : Prop :=
  ∃ ps, csv2sqlledger (output ts) = (ps, none) ∧ List.Forall₂ Posted ts ps

/-- A text that stays what it is as a field. -/
structure Plain (s : Text) : Prop extends Trimmed s where
  no_colon : ':' ∉ s

/-- An amount the posting can carry: on a check it is paid. -/
structure Payable (t : Transaction) : Prop where
  nonzero : t.amount.digits ≠ 0
  exact : t.amount.PrintsExactly
  check : t.number.isSome → t.amount.negative = false

/-- A transaction that comes through. -/
structure Clean (t : Transaction) : Prop where
  classified : Classified t.description (.num t.signed)
  description : t.description ≠ [] ∧ Plain t.description
  number : ∀ n ∈ t.number, Plain n ∧ n ≠ ['0']
  amount : Payable t

/-! ### Amounts -/

theorem denotes_hundredths {c : Nat} {x : Decimal} :
    Denotes (hundredths c) x ↔ c * 10 ^ x.places = x.digits * 100 := by
  have hread : numify (hundredths c) = .num ⟨false, c, 2⟩ := Number.numify_hundredths false c
  constructor
  · rintro ⟨whole, frac, hs, hwhole, hfrac, hne, hne', hvalue⟩
    have hpoint := Number.numify_point false hwhole hfrac hne
    rw [if_neg (by decide), List.nil_append, ← hs, hread] at hpoint
    obtain ⟨-, hdigits, hlen⟩ := Decimal.mk.inj (Number.num.inj hpoint)
    rw [← hdigits, ← hlen] at hvalue
    exact hvalue
  · intro h
    have hlen : (Perl.pad 2 (c % 100)).length = 2 :=
      Perl.length_pad (by decide) (Nat.mod_lt c (by decide))
    refine ⟨_, _, rfl, fun _ => Perl.isDigit_of_mem_toDigits, fun _ => Perl.isDigit_of_mem_pad,
      Nat.toDigits_ne_nil, Perl.pad_ne_nil 2 _, ?_⟩
    rw [Perl.ofDigits_append, Perl.ofDigits_toDigits, Perl.ofDigits_pad, hlen]
    have hc : c / 100 * 10 ^ 2 + c % 100 = c := by omega
    rw [hc]
    exact h

theorem not_denotes_nil (x : Decimal) : ¬ Denotes [] x := by
  rintro ⟨whole, frac, hs, -⟩
  exact absurd hs.symm (List.append_ne_nil_of_right_ne_nil _ (List.cons_ne_nil _ _))

/-- What `sprintf` writes of a number that is not negative denotes it exactly when it
prints exactly. -/
theorem denotes_sprintf2 {x y : Decimal} (hx : x.negative = false) (hdigits : y.digits = x.digits)
    (hplaces : y.places = x.places) : Denotes x.sprintf2 y ↔ x.PrintsExactly := by
  cases hc : x.cents with
  | some c =>
    rw [Decimal.sprintf2_of_cents hx hc, denotes_hundredths, hdigits, hplaces]
    simp [Decimal.PrintsExactly, hc]
  | none =>
    have hinf : x.sprintf2 = "Inf".toList := by rw [Decimal.sprintf2, hx, hc]; rfl
    refine iff_of_false ?_ (by simp [Decimal.PrintsExactly, hc])
    rw [hinf]
    rintro ⟨whole, frac, hs, hwhole, -, hne, -⟩
    obtain ⟨d, ds, rfl⟩ := List.exists_cons_of_ne_nil hne
    obtain rfl : 'I' = d := (List.cons.inj hs).1
    exact absurd (hwhole 'I' List.mem_cons_self) (by decide)

/-- What `sprintf` writes, taken only where it is positive. -/
theorem denotes_if_pos {x y : Decimal} (hdigits : y.digits = x.digits)
    (hplaces : y.places = x.places) :
    Denotes (if (numify x.sprintf2).IsPos then x.sprintf2 else []) y ↔
      x.negative = false ∧ x.digits ≠ 0 ∧ x.PrintsExactly := by
  by_cases hpos : (numify x.sprintf2).IsPos
  · have hx : x.negative = false := by
      by_contra hneg
      exact Number.not_isPos_sprintf2 (by simpa using hneg) hpos
    rw [if_pos hpos, denotes_sprintf2 hx hdigits hplaces]
    exact ⟨fun h => ⟨hx, (Number.isPos_sprintf2_iff hx h).mp hpos, h⟩, fun h => h.2.2⟩
  · rw [if_neg hpos]
    refine iff_of_false (not_denotes_nil y) ?_
    rintro ⟨hx, hne, h⟩
    exact hpos ((Number.isPos_sprintf2_iff hx h).mpr hne)

section Amount
variable {t : Transaction}

theorem withdr_check {n : Text} (hn : t.number = some n) :
    field t.row 4 = t.amount.sprintf2 ∧ field t.row 5 = [] := by
  rw [Transaction.row, hn]
  exact ⟨rfl, rfl⟩

theorem withdr_line (hn : t.number = none) :
    field t.row 4 = (if t.amount.IsNeg then t.amount.neg.sprintf2 else []) ∧
      field t.row 5 = if t.amount.IsPos then t.amount.sprintf2 else [] := by
  rw [Transaction.row, hn]
  exact ⟨rfl, rfl⟩

theorem denotes_debit_iff : Denotes (post t.row).debit1 t.amount ↔ Payable t := by
  change Denotes (if (numify (field t.row 4)).IsPos then field t.row 4 else field t.row 5)
    t.amount ↔ _
  cases hn : t.number with
  | some n =>
    obtain ⟨h4, h5⟩ := withdr_check hn
    rw [h4, h5, denotes_if_pos rfl rfl]
    exact ⟨fun ⟨hneg, hne, h⟩ => ⟨hne, h, fun _ => hneg⟩,
      fun h => ⟨h.check (by rw [hn]; rfl), h.nonzero, h.exact⟩⟩
  | none =>
    obtain ⟨h4, h5⟩ := withdr_line hn
    have hpayable : Payable t ↔ t.amount.digits ≠ 0 ∧ t.amount.PrintsExactly :=
      ⟨fun h => ⟨h.nonzero, h.exact⟩,
        fun h => ⟨h.1, h.2, fun hsome => by rw [hn] at hsome; cases hsome⟩⟩
    rw [h4, h5, hpayable]
    by_cases hneg : t.amount.IsNeg
    · have hnotpos : ¬ t.amount.IsPos := fun h => by
        rw [Decimal.IsPos, hneg.1] at h
        cases h.1
      rw [if_pos hneg, if_neg hnotpos, denotes_if_pos (x := t.amount.neg) (y := t.amount) rfl rfl]
      have hsign : t.amount.neg.negative = false := by simp [Decimal.neg, hneg.1]
      exact ⟨fun h => h.2, fun h => ⟨hsign, h⟩⟩
    · rw [if_neg hneg, if_neg Number.not_isPos_nil]
      by_cases hpos : t.amount.IsPos
      · rw [if_pos hpos, denotes_sprintf2 hpos.1 rfl rfl]
        exact ⟨fun h => ⟨fun hzero => hpos.2 (Decimal.double_zero hzero), h⟩, And.right⟩
      · rw [if_neg hpos]
        refine iff_of_false (not_denotes_nil _) ?_
        rintro ⟨hne, h⟩
        have hdouble := Decimal.double_ne_zero_of_printsExactly hne h
        cases hsign : t.amount.negative with
        | true => exact hneg ⟨hsign, hdouble⟩
        | false => exact hpos ⟨hsign, hdouble⟩

/-- The withdrawal of a row is positive when the amount goes out. -/
theorem isPos_withdr_iff (h : Payable t) :
    (numify (field t.row 4)).IsPos ↔ t.signed.negative = true := by
  cases hn : t.number with
  | some n =>
    have hsome : t.number.isSome := by rw [hn]; rfl
    rw [(withdr_check hn).1, Transaction.signed, if_pos hsome,
      Number.isPos_sprintf2_iff (h.check hsome) h.exact]
    exact iff_of_true h.nonzero (by simp [Decimal.neg, h.check hsome])
  | none =>
    have hnone : ¬ t.number.isSome := by simp [hn]
    have hdouble := Decimal.double_ne_zero_of_printsExactly h.nonzero h.exact
    rw [(withdr_line hn).1, Transaction.signed, if_neg hnone]
    cases hsign : t.amount.negative with
    | true =>
      have hneg : t.amount.neg.negative = false := by simp [Decimal.neg, hsign]
      rw [if_pos ⟨hsign, hdouble⟩, Number.isPos_sprintf2_iff hneg h.exact]
      exact iff_of_true h.nonzero rfl
    | false =>
      rw [if_neg fun hneg => by rw [Decimal.IsNeg, hsign] at hneg; cases hneg.1]
      exact iff_of_false Number.not_isPos_nil (by decide)

/-- The account of a row is not the empty text in quotes. -/
theorem corracct_eq : field t.row 6 = t.account ∧ t.account ≠ "\"\"".toList := by
  refine ⟨by cases hn : t.number <;> simp [Transaction.row, hn, field], fun h => ?_⟩
  have hquote : '"' ∈ t.account := by
    rw [h]
    decide
  exact absurd (Transaction.isDigit_of_mem_account hquote) (by decide)

end Amount

/-! ### One row -/

/-- What a transaction must be besides classified and free of colons. -/
structure Sound (t : Transaction) : Prop where
  description : Trimmed t.description
  number : ∀ n ∈ t.number, Trimmed n ∧ n ≠ ['0']
  amount : Payable t

theorem truthy_eq_some {s n : Text} : truthy s = some n ↔ s = n ∧ n ≠ [] ∧ n ≠ ['0'] := by
  unfold truthy
  split
  · rename_i h
    refine iff_of_false nofun ?_
    rintro ⟨rfl, hne, hzero⟩
    exact h.elim hne hzero
  · rename_i h
    rw [not_or] at h
    constructor
    · intro heq
      obtain rfl := Option.some.inj heq
      exact ⟨rfl, h⟩
    · rintro ⟨rfl, -⟩
      rfl

/-- The memo is the check number when trimming changes nothing and it is not `0`. -/
theorem memo_iff (t : Transaction) :
    truthy (trim (t.number.getD [])) = t.number.filter (· ≠ []) ↔
      ∀ n ∈ t.number, Trimmed n ∧ n ≠ ['0'] := by
  cases hn : t.number with
  | none => exact iff_of_true rfl nofun
  | some n =>
    simp only [Option.getD_some, Option.mem_some_iff, forall_eq']
    have hline := t.newline_not_mem_number n hn
    by_cases hne : n = []
    · subst hne
      exact iff_of_true rfl ⟨⟨nofun, nofun, nofun⟩, nofun⟩
    · rw [Option.filter_some, if_pos (by simpa using hne), truthy_eq_some, trim_eq_self_iff hline]
      exact ⟨fun h => ⟨h.1, h.2.2⟩, fun h => ⟨h.1, hne, h.2⟩⟩

theorem row_fields (t : Transaction) : field t.row 0 = t.number.getD [] ∧
    field t.row 1 = t.description ∧ field t.row 2 = Transaction.dateField t.date := by
  cases hn : t.number <;> simp [Transaction.row, hn, field]

theorem corracct_post (t : Transaction) : (post t.row).accno1 =
      (if (numify (field t.row 4)).IsPos then t.account else "1060".toList) ∧
    (post t.row).accno2 =
      if (numify (field t.row 4)).IsPos then "1060".toList else t.account := by
  obtain ⟨h6, hquote⟩ := corracct_eq (t := t)
  simp only [post, h6, if_neg hquote, and_self]

theorem posted_iff {t : Transaction} : Posted t (post t.row) ↔ Sound t := by
  obtain ⟨h0, h1, h2⟩ := row_fields t
  have hmemo : (post t.row).memo = truthy (trim (t.number.getD [])) := by rw [post_memo, h0]
  have hdescription : (post t.row).description = trim t.description := by
    rw [post_description, h1]
  have hdate : (post t.row).transdate = transdate t.date := by
    rw [← readDate_dateField t.date, ← h2]
    rfl
  constructor
  · intro h
    refine ⟨?_, ?_, denotes_debit_iff.mp h.debit⟩
    · rw [← trim_eq_self_iff t.newline_not_mem_description, ← hdescription]
      exact h.description
    · rw [← memo_iff, ← hmemo]
      exact h.number
  · intro h
    obtain ⟨h1', h2'⟩ := corracct_post t
    refine ⟨hdate, ?_, ?_, denotes_debit_iff.mpr h.amount, rfl, fun hsign _ => ?_,
      fun hsign _ => ?_⟩
    · rw [hdescription]
      exact (trim_eq_self_iff t.newline_not_mem_description).mpr h.description
    · rw [hmemo]
      exact (memo_iff t).mpr h.number
    · have hdep : ¬ (numify (field t.row 4)).IsPos := by
        rw [isPos_withdr_iff h.amount, hsign]
        decide
      rw [h1', h2', if_neg hdep, if_neg hdep]
      exact ⟨rfl, rfl⟩
    · have hwithdr : (numify (field t.row 4)).IsPos := (isPos_withdr_iff h.amount).mpr hsign
      rw [h1', h2', if_pos hwithdr, if_pos hwithdr]
      exact ⟨rfl, rfl⟩

/-! ### The rows -/

/-- A row has a withdrawal or a deposit, not both. -/
theorem one_side (t : Transaction) :
    ¬ (numify (field t.row 4)).IsNonzero ∨ ¬ (numify (field t.row 5)).IsNonzero := by
  have hnil := Number.not_isNonzero_nil
  cases hn : t.number with
  | some n =>
    rw [(withdr_check hn).2]
    exact .inr hnil
  | none =>
    obtain ⟨h4, h5⟩ := withdr_line hn
    rw [h4, h5]
    by_cases hneg : t.amount.IsNeg
    · rw [if_neg fun hpos : t.amount.IsPos => by rw [Decimal.IsPos, hneg.1] at hpos; cases hpos.1]
      exact .inr hnil
    · rw [if_neg hneg]
      exact .inl hnil

theorem turn_line {t : Transaction} (h : t.ColonFree) :
    turn t.line = if t.description = bankAccount then .next
      else if t.description = [] then .last else .posting (post t.row) := by
  have hside : ¬ ((numify (field t.row 4)).IsNonzero ∧ (numify (field t.row 5)).IsNonzero) :=
    fun hboth => (one_side t).elim (· hboth.1) (· hboth.2)
  simp only [turn, h.split_line, (row_fields t).2.1, if_neg hside]

theorem length_postings_le (ls : List Text) : (postings ls).1.length ≤ ls.length := by
  induction ls with
  | nil => exact Nat.le_refl 0
  | cons l ls ih =>
    cases hl : turn l with
    | next =>
      simp only [postings, hl, List.length_cons]
      omega
    | last => simp [postings, hl]
    | die text => simp [postings, hl]
    | posting p => simpa [postings, hl] using ih

theorem rows_iff {ts : List Transaction} (hfree : ∀ t ∈ ts, t.ColonFree) :
    (∃ ps, postings (ts.map Transaction.line) = (ps, none) ∧ List.Forall₂ Posted ts ps) ↔
      ∀ t ∈ ts, t.description ≠ [] ∧ Sound t := by
  induction ts with
  | nil => exact iff_of_true ⟨[], rfl, .nil⟩ nofun
  | cons t ts ih =>
    have ih := ih fun u hu => hfree u (List.mem_cons_of_mem t hu)
    have hturn := turn_line (hfree t List.mem_cons_self)
    rw [List.forall_mem_cons, List.map_cons]
    constructor
    · rintro ⟨ps, hps, hall⟩
      cases hall with
      | cons hposted hrest =>
        rename_i p ps
        have hlen := hrest.length_eq
        by_cases hbank : t.description = bankAccount
        · -- the line is passed over, and a posting is missing
          rw [if_pos hbank] at hturn
          simp only [postings, hturn] at hps
          have hle := length_postings_le (ts.map Transaction.line)
          rw [hps, List.length_map, List.length_cons] at hle
          omega
        · by_cases hempty : t.description = []
          · rw [if_neg hbank, if_pos hempty] at hturn
            simp only [postings, hturn] at hps
            cases hps
          · rw [if_neg hbank, if_neg hempty] at hturn
            simp only [postings, hturn] at hps
            obtain ⟨hcons, hdied⟩ := Prod.mk.inj hps
            obtain ⟨rfl, rfl⟩ := List.cons.inj hcons
            exact ⟨⟨hempty, posted_iff.mp hposted⟩, ih.mp ⟨_, Prod.ext rfl hdied, hrest⟩⟩
    · rintro ⟨⟨hempty, hsound⟩, hrest⟩
      have hbank : t.description ≠ bankAccount := by
        intro h
        refine hsound.description.no_quote ?_
        rw [h]
        rfl
      rw [if_neg hbank, if_neg hempty] at hturn
      obtain ⟨ps, hps, hall⟩ := ih.mpr hrest
      refine ⟨post t.row :: ps, ?_, .cons (posted_iff.mpr hsound) hall⟩
      simp only [postings, hturn, hps]

/-! ### The whole output -/

/-- Fields hold no colon, so no posting does where it comes from them. -/
theorem colon_not_mem_postings {ls : List Text} {p : Posting} (h : p ∈ (postings ls).1) :
    ':' ∉ p.description ∧ ∀ m ∈ p.memo, ':' ∉ m := by
  induction ls with
  | nil => cases h
  | cons l ls ih =>
    cases hl : turn l with
    | next => exact ih (by simpa only [postings, hl] using h)
    | last => simp [postings, hl] at h
    | die text => simp [postings, hl] at h
    | posting q =>
      rw [postings, hl] at h
      rcases List.mem_cons.mp h with rfl | h
      · have hfield (n : Nat) : ':' ∉ trim (field (split ':' l) n) := fun hc =>
          Perl.not_mem_field l n ((trim_sublist _).subset hc)
        rw [← turn_posting hl, post_description, post_memo]
        refine ⟨hfield 1, fun m hm => ?_⟩
        rw [← (truthy_eq_some.mp hm).1]
        exact hfield 0
      · exact ih h

/-- A line without a colon ends the input. -/
theorem turn_of_colon_not_mem {l : Text} (h : ':' ∉ l) : turn l = .last := by
  have hfield : field (split ':' l) 1 = [] := by
    rw [Perl.split_of_not_mem h]
    split <;> rfl
  have hbank : ([] : Text) ≠ bankAccount := nofun
  simp only [turn, hfield, if_neg hbank, if_true]

theorem turn_headLine : turn headLine = .next := by
  have hfield : field (split ':' headLine) 1 = bankAccount := by decide
  simp only [turn, hfield, if_true]

theorem colonFree_of_posted {ts : List Transaction} {ps : List Posting}
    (hall : List.Forall₂ Posted ts ps)
    (hps : ∀ p ∈ ps, ':' ∉ p.description ∧ ∀ m ∈ p.memo, ':' ∉ m) : ∀ t ∈ ts, t.ColonFree := by
  induction hall with
  | nil => nofun
  | @cons t p ts ps hposted hall ih =>
    rw [List.forall_mem_cons] at hps ⊢
    refine ⟨⟨?_, fun n hn hc => ?_⟩, ih hps.2⟩
    · rw [← hposted.description]
      exact hps.1.1
    · have hne : n ≠ [] := List.ne_nil_of_mem hc
      refine hps.1.2 n ?_ hc
      rw [hposted.number, Option.mem_def.mp hn, Option.filter_some, if_pos (by simpa using hne)]
      rfl

theorem colonFree_of_faithful {ts : List Transaction} (h : Faithful ts) :
    ∀ t ∈ ts, t.ColonFree := by
  obtain ⟨ps, hps, hall⟩ := h
  rw [csv2sqlledger] at hps
  have hread (p : Posting) (hp : p ∈ ps) : p ∈ (postings (Perl.lines (output ts))).1 := by
    rwa [hps]
  exact colonFree_of_posted hall fun p hp => colon_not_mem_postings (hread p hp)

/-- An unclassified description without a colon is the first line, and the last one read. -/
theorem csv2sqlledger_output_of_printed {ts : List Transaction} {l : Text} {ls : List Text}
    (hprinted : ts.flatMap (fun t => t.corrAcct.2) = l :: ls) (hl : ':' ∉ l) :
    csv2sqlledger (output ts) = ([], none) := by
  rw [csv2sqlledger, lines_output, outputLines, hprinted, List.cons_append, postings,
    turn_of_colon_not_mem hl]

theorem classified_of_faithful {ts : List Transaction} (h : Faithful ts) :
    ts.flatMap (fun t => t.corrAcct.2) = [] := by
  have hfree := colonFree_of_faithful h
  obtain ⟨ps, hps, hall⟩ := h
  cases hprinted : ts.flatMap fun t => t.corrAcct.2 with
  | nil => rfl
  | cons l ls =>
    obtain ⟨t, ht, hl⟩ := List.mem_flatMap.mp (hprinted ▸ List.mem_cons_self :
      l ∈ ts.flatMap fun t => t.corrAcct.2)
    have hcolon : ':' ∉ l := mem_printed hl ▸ (hfree t ht).1
    have hnone : ps = [] :=
      (Prod.mk.inj (hps.symm.trans (csv2sqlledger_output_of_printed hprinted hcolon))).1
    rw [hnone, List.forall₂_nil_right_iff] at hall
    rw [hall] at ht
    cases ht

theorem csv2sqlledger_output {ts : List Transaction}
    (h : ts.flatMap (fun t => t.corrAcct.2) = []) :
    csv2sqlledger (output ts) = postings (ts.map Transaction.line) := by
  rw [csv2sqlledger, lines_output, outputLines, h, List.nil_append, postings, turn_headLine]

theorem clean_iff (t : Transaction) :
    Clean t ↔ t.ColonFree ∧ t.corrAcct.2 = [] ∧ t.description ≠ [] ∧ Sound t := by
  rw [Transaction.corrAcct, ← classified_iff]
  constructor
  · intro h
    exact ⟨⟨h.description.2.no_colon, fun n hn => (h.number n hn).1.no_colon⟩, h.classified,
      h.description.1, ⟨h.description.2.toTrimmed,
        fun n hn => ⟨(h.number n hn).1.toTrimmed, (h.number n hn).2⟩, h.amount⟩⟩
  · rintro ⟨⟨hcolon, hcolon'⟩, hclassified, hne, hsound⟩
    exact ⟨hclassified, ⟨hne, hsound.description, hcolon⟩,
      fun n hn => ⟨⟨(hsound.number n hn).1, hcolon' n hn⟩, (hsound.number n hn).2⟩,
      hsound.amount⟩

/-- **Exactly the clean transactions come through.** The ledger script posts every
transaction of a statement, in order, with its date, description, check number, account,
amount and side, if and only if each is classified by a pattern; has a description,
trimmed and without a colon; if it is a check, a number of that kind other than `0`;
and an amount that is not zero, prints exactly and is not negative on a check. -/
theorem faithful_iff_clean (ts : List Transaction) : Faithful ts ↔ ∀ t ∈ ts, Clean t := by
  constructor
  · intro h
    have hfree := colonFree_of_faithful h
    have hprinted := classified_of_faithful h
    rw [Faithful, csv2sqlledger_output hprinted, rows_iff hfree] at h
    exact fun t ht =>
      (clean_iff t).mpr ⟨hfree t ht, List.flatMap_eq_nil_iff.mp hprinted t ht, h t ht⟩
  · intro h
    have hclean (t : Transaction) (ht : t ∈ ts) := (clean_iff t).mp (h t ht)
    have hprinted : ts.flatMap (fun t => t.corrAcct.2) = [] :=
      List.flatMap_eq_nil_iff.mpr fun t ht => (hclean t ht).2.1
    rw [Faithful, csv2sqlledger_output hprinted, rows_iff fun t ht => (hclean t ht).1]
    exact fun t ht => (hclean t ht).2.2

/-- Amounts of whole cents are in order as long as they are below `2 ** 46`. -/
theorem payable_of_cents {t : Transaction} (hplaces : t.amount.places = 2)
    (hne : t.amount.digits ≠ 0) (hlt : t.amount.digits < 2 ^ 46 * 100)
    (hcheck : t.number.isSome → t.amount.negative = false) : Payable t := by
  have hscale : 10 ^ t.amount.places = 100 := by rw [hplaces]; rfl
  refine ⟨hne, Decimal.printsExactly_of_whole (c := t.amount.digits) ?_ ?_, hcheck⟩
  · rw [hscale]
  · rwa [hscale]

/-! ### A statement -/

namespace Sample

def paycheck : Transaction :=
  ⟨some "1204".toList, "PAYCHECK MAY".toList, ⟨2011, 5, 7⟩, ⟨false, 150025, 2⟩, by decide, by decide⟩

/-- Nobody the tables know. -/
def cafe : Transaction :=
  ⟨none, "CORNER CAFE".toList, ⟨2011, 5, 9⟩, ⟨true, 450, 2⟩, by decide, by decide⟩

/-- The tables have this one, colon and all. -/
def paypal : Transaction :=
  ⟨none, "PPD: PAYPAL TRANSFER".toList, ⟨2011, 5, 9⟩, ⟨false, 10000, 2⟩, by decide, by decide⟩

end Sample

example : csv2sqlledger (output [Sample.paycheck]) =
    ([{ transdate := "2011-05-07".toList, description := "PAYCHECK MAY".toList
        accno1 := "5410".toList, debit1 := "1500.25".toList
        accno2 := "1060".toList, credit2 := "1500.25".toList
        side := 1, memo := some "1204".toList }], none) := by
  decide +kernel

/-- A payee without a pattern takes the whole statement away; a description with a colon
is posted with its amount for an account. -/
theorem statement_lost :
    (csv2sqlledger (output [Sample.paycheck, Sample.cafe]) = ([], none) ∧
      ¬ Faithful [Sample.paycheck, Sample.cafe]) ∧
    ((csv2sqlledger (output [Sample.paypal])).1.map (·.accno1) = ["100.00".toList] ∧
      ¬ Faithful [Sample.paypal]) := by
  have hprinted : [Sample.paycheck, Sample.cafe].flatMap (fun t => t.corrAcct.2) =
      ["CORNER CAFE".toList] := by
    decide +kernel
  have hlost := csv2sqlledger_output_of_printed hprinted (by decide)
  have hshifted : (csv2sqlledger (output [Sample.paypal])).1.map (·.description) =
      ["PPD".toList] := by
    decide +kernel
  refine ⟨⟨hlost, ?_⟩, by decide +kernel, ?_⟩
  · rintro ⟨ps, hps, hall⟩
    rw [hlost] at hps
    cases hps
    cases hall
  · rintro ⟨ps, hps, hall⟩
    rw [hps] at hshifted
    cases hall with
    | cons hposted hrest =>
      have hsame := hposted.description.symm.trans (List.cons.inj hshifted).1
      exact absurd hsame (by decide)

end VleoNotebook.Ledger
