import VleoNotebook.Lib.Csv
import VleoNotebook.Lib.LookAhead

/-! How `MATCH_CSV` splits a line.

The pattern is a comma with a look-ahead that pairs off the quotes of the rest: it matches
where the rest can be read as pairs of quotes behind which there is none, so exactly at the
commas that an even number of quotes follows (`first_matchCsv`), and the line is split as
`Perl.splitCsv` says (`split_matchCsv_eq`). In a line with an even number of quotes these are
the commas outside of them (`split_matchCsv`). -/
namespace VleoNotebook.Ledger

open Perl (Text Regex Cursor Pattern)

/-! ### The pattern -/

/-- `[^"]*"` -/
def toQuote : Regex Char := .cat (.star (.sym (· ≠ '"'))) (.sym (· = '"'))

/-- `(?:[^"]*"[^"]*")*` -/
def quotePairs : Regex Char := .star (.cat toQuote toQuote)

/-- `,(?=(?:[^"]*"[^"]*")*(?![^"]*"))` -/
def matchCsv : Pattern Char :=
  .cat (.plain (.sym (· = ',')))
    (.ahead (.cat (.plain quotePairs) (.notAhead (.plain toQuote))))

/-- What follows the first quote. -/
def afterQuote (s : Text) : Option Text :=
  match s.dropWhile (· ≠ '"') with
  | [] => none
  | _ :: rest => some rest

/-! ### Pairing off the quotes -/

theorem afterQuote_quote (s : Text) : afterQuote ('"' :: s) = some s := rfl

theorem afterQuote_cons {c : Char} (hc : c ≠ '"') (s : Text) :
    afterQuote (c :: s) = afterQuote s := by
  rw [afterQuote, List.dropWhile_cons_of_pos (by simpa using hc), afterQuote]

theorem count_of_afterQuote {s : Text} :
    (∀ rest ∈ afterQuote s, s.count '"' = rest.count '"' + 1 ∧ rest.length < s.length) ∧
      (afterQuote s = none → s.count '"' = 0) := by
  induction s with
  | nil => exact ⟨nofun, fun _ => rfl⟩
  | cons c s ih =>
    by_cases hc : c = '"'
    · subst hc
      rw [afterQuote_quote]
      refine ⟨?_, nofun⟩
      rintro rest ⟨⟩
      exact ⟨List.count_cons_self, Nat.lt_succ_self _⟩
    · rw [afterQuote_cons hc, List.count_cons_of_ne hc, List.length_cons]
      exact ⟨fun rest hrest => ⟨(ih.1 rest hrest).1, Nat.lt_succ_of_lt (ih.1 rest hrest).2⟩, ih.2⟩

/-- The runs of other symbols are tried from the longest on, and only behind that one there
is a quote. -/
theorem many_toQuote (fuel : Nat) (c : Cursor Char) (hfuel : c.rest.length ≤ fuel) :
    (Regex.many (Regex.outcomes (.sym (· ≠ '"'))) fuel c).flatMap
        (Regex.outcomes (.sym (· = '"'))) =
      (afterQuote c.rest).toList.map fun rest => ⟨false, rest, c.caps⟩ := by
  induction fuel generalizing c with
  | zero =>
    obtain ⟨b, s, caps⟩ := c
    obtain rfl : s = [] := List.eq_nil_of_length_eq_zero (Nat.le_zero.mp hfuel)
    rfl
  | succ fuel ih =>
    obtain ⟨b, s, caps⟩ := c
    cases s with
    | nil => rfl
    | cons a s =>
      by_cases ha : a = '"'
      · subst ha
        rfl
      · have ih' := ih ⟨false, s, caps⟩ (Nat.le_of_succ_le_succ hfuel)
        rw [Regex.many_succ, List.flatMap_append, List.flatMap_singleton, Regex.outcomes_sym_cons,
          Regex.outcomes_sym_cons, if_pos (by simpa using ha), if_neg (by simpa using ha),
          List.append_nil, List.filter_cons_of_pos (by simp), List.filter_nil,
          List.flatMap_singleton, ih', afterQuote_cons ha]

theorem outcomes_toQuote (c : Cursor Char) :
    Regex.outcomes toQuote c = (afterQuote c.rest).toList.map fun rest => ⟨false, rest, c.caps⟩ :=
  many_toQuote _ c (Nat.le_refl _)

/-- Both quotes of a pair. -/
theorem outcomes_pair (c : Cursor Char) :
    Regex.outcomes (.cat toQuote toQuote) c =
      ((afterQuote c.rest).bind afterQuote).toList.map fun rest => ⟨false, rest, c.caps⟩ := by
  rw [Regex.outcomes_cat, outcomes_toQuote]
  cases afterQuote c.rest with
  | none => rfl
  | some rest => rw [Option.toList_some, List.map_singleton, List.flatMap_singleton,
      outcomes_toQuote, Option.bind_some]

/-- Some repetition of the pairs leaves no quote if and only if the quotes pair off. -/
theorem exists_many_pair_iff (fuel : Nat) (c : Cursor Char) (hfuel : c.rest.length ≤ fuel) :
    (∃ d ∈ Regex.many (Regex.outcomes (.cat toQuote toQuote)) fuel c, afterQuote d.rest = none) ↔
      c.rest.count '"' % 2 = 0 := by
  induction fuel generalizing c with
  | zero =>
    obtain ⟨b, s, caps⟩ := c
    obtain rfl : s = [] := List.eq_nil_of_length_eq_zero (Nat.le_zero.mp hfuel)
    exact ⟨fun _ => rfl, fun _ => ⟨_, List.mem_singleton_self _, rfl⟩⟩
  | succ fuel ih =>
    simp only [Regex.many_succ, outcomes_pair, List.mem_append, List.mem_singleton, or_and_right,
      exists_or, exists_eq_left]
    have hfirst := count_of_afterQuote (s := c.rest)
    cases hs : afterQuote c.rest with
    | none =>
      rw [hfirst.2 hs]
      exact ⟨fun _ => rfl, fun _ => .inr rfl⟩
    | some rest =>
      have hrest := hfirst.1 rest hs
      have hsecond := count_of_afterQuote (s := rest)
      rw [Option.bind_some]
      cases hr : afterQuote rest with
      | none =>
        rw [hrest.1, hsecond.2 hr]
        simp
      | some rest' =>
        have hrest' := hsecond.1 rest' hr
        have hlt : rest'.length < c.rest.length := Nat.lt_trans hrest'.2 hrest.2
        rw [Option.toList_some, List.map_singleton, List.filter_cons_of_pos (by simpa using hlt),
          List.filter_nil, List.flatMap_singleton, ih ⟨false, rest', c.caps⟩ (by simp only; omega)]
        simp only [reduceCtorEq, or_false]
        omega

/-! ### The separators -/

/-- **The pattern matches at the commas that an even number of quotes follows**, and reads
the comma. -/
theorem first_matchCsv (b : Bool) (c : Char) (s : Text) :
    (Pattern.first matchCsv b (c :: s)).map Cursor.rest =
      if c = ',' ∧ s.count '"' % 2 = 0 then some s else none := by
  by_cases hc : c = ','
  · subst hc
    have hcat : Pattern.first matchCsv b (',' :: s) =
        (Pattern.outcomes (.ahead (.cat (.plain quotePairs) (.notAhead (.plain toQuote))))
          ⟨false, s, []⟩).head? := by
      simp [Pattern.first, matchCsv]
    have hlook : Pattern.outcomes (.ahead (.cat (.plain quotePairs) (.notAhead (.plain toQuote))))
        ⟨false, s, []⟩ ≠ [] ↔ s.count '"' % 2 = 0 := by
      rw [Pattern.outcomes_ahead_ne_nil, Pattern.outcomes_cat_ne_nil]
      simp only [Pattern.outcomes_notAhead_ne_nil, Pattern.outcomes_plain, outcomes_toQuote,
        List.map_eq_nil_iff, Option.toList_eq_nil_iff]
      exact exists_many_pair_iff _ _ (Nat.le_refl _)
    rw [hcat]
    cases houtcomes : Pattern.outcomes
        (.ahead (.cat (.plain quotePairs) (.notAhead (.plain toQuote)))) ⟨false, s, []⟩ with
    | nil => rw [if_neg fun h => hlook.mpr h.2 houtcomes]; rfl
    | cons d ds =>
      have hd := Pattern.rest_of_mem_ahead (houtcomes ▸ List.mem_cons_self)
      rw [if_pos ⟨rfl, hlook.mp (houtcomes ▸ List.cons_ne_nil d ds)⟩]
      exact congrArg some hd
  · rw [if_neg fun h => hc h.1]
    simp [Pattern.first, matchCsv, hc]

theorem fields_matchCsv (fuel : Nat) (b : Bool) (s : Text) (hfuel : s.length < fuel) :
    Pattern.fields matchCsv fuel b s = Perl.pieces s := by
  induction fuel generalizing b s with
  | zero => exact absurd hfuel (Nat.not_lt_zero _)
  | succ fuel ih =>
    cases s with
    | nil => rfl
    | cons c s =>
      have hfirst := first_matchCsv b c s
      have hs : s.length < fuel := Nat.lt_of_succ_lt_succ hfuel
      rw [Pattern.fields, Perl.pieces]
      cases hd : Pattern.first matchCsv b (c :: s) with
      | none =>
        rw [hd] at hfirst
        split at hfirst
        · cases hfirst
        · rename_i hc
          rw [if_neg hc]
          exact congrArg (List.modifyHead (c :: ·)) (ih false s hs)
      | some d =>
        rw [hd] at hfirst
        split at hfirst
        · rename_i hc
          obtain rfl : d.rest = s := Option.some.inj hfirst
          rw [if_pos hc]
          exact congrArg ([] :: ·) (ih false d.rest hs)
        · cases hfirst

/-- A line is split at the commas that an even number of quotes follows. -/
theorem split_matchCsv_eq (s : Text) : Pattern.split matchCsv s = Perl.splitCsv s := by
  rw [Pattern.split, fields_matchCsv _ _ _ (Nat.lt_succ_self _), Perl.splitCsv]

/-! ### The tokenizer -/

/-- A line cut at the commas outside quotes, read from left to right. -/
def tokenize (inQuotes : Bool) : Text → List Text
  | [] => [[]]
  | c :: s =>
    if c = '"' then (tokenize (!inQuotes) s).modifyHead (c :: ·)
    else if c = ',' ∧ inQuotes = false then [] :: tokenize inQuotes s
    else (tokenize inQuotes s).modifyHead (c :: ·)

/-- Inside of quotes an odd number of them is left to read. -/
theorem pieces_eq_tokenize (inQuotes : Bool) (s : Text)
    (hs : (s.count '"' + inQuotes.toNat) % 2 = 0) : Perl.pieces s = tokenize inQuotes s := by
  induction s generalizing inQuotes with
  | nil => rfl
  | cons c s ih =>
    rw [Perl.pieces, tokenize]
    by_cases hc : c = '"'
    · subst hc
      rw [List.count_cons_self] at hs
      have hflip : (s.count '"' + (!inQuotes).toNat) % 2 = 0 := by
        cases inQuotes <;> simp at hs ⊢ <;> omega
      rw [if_pos rfl, if_neg (by simp), ih _ hflip]
    · rw [List.count_cons_of_ne hc] at hs
      have hcut : s.count '"' % 2 = 0 ↔ inQuotes = false := by
        cases inQuotes <;> simp at hs ⊢ <;> omega
      simp only [if_neg hc, hcut, ih inQuotes hs]

/-- **A line with all its quotes closed is split at the commas outside of them**: as the
tokenizer does it, no cell has half of a pair of quotes, and the cells joined are the line
up to the commas at its end. -/
theorem split_matchCsv (s : Text) (hs : s.count '"' % 2 = 0) :
    Pattern.split matchCsv s = (tokenize false s).rdropWhile List.isEmpty ∧
      (∀ f ∈ Pattern.split matchCsv s, f.count '"' % 2 = 0) ∧
      ∃ k, Perl.join ',' (Pattern.split matchCsv s) ++ List.replicate k ',' = s := by
  rw [split_matchCsv_eq, Perl.splitCsv]
  refine ⟨?_, ?_, ?_⟩
  · rw [pieces_eq_tokenize false s hs]
  · intro f hf
    have hmem : f ∈ Perl.pieces s := (List.rdropWhile_prefix _ _).subset hf
    obtain ⟨p, ps, hp⟩ := List.exists_cons_of_ne_nil (Perl.pieces_ne_nil s)
    obtain ⟨hfirst, hrest⟩ := Perl.count_quote_pieces s
    rw [hp] at hmem hfirst hrest
    rcases List.mem_cons.mp hmem with rfl | hmem
    · rw [hfirst f rfl, hs]
    · exact hrest f hmem
  · obtain ⟨k, hk⟩ := Perl.join_dropEmpty ',' (Perl.pieces s)
    exact ⟨k, by rw [← hk, Perl.join_pieces]⟩

/-- An amount with its thousands comma stays one cell. -/
theorem split_matchCsv_thousands :
    Pattern.split matchCsv "12-05,\"2,611.38\",x,,".toList =
      ["12-05".toList, "\"2,611.38\"".toList, "x".toList] :=
  (split_matchCsv "12-05,\"2,611.38\",x,,".toList (by decide)).1.trans (by decide)

end VleoNotebook.Ledger
