import Mathlib.Data.List.Infix
import VleoNotebook.Lib.Text

/-! Lines of CSV the way Perl scripts take them apart.

`while(<>)` leaves the newline at the end of each line, so that it can only stand at the
end of a cell, where `chomp` takes it away (`newline_not_mem_chomp`). A line is split at
the commas that an even number of quotes follows. -/
namespace Perl

/-- A text Perl takes for true. -/
def IsTrue (s : Text) : Prop := s ≠ [] ∧ s ≠ ['0']

instance (s : Text) : Decidable (IsTrue s) := inferInstanceAs (Decidable (_ ∧ _))

/-- `$s =~ m/w/` for a word. -/
def Contains (s : Text) (w : String) : Prop := w.toList <:+: s

instance (s : Text) (w : String) : Decidable (Contains s w) :=
  inferInstanceAs (Decidable (_ <:+: _))

/-! ### Lines with their newlines -/

/-- A line as `<>` returns it. -/
structure Line where
  text : Text
  newline_last : '\n' ∉ text.dropLast
deriving DecidableEq

theorem newline_last_cons {c : Char} {s : Text} (hc : c ≠ '\n') (h : '\n' ∉ s.dropLast) :
    '\n' ∉ (c :: s).dropLast := by
  cases s with
  | nil => exact List.not_mem_nil
  | cons d s =>
    rw [List.dropLast_cons_cons]
    intro hmem
    exact (List.mem_cons.mp hmem).elim (fun heq => hc heq.symm) h

/-- A symbol put in front of the lines of the rest. -/
def Line.consTo (c : Char) (hc : c ≠ '\n') : List Line → List Line
  | [] => [⟨[c], by simp⟩]
  | l :: ls => ⟨c :: l.text, newline_last_cons hc l.newline_last⟩ :: ls

/-- The lines `while(<>)` reads; the last one may lack its newline. -/
def readLines : Text → List Line
  | [] => []
  | c :: s =>
    if hc : c = '\n' then ⟨['\n'], by simp⟩ :: readLines s
    else Line.consTo c hc (readLines s)

theorem readLines_ne_nil {s : Text} (h : s ≠ []) : readLines s ≠ [] := by
  obtain ⟨c, s, rfl⟩ := List.exists_cons_of_ne_nil h
  by_cases hc : c = '\n'
  · simp [readLines, hc]
  · rw [readLines, dif_neg hc]
    cases readLines s <;> simp [Line.consTo]

/-- Only the last line may lack its newline. -/
theorem getLast?_of_mem_dropLast {s : Text} {l : Line} (h : l ∈ (readLines s).dropLast) :
    l.text.getLast? = some '\n' := by
  induction s generalizing l with
  | nil => exact absurd h List.not_mem_nil
  | cons c s ih =>
    by_cases hc : c = '\n'
    · rw [readLines, dif_pos hc] at h
      cases hls : readLines s with
      | nil =>
        rw [hls] at h
        exact absurd h List.not_mem_nil
      | cons l' ls =>
        rw [hls, List.dropLast_cons_cons, ← hls] at h
        rcases List.mem_cons.mp h with rfl | h
        · rfl
        · exact ih h
    · rw [readLines, dif_neg hc] at h
      cases hls : readLines s with
      | nil =>
        rw [hls] at h
        exact absurd h List.not_mem_nil
      | cons l' ls =>
        rw [hls, Line.consTo] at h
        rw [hls] at ih
        cases ls with
        | nil => exact absurd h List.not_mem_nil
        | cons l'' ls =>
          rw [List.dropLast_cons_cons] at h ih
          rcases List.mem_cons.mp h with rfl | h
          · have hl' := ih List.mem_cons_self
            have hne : l'.text ≠ [] := List.ne_nil_of_mem (List.mem_of_mem_getLast? hl')
            rwa [List.getLast?_cons_of_ne_nil hne]
          · exact ih (List.mem_cons_of_mem l' h)

/-- Behind a final newline the lines go on as if nothing stood in front. -/
theorem readLines_append {s : Text} (h : s.getLast? = some '\n') (t : Text) :
    readLines (s ++ t) = readLines s ++ readLines t := by
  induction s with
  | nil => cases h
  | cons c s ih =>
    rw [List.cons_append, readLines, readLines]
    by_cases hs : s = []
    · subst hs
      obtain rfl : c = '\n' := by simpa using h
      rfl
    · rw [ih (by rwa [List.getLast?_cons_of_ne_nil hs] at h)]
      split
      · rfl
      · obtain ⟨l, ls, hls⟩ := List.exists_cons_of_ne_nil (readLines_ne_nil hs)
        rw [hls]
        rfl

/-- A line without its newline runs on into the first line of what follows. -/
theorem readLines_append_glued {s t : Text} {front ls : List Line} {u v g : Line}
    (hs : readLines s = front ++ [u]) (hu : '\n' ∉ u.text) (ht : readLines t = v :: ls)
    (hg : g.text = u.text ++ v.text) : readLines (s ++ t) = front ++ g :: ls := by
  induction s generalizing front u g with
  | nil => cases front <;> cases hs
  | cons c s ih =>
    rw [readLines] at hs
    rw [List.cons_append, readLines]
    by_cases hc : c = '\n'
    · rw [dif_pos hc] at hs ⊢
      cases front with
      | nil =>
        rw [← (List.cons.inj hs).1] at hu
        simp at hu
      | cons l front =>
        obtain ⟨rfl, hrest⟩ := List.cons.inj hs
        rw [ih hrest hu hg]
        rfl
    · rw [dif_neg hc] at hs ⊢
      cases hls : readLines s with
      | nil =>
        have hnil : s = [] := by
          by_contra hne
          exact readLines_ne_nil hne hls
        rw [hls] at hs
        cases front with
        | cons l front => cases front <;> cases hs
        | nil =>
          obtain ⟨rfl, -⟩ := List.cons.inj hs
          rw [hnil, List.nil_append, ht, Line.consTo]
          cases g
          cases hg
          rfl
      | cons l ls' =>
        rw [hls, Line.consTo] at hs
        cases front with
        | nil =>
          obtain ⟨rfl, rfl⟩ := List.cons.inj hs
          obtain ⟨text, hlast⟩ := g
          obtain rfl : text = c :: (l.text ++ v.text) := hg
          have htail : '\n' ∉ (l.text ++ v.text).dropLast := fun hmem => by
            refine hlast ?_
            rw [List.dropLast_cons_of_ne_nil fun hnil => by rw [hnil] at hmem; cases hmem]
            exact List.mem_cons_of_mem c hmem
          have hu' : '\n' ∉ l.text := fun hmem => hu (List.mem_cons_of_mem c hmem)
          rw [@ih [] l ⟨_, htail⟩ hls hu' rfl]
          rfl
        | cons l' front =>
          obtain ⟨rfl, rfl⟩ := List.cons.inj hs
          rw [@ih (l :: front) u g hls hu hg]
          rfl

/-- `chomp` -/
def chomp (s : Text) : Text := if s.getLast? = some '\n' then s.dropLast else s

theorem newline_not_mem_chomp {s : Text} (h : '\n' ∉ s.dropLast) : '\n' ∉ chomp s := by
  unfold chomp
  split
  · exact h
  · rename_i hlast
    rcases List.eq_nil_or_concat' s with rfl | ⟨t, c, rfl⟩
    · exact List.not_mem_nil
    · rw [List.dropLast_concat] at h
      rw [List.getLast?_concat] at hlast
      intro hmem
      rcases List.mem_append.mp hmem with hmem | hmem
      · exact h hmem
      · exact hlast (congrArg some (List.mem_singleton.mp hmem).symm)

/-! ### Cells -/

/-- The pieces between the commas that an even number of quotes follows. -/
def pieces : Text → List Text
  | [] => [[]]
  | c :: s =>
    if c = ',' ∧ s.count '"' % 2 = 0 then [] :: pieces s else (pieces s).modifyHead (c :: ·)

/-- `split(MATCH_CSV)`: empty cells at the end are dropped. -/
def splitCsv (s : Text) : List Text := (pieces s).rdropWhile List.isEmpty

theorem pieces_ne_nil (s : Text) : pieces s ≠ [] := by
  cases s with
  | nil => simp [pieces]
  | cons c s =>
    rw [pieces]
    split
    · simp
    · cases h : pieces s with
      | nil => exact absurd h (pieces_ne_nil s)
      | cons p ps => simp

/-- The pieces joined are the line again. -/
theorem join_pieces (s : Text) : join ',' (pieces s) = s := by
  induction s with
  | nil => rfl
  | cons c s ih =>
    rw [pieces]
    split
    · rename_i hc
      rw [join_cons [] (pieces_ne_nil s), ih, hc.1, List.nil_append]
    · obtain ⟨p, ps, hp⟩ := List.exists_cons_of_ne_nil (pieces_ne_nil s)
      rw [hp] at ih ⊢
      rw [List.modifyHead_cons, ← ih]
      cases ps with
      | nil => simp [join]
      | cons q qs =>
        rw [join_cons _ (List.cons_ne_nil q qs), join_cons _ (List.cons_ne_nil q qs),
          List.cons_append]

/-- Only the first piece may have a quote that does not close. -/
theorem count_quote_pieces (s : Text) :
    (∀ p ∈ (pieces s).head?, p.count '"' % 2 = s.count '"' % 2) ∧
      ∀ p ∈ (pieces s).tail, p.count '"' % 2 = 0 := by
  induction s with
  | nil => simp [pieces]
  | cons c s ih =>
    obtain ⟨p, ps, hp⟩ := List.exists_cons_of_ne_nil (pieces_ne_nil s)
    rw [hp] at ih
    obtain ⟨hfirst, hrest⟩ := ih
    have hfirst := hfirst p rfl
    rw [pieces, hp]
    split
    · rename_i hc
      obtain ⟨rfl, hs⟩ := hc
      refine ⟨?_, ?_⟩
      · rintro q ⟨⟩
        rw [List.count_cons_of_ne (by decide), hs]
        rfl
      · rw [List.tail_cons]
        intro q hq
        rcases List.mem_cons.mp hq with rfl | hq
        · rw [hfirst, hs]
        · exact hrest q hq
    · rw [List.modifyHead_cons]
      refine ⟨?_, hrest⟩
      rintro q ⟨⟩
      rw [List.count_cons, List.count_cons]
      omega

theorem newline_last_of_mem_pieces {s p : Text} (h : '\n' ∉ s.dropLast) (hp : p ∈ pieces s) :
    '\n' ∉ p.dropLast := by
  induction s generalizing p with
  | nil =>
    obtain rfl := List.mem_singleton.mp hp
    exact List.not_mem_nil
  | cons c s ih =>
    obtain ⟨q, qs, hq⟩ := List.exists_cons_of_ne_nil (pieces_ne_nil s)
    have hs : '\n' ∉ s.dropLast := by
      cases s with
      | nil => exact List.not_mem_nil
      | cons d s => exact fun hmem => h (List.mem_cons_of_mem c hmem)
    rw [pieces, hq] at hp
    rw [hq] at ih
    split at hp
    · rcases List.mem_cons.mp hp with rfl | hp
      · exact List.not_mem_nil
      · exact ih hs hp
    · rw [List.modifyHead_cons] at hp
      rcases List.mem_cons.mp hp with rfl | hp
      · by_cases hc : c = '\n'
        · -- nothing stands behind a newline
          cases s with
          | nil =>
            obtain rfl : [] = q := (List.cons.inj hq).1
            exact List.not_mem_nil
          | cons d s => exact absurd (hc ▸ List.mem_cons_self) h
        · exact newline_last_cons hc (ih hs List.mem_cons_self)
      · exact ih hs (List.mem_cons_of_mem q hp)

/-- A cell of a line has a newline only at its end. -/
theorem newline_last_field {s : Text} (h : '\n' ∉ s.dropLast) (n : Nat) :
    '\n' ∉ (field (splitCsv s) n).dropLast := by
  rw [field, List.getD_eq_getElem?_getD]
  cases hn : (splitCsv s)[n]? with
  | none => exact List.not_mem_nil
  | some p =>
    refine newline_last_of_mem_pieces h ?_
    exact (List.rdropWhile_prefix _ _).subset (List.mem_of_getElem? hn)

/-! ### Quotes, asterisks and blanks around a cell -/

/-- The text without its first symbol, if that is `c`. -/
def dropOne (c : Char) : Text → Text
  | [] => []
  | d :: s => if d = c then s else d :: s

/-- The text without its last symbol, if that is `c`. -/
def dropLastOne (c : Char) (s : Text) : Text := (dropOne c s.reverse).reverse

/-- `chomp; s/^"//; s/"$//` -/
def unQuote (s : Text) : Text := dropLastOne '"' (dropOne '"' (chomp s))

/-- `unQuote; s/\*//g; s/^\s+//; s/\s+$//` -/
def unQuoteStar (s : Text) : Text :=
  (((unQuote s).filter (· ≠ '*')).dropWhile isSpace).rdropWhile isSpace

/-- `s/^"([^"]*)"$/$1/g` -/
def readUnquote (s : Text) : Text :=
  Regex.gsub (.seq [.bos, .lit ['"'], .group 1 (.star (.sym (· ≠ '"'))), .lit ['"'],
    .eos (· = '\n')]) (fun c => (c.cap 1).getD []) s

theorem dropOne_sublist (c : Char) (s : Text) : (dropOne c s).Sublist s := by
  cases s with
  | nil => exact List.Sublist.refl []
  | cons d s =>
    rw [dropOne]
    split
    · exact List.sublist_cons_self d s
    · exact List.Sublist.refl _

theorem dropLastOne_sublist (c : Char) (s : Text) : (dropLastOne c s).Sublist s := by
  have h := (dropOne_sublist c s.reverse).reverse
  rwa [List.reverse_reverse] at h

theorem newline_not_mem_unQuote {s : Text} (h : '\n' ∉ s.dropLast) : '\n' ∉ unQuote s := fun hmem =>
  newline_not_mem_chomp h
    (((dropLastOne_sublist _ _).trans (dropOne_sublist _ _)).subset hmem)

/-! ### A word stays where it is -/

section Infix
variable {w : Text}

theorem infix_of_infix_cons {c : Char} {s : Text} (hw : w.head? ≠ some c) (hne : w ≠ [])
    (h : w <:+: c :: s) : w <:+: s := by
  rcases List.infix_cons_iff.mp h with hprefix | h
  · obtain ⟨d, w, rfl⟩ := List.exists_cons_of_ne_nil hne
    obtain rfl : d = c := (List.cons_prefix_cons.mp hprefix).1
    exact absurd rfl hw
  · exact h

theorem infix_dropOne {c : Char} {s : Text} (hw : w.head? ≠ some c) (hne : w ≠ [])
    (h : w <:+: s) : w <:+: dropOne c s := by
  cases s with
  | nil => exact h
  | cons d s =>
    rw [dropOne]
    split
    · rename_i hd
      exact infix_of_infix_cons (hd ▸ hw) hne h
    · exact h

theorem infix_dropWhile {p : Char → Bool} {s : Text} (hw : ∀ c ∈ w.head?, p c = false)
    (hne : w ≠ []) (h : w <:+: s) : w <:+: s.dropWhile p := by
  induction s with
  | nil => exact h
  | cons d s ih =>
    rw [List.dropWhile_cons]
    split
    · rename_i hd
      refine ih (infix_of_infix_cons (fun heq => ?_) hne h)
      rw [hw d heq] at hd
      cases hd
    · exact h

theorem reverse_infix_reverse {s : Text} : w.reverse <:+: s.reverse ↔ w <:+: s :=
  List.reverse_infix

theorem infix_dropLastOne {c : Char} {s : Text} (hw : w.getLast? ≠ some c) (hne : w ≠ [])
    (h : w <:+: s) : w <:+: dropLastOne c s := by
  rw [dropLastOne, ← reverse_infix_reverse, List.reverse_reverse]
  refine infix_dropOne ?_ (by simpa using hne) (reverse_infix_reverse.mpr h)
  rwa [List.head?_reverse]

theorem infix_rdropWhile {p : Char → Bool} {s : Text} (hw : ∀ c ∈ w.getLast?, p c = false)
    (hne : w ≠ []) (h : w <:+: s) : w <:+: s.rdropWhile p := by
  rw [List.rdropWhile, ← reverse_infix_reverse, List.reverse_reverse]
  refine infix_dropWhile ?_ (by simpa using hne) (reverse_infix_reverse.mpr h)
  rwa [List.head?_reverse]

theorem infix_chomp {s : Text} (hw : w.getLast? ≠ some '\n') (hne : w ≠ []) (h : w <:+: s) :
    w <:+: chomp s := by
  unfold chomp
  split
  · rename_i hlast
    have hdrop : dropLastOne '\n' s = s.dropLast := by
      rcases List.eq_nil_or_concat' s with rfl | ⟨t, c, rfl⟩
      · cases hlast
      · rw [List.getLast?_concat] at hlast
        obtain rfl := Option.some.inj hlast
        simp [dropLastOne, dropOne]
    rw [← hdrop]
    exact infix_dropLastOne hw hne h
  · exact h

/-- What `unQuoteStar` takes away of a cell is no part of a word. -/
theorem contains_unQuoteStar {word : String} {s : Text} (h : Contains s word)
    (hhead : ∀ c ∈ word.toList.head?, c ≠ '"' ∧ isSpace c = false)
    (hlast : ∀ c ∈ word.toList.getLast?, c ≠ '"' ∧ isSpace c = false)
    (hstar : '*' ∉ word.toList) (hne : word.toList ≠ []) : Contains (unQuoteStar s) word := by
  have hnewline : word.toList.getLast? ≠ some '\n' := fun heq => by
    cases (hlast _ heq).2
  have hquoted : word.toList <:+: unQuote s :=
    infix_dropLastOne (fun heq => (hlast _ heq).1 rfl) hne
      (infix_dropOne (fun heq => (hhead _ heq).1 rfl) hne (infix_chomp hnewline hne h))
  have hfiltered : word.toList <:+: (unQuote s).filter (· ≠ '*') := by
    have hkeep : word.toList.filter (· ≠ '*') = word.toList := by
      refine List.filter_eq_self.mpr fun c hc => ?_
      simpa using fun heq : c = '*' => hstar (heq ▸ hc)
    have hfilter := hquoted.filter (· ≠ '*')
    rwa [hkeep] at hfilter
  exact infix_rdropWhile (fun c hc => (hlast c hc).2) hne
    (infix_dropWhile (fun c hc => (hhead c hc).2) hne hfiltered)

end Infix

end Perl
