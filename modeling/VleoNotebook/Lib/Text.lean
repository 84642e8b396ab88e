import Mathlib.Data.List.DropRight
import VleoNotebook.Lib.Regex

/-! Text the way Perl scripts take it apart: lines, fields, blanks and quotes.

`join` and `split` are inverse on fields without the separator whose last one is not
empty (`split_join`), and so are printing lines and reading them (`lines_printLines`).
What is deleted at the ends of a text is nothing exactly when nothing of the kind
stands there. -/
namespace Perl

abbrev Text := List Char

/-- `\s` -/
def isSpace (c : Char) : Bool := c ∈ [' ', '\t', '\n', '\r', '\x0c', '\x0b']

/-! ### Fields -/

/-- `join($sep, @fields)` -/
def join (sep : Char) (fields : List Text) : Text := [sep].intercalate fields

/-- `split(m/$sep/, $s)`: empty fields at the end are dropped. -/
def split (sep : Char) (s : Text) : List Text := (s.splitOn sep).rdropWhile List.isEmpty

/-- `$fields[n]`, the empty text where there is none. -/
def field (fields : List Text) (n : Nat) : Text := fields.getD n []

theorem split_join {sep : Char} {fields : List Text} {last : Text}
    (hsep : ∀ f ∈ fields ++ [last], sep ∉ f) (hlast : last ≠ []) :
    split sep (join sep (fields ++ [last])) = fields ++ [last] := by
  rw [split, join, List.splitOn_intercalate sep hsep (by simp),
    List.rdropWhile_concat_neg _ _ _ (by simpa using hlast)]

theorem mem_join {sep c : Char} {fields : List Text} (h : c ∈ join sep fields) :
    c = sep ∨ ∃ f ∈ fields, c ∈ f := by
  induction fields with
  | nil => simp [join] at h
  | cons f fs ih =>
    cases fs with
    | nil => exact .inr ⟨f, List.mem_cons_self, by simpa [join] using h⟩
    | cons g gs =>
      rw [join, List.intercalate_cons_cons] at h
      rcases List.mem_append.mp h with h | h
      · rcases List.mem_append.mp h with h | h
        · exact .inr ⟨f, List.mem_cons_self, h⟩
        · exact .inl (List.mem_singleton.mp h)
      · obtain h | ⟨x, hx, hc⟩ := ih h
        · exact .inl h
        · exact .inr ⟨x, List.mem_cons_of_mem f hx, hc⟩

theorem join_cons {sep : Char} (f : Text) {fields : List Text} (h : fields ≠ []) :
    join sep (f :: fields) = f ++ sep :: join sep fields := by
  obtain ⟨g, fields, rfl⟩ := List.exists_cons_of_ne_nil h
  rw [join, List.intercalate_cons_cons, List.append_assoc]
  rfl

theorem join_concat_nil {sep : Char} {fields : List Text} (h : fields ≠ []) :
    join sep (fields ++ [[]]) = join sep fields ++ [sep] := by
  induction fields with
  | nil => exact absurd rfl h
  | cons f fields ih =>
    by_cases hne : fields = []
    · subst hne
      rw [List.singleton_append, join_cons f (List.cons_ne_nil [] []), join, join]
      simp
    · rw [List.cons_append, join_cons f (by simp), ih hne, join_cons f hne]
      simp

/-- The empty fields at the end are separators there. -/
theorem join_dropEmpty (sep : Char) (fields : List Text) :
    ∃ k, join sep fields =
      join sep (fields.rdropWhile List.isEmpty) ++ List.replicate k sep := by
  induction fields using List.reverseRecOn with
  | nil => exact ⟨0, rfl⟩
  | append_singleton fields f ih =>
    by_cases hf : f = []
    · subst hf
      obtain ⟨k, hk⟩ := ih
      rw [List.rdropWhile_concat_pos _ _ _ rfl]
      by_cases hne : fields = []
      · subst hne
        exact ⟨0, rfl⟩
      · refine ⟨k + 1, ?_⟩
        rw [join_concat_nil hne, hk, List.replicate_succ', List.append_assoc]
    · rw [List.rdropWhile_concat_neg _ _ _ (by simpa using hf)]
      exact ⟨0, (List.append_nil _).symm⟩

theorem split_of_not_mem {sep : Char} {s : Text} (h : sep ∉ s) :
    split sep s = if s = [] then [] else [s] := by
  rw [split, List.splitOn_eq_singleton h, List.rdropWhile_singleton]
  simp only [List.isEmpty_iff]

theorem not_mem_of_mem_splitOn {sep : Char} {s f : Text} (h : f ∈ s.splitOn sep) : sep ∉ f := by
  induction s generalizing f with
  | nil =>
    rw [List.splitOn_nil, List.mem_singleton] at h
    rw [h]
    exact List.not_mem_nil
  | cons c s ih =>
    obtain ⟨g, gs, hg⟩ := List.exists_cons_of_ne_nil (List.splitOn_ne_nil sep s)
    rw [List.splitOn_cons_eq_if_modifyHead, hg] at h
    rw [hg] at ih
    by_cases hc : c = sep
    · rw [if_pos (beq_iff_eq.mpr hc)] at h
      rcases List.mem_cons.mp h with rfl | h
      · exact List.not_mem_nil
      · exact ih h
    · rw [if_neg (by simpa using hc), List.modifyHead_cons] at h
      rcases List.mem_cons.mp h with rfl | h
      · -- the first piece has grown by a symbol that is not the separator
        intro hmem
        rcases List.mem_cons.mp hmem with rfl | hmem
        · exact hc rfl
        · exact ih List.mem_cons_self hmem
      · exact ih (List.mem_cons_of_mem g h)

theorem not_mem_of_mem_split {sep : Char} {s f : Text} (h : f ∈ split sep s) : sep ∉ f :=
  not_mem_of_mem_splitOn ((List.rdropWhile_prefix _ _).subset h)

theorem not_mem_field {sep : Char} (s : Text) (n : Nat) : sep ∉ field (split sep s) n := by
  rw [field, List.getD_eq_getElem?_getD]
  cases h : (split sep s)[n]? with
  | none => exact List.not_mem_nil
  | some f => exact not_mem_of_mem_split (List.mem_of_getElem? h)

/-! ### Lines -/

/-- `print "$line\n"` for every line. -/
def printLines (ls : List Text) : Text := ls.flatMap (· ++ ['\n'])

/-- The lines `while(<>)` reads, chomped. -/
def lines (s : Text) : List Text :=
  let ls := s.splitOn '\n'
  if ls.getLast? = some [] then ls.dropLast else ls

theorem splitOn_printLines {ls : List Text} (h : ∀ l ∈ ls, '\n' ∉ l) :
    (printLines ls).splitOn '\n' = ls ++ [[]] := by
  induction ls with
  | nil => rfl
  | cons l ls ih =>
    have hrest : printLines (l :: ls) = l ++ '\n' :: printLines ls := by
      simp [printLines]
    rw [hrest, List.splitOn_append_cons_self_of_not_mem (h l List.mem_cons_self),
      ih fun x hx => h x (List.mem_cons_of_mem l hx), List.cons_append]

theorem lines_printLines {ls : List Text} (h : ∀ l ∈ ls, '\n' ∉ l) :
    lines (printLines ls) = ls := by
  simp only [lines, splitOn_printLines h, List.getLast?_concat, if_true, List.dropLast_concat]

/-! ### Deleting at the ends -/

/-- `s/^\s*//` -/
def dropBlanks (s : Text) : Text :=
  Regex.sub (.cat .bos (.star (.sym isSpace))) (fun _ => []) s

/-- `s/^"//g` -/
def dropQuote (s : Text) : Text :=
  Regex.gsub (.cat .bos (.lit ['"'])) (fun _ => []) s

/-- `s/"$//g`; `$` also matches in front of a final newline. -/
def dropLastQuote (s : Text) : Text :=
  Regex.gsub (.cat (.lit ['"']) (.eos (· = '\n'))) (fun _ => []) s

theorem dropBlanks_sublist (s : Text) : (dropBlanks s).Sublist s := Regex.sub_sublist _ s

theorem dropQuote_sublist (s : Text) : (dropQuote s).Sublist s := Regex.gsub_sublist _ s

theorem dropLastQuote_sublist (s : Text) : (dropLastQuote s).Sublist s := Regex.gsub_sublist _ s

theorem dropBlanks_eq (s : Text) : dropBlanks s = s.dropWhile isSpace := by
  have hfirst : Regex.first (.cat .bos (.star (.sym isSpace))) true s =
      some ⟨(s.takeWhile isSpace).isEmpty, s.dropWhile isSpace, []⟩ :=
    Regex.head?_outcomes_cat (d := ⟨true, s, []⟩) rfl (Regex.outcomes_star_sym isSpace _)
  rw [dropBlanks, Regex.sub_match _ hfirst, List.nil_append]

theorem dropBlanks_eq_self_iff (s : Text) : dropBlanks s = s ↔ ∀ c ∈ s.head?, ¬ isSpace c := by
  rw [dropBlanks_eq]
  cases s with
  | nil => simp
  | cons c s => simp [List.dropWhile_eq_self_iff]

theorem first_quote_start (c : Char) (s : Text) :
    Regex.first (.cat .bos (.lit ['"'])) true (c :: s) =
      if c = '"' then some ⟨false, s, []⟩ else none := by
  by_cases hc : c = '"' <;> simp [Regex.first, hc]

theorem first_quote_behind (s : Text) :
    Regex.first (.cat .bos (.lit ['"'])) false s = none := rfl

theorem dropQuote_eq_self_iff (s : Text) : dropQuote s = s ↔ s.head? ≠ some '"' := by
  cases s with
  | nil => exact iff_of_true rfl nofun
  | cons c s =>
    by_cases hc : c = '"'
    · have hdrop : dropQuote (c :: s) = s := by
        rw [dropQuote, Regex.gsub,
          Regex.gsubFrom_match _ _ ((first_quote_start c s).trans (if_pos hc))
            (Nat.lt_succ_self _),
          Regex.gsubFrom_of_none _ _ first_quote_behind first_quote_behind,
          List.nil_append]
      rw [hdrop]
      exact iff_of_false (List.ne_cons_self (a := c)) (by simp [hc])
    · have hkeep : dropQuote (c :: s) = c :: s := by
        rw [dropQuote, Regex.gsub,
          Regex.gsubFrom_skip _ _ ((first_quote_start c s).trans (if_neg hc)),
          Regex.gsubFrom_of_none _ _ first_quote_behind first_quote_behind]
      exact iff_of_true hkeep (by simp [hc])

theorem first_lastQuote (b : Bool) (c : Char) {s : Text} (hs : '\n' ∉ s) :
    Regex.first (.cat (.lit ['"']) (.eos (· = '\n'))) b (c :: s) =
      if c = '"' ∧ s = [] then some ⟨false, [], []⟩ else none := by
  by_cases hc : c = '"'
  · cases s with
    | nil => simp [Regex.first, hc]
    | cons d t =>
      have hd : d ≠ '\n' := fun h => hs (h ▸ List.mem_cons_self)
      cases t <;> simp [Regex.first, hc, hd]
  · simp [Regex.first, hc]

theorem gsubFrom_lastQuote_eq_self_iff (b : Bool) {s : Text} (hs : '\n' ∉ s) :
    Regex.gsubFrom (.cat (.lit ['"']) (.eos (· = '\n'))) (fun _ => []) b s = s ↔
      s.getLast? ≠ some '"' := by
  induction s generalizing b with
  | nil => exact iff_of_true (Regex.gsubFrom_nil _ _ rfl) nofun
  | cons c s ih =>
    have hs' : '\n' ∉ s := fun h => hs (List.mem_cons_of_mem c h)
    by_cases hend : c = '"' ∧ s = []
    · obtain ⟨rfl, rfl⟩ := hend
      rw [Regex.gsubFrom_match _ _ ((first_lastQuote b '"' hs').trans (if_pos ⟨rfl, rfl⟩))
        (Nat.lt_succ_self 0), Regex.gsubFrom_nil _ _ rfl]
      simp
    · rw [Regex.gsubFrom_skip _ _ ((first_lastQuote b c hs').trans (if_neg hend)),
        List.cons.injEq, ih false hs']
      cases s with
      | nil => simpa using hend
      | cons d t => simp [List.getLast?_cons_cons]

theorem dropLastQuote_eq_self_iff {s : Text} (hs : '\n' ∉ s) :
    dropLastQuote s = s ↔ s.getLast? ≠ some '"' :=
  gsubFrom_lastQuote_eq_self_iff true hs

end Perl
