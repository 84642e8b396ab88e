import VleoNotebook.Lib.Text

/-! What a shell makes of a command substitution without quotes.

The newlines at its end are dropped, the rest is split at blanks and newlines, and a word with
a symbol of a pattern in it stands for the files that match it. Lines without a blank are
the words of the text they make (`fields_substituted`). Which file a pattern matches is left
open. -/
namespace Shell

open Perl (Text printLines)

/-- What words are split at. -/
def isBlank (c : Char) : Bool := c = ' ' || c = '\t' || c = '\n'

/-- The text of `$(...)`. -/
def substituted (output : Text) : Text := output.rdropWhile (· = '\n')

/-- The words of a text. -/
def fields (s : Text) : List Text := (s.splitOnP isBlank).filter (· ≠ [])

/-- What makes a pattern of a word. -/
def isPattern (word : Text) : Bool := word.any fun c => c = '*' || c = '?' || c = '['

/-- The words in place of a word: the files that it matches if it is a pattern and any do, else
the word itself. -/
def expand (matching : Text → Text → Bool) (existing : List Text) (word : Text) : List Text :=
  if isPattern word then
    match existing.filter (matching word) with
    | [] => [word]
    | found => found
  else
    [word]

/-- A word stands for another file only if it matches it. -/
theorem mem_expand_iff {matching : Text → Text → Bool} {existing : List Text} {word f : Text}
    (hne : f ≠ word) : f ∈ expand matching existing word ↔
      isPattern word = true ∧ f ∈ existing ∧ matching word f = true := by
  rw [expand]
  split
  next hpattern =>
    have hfilter : f ∈ existing.filter (matching word) ↔ f ∈ existing ∧ matching word f = true :=
      List.mem_filter
    split
    next hnone =>
      rw [hnone] at hfilter
      simp only [List.mem_singleton, hne, hpattern, true_and, ← hfilter, List.not_mem_nil]
    next => simp only [hpattern, true_and, hfilter]
  next hpattern => exact iff_of_false (by simpa using hne) fun h => hpattern h.1

theorem fields_cons {word : Text} (hne : word ≠ []) (hword : ∀ c ∈ word, isBlank c = false)
    {blank : Char} (hblank : isBlank blank = true) (rest : Text) :
    fields (word ++ blank :: rest) = word :: fields rest := by
  rw [fields, List.splitOnP_append_cons_of_forall_mem hword blank hblank, List.filter_cons,
    if_pos (by simpa using hne)]
  rfl

theorem fields_word {word : Text} (hne : word ≠ []) (hword : ∀ c ∈ word, isBlank c = false) :
    fields word = [word] := by
  rw [fields, List.splitOnP_eq_singleton hword, List.filter_cons, if_pos (by simpa using hne)]
  rfl

theorem fields_lines {ls : List Text} (hne : ∀ l ∈ ls, l ≠ [])
    (hls : ∀ l ∈ ls, ∀ c ∈ l, isBlank c = false) (rest : Text) :
    fields (printLines ls ++ rest) = ls ++ fields rest := by
  induction ls with
  | nil => rfl
  | cons l ls ih =>
    have hcons : printLines (l :: ls) ++ rest = l ++ '\n' :: (printLines ls ++ rest) := by
      simp [printLines]
    rw [hcons, fields_cons (hne l List.mem_cons_self) (hls l List.mem_cons_self) rfl,
      ih (fun l' h => hne l' (List.mem_cons_of_mem l h))
        (fun l' h => hls l' (List.mem_cons_of_mem l h)), List.cons_append]

/-- **The words of lines that are words.** -/
theorem fields_substituted {ls : List Text} (hne : ∀ l ∈ ls, l ≠ [])
    (hls : ∀ l ∈ ls, ∀ c ∈ l, isBlank c = false) :
    fields (substituted (printLines ls)) = ls := by
  obtain rfl | ⟨init, last, rfl⟩ := List.eq_nil_or_concat' ls
  · rfl
  have hlast : last ∈ init ++ [last] := List.mem_append_right init (List.mem_singleton_self last)
  obtain ⟨l, c, rfl⟩ := (List.eq_nil_or_concat' last).resolve_left (hne last hlast)
  have hc : isBlank c = false :=
    hls _ hlast c (List.mem_append_right l (List.mem_singleton_self c))
  have hsub : substituted (printLines (init ++ [l ++ [c]])) = printLines init ++ (l ++ [c]) := by
    have hprint : printLines (init ++ [l ++ [c]]) = (printLines init ++ l ++ [c]) ++ ['\n'] := by
      simp [printLines]
    have hnewline : ¬ decide (c = '\n') = true := by
      intro h
      rw [of_decide_eq_true h] at hc
      exact absurd hc (by decide)
    rw [substituted, hprint, List.rdropWhile_concat_pos _ _ _ (by decide),
      List.rdropWhile_concat_neg (fun c : Char => decide (c = '\n')) _ _ hnewline,
      List.append_assoc]
  rw [hsub, fields_lines (fun l' h => hne l' (List.mem_append_left _ h))
    (fun l' h => hls l' (List.mem_append_left _ h)), fields_word (hne _ hlast) (hls _ hlast)]

end Shell
