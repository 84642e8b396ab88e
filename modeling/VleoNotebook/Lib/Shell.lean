import VleoNotebook.Lib.Text

/-! The words of a shell command line, as far as quoting goes.

`words` takes quotes and backslashes away as a POSIX shell does. Where the shell would do
more than that (expand, match file names, run a second command), it has no answer. A text
put between quotes with its own quotes escaped is a word as it stands (`words_quote`). What
stands in front of an `&` after a quote too many gets shorter (`length_takeWhile_words`). -/
namespace Shell

open Perl (Text)

/-- Inside which quotes the next symbol stands, and whether behind a backslash. -/
inductive Mode where
  | plain
  | escape
  | single
  | double
  | doubleEscape
deriving DecidableEq, Repr

/-- What a shell acts on where it stands unquoted. -/
def special : Text := "|&;<>()$`*?[#~".toList

/-- The word begun, one symbol longer. -/
def put (word : Option Text) (c : Char) : Option Text := some (word.getD [] ++ [c])

/-- The word begun, if only by a quote. -/
def begun (word : Option Text) : Option Text := some (word.getD [])

/-- The words of the one command in a text, with the word begun so far. -/
def words : Mode → Option Text → Text → Option (List Text)
  | .plain, word, [] => some word.toList
  | _, _, [] => none
  | .plain, word, c :: s =>
    if c = '\x00' ∨ c ∈ special then none
    else if c = '\n' then if s = [] then some word.toList else none
    else if c = ' ' ∨ c = '\t' then (words .plain none s).map (word.toList ++ ·)
    else if c = '\\' then words .escape word s
    else if c = '\'' then words .single (begun word) s
    else if c = '"' then words .double (begun word) s
    else words .plain (put word c) s
  | .escape, word, c :: s =>
    if c = '\x00' then none
    else if c = '\n' then words .plain word s -- the line goes on
    else words .plain (put word c) s
  | .single, word, c :: s =>
    if c = '\x00' then none
    else if c = '\'' then words .plain word s
    else words .single (put word c) s
  | .double, word, c :: s =>
    if c = '\x00' ∨ c = '$' ∨ c = '`' then none
    else if c = '\\' then words .doubleEscape word s
    else if c = '"' then words .plain word s
    else words .double (put word c) s
  | .doubleEscape, word, c :: s =>
    if c = '\x00' then none
    else if c = '\n' then words .double word s
    else if c ∈ ['$', '`', '"', '\\'] then words .double (put word c) s
    else words .double (put (put word '\\') c) s

/-- Single quotes closed around each one of the text: `s/'/'\\''/g`. -/
def quote (s : Text) : Text := s.flatMap fun c => if c = '\'' then "'\\''".toList else [c]

/-! ### Between single quotes -/

theorem words_single {c : Char} (h : c ≠ '\x00') (h' : c ≠ '\'') (w s : Text) :
    words .single (some w) (c :: s) = words .single (some (w ++ [c])) s := by
  rw [words, if_neg h, if_neg h', put, Option.getD_some]

/-- A quote taken out of the quotes around it. -/
theorem words_single_quote (w s : Text) :
    words .single (some w) ("'\\''".toList ++ s) = words .single (some (w ++ ['\''])) s := rfl

/-- What is quoted is put to the word as it is. -/
theorem words_quote {t : Text} (h : '\x00' ∉ t) (w s : Text) :
    words .single (some w) (quote t ++ s) = words .single (some (w ++ t)) s := by
  induction t generalizing w with
  | nil => rw [quote, List.flatMap_nil, List.nil_append, List.append_nil]
  | cons c t ih =>
    have hc : c ≠ '\x00' := fun heq => h (heq ▸ List.mem_cons_self)
    have ih := ih (fun hmem => h (List.mem_cons_of_mem c hmem)) (w ++ [c])
    rw [quote, List.flatMap_cons, ← quote, List.append_assoc]
    by_cases hquote : c = '\''
    · subst hquote
      rw [if_pos rfl, words_single_quote, ih, List.append_assoc, List.singleton_append]
    · rw [if_neg hquote, List.singleton_append, words_single hc hquote, ih, List.append_assoc,
        List.singleton_append]

theorem quote_of_not_mem {t : Text} (h : '\'' ∉ t) : quote t = t := by
  induction t with
  | nil => rfl
  | cons c t ih =>
    have hc : c ≠ '\'' := fun heq => h (heq ▸ List.mem_cons_self)
    rw [quote, List.flatMap_cons, ← quote, if_neg hc, List.singleton_append,
      ih fun hmem => h (List.mem_cons_of_mem c hmem)]

/-! ### Without quotes -/

/-- A symbol that is put to a word without quotes. -/
def Ordinary (c : Char) : Prop :=
  c ∉ special ∧ c ∉ ['\x00', '\n', ' ', '\t', '\\', '\'', '"']

instance (c : Char) : Decidable (Ordinary c) := inferInstanceAs (Decidable (_ ∧ _))

/-- A text of such symbols. -/
def IsWord (t : Text) : Prop := ∀ c ∈ t, Ordinary c

instance (t : Text) : Decidable (IsWord t) := List.decidableBAll Ordinary t

theorem words_plain {c : Char} (h : Ordinary c) (word : Option Text) (s : Text) :
    words .plain word (c :: s) = words .plain (put word c) s := by
  obtain ⟨hspecial, hc⟩ := h
  simp only [List.mem_cons, List.not_mem_nil, or_false, not_or] at hc
  obtain ⟨hnul, hnewline, hblank, htab, hbackslash, hsingle, hdouble⟩ := hc
  rw [words, if_neg (by simp [hnul, hspecial]), if_neg hnewline, if_neg (by simp [hblank, htab]),
    if_neg hbackslash, if_neg hsingle, if_neg hdouble]

theorem words_word {t : Text} (h : IsWord t) (w s : Text) :
    words .plain (some w) (t ++ s) = words .plain (some (w ++ t)) s := by
  induction t generalizing w with
  | nil => rw [List.nil_append, List.append_nil]
  | cons c t ih =>
    rw [List.cons_append, words_plain (h c List.mem_cons_self), put, Option.getD_some,
      ih fun d hd => h d (List.mem_cons_of_mem c hd), List.append_assoc, List.singleton_append]

/-- A first word without quotes, and a second one in quotes. -/
theorem words_command {t : Text} (h : IsWord t) (hne : t ≠ []) (s : Text) :
    words .plain none (t ++ ' ' :: '\'' :: s) = (words .single (some []) s).map (t :: ·) := by
  obtain ⟨c, t, rfl⟩ := List.exists_cons_of_ne_nil hne
  have hrest : words .plain none ('\'' :: s) = words .single (some []) s := rfl
  have hblank (w : Text) : words .plain (some w) (' ' :: '\'' :: s) =
      (words .plain none ('\'' :: s)).map (w :: ·) := rfl
  have hput : put none c = some [c] := rfl
  rw [List.cons_append, words_plain (h c List.mem_cons_self), hput,
    words_word (fun d hd => h d (List.mem_cons_of_mem c hd)), hblank, hrest,
    List.singleton_append]

/-! ### The word begun -/

/-- What a word has begun with stays in front of it. -/
theorem words_some (m : Mode) (w s : Text) :
    words m (some w) s = (words m (some []) s).map (List.modifyHead (w ++ ·)) := by
  induction s generalizing m w with
  | nil => cases m <;> simp [words]
  | cons c s ih =>
    have hput (m : Mode) (v : Text) : words m (some (w ++ v)) s =
        (words m (some v) s).map (List.modifyHead (w ++ ·)) := by
      rw [ih m (w ++ v), ih m v, Option.map_map]
      refine congrArg (Option.map · _) (funext fun ws => ?_)
      cases ws <;> simp
    have hkeep (m : Mode) := hput m []
    simp only [List.append_nil] at hkeep
    cases m with
    | plain =>
      simp only [words, put, begun, Option.getD_some, List.nil_append, hput, hkeep]
      split
      · rfl
      · split
        · split
          · simp
          · rfl
        · split
          · cases words .plain none s <;> simp
          · split
            · rfl
            · split
              · rfl
              · split <;> rfl
    | escape =>
      simp only [words, put, Option.getD_some, List.nil_append, hput, hkeep]
      split
      · rfl
      · split <;> rfl
    | single =>
      simp only [words, put, Option.getD_some, List.nil_append, hput, hkeep]
      split
      · rfl
      · split <;> rfl
    | double =>
      simp only [words, put, Option.getD_some, List.nil_append, hput, hkeep]
      split
      · rfl
      · split
        · rfl
        · split <;> rfl
    | doubleEscape =>
      simp only [words, put, Option.getD_some, List.nil_append, List.append_assoc, hput, hkeep]
      split
      · rfl
      · split
        · rfl
        · split <;> rfl

theorem words_some_cons {m : Mode} {w s a : Text} {ws : List Text}
    (h : words m (some w) s = some (a :: ws)) :
    ∃ a', words m (some []) s = some (a' :: ws) ∧ a = w ++ a' := by
  rw [words_some] at h
  obtain ⟨vs, hvs, hhead⟩ := Option.map_eq_some_iff.mp h
  cases vs with
  | nil => cases hhead
  | cons v vs =>
    rw [List.modifyHead_cons] at hhead
    obtain ⟨rfl, rfl⟩ := List.cons.inj hhead
    exact ⟨v, hvs, rfl⟩

/-! ### One symbol -/

/-- The backslash in double quotes that may still have to be put. -/
def Mode.pending : Mode → Nat
  | .doubleEscape => 1
  | _ => 0

/-- The word is longer by no more than the symbols read for it. -/
def Grows (m m' : Mode) (word word' : Option Text) : Prop :=
  ∀ w, word = some w → ∃ t, word' = some (w ++ t) ∧ t.length + m'.pending ≤ 1 + m.pending

theorem grows_keep {m m' : Mode} (word : Option Text) (h : m'.pending ≤ 1 + m.pending) :
    Grows m m' word word := by
  rintro w rfl
  exact ⟨[], by rw [List.append_nil], by simpa using h⟩

theorem grows_begun {m m' : Mode} (word : Option Text) (h : m'.pending ≤ 1 + m.pending) :
    Grows m m' word (begun word) := by
  rintro w rfl
  exact ⟨[], by rw [List.append_nil]; rfl, by simpa using h⟩

theorem grows_put {m m' : Mode} (word : Option Text) (c : Char) (h : m'.pending ≤ m.pending) :
    Grows m m' word (put word c) := by
  rintro w rfl
  exact ⟨[c], rfl, Nat.add_le_add_left h 1⟩

theorem grows_put_put (word : Option Text) (c d : Char) :
    Grows .doubleEscape .double word (put (put word c) d) := by
  rintro w rfl
  exact ⟨[c, d], by simp [put], Nat.le_refl 2⟩

/-- What one symbol does: the last newline ends the words and a blank the word; any other
symbol goes to the word, or to its quotes. -/
theorem words_cons {m : Mode} {word : Option Text} {c : Char} {s : Text} {ws : List Text}
    (h : words m word (c :: s) = some ws) : c ≠ '\x00' ∧
      (s = [] ∨ (∃ vs, words .plain none s = some vs ∧ ws = word.toList ++ vs) ∨
        ∃ m' word', words m' word' s = some ws ∧ Grows m m' word word') := by
  cases m with
  | plain =>
    simp only [words] at h
    split at h
    · cases h
    · rename_i hc
      refine ⟨fun heq => hc (.inl heq), ?_⟩
      split at h
      · split at h
        · rename_i hnil
          exact .inl hnil
        · cases h
      · split at h
        · obtain ⟨vs, hvs, heq⟩ := Option.map_eq_some_iff.mp h
          exact .inr (.inl ⟨vs, hvs, heq.symm⟩)
        · refine .inr (.inr ?_)
          split_ifs at h
          · exact ⟨_, _, h, grows_keep word (Nat.zero_le _)⟩
          · exact ⟨_, _, h, grows_begun word (Nat.zero_le _)⟩
          · exact ⟨_, _, h, grows_begun word (Nat.zero_le _)⟩
          · exact ⟨_, _, h, grows_put word c (Nat.zero_le _)⟩
  | escape =>
    simp only [words] at h
    split_ifs at h with hc
    · exact ⟨hc, .inr (.inr ⟨_, _, h, grows_keep word (Nat.zero_le _)⟩)⟩
    · exact ⟨hc, .inr (.inr ⟨_, _, h, grows_put word c (Nat.zero_le _)⟩)⟩
  | single =>
    simp only [words] at h
    split_ifs at h with hc
    · exact ⟨hc, .inr (.inr ⟨_, _, h, grows_keep word (Nat.zero_le _)⟩)⟩
    · exact ⟨hc, .inr (.inr ⟨_, _, h, grows_put word c (Nat.zero_le _)⟩)⟩
  | double =>
    simp only [words] at h
    split at h
    · cases h
    · rename_i hc
      refine ⟨fun heq => hc (.inl heq), .inr (.inr ?_)⟩
      split_ifs at h
      · exact ⟨_, _, h, grows_keep word (Nat.le_refl 1)⟩
      · exact ⟨_, _, h, grows_keep word (Nat.zero_le _)⟩
      · exact ⟨_, _, h, grows_put word c (Nat.zero_le _)⟩
  | doubleEscape =>
    simp only [words] at h
    split_ifs at h with hc
    · exact ⟨hc, .inr (.inr ⟨_, _, h, grows_keep word (Nat.zero_le _)⟩)⟩
    · exact ⟨hc, .inr (.inr ⟨_, _, h, grows_put word c (Nat.zero_le _)⟩)⟩
    · exact ⟨hc, .inr (.inr ⟨_, _, h, grows_put_put word _ c⟩)⟩

/-- No word goes over a NUL. -/
theorem nul_not_mem_of_words {m : Mode} {word : Option Text} {s : Text} {ws : List Text}
    (h : words m word s = some ws) : '\x00' ∉ s := by
  induction s generalizing m word ws with
  | nil => exact List.not_mem_nil
  | cons c s ih =>
    obtain ⟨hc, hrest⟩ := words_cons h
    have hs : '\x00' ∉ s := by
      rcases hrest with rfl | ⟨vs, hvs, -⟩ | ⟨m', word', hws, -⟩
      · exact List.not_mem_nil
      · exact ih hvs
      · exact ih hws
    intro hmem
    rcases List.mem_cons.mp hmem with heq | hmem
    · exact hc heq.symm
    · exact hs hmem

/-! ### A quote too many -/

theorem length_takeWhile_append_le (p : Char → Bool) (s t : Text) :
    ((s ++ t).takeWhile p).length ≤ s.length + (t.takeWhile p).length := by
  induction s with
  | nil => simp
  | cons c s ih =>
    rw [List.cons_append, List.takeWhile_cons]
    split
    · simp only [List.length_cons]
      omega
    · simp

/-- However the text in front of an `&` is quoted, no more of the word stands in front of
it than was written. -/
theorem length_takeWhile_words {m : Mode} {v rest a : Text} {ws : List Text}
    (h : words m (some []) (v ++ '&' :: rest) = some (a :: ws)) :
    (a.takeWhile (· ≠ '&')).length ≤ v.length + m.pending := by
  induction v generalizing m a ws with
  | nil =>
    have hput {m : Mode} {w : Text} (h : words m (some (w ++ ['&'])) rest = some (a :: ws)) :
        (a.takeWhile (· ≠ '&')).length ≤ w.length := by
      obtain ⟨a', -, rfl⟩ := words_some_cons h
      rw [List.append_assoc]
      refine (length_takeWhile_append_le _ w _).trans (Nat.le_of_eq ?_)
      simp
    cases m with
    | plain => cases h
    | escape => exact hput (w := []) h
    | single => exact hput (w := []) h
    | double => exact hput (w := []) h
    | doubleEscape => exact hput (w := ['\\']) h
  | cons c v ih =>
    rw [List.cons_append] at h
    obtain ⟨-, hnil | ⟨vs, -, hws⟩ | ⟨m', word', hws, hgrows⟩⟩ := words_cons h
    · exact absurd hnil (List.append_ne_nil_of_right_ne_nil _ (List.cons_ne_nil _ _))
    · obtain rfl : a = [] := (List.cons.inj hws).1
      exact Nat.zero_le _
    · obtain ⟨t, rfl, ht⟩ := hgrows [] rfl
      obtain ⟨a', h', rfl⟩ := words_some_cons hws
      have hle := length_takeWhile_append_le (· ≠ '&') t a'
      have hrest := ih h'
      rw [List.nil_append, List.length_cons]
      omega

end Shell
