import VleoNotebook.Lib.Shell
import VleoNotebook.Lib.Uri
import VleoNotebook.Ledger.Generators

/-! The command lines that carry the postings.

A posting is printed as a call of `gl.pl` with one argument in single quotes, a query of
keys and values. Texts go through `uri_escape` and have their quotes escaped for the shell;
accounts and amounts are put in as they are. So the line carries the posting exactly when
these leave the quotes and the query alone (`carries_iff`): always where the script makes
them, and for `csv2sqlledger_gl` when the fields they are taken from are `Plain`. -/
namespace VleoNotebook.Ledger

open Perl (Text Number field split)
open Perl.Number (numify sprintf2)

/-! ### Printing a posting -/

/-- A key of the query with its value. -/
structure Param where
  key : Text
  value : Text
  /-- The value goes through `uri_escape` and `sqesc`. -/
  isText : Bool
deriving DecidableEq

/-- What is printed under these keys in front of the last one, in the order of the format. -/
def Posting.params (p : Posting) : List Param :=
  [⟨"action".toList, "post".toList, false⟩,
    ⟨"login".toList, "vleo".toList, false⟩,
    ⟨"password".toList, "tmxsybs".toList, false⟩,
    ⟨"path".toList, "bin/mozilla".toList, false⟩,
    ⟨"transdate".toList, p.transdate, true⟩,
    ⟨"description".toList, p.description, true⟩,
    ⟨"accno_1".toList, p.accno1, false⟩,
    ⟨"debit_1".toList, p.debit1, false⟩,
    ⟨"accno_2".toList, p.accno2, false⟩,
    ⟨"credit_2".toList, p.credit2, false⟩,
    ⟨"rowcount".toList, "2".toList, false⟩]

/-- `$acctsrc` and `$acctmemo` -/
def Posting.sideKey (p : Posting) (name : String) : Text := name.toList ++ Nat.toDigits 10 p.side

def Posting.source (p : Posting) : Param := ⟨p.sideKey "source_", "PSBREPORT".toList, true⟩

/-- All of the query: the memo only if there is one. -/
def Posting.allParams (p : Posting) : List Param :=
  p.params ++ p.source :: (p.memo.map fun memo => ⟨p.sideKey "memo_", memo, true⟩).toList

section Print
variable (uriEscape : Text → Option Text)

/-- `%s` for a value. -/
def Param.print (a : Param) : Option Text :=
  if a.isText then (uriEscape a.value).map Shell.quote else some a.value

/-- The format string filled in. -/
def printParams : List Param → Option (List Text)
  | [] => some []
  | a :: as => do
    let value ← a.print uriEscape
    let rest ← printParams as
    some ((a.key ++ '=' :: value) :: rest)

/-- What is printed for a posting; `none` if `uri_escape` dies. -/
def Posting.commandLine (command : String) (p : Posting) : Option Text :=
  (printParams uriEscape p.allParams).map fun params =>
    command.toList ++ " '".toList ++ Perl.join '&' params ++ "'\n".toList

end Print

/-- The program that is called. -/
def Row.command : Row → String
  | .csv2sqlledger _ _ => "./gl.pl"
  | _ => "gl.pl"

/-! ### What is asked -/

/-- The shell finds one command with one argument in the line, and in that the keys and
values of the posting. -/
def Carries (command : String) (p : Posting) (line : Text) : Prop :=
  ∃ arg, Shell.words .plain none line = some [command.toList, arg] ∧
    Uri.query arg = p.allParams.map fun a => [a.key, a.value]

/-- What `uri_escape` is relied on for: what it returns is its argument, a text of bytes,
percent-encoded. -/
def Escapes (uriEscape : Text → Option Text) : Prop :=
  ∀ s t, uriEscape s = some t → (∀ c ∈ s, c.toNat < 256) ∧ t = Uri.escaped s

/-- A value that is carried as it is printed. -/
structure Literal (s : Text) : Prop where
  no_nul : '\x00' ∉ s
  no_quote : '\'' ∉ s
  no_ampersand : '&' ∉ s
  no_equals : '=' ∉ s
  no_escape : ¬ Uri.HasEscape s

/-! ### One parameter -/

/-- The text in single quotes is one word, a query with these pairs. -/
def Reads (s : Text) (pairs : List (List Text)) : Prop :=
  ∃ arg, Shell.words .single (some []) s = some [arg] ∧ Uri.query arg = pairs

/-- A key of letters, digits and underscores. -/
def IsKey (key : Text) : Prop := ∀ c ∈ key, c.isAlphanum ∨ c = '_'

instance (key : Text) : Decidable (IsKey key) := List.decidableBAll (fun _ => _) key

theorem IsKey.not_mem {key : Text} (h : IsKey key) {c : Char} (hc : ¬ (c.isAlphanum ∨ c = '_')) :
    c ∉ key := fun hmem => hc (h c hmem)

section Step
variable {key : Text} (hkey : IsKey key)

include hkey in
theorem not_mem_key : '&' ∉ key ∧ '=' ∉ key ∧ '%' ∉ key :=
  ⟨hkey.not_mem (by decide), hkey.not_mem (by decide), hkey.not_mem (by decide)⟩

include hkey in
/-- A key and what is put in quotes behind it go to the word as they are. -/
theorem words_pair {e : Text} (he : '\x00' ∉ e) (s : Text) :
    Shell.words .single (some []) (key ++ '=' :: (Shell.quote e ++ s)) =
      Shell.words .single (some (key ++ '=' :: e)) s := by
  have hquote : Shell.quote (key ++ '=' :: e) = key ++ '=' :: Shell.quote e := by
    have hkeep := Shell.quote_of_not_mem (hkey.not_mem (by decide : ¬ (_ ∨ '\'' = '_')))
    rw [Shell.quote, List.flatMap_append, ← Shell.quote, hkeep, List.flatMap_cons, ← Shell.quote]
    rfl
  have hnul : '\x00' ∉ key ++ '=' :: e := by
    have hnot : '\x00' ∉ key := hkey.not_mem (by decide)
    simp [hnot, he]
  have hwords := Shell.words_quote hnul [] s
  rw [hquote, List.append_assoc, List.cons_append, List.nil_append] at hwords
  exact hwords

include hkey in
/-- What goes through the quotes is read before the rest. -/
theorem reads_cons {e : Text} (he : '\x00' ∉ e) (hseparator : '&' ∉ e) (s : Text)
    (pair : List Text) (pairs : List (List Text)) :
    Reads (key ++ '=' :: (Shell.quote e ++ '&' :: s)) (pair :: pairs) ↔
      ((key ++ '=' :: e).splitOn '=').map Uri.unescape = pair ∧ Reads s pairs := by
  have hwords : Shell.words .single (some []) (key ++ '=' :: (Shell.quote e ++ '&' :: s)) =
      (Shell.words .single (some []) s).map
        (List.modifyHead (key ++ '=' :: e ++ ['&'] ++ ·)) := by
    rw [words_pair hkey he, Shell.words_single (by decide) (by decide), Shell.words_some]
  have hquery (arg : Text) : Uri.query (key ++ '=' :: e ++ ['&'] ++ arg) =
      ((key ++ '=' :: e).splitOn '=').map Uri.unescape :: Uri.query arg := by
    rw [List.append_assoc, List.singleton_append, Uri.query_cons (not_mem_key hkey) hseparator]
  constructor
  · rintro ⟨arg, harg, hpairs⟩
    rw [hwords] at harg
    obtain ⟨ws, hws, hhead⟩ := Option.map_eq_some_iff.mp harg
    obtain ⟨w, rfl⟩ : ∃ w, ws = [w] := by
      cases ws with
      | nil => cases hhead
      | cons w ws =>
        obtain ⟨-, rfl⟩ := List.cons.inj hhead
        exact ⟨w, rfl⟩
    obtain rfl : key ++ '=' :: e ++ ['&'] ++ w = arg := (List.cons.inj hhead).1
    rw [hquery] at hpairs
    exact ⟨(List.cons.inj hpairs).1, w, hws, (List.cons.inj hpairs).2⟩
  · rintro ⟨rfl, arg, harg, rfl⟩
    exact ⟨_, by rw [hwords, harg]; rfl, hquery arg⟩

include hkey in
/-- A value with a quote comes out too short. -/
theorem not_reads_of_quote {value s : Text} {pairs : List (List Text)} (h : '\'' ∈ value) :
    ¬ Reads (key ++ '=' :: (value ++ '&' :: s)) ([key, value] :: pairs) := by
  rintro ⟨arg, harg, hpairs⟩
  obtain ⟨u, v, hvalue, hu⟩ := List.eq_append_cons_of_mem h
  have hnul : '\x00' ∉ u := fun hmem => Shell.nul_not_mem_of_words harg (by simp [hvalue, hmem])
  have htext : value ++ '&' :: s = Shell.quote u ++ '\'' :: (v ++ '&' :: s) := by
    rw [Shell.quote_of_not_mem hu, hvalue, List.append_assoc, List.cons_append]
  -- behind the quote the shell reads on without quotes
  have hplain : Shell.words .plain (some (key ++ '=' :: u)) (v ++ '&' :: s) = some [arg] := by
    rw [htext, words_pair hkey hnul] at harg
    exact harg
  obtain ⟨a, ha, rfl⟩ := Shell.words_some_cons hplain
  have hshort := Shell.length_takeWhile_words ha
  rw [List.append_assoc, List.cons_append] at hpairs
  have hlong := Uri.length_le_of_query (not_mem_key hkey) hpairs
  have happend := Shell.length_takeWhile_append_le (· ≠ '&') u a
  have hlen : value.length = u.length + (v.length + 1) := by
    rw [hvalue, List.length_append, List.length_cons]
  have hpending : Shell.Mode.plain.pending = 0 := rfl
  omega

include hkey in
/-- A value put in as it is has to be a literal. -/
theorem reads_literal_iff {value s : Text} {pairs : List (List Text)} :
    Reads (key ++ '=' :: (value ++ '&' :: s)) ([key, value] :: pairs) ↔
      Literal value ∧ Reads s pairs := by
  have hpair : ((key ++ '=' :: value).splitOn '=').map Uri.unescape = [key, value] ↔
      '=' ∉ value ∧ ¬ Uri.HasEscape value := Uri.splitOn_pair_iff (not_mem_key hkey)
  have hstep (hnul : '\x00' ∉ value) (hquote : '\'' ∉ value) (hampersand : '&' ∉ value) :
      Reads (key ++ '=' :: (value ++ '&' :: s)) ([key, value] :: pairs) ↔
        ('=' ∉ value ∧ ¬ Uri.HasEscape value) ∧ Reads s pairs := by
    have hcons := reads_cons hkey hnul hampersand s [key, value] pairs
    rwa [Shell.quote_of_not_mem hquote, hpair] at hcons
  constructor
  · intro h
    have hquote : '\'' ∉ value := fun hmem => not_reads_of_quote hkey hmem h
    have hnul : '\x00' ∉ value := by
      obtain ⟨arg, harg, -⟩ := h
      exact fun hmem => Shell.nul_not_mem_of_words harg (by simp [hmem])
    have hampersand : '&' ∉ value := by
      obtain ⟨arg, harg, hpairs⟩ := h
      rw [← Shell.quote_of_not_mem hquote, words_pair hkey hnul] at harg
      obtain ⟨a, -, rfl⟩ := Shell.words_some_cons harg
      rw [List.append_assoc, List.cons_append] at hpairs
      exact Uri.not_mem_of_query (not_mem_key hkey) hpairs
    obtain ⟨⟨hequals, hescape⟩, hreads⟩ := (hstep hnul hquote hampersand).mp h
    exact ⟨⟨hnul, hquote, hampersand, hequals, hescape⟩, hreads⟩
  · rintro ⟨hvalue, hreads⟩
    exact (hstep hvalue.no_nul hvalue.no_quote hvalue.no_ampersand).mpr
      ⟨⟨hvalue.no_equals, hvalue.no_escape⟩, hreads⟩

include hkey in
/-- A text that is escaped is read as it was. -/
theorem reads_escaped_iff {value s : Text} {pairs : List (List Text)}
    (hbytes : ∀ c ∈ value, c.toNat < 256) :
    Reads (key ++ '=' :: (Shell.quote (Uri.escaped value) ++ '&' :: s)) ([key, value] :: pairs) ↔
      Reads s pairs := by
  rw [reads_cons hkey (Uri.not_mem_escaped (by decide) (by decide))
    (Uri.not_mem_escaped (by decide) (by decide)),
    Uri.splitOn_pair (not_mem_key hkey) (Uri.not_mem_escaped (by decide) (by decide)),
    Uri.unescape_escaped hbytes, and_iff_right rfl]

include hkey in
/-- At the end it is read, too. -/
theorem reads_last {value : Text} (hbytes : ∀ c ∈ value, c.toNat < 256) :
    Reads (key ++ '=' :: (Shell.quote (Uri.escaped value) ++ "'\n".toList)) [[key, value]] := by
  refine ⟨key ++ '=' :: Uri.escaped value, ?_, ?_⟩
  · rw [words_pair hkey (Uri.not_mem_escaped (by decide) (by decide))]
    rfl
  · rw [Uri.query_pair (not_mem_key hkey) (Uri.not_mem_escaped (by decide) (by decide))
      (Uri.not_mem_escaped (by decide) (by decide)), Uri.unescape_escaped hbytes]

end Step

/-! ### The whole line -/

/-- No symbol of the text could mean anything else. -/
def IsInert (s : Text) : Prop := ∀ c ∈ s, c ∉ ['\x00', '\'', '&', '=', '%']

instance (s : Text) : Decidable (IsInert s) := List.decidableBAll (fun c : Char => c ∉ _) s

theorem IsInert.literal {s : Text} (h : IsInert s) : Literal s := by
  have hnot {c : Char} (hc : c ∈ ['\x00', '\'', '&', '=', '%']) : c ∉ s := fun hmem => h c hmem hc
  exact ⟨hnot (by decide), hnot (by decide), hnot (by decide), hnot (by decide),
    Uri.not_hasEscape_of_not_mem (hnot (by decide))⟩

/-- A parameter that can be printed as it is. -/
def Param.Sound (a : Param) : Prop := a.isText = false → Literal a.value

def Param.pair (a : Param) : List Text := [a.key, a.value]

section Lines
variable {uriEscape : Text → Option Text} (hescapes : Escapes uriEscape)

theorem printParams_cons {a : Param} {as : List Param} {items : List Text}
    (h : printParams uriEscape (a :: as) = some items) :
    ∃ value rest, a.print uriEscape = some value ∧ printParams uriEscape as = some rest ∧
      items = (a.key ++ '=' :: value) :: rest := by
  simp only [printParams, Option.bind_eq_bind, Option.bind_eq_some_iff, Option.some.injEq] at h
  obtain ⟨value, hvalue, rest, hrest, rfl⟩ := h
  exact ⟨value, rest, hvalue, hrest, rfl⟩

include hescapes in
theorem print_text {a : Param} {v : Text} (ha : a.isText = true) (h : a.print uriEscape = some v) :
    (∀ c ∈ a.value, c.toNat < 256) ∧ v = Shell.quote (Uri.escaped a.value) := by
  rw [Param.print, if_pos ha] at h
  obtain ⟨t, ht, rfl⟩ := Option.map_eq_some_iff.mp h
  obtain ⟨hbytes, rfl⟩ := hescapes _ _ ht
  exact ⟨hbytes, rfl⟩

include hescapes in
/-- One parameter after the other is read, as long as each is sound. -/
theorem reads_params_iff {as : List Param} {last : Param} {items : List Text}
    (hkeys : ∀ a ∈ as, IsKey a.key) (hkey : IsKey last.key) (hlast : last.isText = true)
    (h : printParams uriEscape (as ++ [last]) = some items) :
    Reads (Perl.join '&' items ++ "'\n".toList) ((as ++ [last]).map Param.pair) ↔
      ∀ a ∈ as, a.Sound := by
  induction as generalizing items with
  | nil =>
    obtain ⟨v, rest, hv, hrest, rfl⟩ := printParams_cons h
    obtain rfl : [] = rest := Option.some.inj hrest
    obtain ⟨hbytes, rfl⟩ := print_text hescapes hlast hv
    have hjoin (item : Text) : Perl.join '&' [item] = item := by simp [Perl.join]
    refine iff_of_true ?_ (List.forall_mem_nil _)
    rw [hjoin, List.append_assoc, List.cons_append]
    exact reads_last hkey hbytes
  | cons a as ih =>
    obtain ⟨v, rest, hv, hrest, rfl⟩ := printParams_cons h
    have hne : rest ≠ [] := by
      rintro rfl
      cases as <;> obtain ⟨_, _, _, _, hnil⟩ := printParams_cons hrest <;> cases hnil
    have htext : Perl.join '&' ((a.key ++ '=' :: v) :: rest) ++ "'\n".toList =
        a.key ++ '=' :: (v ++ '&' :: (Perl.join '&' rest ++ "'\n".toList)) := by
      obtain ⟨r, rs, rfl⟩ := List.exists_cons_of_ne_nil hne
      simp [Perl.join, List.intercalate_cons_cons]
    have ih := ih (fun b hb => hkeys b (List.mem_cons_of_mem a hb)) hrest
    have hakey := hkeys a List.mem_cons_self
    rw [htext, List.cons_append, List.map_cons, Param.pair, List.forall_mem_cons, ← ih]
    cases ha : a.isText with
    | true =>
      obtain ⟨hbytes, rfl⟩ := print_text hescapes ha hv
      rw [reads_escaped_iff hakey hbytes]
      exact (and_iff_right fun hfalse => by rw [ha] at hfalse; cases hfalse).symm
    | false =>
      rw [Param.print, ha, if_neg Bool.false_ne_true] at hv
      obtain rfl := Option.some.inj hv
      rw [reads_literal_iff hakey]
      exact and_congr_left' ⟨fun h _ => h, fun h => h ha⟩

namespace Posting
variable {p : Posting}

theorem isKey_sideKey {name : String} (h : IsKey name.toList) : IsKey (p.sideKey name) := by
  intro c hc
  rcases List.mem_append.mp hc with hc | hc
  · exact h c hc
  · exact .inl (by simp [Char.isAlphanum, Perl.isDigit_of_mem_toDigits hc])

theorem isKey_params {a : Param} (h : a ∈ p.params) : IsKey a.key := by
  have hall : ∀ key ∈ p.params.map Param.key, IsKey key := by
    simp only [params, List.map_cons, List.map_nil]
    decide
  exact hall a.key (List.mem_map_of_mem h)

theorem sound_params_iff : (∀ a ∈ p.params, a.Sound) ↔
    Literal p.accno1 ∧ Literal p.debit1 ∧ Literal p.accno2 ∧ Literal p.credit2 := by
  constructor
  · intro h
    have hvalue (key : Text) {value : Text} (hmem : ⟨key, value, false⟩ ∈ p.params) :
        Literal value := h _ hmem rfl
    exact ⟨hvalue "accno_1".toList (by simp [params]),
      hvalue "debit_1".toList (by simp [params]),
      hvalue "accno_2".toList (by simp [params]),
      hvalue "credit_2".toList (by simp [params])⟩
  · rintro ⟨haccno1, hdebit1, haccno2, hcredit2⟩ a ha
    simp only [params, List.mem_cons, List.not_mem_nil, or_false] at ha
    rcases ha with rfl | rfl | rfl | rfl | rfl | rfl | rfl | rfl | rfl | rfl | rfl
    · exact fun _ => IsInert.literal (by decide)
    · exact fun _ => IsInert.literal (by decide)
    · exact fun _ => IsInert.literal (by decide)
    · exact fun _ => IsInert.literal (by decide)
    · nofun
    · nofun
    · exact fun _ => haccno1
    · exact fun _ => hdebit1
    · exact fun _ => haccno2
    · exact fun _ => hcredit2
    · exact fun _ => IsInert.literal (by decide)

/-- The last parameter is a text, and those behind `rowcount` are. -/
theorem allParams_eq (p : Posting) : ∃ as last, p.allParams = p.params ++ as ++ [last] ∧
    (∀ a ∈ last :: as, a.isText = true ∧ IsKey a.key) := by
  have hsource : p.source.isText = true ∧ IsKey p.source.key :=
    ⟨rfl, isKey_sideKey (by decide)⟩
  cases hmemo : p.memo with
  | none => exact ⟨[], p.source, by simp [allParams, hmemo], by simpa using hsource⟩
  | some memo =>
    have hkey : IsKey (p.sideKey "memo_") := isKey_sideKey (by decide)
    refine ⟨[p.source], ⟨p.sideKey "memo_", memo, true⟩, by simp [allParams, hmemo], ?_⟩
    simpa using ⟨hkey, hsource⟩

include hescapes in
/-- A line carries its posting exactly when what is put in as it is is literal. -/
theorem carries_iff_literal {command : String} {line : Text}
    (hcommand : Shell.IsWord command.toList) (hne : command.toList ≠ [])
    (h : p.commandLine uriEscape command = some line) : Carries command p line ↔
      Literal p.accno1 ∧ Literal p.debit1 ∧ Literal p.accno2 ∧ Literal p.credit2 := by
  obtain ⟨items, hitems, rfl⟩ := Option.map_eq_some_iff.mp h
  obtain ⟨as, last, hall, htexts⟩ := p.allParams_eq
  have hlast := htexts last List.mem_cons_self
  have hkeys : ∀ a ∈ p.params ++ as, IsKey a.key := by
    intro a ha
    rcases List.mem_append.mp ha with ha | ha
    · exact isKey_params ha
    · exact (htexts a (List.mem_cons_of_mem last ha)).2
  have hsound : (∀ a ∈ p.params ++ as, a.Sound) ↔ ∀ a ∈ p.params, a.Sound := by
    rw [List.forall_mem_append]
    refine and_iff_left fun a ha hfalse => ?_
    rw [(htexts a (List.mem_cons_of_mem last ha)).1] at hfalse
    cases hfalse
  rw [hall] at hitems
  rw [← sound_params_iff, ← hsound, ← reads_params_iff hescapes hkeys hlast.2 hlast.1 hitems,
    ← hall]
  have hwords := Shell.words_command hcommand hne (Perl.join '&' items ++ "'\n".toList)
  have hline : command.toList ++ " '".toList ++ Perl.join '&' items ++ "'\n".toList =
      command.toList ++ ' ' :: '\'' :: (Perl.join '&' items ++ "'\n".toList) := by
    simp
  rw [Carries, hline, hwords]
  refine exists_congr fun arg => and_congr_left fun _ => ?_
  cases Shell.words .single (some []) (Perl.join '&' items ++ "'\n".toList) <;> simp

end Posting

/-! ### Rows -/

theorem isWord_command (r : Row) : Shell.IsWord r.command.toList := by
  cases r <;> simp only [Row.command] <;> decide

theorem command_ne_nil (r : Row) : r.command.toList ≠ [] := by
  cases r <;> simp only [Row.command] <;> decide

/-- The fields a row is printed with as they are. -/
def Row.IsLiteral : Row → Prop
  | .csv2sqlledger _ line =>
    let lin := split ':' line
    Literal (field lin 6) ∧
      Literal (if (numify (field lin 4)).IsPos then field lin 4 else field lin 5)
  | _ => True

theorem literal_toDigits (n : Nat) : Literal (Nat.toDigits 10 n) := by
  refine IsInert.literal fun c hc hmem => ?_
  have hdigit := Perl.isDigit_of_mem_toDigits hc
  simp only [List.mem_cons, List.not_mem_nil, or_false] at hmem
  rcases hmem with rfl | rfl | rfl | rfl | rfl <;> cases hdigit

theorem literal_sprintf2 (x : Number) : Literal x.sprintf2 := by
  refine IsInert.literal fun c hc hmem => ?_
  have hmade := Number.mem_sprintf2 hc
  simp only [List.mem_cons, List.not_mem_nil, or_false] at hmem
  rcases hmem with rfl | rfl | rfl | rfl | rfl <;> exact absurd hmade (by decide)

theorem literal_1060 : Literal "1060".toList := IsInert.literal (by decide)

/-- What the two scripts put in as it is they have made themselves. -/
theorem literal_psbPosting (descr memo date : Text) (paid : Bool) (x : Number) :
    let p := psbPosting sprintf2 descr memo date paid x
    Literal p.accno1 ∧ Literal p.debit1 ∧ Literal p.accno2 ∧ Literal p.credit2 := by
  cases paid with
  | false =>
    simp only [psbPosting, Bool.false_eq_true, if_false]
    exact ⟨literal_1060, literal_sprintf2 _, literal_toDigits _, literal_sprintf2 _⟩
  | true =>
    simp only [psbPosting, if_true]
    exact ⟨literal_toDigits _, literal_sprintf2 _, literal_1060, literal_sprintf2 _⟩

/-- A line puts in its account, if there is one, and one of its amounts. -/
theorem literal_post_iff (lin : List Text) :
    Literal (post lin).accno1 ∧ Literal (post lin).debit1 ∧ Literal (post lin).accno2 ∧
        Literal (post lin).credit2 ↔
      Literal (field lin 6) ∧
        Literal (if (numify (field lin 4)).IsPos then field lin 4 else field lin 5) := by
  have hacct (n : Text) (hn : Literal n) :
      Literal (if field lin 6 = "\"\"".toList then n else field lin 6) ↔ Literal (field lin 6) := by
    split
    · rename_i hquotes
      rw [hquotes]
      exact iff_of_true hn (IsInert.literal (by decide))
    · exact Iff.rfl
  by_cases hpaid : (numify (field lin 4)).IsPos
  · simp only [post, if_pos hpaid, hacct "9999".toList (IsInert.literal (by decide))]
    have hbank := literal_1060
    tauto
  · simp only [post, if_neg hpaid, hacct "9998".toList (IsInert.literal (by decide))]
    have hbank := literal_1060
    tauto

include hescapes in
/-- **The command line of a row carries its posting exactly when the fields put in as they
are are literal**: of a line for `csv2sqlledger_gl` the account and the amount; of a row for
the two others none. -/
theorem carries_iff (r : Row) (b : Booking) (line : Text) (hpass : r.pass sprintf2 = .book b)
    (hline : b.posting.commandLine uriEscape r.command = some line) :
    Carries r.command b.posting line ↔ r.IsLiteral := by
  rw [Posting.carries_iff_literal hescapes (isWord_command r) (command_ne_nil r) hline]
  cases r with
  | csv2sqlledger o l =>
    obtain ⟨-, date, rfl⟩ := csvPass_book hpass
    exact literal_post_iff (split ':' l)
  | psbCsv2sqlledger o lin =>
    obtain ⟨-, date, rfl⟩ := psbPass_book hpass
    exact iff_of_true (literal_psbPosting _ _ _ _ _) trivial
  | psbCsv2sqlledger201302 o lin =>
    obtain ⟨date, hb⟩ := psb201302Pass_book hpass
    split at hb
    · rw [hb]
      exact iff_of_true (literal_psbPosting _ _ _ _ _) trivial
    · rw [hb]
      exact iff_of_true (literal_psbPosting _ _ _ _ _) trivial

end Lines

/-! ### Two lines -/

namespace Sample

/-- `uri_escape` on bytes; it dies of anything else. -/
def uriEscape (s : Text) : Option Text :=
  if s.all (·.toNat < 256) then some (Uri.escaped s) else none

theorem escapes_uriEscape : Escapes uriEscape := by
  intro s t h
  unfold uriEscape at h
  split at h
  · rename_i hbytes
    exact ⟨by simpa using hbytes, (Option.some.inj h).symm⟩
  · cases h

def rent : Row := .csv2sqlledger .none "101:O'HARA & CO:2013 04 02:-12.00:12.00::5410".toList

/-- The account goes on behind a quote. -/
def intruder : Row := .csv2sqlledger .none "101:RENT:2013 04 02:-12.00:12.00::5410'; ls '".toList

def posting (description accno1 : String) : Posting :=
  { transdate := "2013-04-02".toList
    description := description.toList
    accno1 := accno1.toList
    debit1 := "12.00".toList
    accno2 := "1060".toList
    credit2 := "12.00".toList
    side := 1
    memo := some "101".toList }

/-- The booking of a row that has one. -/
theorem booked {r : Row} {p : Posting}
    (h : (bookings sprintf2 [r]).1.map (·.posting) = [p]) :
    ∃ b, r.pass sprintf2 = .book b ∧ b.posting = p := by
  obtain ⟨b, hb⟩ : ∃ b, (bookings sprintf2 [r]).1 = [b] := by
    rw [← List.length_eq_one_iff, ← List.length_map (·.posting), h]
    rfl
  have hmem : b ∈ (bookings sprintf2 [r]).1 := by
    rw [hb]
    exact List.mem_cons_self
  obtain ⟨r', hr', hpass⟩ := mem_bookings hmem
  rw [List.mem_singleton.mp hr'] at hpass
  rw [hb] at h
  exact ⟨b, hpass, (List.cons.inj h).1⟩

end Sample

theorem rent_carried : ∃ b line, Sample.rent.pass sprintf2 = .book b ∧
    b.posting.commandLine Sample.uriEscape Sample.rent.command = some line ∧
    Carries Sample.rent.command b.posting line := by
  obtain ⟨b, hpass, hposting⟩ := Sample.booked (r := Sample.rent)
    (p := Sample.posting "O'HARA & CO" "5410") (by decide +kernel)
  obtain ⟨line, hline⟩ := Option.isSome_iff_exists.mp (by rw [hposting]; decide +kernel :
    (b.posting.commandLine Sample.uriEscape Sample.rent.command).isSome)
  have hliteral : Sample.rent.IsLiteral :=
    ⟨IsInert.literal (by decide +kernel), IsInert.literal (by decide +kernel)⟩
  exact ⟨b, line, hpass, hline,
    (carries_iff Sample.escapes_uriEscape Sample.rent b line hpass hline).mpr hliteral⟩

/-- The shell finds a second command in the line. -/
theorem intruder_not_carried : ¬ ∀ uriEscape, Escapes uriEscape →
    ∀ (r : Row) (b : Booking) (line : Text), r.pass sprintf2 = .book b →
    b.posting.commandLine uriEscape r.command = some line → Carries r.command b.posting line := by
  intro hall
  obtain ⟨b, hpass, hposting⟩ := Sample.booked (r := Sample.intruder)
    (p := Sample.posting "RENT" "5410'; ls '") (by decide +kernel)
  obtain ⟨line, hline⟩ := Option.isSome_iff_exists.mp (by rw [hposting]; decide +kernel :
    (b.posting.commandLine Sample.uriEscape Sample.intruder.command).isSome)
  have hwords : (b.posting.commandLine Sample.uriEscape Sample.intruder.command).bind
      (Shell.words .plain none) = none := by
    rw [hposting]
    decide +kernel
  obtain ⟨arg, harg, -⟩ := hall Sample.uriEscape Sample.escapes_uriEscape _ b line hpass hline
  rw [hline, Option.bind_some, harg] at hwords
  cases hwords

end VleoNotebook.Ledger
