import VleoNotebook.Lib.Diff
import VleoNotebook.Lib.Expansion

/-! The package manager that records what `make install` installs (`lepm`).

The files under `/usr/local` are listed before and after, and the lines that `diff -u` adds
become `install.files`. To erase a package, the paths in there are put on the command line of
`rm` without quotes.

`find` lists a directory in the order it is stored in, and nothing sorts the listings. Where
files that were there before have changed places, `diff` adds one of them, and it is erased
with the package (`record_moved`). Just the new files are recorded if the files common to both
listings stand in one order; and nothing else is erased if in addition no new path, taken as
the pattern it is for the shell, matches a file that was there before (`records_exactly_iff`). -/
namespace VleoNotebook.Lepm

open Perl (Text Regex printLines lines)
open Diff (Edit IsDiff SameOrder)
open Shell (substituted fields expand isBlank isPattern)

/-! ### Recording -/

/-- `find /usr/local -type f`, of the files in the order they are found. -/
def find (files : List Text) : Text := printLines files

/-- A line of `diff -u`: the names of the two files and the places of the changes, and the
changes with lines that stayed. -/
inductive DiffLine where
  | before (name : Text)
  | after (name : Text)
  | place (ranges : Text)
  | edit (e : Edit Text)
deriving DecidableEq

def DiffLine.text : DiffLine → Text
  | before name => "--- ".toList ++ name
  | after name => "+++ ".toList ++ name
  | place ranges => "@@ ".toList ++ ranges
  | edit (.keep l) => ' ' :: l
  | edit (.remove l) => '-' :: l
  | edit (.add l) => '+' :: l

def DiffLine.edit? : DiffLine → Option (Edit Text)
  | edit e => some e
  | before _ | after _ | place _ => none

/-- `diff -u` of two texts: every line added or removed is there, and no line but one of the
script. -/
structure UnifiedDiff (before after : Text) (ls : List DiffLine) : Prop where
  exists_script : ∃ es, IsDiff (lines before) (lines after) es ∧
    (ls.filterMap DiffLine.edit?).Sublist es ∧
    Diff.added (ls.filterMap DiffLine.edit?) = Diff.added es
  plain : ∀ l ∈ ls, '\n' ∉ l.text

/-- `m/^\+(\/.*)/` -/
def addedPath : Regex Char :=
  .seq [.bos, .lit ['+'], .group 1 (.cat (.lit ['/']) (.star (.sym (· ≠ '\n'))))]

/-- `print "$1\n" if m/^\+(\/.*)/`, of one line with its newline. -/
def printed (line : Text) : Option Text :=
  (Regex.search addedPath line).bind fun m => m.stop.cap 1

/-- `diff -u ... | perl -n -e '...' > install.files` -/
def record (diff : Text) : Text :=
  printLines ((lines diff).filterMap fun l => printed (l ++ ['\n']))

/-! ### Erasing -/

/-- `INSTALLED_FILES=$(cat install.files)` and `rm $INSTALLED_FILES`: what is left of the
files. -/
def erase (matching : Text → Text → Bool) (existing : List Text) (installFiles : Text) :
    List Text :=
  let INSTALLED_FILES := substituted installFiles
  if INSTALLED_FILES ≠ [] then
    let removed := (fields INSTALLED_FILES).flatMap (expand matching existing)
    existing.filter fun f => !removed.contains f
  else
    existing

/-! ### What is recorded -/

/-- The files under `/usr/local`, each once, on lines that are words. -/
structure IsListing (files : List Text) : Prop where
  nodup : files.Nodup
  inside : ∀ p ∈ files, "/usr/local/".toList <+: p
  plain : ∀ p ∈ files, ∀ c ∈ p, isBlank c = false

theorem plain_of_all {files : List Text}
    (h : (files.all fun p => p.all fun c => !isBlank c) = true) :
    ∀ p ∈ files, ∀ c ∈ p, isBlank c = false := by
  simpa using h

theorem printed_eq (line : Text) :
    printed line = (Regex.first addedPath true line).bind (·.cap 1) := by
  rw [printed, ← Regex.stop_search_anchored (fun _ => rfl) line, Option.bind_map]
  rfl

/-- Only a line that begins with `+/` is printed, the rest of it from the slash on. -/
theorem printed_added {l : Text} (hl : '\n' ∉ l) :
    printed ('+' :: '/' :: l ++ ['\n']) = some ('/' :: l) := by
  have hplain : ∀ c ∈ l, decide (c ≠ '\n') = true := fun c hc => by
    simpa using fun h : c = '\n' => hl (h ▸ hc)
  have hdrop : (l ++ ['\n']).dropWhile (fun c => decide (c ≠ '\n')) = ['\n'] :=
    Regex.dropWhile_run hplain (by simp)
  have hrest : (Regex.outcomes (.cat (.lit ['/']) (.star (.sym (· ≠ '\n'))))
      ⟨false, '/' :: l ++ ['\n'], []⟩).head? = some ⟨false, ['\n'], []⟩ := by
    refine Regex.head?_outcomes_cat (d := ⟨false, l ++ ['\n'], []⟩) (by simp) ?_
    rw [Regex.outcomes_star_sym]
    simp only [hdrop, Bool.false_and]
  have hgroup := Regex.head?_outcomes_group 1 hrest
  have htaken : ('/' :: l ++ ['\n']).length - ['\n'].length = ('/' :: l).length := by
    rw [List.length_append, Nat.add_sub_cancel]
  simp only [htaken, List.take_left] at hgroup
  have hfirst : Regex.first addedPath true ('+' :: '/' :: l ++ ['\n']) =
      some ⟨false, ['\n'], [(1, '/' :: l)]⟩ := by
    refine Regex.head?_outcomes_cat (d := ⟨true, '+' :: '/' :: l ++ ['\n'], []⟩) rfl ?_
    refine Regex.head?_outcomes_cat (d := ⟨false, '/' :: l ++ ['\n'], []⟩) (by simp) ?_
    exact Regex.head?_outcomes_cat hgroup rfl
  rw [printed_eq, hfirst]
  rfl

theorem printed_other {l : Text} (h : ¬ "+/".toList <+: l) : printed l = none := by
  rw [printed_eq]
  cases hfirst : Regex.first addedPath true l with
  | none => rfl
  | some d =>
    obtain ⟨c₁, h₁, hd⟩ := Regex.mem_outcomes_cat.mp (List.mem_of_mem_head? hfirst)
    obtain rfl := List.mem_singleton.mp h₁
    obtain ⟨c₂, h₂, hd⟩ := Regex.mem_outcomes_cat.mp hd
    obtain ⟨hplus, -⟩ := Regex.mem_outcomes_lit h₂
    obtain ⟨c₃, h₃, -⟩ := Regex.mem_outcomes_cat.mp hd
    obtain ⟨e, he, -⟩ := List.mem_map.mp h₃
    obtain ⟨c₄, h₄, -⟩ := Regex.mem_outcomes_cat.mp he
    obtain ⟨hslash, -⟩ := Regex.mem_outcomes_lit h₄
    refine absurd ⟨c₄.rest, ?_⟩ h
    have hplus : l = '+' :: c₂.rest := hplus
    rw [hplus, hslash]
    rfl

/-- A line of the difference is printed if it is an added path. -/
theorem printed_text {l : DiffLine} (hplain : '\n' ∉ l.text)
    (hadd : ∀ p, l = .edit (.add p) → "/".toList <+: p) :
    printed (l.text ++ ['\n']) = l.edit?.bind Edit.added? := by
  cases l with
  | before name => exact printed_other (by simp [DiffLine.text])
  | after name => exact printed_other (by simp [DiffLine.text])
  | place ranges => exact printed_other (by simp [DiffLine.text])
  | edit e =>
    cases e with
    | keep l => exact printed_other (by simp [DiffLine.text])
    | remove l => exact printed_other (by simp [DiffLine.text])
    | add p =>
      obtain ⟨l, rfl⟩ := hadd p rfl
      exact printed_added fun h => hplain (List.mem_cons_of_mem _ (List.mem_cons_of_mem _ h))

/-- The paths that are recorded are those the script adds. -/
theorem record_eq {before after : List Text} (hbefore : IsListing before)
    (hafter : IsListing after) {ls : List DiffLine}
    (hdiff : UnifiedDiff (find before) (find after) ls) :
    ∃ es, IsDiff before after es ∧
      record (printLines (ls.map DiffLine.text)) = printLines (Diff.added es) := by
  have hlines {files : List Text} (h : IsListing files) : lines (find files) = files := by
    refine Perl.lines_printLines fun p hp hc => ?_
    exact absurd (h.plain p hp '\n' hc) (by decide)
  obtain ⟨⟨es, hes, -, hadded⟩, hplain⟩ := hdiff
  rw [hlines hbefore, hlines hafter] at hes
  refine ⟨es, hes, ?_⟩
  have hadd (l : DiffLine) (hl : l ∈ ls) (p : Text) (hp : l = .edit (.add p)) :
      "/".toList <+: p := by
    have hmem : p ∈ Diff.added es := by
      rw [← hadded]
      exact List.mem_filterMap.mpr
        ⟨.add p, List.mem_filterMap.mpr ⟨l, hl, hp ▸ rfl⟩, rfl⟩
    have hinside := hafter.inside p (hes.mem_of_added hmem)
    exact (List.prefix_append "/".toList "usr/local/".toList).trans hinside
  have htext : lines (printLines (ls.map DiffLine.text)) = ls.map DiffLine.text := by
    refine Perl.lines_printLines fun t ht => ?_
    obtain ⟨l, hl, rfl⟩ := List.mem_map.mp ht
    exact hplain l hl
  rw [record, htext, List.filterMap_map, ← hadded, Diff.added, List.filterMap_filterMap]
  congr 1
  exact List.filterMap_congr fun l hl => printed_text (hplain l hl) (hadd l hl)

/-! ### What is erased -/

/-- `install.files` lists the files that were not there before, and erasing it leaves those that
were. -/
def RecordsExactly (before after existing : List Text) (matching : Text → Text → Bool)
    (installFiles : Text) : Prop :=
  (∀ p, p ∈ lines installFiles ↔ p ∈ after ∧ p ∉ before) ∧
    ∀ f ∈ before, f ∈ existing → f ∈ erase matching existing installFiles

/-- No new path is a pattern that a file matches that was there before. -/
def NoneMatches (before after existing : List Text) (matching : Text → Text → Bool) : Prop :=
  ∀ p ∈ after, p ∉ before → isPattern p = true → ∀ f ∈ before, f ∈ existing →
    matching p f = false

theorem mem_erase_iff {matching : Text → Text → Bool} {existing paths : List Text}
    (hne : ∀ p ∈ paths, p ≠ []) (hplain : ∀ p ∈ paths, ∀ c ∈ p, isBlank c = false) {f : Text}
    (hf : f ∈ existing) : f ∈ erase matching existing (printLines paths) ↔
      ∀ p ∈ paths, f ∉ expand matching existing p := by
  have hfields := Shell.fields_substituted hne hplain
  rw [erase]
  split
  · simp [hfields, hf]
  · rename_i hempty
    rw [not_not] at hempty
    rw [hempty] at hfields
    have hnil : paths = [] := hfields.symm.trans rfl
    rw [hnil]
    simpa using hf

/-- Of the files that were there the erasing spares those that no new path matches. -/
theorem erase_spares_iff {before after existing paths : List Text} {matching : Text → Text → Bool}
    (hne : ∀ p ∈ paths, p ≠ []) (hplain : ∀ p ∈ paths, ∀ c ∈ p, isBlank c = false)
    (hexact : ∀ p, p ∈ paths ↔ p ∈ after ∧ p ∉ before) :
    (∀ f ∈ before, f ∈ existing → f ∈ erase matching existing (printLines paths)) ↔
      NoneMatches before after existing matching := by
  have hother {p f : Text} (hnew : p ∉ before) (hf : f ∈ before) : f ≠ p := by
    rintro rfl
    exact hnew hf
  constructor
  · intro hkept p hp hnew hpattern f hf hexisting
    have hmem : p ∈ paths := (hexact p).mpr ⟨hp, hnew⟩
    have hout := (mem_erase_iff hne hplain hexisting).mp (hkept f hf hexisting) p hmem
    rw [Shell.mem_expand_iff (hother hnew hf)] at hout
    by_contra hmatch
    exact hout ⟨hpattern, hexisting, by simpa using hmatch⟩
  · intro hnone f hf hexisting
    refine (mem_erase_iff hne hplain hexisting).mpr fun p hmem hout => ?_
    obtain ⟨hp, hnew⟩ := (hexact p).mp hmem
    obtain ⟨hpattern, -, hmatch⟩ := (Shell.mem_expand_iff (hother hnew hf)).mp hout
    rw [hnone p hp hnew hpattern f hf hexisting] at hmatch
    cases hmatch

/-- **What was installed is recorded, and nothing else erased**, if and only if the files that
were there before stand in the order they had, and none of them matches a new path. -/
theorem records_exactly_iff (before after existing : List Text) (matching : Text → Text → Bool)
    (ls : List DiffLine) (hbefore : IsListing before) (hafter : IsListing after)
    (hdiff : UnifiedDiff (find before) (find after) ls) :
    RecordsExactly before after existing matching
        (record (printLines (ls.map DiffLine.text))) ↔
      SameOrder before after ∧ NoneMatches before after existing matching := by
  obtain ⟨es, hes, hrecord⟩ := record_eq hbefore hafter hdiff
  have hplain (p : Text) (hp : p ∈ Diff.added es) : ∀ c ∈ p, isBlank c = false :=
    hafter.plain p (hes.mem_of_added hp)
  have hne (p : Text) (hp : p ∈ Diff.added es) : p ≠ [] := by
    rintro rfl
    exact absurd (hafter.inside [] (hes.mem_of_added hp)) (by decide)
  have hlines : lines (printLines (Diff.added es)) = Diff.added es :=
    Perl.lines_printLines fun p hp hc => absurd (hplain p hp '\n' hc) (by decide)
  rw [hrecord, RecordsExactly, hlines, ← Diff.mem_added_iff_new hbefore.nodup hafter.nodup hes]
  exact and_congr_right fun hexact => erase_spares_iff hne hplain hexact

/-- A new file found in front of one that was there. -/
theorem records_exactly_new :
    RecordsExactly ["/usr/local/a".toList] ["/usr/local/b".toList, "/usr/local/a".toList]
        ["/usr/local/b".toList, "/usr/local/a".toList] (fun _ _ => false)
        (record (printLines ([.edit (.add "/usr/local/b".toList),
          .edit (.keep "/usr/local/a".toList)].map DiffLine.text))) ↔
      SameOrder ["/usr/local/a".toList] ["/usr/local/b".toList, "/usr/local/a".toList] ∧
        NoneMatches ["/usr/local/a".toList] ["/usr/local/b".toList, "/usr/local/a".toList]
          ["/usr/local/b".toList, "/usr/local/a".toList] (fun _ _ => false) := by
  refine records_exactly_iff _ _ _ _ _ ⟨by decide, by decide, plain_of_all rfl⟩
    ⟨by decide, by decide, plain_of_all rfl⟩ ⟨⟨[.add "/usr/local/b".toList,
      .keep "/usr/local/a".toList], ⟨by decide, by decide, by decide, by decide, ?_⟩, by decide,
      by decide⟩, by decide⟩
  intro d hd _
  exact hd.length_le

/-- Two files that were there change places, as when the first is written anew: it is recorded,
and erased with the package. -/
theorem record_moved :
    let a := "/usr/local/a".toList
    let b := "/usr/local/b".toList
    let ls : List DiffLine := [.before "install.files.before".toList,
      .after "install.files.after".toList, .place "-1,2 +1,2 @@".toList,
      .edit (.remove a), .edit (.keep b), .edit (.add a)]
    IsListing [a, b] ∧ IsListing [b, a] ∧ UnifiedDiff (find [a, b]) (find [b, a]) ls ∧
      ¬ RecordsExactly [a, b] [b, a] [b, a] (fun _ _ => false)
        (record (printLines (ls.map DiffLine.text))) := by
  intro a b ls
  refine ⟨⟨by decide, by decide, plain_of_all rfl⟩, ⟨by decide, by decide, plain_of_all rfl⟩,
    ⟨⟨[.remove a, .keep b, .add a], ⟨by decide, by decide, by decide, by decide, ?_⟩, by decide,
      by decide⟩, by decide⟩, ?_⟩
  · intro d hd hd'
    have hshort : ∀ d ∈ [a, b].sublists, d ∈ [b, a].sublists → d.length ≤ 1 := by decide
    exact hshort d (List.mem_sublists.mpr hd) (List.mem_sublists.mpr hd')
  · intro h
    exact absurd (((h.1 a).mp (by decide)).2) (by decide)

end VleoNotebook.Lepm
