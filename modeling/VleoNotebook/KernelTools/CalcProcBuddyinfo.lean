import Mathlib.Logic.Function.Basic
import VleoNotebook.Lib.Csv
import VleoNotebook.Lib.Decimal
import VleoNotebook.Lib.Loop
import VleoNotebook.Lib.Unsigned

/-! Free pages by zone (`calc_proc_buddyinfo.pl`).

A line of `/proc/buddyinfo` that names a zone of node 0 is taken apart by a loop that cuts a
number out of it until nothing is left. A turn that finds no number leaves the line as it is,
so the loop ends if and only if there are only digits and blanks behind the name
(`ends_iff`), and then the numbers are the counts of the line, but for a 0 at the very end of
the text (`readsLine_iff`). Their weights are shifted in a word, so the sum is right as long as
it fits one (`zoneSum_eq_iff`). -/
namespace VleoNotebook.KernelTools

open Perl (Text Line Regex Cursor isSpace ofDigits)

/-! ### The program -/

/-- `$nodes`: what is pushed for each zone. A zone that is not there has nothing. -/
abbrev Nodes := Text → List Text

/-- `push @{$nodes->{$zn}},...` -/
def push (nodes : Nodes) (zn : Text) (ns : List Text) : Nodes :=
  Function.update nodes zn (nodes zn ++ ns)

/-- `\w` -/
def isWord (c : Char) : Bool := c.isAlphanum || c = '_'

/-- What `.` matches. -/
def isDot (c : Char) : Bool := c ≠ '\n'

def zonePrefix : Text := "Node 0, zone".toList

/-- `(.*)$` -/
def restPattern : Regex Char := .cat (.group 2 (.star (.sym isDot))) (.eos (· = '\n'))

/-- `/^Node 0, zone\s+(\w+)\s+(.*)$/` -/
def zonePattern : Regex Char :=
  .cat .bos (.cat (.lit zonePrefix) (.cat (.plus (.sym isSpace)) (.cat
    (.group 1 (.plus (.sym isWord))) (.cat (.plus (.sym isSpace)) restPattern))))

/-- `/(\d+)\s*(.*)$/` -/
def countPattern : Regex Char :=
  .cat (.group 1 (.plus (.sym Char.isDigit))) (.cat (.star (.sym isSpace)) restPattern)

/-- `s/.../$2/`: `$1` and what is made of the text, if there is a match. -/
def substitute (r : Regex Char) (s : Text) : Option (Text × Text) :=
  (Regex.search r s).map fun m =>
    ((m.stop.cap 1).getD [], m.before ++ (m.stop.cap 2).getD [] ++ m.stop.rest)

/-- `$_` and `$nodes` in front of a turn of the inner loop. -/
structure State where
  topic : Text
  nodes : Nodes

/-- `while( $_ ) { push @{$nodes->{$zn}},$1 if s/(\d+)\s*(.*)$/$2/; }` -/
def turn (zn : Text) (s : State) : State ⊕ Nodes :=
  if Perl.IsTrue s.topic then
    match substitute countPattern s.topic with
    | some (n, rest) => .inl ⟨rest, push s.nodes zn [n]⟩
    -- no number in it: the loop goes on with the same `$_`
    | none => .inl s
  else
    .inr s.nodes

/-- What a turn of `while(<PROCIN>)` makes of `$nodes`, if the inner loop ends. -/
def ReadsLine (line : Text) (nodes nodes' : Nodes) : Prop :=
  match substitute zonePattern line with
  | some (zn, rest) => Loop.Results (turn zn) ⟨rest, nodes⟩ nodes'
  | none => nodes' = nodes

/-- `while(<PROCIN>)` -/
def Reads : List Line → Nodes → Nodes → Prop
  | [], nodes, nodes' => nodes' = nodes
  | l :: ls, nodes, nodes' => ∃ between, ReadsLine l.text nodes between ∧ Reads ls between nodes'

/-- `$sum += $n*$order; $order <<= 1;` -/
def addCount (s : Option Nat × Nat) (n : Text) : Option Nat × Nat :=
  (Perl.add s.1 (Perl.mul (ofDigits n) s.2), Perl.shift s.2)

/-- `$sum` behind `foreach $n (@$node)`, `none` if it is a floating-point number by then. -/
def zoneSum (node : List Text) : Option Nat := (node.foldl addCount (some 0, 1)).1

/-- `$allSum` behind `foreach $zn (keys %$nodes)`; the keys come in any order. -/
def allSum (nodes : Nodes) (keys : List Text) : Option Nat :=
  keys.foldl (fun sum zn => Perl.add sum (zoneSum (nodes zn))) (some 0)

/-! ### What a text says -/

/-- The zone that a line names, and what stands behind the name. -/
def zoneLine (line : Text) : Option (Text × Text) :=
  let s := line.drop zonePrefix.length
  let named := s.dropWhile isSpace
  let behind := named.dropWhile isWord
  if zonePrefix <+: line ∧ s.takeWhile isSpace ≠ [] ∧ named.takeWhile isWord ≠ [] ∧
      behind.takeWhile isSpace ≠ [] then
    some (named.takeWhile isWord, behind.dropWhile isSpace)
  else
    none

/-- Counts with blanks between them, that is only digits and blanks. -/
def IsCounts (tail : Text) : Prop := ∀ c ∈ tail, c.isDigit ∨ isSpace c

/-- If the line names a zone, there are only counts behind the name. -/
def OnlyCounts (l : Line) : Prop := ∀ zn tail, zoneLine l.text = some (zn, tail) → IsCounts tail

/-- The counts between the blanks. -/
def counts (tail : Text) : List Text := (tail.splitOnP isSpace).filter (· ≠ [])

/-- The counts of a line, if it names the zone. -/
def lineCounts (zn : Text) (l : Line) : List Text :=
  (zoneLine l.text).elim [] fun z => if z.1 = zn then counts z.2 else []

/-- The counts of all the lines that name the zone. -/
def zoneCounts (ls : List Line) (zn : Text) : List Text := ls.flatMap (lineCounts zn)

/-- The count at `i` is of blocks of `2 ^ i` pages. -/
def pages (ns : List Text) : Nat := ((ns.map ofDigits).mapIdx fun i n => n * 2 ^ i).sum

/-! ### Lines -/

theorem newline_of_suffix {u v : Text} (h : v <:+ u) (hu : '\n' ∉ u.dropLast) :
    '\n' ∉ v.dropLast := by
  obtain ⟨w, rfl⟩ := h
  by_cases hv : v = []
  · subst hv
    exact List.not_mem_nil
  · rw [List.dropLast_append_of_ne_nil hv] at hu
    exact fun hmem => hu (List.mem_append_right w hmem)

/-- What the dots leave is the newline of the line. -/
theorem dropWhile_isDot {u : Text} (hu : '\n' ∉ u.dropLast) :
    u.dropWhile isDot = [] ∨ ∃ a, u.dropWhile isDot = [a] ∧ decide (a = '\n') = true := by
  induction u with
  | nil => exact .inl rfl
  | cons c u ih =>
    by_cases hc : c = '\n'
    · have hlast : u = [] := by
        cases u with
        | nil => rfl
        | cons d u => exact absurd (hc ▸ List.mem_cons_self) hu
      subst hc hlast
      exact .inr ⟨'\n', rfl, rfl⟩
    · have hdot : isDot c = true := decide_eq_true hc
      rw [List.dropWhile_cons_of_pos hdot]
      exact ih (newline_of_suffix (List.suffix_cons c u) hu)

/-- `(.*)$` takes what is left of a line. -/
theorem first_rest {u : Text} (hu : '\n' ∉ u.dropLast) (b : Bool) (caps : List (Nat × Text)) :
    (Regex.outcomes restPattern ⟨b, u, caps⟩).head? =
      some ⟨b && (u.takeWhile isDot).isEmpty, u.dropWhile isDot,
        (2, u.takeWhile isDot) :: caps⟩ := by
  refine Regex.head?_outcomes_cat (Regex.outcomes_group_star_sym isDot 2 _) ?_
  rw [Regex.outcomes_eos (dropWhile_isDot hu), List.head?_cons]

/-- A match from the start on, whose `$2` is what is left of the line. -/
theorem substitute_first {r : Regex Char} {b : Bool} {s u n : Text}
    (h : Regex.first r true s = some ⟨b, u.dropWhile isDot, [(2, u.takeWhile isDot), (1, n)]⟩) :
    substitute r s = some (n, u) := by
  have hcap : (u.takeWhile isDot) ++ u.dropWhile isDot = u := List.takeWhile_append_dropWhile
  rw [substitute, Regex.search, Regex.searchFrom_some h, Option.map_some]
  exact congrArg (fun rest => some (n, rest)) hcap

/-! ### A turn -/

/-- The first number is cut out with the blanks behind it. -/
theorem substitute_count {run rest : Text} (hrun : ∀ c ∈ run, c.isDigit) (hne : run ≠ [])
    (hrest : ∀ c ∈ rest.head?, c.isDigit = false) (hnl : '\n' ∉ rest.dropLast) :
    substitute countPattern (run ++ rest) = some (run, rest.dropWhile isSpace) := by
  have hblanks := Regex.outcomes_star_sym isSpace ⟨false, rest, [(1, run)]⟩
  have htail := first_rest (newline_of_suffix (List.dropWhile_suffix isSpace) hnl)
    (false && (rest.takeWhile isSpace).isEmpty) [(1, run)]
  exact substitute_first (Regex.head?_outcomes_cat
    (Regex.outcomes_group_plus_sym hrun hne hrest 1 true [])
    (Regex.head?_outcomes_cat hblanks htail))

/-- What stands in front of the first number stays. -/
theorem substitute_skip {c : Char} (hc : c.isDigit = false) (s : Text) :
    substitute countPattern (c :: s) = none ∨
      ∃ n rest, substitute countPattern (c :: s) = some (n, c :: rest) := by
  have hfirst : Regex.first countPattern true (c :: s) = none := by
    simp [Regex.first, countPattern, Regex.outcomes_plus, hc]
  rw [substitute, Regex.search, Regex.searchFrom_cons hfirst]
  cases Regex.searchFrom countPattern false s with
  | none => exact .inl rfl
  | some m => exact .inr ⟨_, _, rfl⟩

/-- **Behind a symbol that is no digit the loop never ends**: the symbol stays in front, so that
what is left is never nothing. -/
theorem not_ends {c : Char} (hc : c.isDigit = false) (zn s : Text) (nodes : Nodes) :
    ¬ Loop.Ends (turn zn) ⟨c :: s, nodes⟩ := by
  have hzero : c ≠ '0' := fun h => by
    rw [h] at hc
    exact absurd hc (by decide)
  have hstep : ∀ t : State, (∃ rest, t.topic = c :: rest) →
      ∃ t', turn zn t = .inl t' ∧ ∃ rest, t'.topic = c :: rest := by
    intro t ⟨rest, ht⟩
    have htrue : Perl.IsTrue t.topic := by
      rw [ht]
      exact ⟨List.cons_ne_nil c rest, fun h => hzero (List.cons.inj h).1⟩
    rw [turn, if_pos htrue, ht]
    obtain hnone | ⟨n, rest', hsome⟩ := substitute_skip hc rest
    · exact ⟨t, by rw [hnone], rest, ht⟩
    · exact ⟨⟨c :: rest', push t.nodes zn [n]⟩, by rw [hsome], rest', rfl⟩
  exact Loop.not_ends hstep ⟨s, rfl⟩

/-! ### The inner loop -/

theorem counts_blanks {blanks : Text} (h : ∀ c ∈ blanks, isSpace c) (rest : Text) :
    counts (blanks ++ rest) = counts rest := by
  induction blanks with
  | nil => rfl
  | cons c blanks ih =>
    have hc : isSpace c = true := h c List.mem_cons_self
    have hnone : ∀ d ∈ ([] : Text), isSpace d = false := nofun
    have hsplit : (c :: (blanks ++ rest)).splitOnP isSpace =
        [] :: (blanks ++ rest).splitOnP isSpace :=
      List.splitOnP_append_cons_of_forall_mem hnone c hc (blanks ++ rest)
    rw [← ih fun d hd => h d (List.mem_cons_of_mem c hd), counts, List.cons_append, hsplit]
    rfl

/-- A text that begins with a number, cut behind it and behind the blanks that follow. -/
structure Cut (s run blanks rest : Text) : Prop where
  eq : s = run ++ (blanks ++ rest)
  digits : ∀ c ∈ run, c.isDigit
  ne_nil : run ≠ []
  blank : ∀ c ∈ blanks, isSpace c
  behind : ∀ c ∈ (blanks ++ rest).head?, c.isDigit = false
  head : ∀ c ∈ rest.head?, isSpace c = false

theorem head_dropWhile (p : Char → Bool) (u : Text) : ∀ c ∈ (u.dropWhile p).head?, p c = false := by
  intro c hc
  have hnot := List.head?_dropWhile_not p u
  rwa [hc] at hnot

theorem exists_cut {c : Char} (hc : c.isDigit) (s : Text) :
    ∃ run blanks rest, Cut (c :: s) run blanks rest := by
  let behind := (c :: s).dropWhile Char.isDigit
  have hbehind : behind.takeWhile isSpace ++ behind.dropWhile isSpace = behind :=
    List.takeWhile_append_dropWhile
  refine ⟨(c :: s).takeWhile Char.isDigit, behind.takeWhile isSpace, behind.dropWhile isSpace, ?_,
    fun d hd => List.mem_takeWhile_imp hd, ?_, fun d hd => List.mem_takeWhile_imp hd, ?_,
    head_dropWhile isSpace behind⟩
  · rw [hbehind]
    exact List.takeWhile_append_dropWhile.symm
  · rw [List.takeWhile_cons_of_pos hc]
    exact List.cons_ne_nil _ _
  · rw [hbehind]
    exact head_dropWhile Char.isDigit (c :: s)

namespace Cut
variable {s run blanks rest : Text}

theorem length_lt (h : Cut s run blanks rest) : rest.length < s.length := by
  have hrun := List.length_pos_iff.mpr h.ne_nil
  rw [h.eq, List.length_append, List.length_append]
  omega

theorem suffix (h : Cut s run blanks rest) : rest <:+ s :=
  ⟨run ++ blanks, by rw [h.eq, List.append_assoc]⟩

theorem isCounts_iff (h : Cut s run blanks rest) : IsCounts s ↔ IsCounts rest := by
  constructor
  · intro hs c hc
    exact hs c (h.suffix.mem hc)
  · intro hrest c hc
    rw [h.eq] at hc
    rcases List.mem_append.mp hc with hc | hc
    · exact .inl (h.digits c hc)
    · rcases List.mem_append.mp hc with hc | hc
      · exact .inr (h.blank c hc)
      · exact hrest c hc

/-- A number ends where blanks follow, or nothing. -/
theorem counts_eq (h : Cut s run blanks rest) (hrest : IsCounts rest) :
    counts s = run :: counts rest := by
  have hplain : ∀ c ∈ run, isSpace c = false := fun c hc =>
    Perl.Decimal.not_isSpace_of_isDigit (h.digits c hc)
  have hkeep (ns : List Text) : (run :: ns).filter (fun n => decide (n ≠ [])) =
      run :: ns.filter fun n => decide (n ≠ []) := by
    rw [List.filter_cons, if_pos (decide_eq_true h.ne_nil)]
  rw [h.eq]
  cases hblanks : blanks with
  | cons b blanks' =>
    have hb : ∀ c ∈ b :: blanks', isSpace c := hblanks ▸ h.blank
    have hsplit := List.splitOnP_append_cons_of_forall_mem hplain b (hb b List.mem_cons_self)
      (blanks' ++ rest)
    rw [List.cons_append, counts, hsplit, hkeep,
      ← counts_blanks (fun c hc => hb c (List.mem_cons_of_mem b hc)) rest, counts]
  | nil =>
    -- what is behind the number is no digit, and no blank
    have hnil : rest = [] := by
      cases hr : rest with
      | nil => rfl
      | cons c r =>
        have hdigit := h.behind c (by rw [hblanks, hr]; rfl)
        have hspace := h.head c (by rw [hr]; rfl)
        have hc := hrest c (by rw [hr]; exact List.mem_cons_self)
        rw [hdigit, hspace] at hc
        simp at hc
    rw [hnil, List.append_nil, List.append_nil, counts, List.splitOnP_eq_singleton hplain, hkeep]
    rfl

/-- A turn takes the number and the blanks away. -/
theorem turn_eq (h : Cut s run blanks rest) (hnl : '\n' ∉ s.dropLast) (htrue : Perl.IsTrue s)
    (zn : Text) (nodes : Nodes) :
    turn zn ⟨s, nodes⟩ = .inl ⟨rest, push nodes zn [run]⟩ := by
  have hbehind : '\n' ∉ (blanks ++ rest).dropLast :=
    newline_of_suffix ⟨run, h.eq.symm⟩ hnl
  have hcut := substitute_count h.digits h.ne_nil h.behind hbehind
  rw [Regex.dropWhile_run h.blank h.head, ← h.eq] at hcut
  rw [turn, if_pos htrue, hcut]

end Cut

theorem push_push (nodes : Nodes) (zn : Text) (ms ns : List Text) :
    push (push nodes zn ms) zn ns = push nodes zn (ms ++ ns) := by
  simp only [push, Function.update_self, Function.update_idem, List.append_assoc]

theorem push_nil (nodes : Nodes) (zn : Text) : push nodes zn [] = nodes := by
  rw [push, List.append_nil, Function.update_eq_self]

/-- The counts of the tail, or all but a 0 that is its last symbol. -/
def UpToZero (tail : Text) (ns : List Text) : Prop :=
  ns = counts tail ∨ ns ++ [['0']] = counts tail ∧ tail.getLast? = some '0'

/-- On counts the inner loop ends and pushes them, and on anything else it does not end. -/
def LoopCases (zn tail : Text) : Prop :=
  (IsCounts tail ∧ ∃ ns, UpToZero tail ns ∧ ∀ nodes nodes',
    Loop.Results (turn zn) ⟨tail, nodes⟩ nodes' ↔ push nodes zn ns = nodes') ∨
  (¬ IsCounts tail ∧ ∀ nodes, ¬ Loop.Ends (turn zn) ⟨tail, nodes⟩)

/-- A turn that cuts a number out leaves the question as it is. -/
theorem Cut.loopCases {s run blanks rest : Text} (hcut : Cut s run blanks rest)
    (hnl : '\n' ∉ s.dropLast) (htrue : Perl.IsTrue s) {zn : Text} (h : LoopCases zn rest) :
    LoopCases zn s := by
  have hturn := hcut.turn_eq hnl htrue zn
  obtain ⟨hrest, ns, hns, hresults⟩ | ⟨hrest, hnot⟩ := h
  · refine .inl ⟨hcut.isCounts_iff.mpr hrest, run :: ns, ?_, fun nodes nodes' => ?_⟩
    · rw [UpToZero, hcut.counts_eq hrest]
      obtain rfl | ⟨hzero, hlast⟩ := hns
      · exact .inl rfl
      · refine .inr ⟨by rw [← hzero, List.cons_append], ?_⟩
        obtain ⟨front, hfront⟩ := hcut.suffix
        rw [← hfront, List.getLast?_append, hlast, Option.some_or]
    · rw [Loop.results_of_inl (hturn nodes), hresults, push_push, List.singleton_append]
  · refine .inr ⟨fun h => hrest (hcut.isCounts_iff.mp h), fun nodes ⟨b, hb⟩ => ?_⟩
    exact hnot _ ⟨b, (Loop.results_of_inl (hturn nodes) b).mp hb⟩

/-- The loop is over when nothing is left, or the text `0`. -/
theorem loopCases_of_not_true {tail : Text} (h : ¬ Perl.IsTrue tail) (zn : Text) :
    LoopCases zn tail := by
  have hresults (nodes nodes' : Nodes) :
      Loop.Results (turn zn) ⟨tail, nodes⟩ nodes' ↔ push nodes zn [] = nodes' := by
    have hstop : turn zn ⟨tail, nodes⟩ = .inr nodes := if_neg h
    rw [Loop.results_of_inr hstop, push_nil]
  by_cases hnil : tail = []
  · subst hnil
    exact .inl ⟨nofun, [], .inl rfl, hresults⟩
  · obtain rfl : tail = ['0'] := by_contra fun hzero => h ⟨hnil, hzero⟩
    refine .inl ⟨fun c hc => .inl ?_, [], .inr ⟨rfl, rfl⟩, hresults⟩
    rw [List.mem_singleton.mp hc]
    rfl

/-- **The inner loop on a tail**, by the length of what is left. -/
theorem loop_cases (zn tail : Text) (hhead : ∀ c ∈ tail.head?, isSpace c = false)
    (hnl : '\n' ∉ tail.dropLast) : LoopCases zn tail := by
  induction hlen : tail.length using Nat.strong_induction_on generalizing tail with
  | _ len ih =>
    by_cases htrue : Perl.IsTrue tail
    · obtain ⟨c, s, rfl⟩ := List.exists_cons_of_ne_nil htrue.1
      by_cases hc : c.isDigit
      · obtain ⟨run, blanks, rest, hcut⟩ := exists_cut hc s
        have hrest := newline_of_suffix hcut.suffix hnl
        exact hcut.loopCases hnl htrue
          (ih rest.length (hlen ▸ hcut.length_lt) rest hcut.head hrest rfl)
      · have hdigit : c.isDigit = false := Bool.eq_false_of_not_eq_true hc
        refine .inr ⟨fun h => ?_, not_ends hdigit zn s⟩
        have hmem := h c List.mem_cons_self
        rw [hdigit, hhead c rfl] at hmem
        simp at hmem
    · exact loopCases_of_not_true htrue zn

/-! ### The lines that name a zone -/

theorem not_isWord_of_isSpace {c : Char} (h : isSpace c) : isWord c = false := by
  simp only [isSpace, List.mem_cons, List.not_mem_nil, or_false, decide_eq_true_eq] at h
  rcases h with rfl | rfl | rfl | rfl | rfl | rfl <;> rfl

/-- How a line names a zone. -/
structure Names (line blanks₁ zn blanks₂ tail : Text) : Prop where
  eq : line = zonePrefix ++ (blanks₁ ++ (zn ++ (blanks₂ ++ tail)))
  blank₁ : ∀ c ∈ blanks₁, isSpace c
  ne_nil₁ : blanks₁ ≠ []
  word : ∀ c ∈ zn, isWord c
  ne_nil : zn ≠ []
  blank₂ : ∀ c ∈ blanks₂, isSpace c
  ne_nil₂ : blanks₂ ≠ []

namespace Names
variable {line blanks₁ zn blanks₂ tail : Text}

theorem behind₁ (h : Names line blanks₁ zn blanks₂ tail) :
    ∀ c ∈ (zn ++ (blanks₂ ++ tail)).head?, isSpace c = false := by
  obtain ⟨d, zn', hd⟩ := List.exists_cons_of_ne_nil h.ne_nil
  intro c hc
  rw [hd] at hc
  obtain rfl : d = c := Option.some.inj hc
  by_contra hspace
  have hnot := not_isWord_of_isSpace (Bool.eq_true_of_not_eq_false hspace)
  rw [h.word d (hd ▸ List.mem_cons_self)] at hnot
  cases hnot

theorem behind (h : Names line blanks₁ zn blanks₂ tail) :
    ∀ c ∈ (blanks₂ ++ tail).head?, isWord c = false := by
  obtain ⟨d, blanks, hd⟩ := List.exists_cons_of_ne_nil h.ne_nil₂
  intro c hc
  rw [hd] at hc
  obtain rfl : d = c := Option.some.inj hc
  exact not_isWord_of_isSpace (h.blank₂ d (hd ▸ List.mem_cons_self))

theorem suffix (h : Names line blanks₁ zn blanks₂ tail) : tail <:+ line :=
  ⟨zonePrefix ++ (blanks₁ ++ (zn ++ blanks₂)), by simp only [h.eq, List.append_assoc]⟩

/-- Blanks in front of the tail belong to those behind the name. -/
theorem zoneLine_eq (h : Names line blanks₁ zn blanks₂ tail) :
    zoneLine line = some (zn, tail.dropWhile isSpace) := by
  have htake₂ : (blanks₂ ++ tail).takeWhile isSpace ≠ [] := by
    rw [List.takeWhile_append_of_pos h.blank₂]
    exact List.append_ne_nil_of_left_ne_nil h.ne_nil₂ _
  have hdrop₂ : (blanks₂ ++ tail).dropWhile isSpace = tail.dropWhile isSpace :=
    List.dropWhile_append_of_pos h.blank₂
  have hbegins : zonePrefix <+: line := ⟨_, h.eq.symm⟩
  have hbehind : line.drop zonePrefix.length = blanks₁ ++ (zn ++ (blanks₂ ++ tail)) := by
    rw [h.eq, List.drop_left]
  simp only [zoneLine, hbehind, Regex.takeWhile_run h.blank₁ h.behind₁,
    Regex.dropWhile_run h.blank₁ h.behind₁, Regex.takeWhile_run h.word h.behind,
    Regex.dropWhile_run h.word h.behind, hdrop₂]
  exact if_pos ⟨hbegins, h.ne_nil₁, h.ne_nil, htake₂⟩

theorem first_eq (h : Names line blanks₁ zn blanks₂ tail)
    (hhead : ∀ c ∈ tail.head?, isSpace c = false) (hnl : '\n' ∉ tail.dropLast) :
    Regex.first zonePattern true line =
      some ⟨false, tail.dropWhile isDot, [(2, tail.takeWhile isDot), (1, zn)]⟩ := by
  have hne : zonePrefix ≠ [] := by decide
  have hlit := Regex.outcomes_lit hne (blanks₁ ++ (zn ++ (blanks₂ ++ tail))) true []
  rw [h.eq]
  refine Regex.head?_outcomes_cat (d := ⟨true, _, []⟩) rfl ?_
  refine Regex.head?_outcomes_cat (by rw [hlit, List.head?_cons]) ?_
  refine Regex.head?_outcomes_cat (Regex.outcomes_plus_sym h.blank₁ h.ne_nil₁ h.behind₁ _ _) ?_
  refine Regex.head?_outcomes_cat
    (Regex.outcomes_group_plus_sym h.word h.ne_nil h.behind 1 _ _) ?_
  refine Regex.head?_outcomes_cat (Regex.outcomes_plus_sym h.blank₂ h.ne_nil₂ hhead _ _) ?_
  exact first_rest hnl false _

end Names

theorem names_of_zoneLine {line zn tail : Text} (h : zoneLine line = some (zn, tail)) :
    (∃ blanks₁ blanks₂, Names line blanks₁ zn blanks₂ tail) ∧
      ∀ c ∈ tail.head?, isSpace c = false := by
  simp only [zoneLine] at h
  obtain ⟨⟨⟨s, rfl⟩, hne₁, hne, hne₂⟩, heq⟩ := Option.ite_none_right_eq_some.mp h
  obtain ⟨rfl, rfl⟩ := Prod.mk.inj (Option.some.inj heq)
  rw [List.drop_left] at hne₁ hne hne₂ ⊢
  refine ⟨⟨_, _, ?_, fun c => List.mem_takeWhile_imp, hne₁, fun c => List.mem_takeWhile_imp, hne,
    fun c => List.mem_takeWhile_imp, hne₂⟩, head_dropWhile isSpace _⟩
  simp only [List.takeWhile_append_dropWhile]

/-- A match of the pattern names a zone. -/
theorem names_of_outcome {line : Text} {d : Cursor Char}
    (hd : d ∈ Regex.outcomes zonePattern ⟨true, line, []⟩) :
    ∃ blanks₁ zn blanks₂ tail, Names line blanks₁ zn blanks₂ tail := by
  obtain ⟨c₁, h₁, hd⟩ := Regex.mem_outcomes_cat.mp hd
  obtain rfl := List.mem_singleton.mp h₁
  obtain ⟨c₂, h₂, hd⟩ := Regex.mem_outcomes_cat.mp hd
  obtain ⟨c₃, h₃, hd⟩ := Regex.mem_outcomes_cat.mp hd
  obtain ⟨c₄, h₄, hd⟩ := Regex.mem_outcomes_cat.mp hd
  obtain ⟨c₅, h₅, -⟩ := Regex.mem_outcomes_cat.mp hd
  obtain ⟨hbegins, -⟩ := Regex.mem_outcomes_lit h₂
  obtain ⟨blanks₁, hne₁, hblanks₁, -, hall₁⟩ := Regex.mem_outcomes_plus_sym h₃
  obtain ⟨e, he, rfl⟩ := List.mem_map.mp h₄
  obtain ⟨zn, hne, hzn, -, hall⟩ := Regex.mem_outcomes_plus_sym he
  obtain ⟨blanks₂, hne₂, hblanks₂, -, hall₂⟩ := Regex.mem_outcomes_plus_sym h₅
  refine ⟨blanks₁, zn, blanks₂, c₅.rest, ?_, hall₁, hne₁, hall, hne, hall₂, hne₂⟩
  have hbegins : line = zonePrefix ++ c₂.rest := hbegins
  have hblanks₂ : e.rest = blanks₂ ++ c₅.rest := hblanks₂
  rw [hbegins, hblanks₁, hzn, hblanks₂]

/-- **The pattern finds the zone and the tail of a line.** -/
theorem substitute_zone {line : Text} (hnl : '\n' ∉ line.dropLast) :
    substitute zonePattern line = zoneLine line := by
  cases hline : zoneLine line with
  | some z =>
    obtain ⟨zn, tail⟩ := z
    obtain ⟨⟨blanks₁, blanks₂, hnames⟩, hhead⟩ := names_of_zoneLine hline
    exact substitute_first (hnames.first_eq hhead (newline_of_suffix hnames.suffix hnl))
  | none =>
    have hfirst : Regex.first zonePattern true line = none := by
      by_contra hsome
      obtain ⟨d, hd⟩ := Option.ne_none_iff_exists'.mp hsome
      obtain ⟨blanks₁, zn, blanks₂, tail, hnames⟩ := names_of_outcome (List.mem_of_mem_head? hd)
      rw [hnames.zoneLine_eq] at hline
      cases hline
    have hstop := Regex.stop_search_anchored (r := zonePattern) (fun _ => rfl) line
    rw [hfirst, Option.map_eq_none_iff] at hstop
    rw [substitute, hstop, Option.map_none]

/-- What stands behind the name does not begin with a blank, and is the end of its line. -/
theorem tail_of_zoneLine {line zn tail : Text} (h : zoneLine line = some (zn, tail)) :
    tail <:+ line ∧ ∀ c ∈ tail.head?, isSpace c = false := by
  obtain ⟨⟨blanks₁, blanks₂, hnames⟩, hhead⟩ := names_of_zoneLine h
  exact ⟨hnames.suffix, hhead⟩

/-! ### The outer loop -/

/-- The inner loop ends on the line, if the program comes to it. -/
def Ends (line : Text) : Prop :=
  ∀ zn rest, substitute zonePattern line = some (zn, rest) →
    ∀ nodes, Loop.Ends (turn zn) ⟨rest, nodes⟩

/-- **The inner loop ends on exactly the lines that have counts behind the name of the zone.** -/
theorem ends_iff (l : Line) : Ends l.text ↔ OnlyCounts l := by
  rw [Ends, OnlyCounts, substitute_zone l.newline_last]
  refine forall_congr' fun zn => forall_congr' fun tail => forall_congr' fun hline => ?_
  obtain ⟨hsuffix, hhead⟩ := tail_of_zoneLine hline
  obtain ⟨hcounts, ns, -, hresults⟩ | ⟨hcounts, hnot⟩ := loop_cases zn tail hhead
    (newline_of_suffix hsuffix l.newline_last)
  · exact iff_of_true (fun nodes => ⟨_, (hresults nodes _).mpr rfl⟩) hcounts
  · exact iff_of_false (fun h => hnot (fun _ => []) (h _)) hcounts

/-- **A line yields its counts**, but for a 0 that is its last symbol. -/
theorem readsLine_iff {l : Line} {zn tail : Text} (hline : zoneLine l.text = some (zn, tail))
    (htail : IsCounts tail) :
    ∃ ns, UpToZero tail ns ∧ ∀ nodes nodes',
      ReadsLine l.text nodes nodes' ↔ nodes' = push nodes zn ns := by
  obtain ⟨hsuffix, hhead⟩ := tail_of_zoneLine hline
  obtain ⟨-, ns, hns, hresults⟩ | ⟨hcounts, -⟩ := loop_cases zn tail hhead
    (newline_of_suffix hsuffix l.newline_last)
  · refine ⟨ns, hns, fun nodes nodes' => ?_⟩
    rw [ReadsLine, substitute_zone l.newline_last, hline]
    exact (hresults nodes nodes').trans eq_comm
  · exact absurd htail hcounts

/-- What any line makes of `$nodes`, if it has only counts behind the name of a zone. -/
theorem readsLine_cases {l : Line} (hcounts : OnlyCounts l) (nodes : Nodes) :
    ∃ next, (∀ nodes', ReadsLine l.text nodes nodes' ↔ nodes' = next) ∧ ∀ zn,
      next zn = nodes zn ++ lineCounts zn l ∨
        next zn ++ [['0']] = nodes zn ++ lineCounts zn l ∧ l.text.getLast? = some '0' := by
  cases hline : zoneLine l.text with
  | none =>
    refine ⟨nodes, fun nodes' => ?_, fun zn => .inl ?_⟩
    · rw [ReadsLine, substitute_zone l.newline_last, hline]
    · rw [lineCounts, hline, Option.elim_none, List.append_nil]
  | some z =>
    obtain ⟨zn, tail⟩ := z
    obtain ⟨ns, hns, hreads⟩ := readsLine_iff hline (hcounts zn tail hline)
    refine ⟨push nodes zn ns, hreads nodes, fun zn' => ?_⟩
    rw [lineCounts, hline, Option.elim_some]
    by_cases hzn : zn = zn'
    · subst hzn
      rw [push, Function.update_self, if_pos rfl]
      obtain rfl | ⟨hzero, hlast⟩ := hns
      · exact .inl rfl
      · refine .inr ⟨by rw [← hzero, List.append_assoc], ?_⟩
        obtain ⟨front, hfront⟩ := (tail_of_zoneLine hline).1
        rw [← hfront, List.getLast?_append, hlast, Option.some_or]
    · refine .inl ?_
      rw [push, Function.update_of_ne (Ne.symm hzn), if_neg hzn, List.append_nil]

theorem reads_cons {l : Line} {nodes next : Nodes}
    (h : ∀ nodes', ReadsLine l.text nodes nodes' ↔ nodes' = next) (ls : List Line)
    (nodes' : Nodes) : Reads (l :: ls) nodes nodes' ↔ Reads ls next nodes' := by
  simp only [Reads, h, exists_eq_left]

/-- **Lines with counts are read to the end**, and every zone has its counts then, but for a 0
that is the last symbol of the text. -/
theorem reads_iff (ls : List Line) (hnl : ∀ l ∈ ls.dropLast, l.text.getLast? = some '\n')
    (hcounts : ∀ l ∈ ls, OnlyCounts l) (nodes : Nodes) :
    ∃ final, (∀ nodes', Reads ls nodes nodes' ↔ nodes' = final) ∧ ∀ zn,
      final zn = nodes zn ++ zoneCounts ls zn ∨
        final zn ++ [['0']] = nodes zn ++ zoneCounts ls zn := by
  induction ls generalizing nodes with
  | nil => exact ⟨nodes, fun nodes' => Iff.rfl, fun zn => .inl (List.append_nil _).symm⟩
  | cons l ls ih =>
    obtain ⟨next, hreads, hnext⟩ := readsLine_cases (hcounts l List.mem_cons_self) nodes
    by_cases hls : ls = []
    · subst hls
      refine ⟨next, fun nodes' => reads_cons hreads [] nodes', fun zn => ?_⟩
      rw [zoneCounts, List.flatMap_singleton]
      exact (hnext zn).imp_right And.left
    · have hdrop : (l :: ls).dropLast = l :: ls.dropLast := List.dropLast_cons_of_ne_nil hls
      rw [hdrop] at hnl
      have hlast : l.text.getLast? = some '\n' := hnl l List.mem_cons_self
      obtain ⟨final, hfinal, hall⟩ := ih (fun l' h => hnl l' (List.mem_cons_of_mem l h))
        (fun l' h => hcounts l' (List.mem_cons_of_mem l h)) next
      refine ⟨final, fun nodes' => (reads_cons hreads ls nodes').trans (hfinal nodes'),
        fun zn => ?_⟩
      have hkept : next zn = nodes zn ++ lineCounts zn l := by
        obtain h | ⟨-, hzero⟩ := hnext zn
        · exact h
        · rw [hlast] at hzero
          cases hzero
      rw [zoneCounts, List.flatMap_cons, ← List.append_assoc, ← hkept]
      exact hall zn

/-! ### The sums -/

theorem pages_eq (ns : List Text) : pages ns = Nat.ofDigits 2 (ns.map ofDigits) :=
  (Nat.ofDigits_eq_sum_mapIdx 2 _).symm

theorem pages_cons (n : Text) (ns : List Text) :
    pages (n :: ns) = ofDigits n + 2 * pages ns := by
  rw [pages_eq, pages_eq, List.map_cons, Nat.ofDigits_cons]

theorem pages_zero (ns : List Text) : pages (ns ++ [['0']]) = pages ns := by
  have hzero : [['0']].map ofDigits = [0] := rfl
  rw [pages_eq, pages_eq, List.map_append, hzero, Nat.ofDigits_append_zero]

/-- What a turn adds, at the place `k`. -/
theorem addCount_eq {s k : Nat} {n : Text} (h : s + ofDigits n * 2 ^ k < Perl.wordLimit) :
    addCount (some s, 2 ^ k % Perl.wordLimit) n =
      (some (s + ofDigits n * 2 ^ k), 2 ^ (k + 1) % Perl.wordLimit) := by
  have hfits : ofDigits n * 2 ^ k < Perl.wordLimit := Nat.lt_of_le_of_lt (Nat.le_add_left _ s) h
  have hle : ofDigits n ≤ ofDigits n * 2 ^ k := Nat.le_mul_of_pos_right _ (Nat.two_pow_pos k)
  have hfinite : ofDigits n < Perl.infinity :=
    Nat.lt_of_lt_of_le (Nat.lt_of_le_of_lt hle hfits) Perl.wordLimit_le_infinity
  have hword : ofDigits n * (2 ^ k % Perl.wordLimit) = ofDigits n * 2 ^ k := by
    obtain hzero | hpos := Nat.eq_zero_or_pos (ofDigits n)
    · rw [hzero, Nat.zero_mul, Nat.zero_mul]
    · have hweight : 2 ^ k ≤ ofDigits n * 2 ^ k := Nat.le_mul_of_pos_left _ hpos
      rw [Nat.mod_eq_of_lt (Nat.lt_of_le_of_lt hweight hfits)]
  have hmul := Perl.mul_eq_some hfinite (hword.trans_lt hfits)
  rw [addCount, hmul, hword, Perl.add_eq_some h, Perl.shift_pow]

theorem foldl_addCount (ns : List Text) (s k : Nat)
    (h : s + 2 ^ k * pages ns < Perl.wordLimit) :
    (ns.foldl addCount (some s, 2 ^ k % Perl.wordLimit)).1 = some (s + 2 ^ k * pages ns) := by
  induction ns generalizing s k with
  | nil => rfl
  | cons n ns ih =>
    have hsplit : s + 2 ^ k * pages (n :: ns) =
        s + ofDigits n * 2 ^ k + 2 ^ (k + 1) * pages ns := by
      rw [pages_cons, Nat.pow_succ]
      ring
    rw [hsplit] at h ⊢
    rw [List.foldl_cons, addCount_eq (Nat.lt_of_le_of_lt (Nat.le_add_right _ _) h), ih _ _ h]

theorem foldl_addCount_lt {ns : List Text} {x : Option Nat} {order t : Nat}
    (hx : ∀ s ∈ x, s < Perl.wordLimit) (h : (ns.foldl addCount (x, order)).1 = some t) :
    t < Perl.wordLimit := by
  induction ns generalizing x order with
  | nil => exact hx t h
  | cons n ns ih =>
    rw [List.foldl_cons, addCount] at h
    exact ih (fun s hs => Perl.lt_of_add_eq_some hs) h

/-- **The sum of a zone is right exactly when it fits a word.** -/
theorem zoneSum_eq_iff (ns : List Text) :
    zoneSum ns = some (pages ns) ↔ pages ns < Perl.wordLimit := by
  constructor
  · exact foldl_addCount_lt fun s hs => by
      rw [← Option.some.inj hs]
      exact Nat.two_pow_pos 64
  · intro h
    have hsum := foldl_addCount ns 0 0 (by rwa [Nat.zero_add, Nat.pow_zero, Nat.one_mul])
    rwa [Nat.zero_add, Nat.pow_zero, Nat.one_mul] at hsum

theorem foldl_zoneSum (nodes : Nodes) (keys : List Text) (s : Nat)
    (h : s + (keys.map fun zn => pages (nodes zn)).sum < Perl.wordLimit) :
    keys.foldl (fun sum zn => Perl.add sum (zoneSum (nodes zn))) (some s) =
      some (s + (keys.map fun zn => pages (nodes zn)).sum) := by
  induction keys generalizing s with
  | nil => rfl
  | cons zn keys ih =>
    rw [List.map_cons, List.sum_cons, ← Nat.add_assoc] at h ⊢
    have hsum : s + pages (nodes zn) < Perl.wordLimit := Nat.lt_of_le_of_lt (Nat.le_add_right _ _) h
    have hzone := (zoneSum_eq_iff _).mpr (Nat.lt_of_le_of_lt (Nat.le_add_left _ s) hsum)
    rw [List.foldl_cons, hzone, Perl.add_eq_some hsum, ih _ h]

/-! ### The whole text -/

/-- The text is read to the end, its lines yield their counts, and the sums are right. -/
structure Exact (info : Text) : Prop where
  /-- The inner loop ends on every line about node 0. -/
  ends : ∀ l ∈ Perl.readLines info, zonePrefix <+: l.text → Ends l.text
  /-- A line of counts yields these in order; a final 0 may be dropped. -/
  yields : ∀ l ∈ Perl.readLines info, ∀ zn tail, zoneLine l.text = some (zn, tail) →
    IsCounts tail → ∃ ns, (ns = counts tail ∨ ns ++ [['0']] = counts tail) ∧
      ∀ nodes nodes', ReadsLine l.text nodes nodes' ↔ nodes' = push nodes zn ns
  /-- The sum of a zone is that of its counts, each times its power of 2. -/
  sums : ∃ nodes, (∀ nodes', Reads (Perl.readLines info) (fun _ => []) nodes' ↔ nodes' = nodes) ∧
    ∀ zn, zoneSum (nodes zn) = some (pages (zoneCounts (Perl.readLines info) zn))

/-- There are only counts behind the names of zones, and no zone has `2 ^ 64` pages. -/
structure Counted (info : Text) : Prop where
  counts : ∀ l ∈ Perl.readLines info, OnlyCounts l
  fits : ∀ zn, pages (zoneCounts (Perl.readLines info) zn) < 2 ^ 64

/-- Once there are only counts, the text is read, and a zone has its pages. -/
theorem reads_pages {info : Text} (hcounts : ∀ l ∈ Perl.readLines info, OnlyCounts l) :
    ∃ nodes, (∀ nodes', Reads (Perl.readLines info) (fun _ => []) nodes' ↔ nodes' = nodes) ∧
      ∀ zn, pages (nodes zn) = pages (zoneCounts (Perl.readLines info) zn) := by
  obtain ⟨nodes, hreads, hall⟩ := reads_iff (Perl.readLines info)
    (fun l => Perl.getLast?_of_mem_dropLast) hcounts fun _ => []
  refine ⟨nodes, hreads, fun zn => ?_⟩
  obtain hzn | hzn := hall zn
  · rw [hzn, List.nil_append]
  · rw [← pages_zero (nodes zn), hzn, List.nil_append]

/-- **The parsing ends and is exact if and only if there are only counts behind the names of
zones and no zone has `2 ^ 64` pages.** -/
theorem exact_iff (info : Text) : Exact info ↔ Counted info := by
  constructor
  · intro hexact
    have hcounts : ∀ l ∈ Perl.readLines info, OnlyCounts l := by
      intro l hl zn tail hline
      obtain ⟨⟨blanks₁, blanks₂, hnames⟩, -⟩ := names_of_zoneLine hline
      have hends := hexact.ends l hl ⟨_, hnames.eq.symm⟩
      exact (ends_iff l).mp hends zn tail hline
    refine ⟨hcounts, fun zn => ?_⟩
    obtain ⟨nodes, hreads, hsums⟩ := hexact.sums
    obtain ⟨nodes', hreads', hpages⟩ := reads_pages hcounts
    obtain rfl : nodes = nodes' := (hreads' nodes).mp ((hreads nodes).mpr rfl)
    have hsum := hsums zn
    rw [← hpages zn] at hsum ⊢
    exact (zoneSum_eq_iff _).mp hsum
  · intro hcounted
    refine ⟨fun l hl _ => (ends_iff l).mpr (hcounted.counts l hl), ?_, ?_⟩
    · intro l _ zn tail hline htail
      obtain ⟨ns, hns, hreads⟩ := readsLine_iff hline htail
      exact ⟨ns, hns.imp_right And.left, hreads⟩
    · obtain ⟨nodes, hreads, hpages⟩ := reads_pages hcounted.counts
      refine ⟨nodes, hreads, fun zn => ?_⟩
      have hfits := hcounted.fits zn
      rw [← hpages zn] at hfits ⊢
      exact (zoneSum_eq_iff _).mpr hfits

/-- The total of the zones, in whatever order they come. -/
theorem allSum_eq {info : Text} {nodes : Nodes} {keys : List Text}
    (hcounts : ∀ l ∈ Perl.readLines info, OnlyCounts l)
    (hreads : Reads (Perl.readLines info) (fun _ => []) nodes)
    (hfits : (keys.map fun zn => pages (zoneCounts (Perl.readLines info) zn)).sum < 2 ^ 64) :
    allSum nodes keys =
      some (keys.map fun zn => pages (zoneCounts (Perl.readLines info) zn)).sum := by
  obtain ⟨nodes', hnodes, hpages⟩ := reads_pages hcounts
  obtain rfl := (hnodes nodes).mp hreads
  have hzones : (fun zn => pages (zoneCounts (Perl.readLines info) zn)) =
      fun zn => pages (nodes zn) := funext fun zn => (hpages zn).symm
  rw [hzones] at hfits ⊢
  have hsum := foldl_zoneSum nodes keys 0 (by rwa [Nat.zero_add])
  rwa [Nat.zero_add] at hsum

/-- Behind the count the loop has a word in front of it, and finds no number any more. -/
theorem not_exact_of_word : ¬ Exact "Node 0, zone      DMA      5 pages\n".toList := by
  intro hexact
  let l : Line := ⟨"Node 0, zone      DMA      5 pages\n".toList, by decide⟩
  have hl : l ∈ Perl.readLines "Node 0, zone      DMA      5 pages\n".toList :=
    List.mem_cons_self
  have hline : zoneLine l.text = some ("DMA".toList, "5 pages\n".toList) := rfl
  have hcounts := (ends_iff l).mp (hexact.ends l hl (by decide)) _ _ hline
  exact absurd (hcounts 'p' (by decide)) (by decide)

end VleoNotebook.KernelTools
