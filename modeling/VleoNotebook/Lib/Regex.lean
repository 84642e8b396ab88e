import Mathlib.Data.List.Basic

/-! Backtracking patterns, as Perl runs them.

A pattern is run at a cursor and answers with every way it can match there, in
the order a backtracking matcher would try them (`outcomes`); the match Perl
reports is the first one at the leftmost position that has any (`search`).
Quantifiers are greedy: `star` lists the longer repetitions first. Substitution
with and without `/g` (`gsub`, `sub`) is built on that. Symbols are arbitrary, so
the same matcher reads bytes and text. -/
namespace Perl

/-- A pattern over symbols `α`. `eos nl` is `$`: the end, or before a final newline. -/
inductive Regex (α : Type) where
  | sym (p : α → Bool)
  | empty
  | cat (r s : Regex α)
  | alt (r s : Regex α)
  | star (r : Regex α)
  | group (n : Nat) (r : Regex α)
  | bos
  | eos (nl : α → Bool)

/-- Where a match stands: whether nothing precedes it, what is left to read, and
the groups captured so far, the latest first. -/
structure Cursor (α : Type) where
  atStart : Bool
  rest : List α
  caps : List (Nat × List α)

/-- `$n`: the text group `n` captured last, `none` where it took no part. -/
def Cursor.cap {α : Type} (c : Cursor α) (n : Nat) : Option (List α) := c.caps.lookup n

/-- A found match: what precedes it, its text, and the cursor behind it. -/
structure Match (α : Type) where
  before : List α
  text : List α
  stop : Cursor α

namespace Regex
variable {α : Type}

/-! ### Notation of the patterns -/

/-- The symbols `xs`, one after the other. -/
def lit [DecidableEq α] : List α → Regex α
  | [] => .empty
  | x :: xs => .cat (.sym (· = x)) (lit xs)

/-- `r+` -/
def plus (r : Regex α) : Regex α := .cat r (.star r)

/-- `r?` -/
def opt (r : Regex α) : Regex α := .alt r .empty

/-- The patterns `rs`, one after the other. -/
def seq : List (Regex α) → Regex α
  | [] => .empty
  | r :: rs => .cat r (seq rs)

/-! ### Matching at a cursor -/

/-- Up to `fuel` repetitions of `f`, the longer ones first. A repetition that
reads nothing is not tried again. -/
def many (f : Cursor α → List (Cursor α)) : Nat → Cursor α → List (Cursor α)
  | 0, c => [c]
  | fuel + 1, c =>
    ((f c).filter fun d => d.rest.length < c.rest.length).flatMap (many f fuel) ++ [c]

/-- Every way to match at `c`, in the order they are tried. -/
def outcomes : Regex α → Cursor α → List (Cursor α)
  | .sym p, c =>
    match c.rest with
    | [] => []
    | a :: rest => if p a then [⟨false, rest, c.caps⟩] else []
  | .empty, c => [c]
  | .cat r s, c => (outcomes r c).flatMap (outcomes s)
  | .alt r s, c => outcomes r c ++ outcomes s c
  | .star r, c => many (outcomes r) c.rest.length c
  | .group n r, c => (outcomes r c).map fun d =>
      {d with caps := (n, c.rest.take (c.rest.length - d.rest.length)) :: d.caps}
  | .bos, c => if c.atStart then [c] else []
  | .eos nl, c =>
    match c.rest with
    | [] => [c]
    | [a] => if nl a then [c] else []
    | _ => []

/-- The first way to match in front of `xs`. -/
def first (r : Regex α) (atStart : Bool) (xs : List α) : Option (Cursor α) :=
  (outcomes r ⟨atStart, xs, []⟩).head?

/-! ### Searching and replacing -/

/-- The leftmost match in `xs`, `atStart` telling whether `xs` is the whole text. -/
def searchFrom (r : Regex α) (atStart : Bool) (xs : List α) : Option (Match α) :=
  match first r atStart xs with
  | some d => some ⟨[], xs.take (xs.length - d.rest.length), d⟩
  | none =>
    match xs with
    | [] => none
    | a :: rest => (searchFrom r false rest).map fun m => {m with before := a :: m.before}

/-- `xs =~ m/r/` -/
def search (r : Regex α) (xs : List α) : Option (Match α) := searchFrom r true xs

/-- Whether `r` matches somewhere in `xs`. -/
def isMatch (r : Regex α) (xs : List α) : Bool := (search r xs).isSome

/-- `s/r/.../`: the leftmost match replaced. -/
def sub (r : Regex α) (rep : Cursor α → List α) (xs : List α) : List α :=
  match search r xs with
  | some m => m.before ++ rep m.stop ++ m.stop.rest
  | none => xs

/-- `s/r/.../g` from a position on: matches do not overlap, and the scan resumes
behind each one. An empty match is replaced and one symbol is passed. -/
def gsubAux (r : Regex α) (rep : Cursor α → List α) : Nat → Bool → List α → List α
  | 0, _, xs => xs
  | fuel + 1, atStart, xs =>
    match first r atStart xs with
    | some d =>
      if d.rest.length < xs.length then rep d ++ gsubAux r rep fuel false d.rest
      else rep d ++ match xs with
        | [] => []
        | a :: rest => a :: gsubAux r rep fuel false rest
    | none =>
      match xs with
      | [] => []
      | a :: rest => a :: gsubAux r rep fuel false rest

/-- `s/r/.../g` on what is left of a text. Every step reads a symbol, so the fuel
never runs out (`gsubAux_fuel`). -/
def gsubFrom (r : Regex α) (rep : Cursor α → List α) (atStart : Bool) (xs : List α) : List α :=
  gsubAux r rep (xs.length + 1) atStart xs

/-- `s/r/.../g` -/
def gsub (r : Regex α) (rep : Cursor α → List α) (xs : List α) : List α :=
  gsubFrom r rep true xs

/-! ### Equations of matching -/

section Equations
variable (f : Cursor α → List (Cursor α)) (fuel : Nat) (p : α → Bool) (r s : Regex α) (n : Nat)
  (b : Bool) (a : α) (rest : List α) (caps : List (Nat × List α)) (c : Cursor α)

@[simp] theorem lit_nil [DecidableEq α] : lit ([] : List α) = .empty := rfl

@[simp] theorem lit_cons [DecidableEq α] : lit (a :: rest) = .cat (.sym (· = a)) (lit rest) := rfl

@[simp] theorem seq_nil : seq ([] : List (Regex α)) = .empty := rfl

@[simp] theorem seq_cons (rs : List (Regex α)) : seq (r :: rs) = .cat r (seq rs) := rfl

@[simp] theorem many_zero : many f 0 c = [c] := rfl

@[simp] theorem many_succ : many f (fuel + 1) c =
    ((f c).filter fun d => d.rest.length < c.rest.length).flatMap (many f fuel) ++ [c] := rfl

@[simp] theorem outcomes_sym_nil : outcomes (.sym p) ⟨b, [], caps⟩ = [] := rfl

@[simp] theorem outcomes_sym_cons : outcomes (.sym p) ⟨b, a :: rest, caps⟩ =
    if p a then [⟨false, rest, caps⟩] else [] := rfl

@[simp] theorem outcomes_empty : outcomes .empty c = [c] := rfl

@[simp] theorem outcomes_cat : outcomes (.cat r s) c = (outcomes r c).flatMap (outcomes s) := rfl

@[simp] theorem outcomes_alt : outcomes (.alt r s) c = outcomes r c ++ outcomes s c := rfl

@[simp] theorem outcomes_opt : outcomes (.opt r) c = outcomes r c ++ [c] := rfl

theorem outcomes_plus : outcomes (.plus r) c = (outcomes r c).flatMap (outcomes (.star r)) := rfl

theorem outcomes_star : outcomes (.star r) c = many (outcomes r) c.rest.length c := rfl

@[simp] theorem outcomes_group : outcomes (.group n r) c = (outcomes r c).map fun d =>
    {d with caps := (n, c.rest.take (c.rest.length - d.rest.length)) :: d.caps} := rfl

@[simp] theorem outcomes_bos : outcomes .bos c = if c.atStart then [c] else [] := rfl

@[simp] theorem outcomes_eos_nil : outcomes (.eos p) ⟨b, [], caps⟩ = [⟨b, [], caps⟩] := rfl

@[simp] theorem outcomes_eos_single : outcomes (.eos p) ⟨b, [a], caps⟩ =
    if p a then [⟨b, [a], caps⟩] else [] := rfl

@[simp] theorem outcomes_eos_cons_cons (a' : α) :
    outcomes (.eos p) ⟨b, a :: a' :: rest, caps⟩ = [] := rfl

end Equations

section Search
variable {r : Regex α} {b : Bool}

theorem searchFrom_some {xs : List α} {d : Cursor α} (h : first r b xs = some d) :
    searchFrom r b xs = some ⟨[], xs.take (xs.length - d.rest.length), d⟩ := by
  cases xs <;> simp only [searchFrom, h]

theorem searchFrom_nil (h : first r b [] = none) : searchFrom r b [] = none := by
  simp only [searchFrom, h]

theorem searchFrom_cons {a : α} {xs : List α} (h : first r b (a :: xs) = none) :
    searchFrom r b (a :: xs) =
      (searchFrom r false xs).map fun m => {m with before := a :: m.before} := by
  simp only [searchFrom, h]

end Search

/-! ### Running a pattern by its first outcome -/

theorem head?_flatMap {β γ : Type} {l : List β} {f : β → List γ} {x : β} {y : γ}
    (hl : l.head? = some x) (hf : (f x).head? = some y) : (l.flatMap f).head? = some y := by
  cases l with
  | nil => cases hl
  | cons a rest =>
    obtain rfl : a = x := by simpa using hl
    cases hfa : f a with
    | nil => rw [hfa] at hf; cases hf
    | cons b bs =>
      rw [hfa] at hf
      simpa [List.flatMap_cons, hfa] using hf

/-- When the first outcome of `r` leads on through `s`, it is the first of both. -/
theorem head?_outcomes_cat {r s : Regex α} {c d e : Cursor α} (hr : (outcomes r c).head? = some d)
    (hs : (outcomes s d).head? = some e) : (outcomes (.cat r s) c).head? = some e :=
  head?_flatMap hr hs

theorem head?_outcomes_group {r : Regex α} {c d : Cursor α} (n : Nat)
    (hr : (outcomes r c).head? = some d) :
    (outcomes (.group n r) c).head? =
      some {d with caps := (n, c.rest.take (c.rest.length - d.rest.length)) :: d.caps} := by
  simp [hr]

theorem many_sym (p : α → Bool) (fuel : Nat) (c : Cursor α) (h : c.rest.length ≤ fuel) :
    (many (outcomes (.sym p)) fuel c).head? =
      some ⟨c.atStart && (c.rest.takeWhile p).isEmpty, c.rest.dropWhile p, c.caps⟩ := by
  induction fuel generalizing c with
  | zero =>
    obtain ⟨s, xs, caps⟩ := c
    cases xs with
    | nil => simp
    | cons a rest => simp at h
  | succ fuel ih =>
    obtain ⟨s, xs, caps⟩ := c
    cases xs with
    | nil => simp
    | cons a rest =>
      cases hp : p a with
      | false => simp [hp]
      | true =>
        have hrest : rest.length ≤ fuel := by simpa using h
        have ih' := ih ⟨false, rest, caps⟩ hrest
        simp [hp, List.head?_append, ih']

/-- A greedy run of one class takes the longest run. -/
theorem outcomes_star_sym (p : α → Bool) (c : Cursor α) :
    (outcomes (.star (.sym p)) c).head? =
      some ⟨c.atStart && (c.rest.takeWhile p).isEmpty, c.rest.dropWhile p, c.caps⟩ :=
  many_sym p _ c (Nat.le_refl _)

theorem mem_outcomes_cat {r s : Regex α} {c d : Cursor α} :
    d ∈ outcomes (.cat r s) c ↔ ∃ e ∈ outcomes r c, d ∈ outcomes s e := List.mem_flatMap

/-- A symbol of the class is read, and nothing else. -/
theorem mem_outcomes_sym {p : α → Bool} {c d : Cursor α} (h : d ∈ outcomes (.sym p) c) :
    ∃ a, p a ∧ c.rest = a :: d.rest ∧ d.caps = c.caps := by
  obtain ⟨b, rest, caps⟩ := c
  cases rest with
  | nil => cases h
  | cons a rest =>
    rw [outcomes_sym_cons] at h
    split at h
    · rename_i ha
      obtain rfl := List.mem_singleton.mp h
      exact ⟨a, ha, rfl, rfl⟩
    · cases h

theorem mem_many_sym {p : α → Bool} {fuel : Nat} {c d : Cursor α}
    (h : d ∈ many (outcomes (.sym p)) fuel c) :
    ∃ run, c.rest = run ++ d.rest ∧ d.caps = c.caps ∧ ∀ a ∈ run, p a := by
  induction fuel generalizing c with
  | zero =>
    obtain rfl := List.mem_singleton.mp h
    exact ⟨[], rfl, rfl, fun a ha => absurd ha List.not_mem_nil⟩
  | succ fuel ih =>
    rcases List.mem_append.mp h with h | h
    · obtain ⟨e, he, hd⟩ := List.mem_flatMap.mp h
      obtain ⟨a, ha, hsym, hcaps'⟩ := mem_outcomes_sym (List.mem_filter.mp he).1
      obtain ⟨run, hrest, hcaps, hrun⟩ := ih hd
      refine ⟨a :: run, by rw [hsym, hrest, List.cons_append], hcaps.trans hcaps', fun x hx => ?_⟩
      rcases List.mem_cons.mp hx with rfl | hx
      · exact ha
      · exact hrun x hx
    · obtain rfl := List.mem_singleton.mp h
      exact ⟨[], rfl, rfl, fun a ha => absurd ha List.not_mem_nil⟩

/-- Whatever is taken of a run of one class is a run. -/
theorem mem_outcomes_star_sym {p : α → Bool} {c d : Cursor α}
    (h : d ∈ outcomes (.star (.sym p)) c) :
    ∃ run, c.rest = run ++ d.rest ∧ d.caps = c.caps ∧ ∀ a ∈ run, p a :=
  mem_many_sym h

theorem mem_outcomes_lit [DecidableEq α] {xs : List α} {c d : Cursor α}
    (h : d ∈ outcomes (.lit xs) c) : c.rest = xs ++ d.rest ∧ d.caps = c.caps := by
  induction xs generalizing c with
  | nil =>
    obtain rfl := List.mem_singleton.mp h
    exact ⟨rfl, rfl⟩
  | cons x xs ih =>
    obtain ⟨e, he, hd⟩ := mem_outcomes_cat.mp h
    obtain ⟨a, ha, hsym, hcaps'⟩ := mem_outcomes_sym he
    obtain ⟨hrest, hcaps⟩ := ih hd
    obtain rfl : a = x := of_decide_eq_true ha
    exact ⟨by rw [hsym, hrest, List.cons_append], hcaps.trans hcaps'⟩

/-- The end is where nothing is left, or only a newline. -/
theorem mem_outcomes_eos {nl : α → Bool} {c d : Cursor α} (h : d ∈ outcomes (.eos nl) c) :
    d = c ∧ (c.rest = [] ∨ ∃ a, c.rest = [a] ∧ nl a) := by
  obtain ⟨b, rest, caps⟩ := c
  match rest with
  | [] => exact ⟨List.mem_singleton.mp h, .inl rfl⟩
  | [a] =>
    rw [outcomes_eos_single] at h
    split at h
    · rename_i ha
      exact ⟨List.mem_singleton.mp h, .inr ⟨a, rfl, ha⟩⟩
    · cases h
  | _ :: _ :: _ => cases h

/-- The end of the text is there for `$`. -/
theorem outcomes_eos {nl : α → Bool} {c : Cursor α} (h : c.rest = [] ∨ ∃ a, c.rest = [a] ∧ nl a) :
    outcomes (.eos nl) c = [c] := by
  obtain ⟨b, rest, caps⟩ := c
  obtain rfl | ⟨a, rfl, ha⟩ := h
  · rfl
  · rw [outcomes_eos_single, if_pos ha]

/-- A word in front of something else. -/
theorem outcomes_lit [DecidableEq α] {xs : List α} (hne : xs ≠ []) (rest : List α) (b : Bool)
    (caps : List (Nat × List α)) :
    outcomes (.lit xs) ⟨b, xs ++ rest, caps⟩ = [⟨false, rest, caps⟩] := by
  induction xs generalizing b with
  | nil => exact absurd rfl hne
  | cons x xs ih =>
    have hsym : outcomes (.sym (· = x)) ⟨b, x :: xs ++ rest, caps⟩ = [⟨false, xs ++ rest, caps⟩] :=
      if_pos (decide_eq_true rfl)
    rw [lit_cons, outcomes_cat, hsym, List.flatMap_singleton]
    by_cases hxs : xs = []
    · subst hxs
      rfl
    · exact ih hxs false

/-- The longest run of one class, taken and captured. -/
theorem outcomes_group_star_sym (p : α → Bool) (n : Nat) (c : Cursor α) :
    (outcomes (.group n (.star (.sym p))) c).head? =
      some ⟨c.atStart && (c.rest.takeWhile p).isEmpty, c.rest.dropWhile p,
        (n, c.rest.takeWhile p) :: c.caps⟩ := by
  have hsplit : c.rest.takeWhile p ++ c.rest.dropWhile p = c.rest := List.takeWhile_append_dropWhile
  have hlen := congrArg List.length hsplit
  rw [List.length_append] at hlen
  have htaken : c.rest.take (c.rest.length - (c.rest.dropWhile p).length) = c.rest.takeWhile p := by
    rw [Nat.sub_eq_of_eq_add hlen.symm]
    exact (List.prefix_iff_eq_take.mp (List.takeWhile_prefix p)).symm
  rw [head?_outcomes_group n (outcomes_star_sym p c)]
  simp only [htaken]

theorem dropWhile_run {p : α → Bool} {run rest : List α} (hrun : ∀ a ∈ run, p a)
    (hrest : ∀ a ∈ rest.head?, p a = false) : (run ++ rest).dropWhile p = rest := by
  rw [List.dropWhile_append_of_pos hrun]
  cases rest with
  | nil => rfl
  | cons c rest => rw [List.dropWhile_cons_of_neg (by simp [hrest c rfl])]

theorem takeWhile_run {p : α → Bool} {run rest : List α} (hrun : ∀ a ∈ run, p a)
    (hrest : ∀ a ∈ rest.head?, p a = false) : (run ++ rest).takeWhile p = run := by
  rw [List.takeWhile_append_of_pos hrun]
  cases rest with
  | nil => exact List.append_nil run
  | cons c rest => rw [List.takeWhile_cons_of_neg (by simp [hrest c rfl]), List.append_nil]

/-- A run of one class in front of something else, taken. -/
theorem outcomes_plus_sym {p : α → Bool} {run rest : List α} (hrun : ∀ a ∈ run, p a)
    (hne : run ≠ []) (hrest : ∀ a ∈ rest.head?, p a = false) (b : Bool)
    (caps : List (Nat × List α)) :
    (outcomes (.plus (.sym p)) ⟨b, run ++ rest, caps⟩).head? = some ⟨false, rest, caps⟩ := by
  obtain ⟨a, as, rfl⟩ := List.exists_cons_of_ne_nil hne
  have hdrop : (as ++ rest).dropWhile p = rest :=
    dropWhile_run (fun x hx => hrun x (List.mem_cons_of_mem a hx)) hrest
  have hsym : (outcomes (.sym p) ⟨b, a :: as ++ rest, caps⟩).head? =
      some ⟨false, as ++ rest, caps⟩ := by
    simp [hrun a List.mem_cons_self]
  refine head?_outcomes_cat hsym ((outcomes_star_sym p _).trans ?_)
  simp only [hdrop, Bool.false_and]

/-- A run of one class in front of something else, taken and captured. -/
theorem outcomes_group_plus_sym {p : α → Bool} {run rest : List α} (hrun : ∀ a ∈ run, p a)
    (hne : run ≠ []) (hrest : ∀ a ∈ rest.head?, p a = false) (n : Nat) (b : Bool)
    (caps : List (Nat × List α)) :
    (outcomes (.group n (.plus (.sym p))) ⟨b, run ++ rest, caps⟩).head? =
      some ⟨false, rest, (n, run) :: caps⟩ := by
  have htaken : (run ++ rest).length - rest.length = run.length := by
    rw [List.length_append, Nat.add_sub_cancel]
  rw [head?_outcomes_group n (outcomes_plus_sym hrun hne hrest b caps)]
  simp only [htaken, List.take_left]

/-- What `r+` takes of one class is a run that is not empty. -/
theorem mem_outcomes_plus_sym {p : α → Bool} {c d : Cursor α}
    (h : d ∈ outcomes (.plus (.sym p)) c) :
    ∃ run, run ≠ [] ∧ c.rest = run ++ d.rest ∧ d.caps = c.caps ∧ ∀ a ∈ run, p a := by
  obtain ⟨e, he, hd⟩ := mem_outcomes_cat.mp h
  obtain ⟨a, ha, hsym, hcaps'⟩ := mem_outcomes_sym he
  obtain ⟨run, hrest, hcaps, hrun⟩ := mem_outcomes_star_sym hd
  refine ⟨a :: run, List.cons_ne_nil a run, by rw [hsym, hrest, List.cons_append],
    hcaps.trans hcaps', fun x hx => ?_⟩
  rcases List.mem_cons.mp hx with rfl | hx
  · exact ha
  · exact hrun x hx

/-- `r?` takes one symbol of the class where it can. -/
theorem outcomes_opt_sym {p : α → Bool} {a : α} (ha : p a) (b : Bool) (rest : List α)
    (caps : List (Nat × List α)) :
    (outcomes (.opt (.sym p)) ⟨b, a :: rest, caps⟩).head? = some ⟨false, rest, caps⟩ := by
  simp [ha]

/-! ### Equations of the single substitution -/

theorem searchFrom_start {r : Regex α} (h : ∀ xs, first r true xs = first r false xs) (b : Bool)
    (xs : List α) : searchFrom r b xs = search r xs := by
  cases b with
  | true => rfl
  | false => cases xs <;> simp only [search, searchFrom, h]

/-- Where the pattern does not match, the search goes on behind the symbol. -/
theorem stop_searchFrom_skip {r : Regex α} {b : Bool} {a : α} {xs : List α}
    (h : first r b (a :: xs) = none) :
    (searchFrom r b (a :: xs)).map Match.stop = (searchFrom r false xs).map Match.stop := by
  rw [searchFrom_cons h]
  cases searchFrom r false xs <;> rfl

theorem stop_searchFrom_first {r : Regex α} {b : Bool} {xs : List α} {d : Cursor α}
    (h : first r b xs = some d) : (searchFrom r b xs).map Match.stop = some d := by
  rw [searchFrom_some h]
  rfl

theorem search_first {r : Regex α} {xs : List α} {d : Cursor α} (h : first r true xs = some d) :
    (search r xs).map Match.stop = some d :=
  stop_searchFrom_first h

/-- A pattern that only matches at the start of the text is tried there and nowhere else. -/
theorem stop_search_anchored {r : Regex α} (h : ∀ xs, first r false xs = none) (xs : List α) :
    (search r xs).map Match.stop = first r true xs := by
  have hbehind (xs : List α) : searchFrom r false xs = none := by
    induction xs with
    | nil => exact searchFrom_nil (h [])
    | cons a xs ih => rw [searchFrom_cons (h (a :: xs)), ih, Option.map_none]
  cases hfirst : first r true xs with
  | some d => exact search_first hfirst
  | none =>
    cases xs with
    | nil => rw [search, searchFrom_nil hfirst, Option.map_none]
    | cons a xs => rw [search, searchFrom_cons hfirst, hbehind, Option.map_none, Option.map_none]

theorem sub_match {r : Regex α} (rep : Cursor α → List α) {xs : List α} {d : Cursor α}
    (h : first r true xs = some d) : sub r rep xs = rep d ++ d.rest := by
  simp [sub, search, searchFrom_some h]

theorem sub_skip {r : Regex α} (rep : Cursor α → List α)
    (hr : ∀ xs, first r true xs = first r false xs) {a : α} {xs : List α}
    (h : first r true (a :: xs) = none) : sub r rep (a :: xs) = a :: sub r rep xs := by
  have hs : search r (a :: xs) =
      (search r xs).map fun m => {m with before := a :: m.before} := by
    rw [← searchFrom_start hr false xs, search, searchFrom_cons h]
  rw [sub, sub, hs]
  cases search r xs <;> rfl

/-! ### Equations of the global substitution -/

section Global
variable (r : Regex α) (rep : Cursor α → List α)

theorem gsubAux_fuel (fuel : Nat) (b : Bool) (xs : List α) (h : xs.length < fuel) :
    gsubAux r rep fuel b xs = gsubFrom r rep b xs := by
  suffices ∀ n m b (xs : List α), xs.length < n → xs.length < m →
      gsubAux r rep n b xs = gsubAux r rep m b xs from
    this fuel (xs.length + 1) b xs h (Nat.lt_succ_self _)
  intro n
  induction n with
  | zero => intro m b xs hn; exact absurd hn (Nat.not_lt_zero _)
  | succ n ih =>
    intro m b xs hn hm
    cases m with
    | zero => exact absurd hm (Nat.not_lt_zero _)
    | succ m =>
      simp only [gsubAux]
      cases first r b xs with
      | none =>
        cases xs with
        | nil => rfl
        | cons a rest =>
          simp only [List.length_cons] at hn hm
          simp only [ih m false rest (by omega) (by omega)]
      | some d =>
        by_cases hd : d.rest.length < xs.length
        · simp only [if_pos hd, ih m false d.rest (by omega) (by omega)]
        · simp only [if_neg hd]
          cases xs with
          | nil => rfl
          | cons a rest =>
            simp only [List.length_cons] at hn hm
            simp only [ih m false rest (by omega) (by omega)]

/-- A pattern without `^` is replaced alike at the start and behind it. -/
theorem gsubFrom_start (h : ∀ xs, first r true xs = first r false xs) (b : Bool) (xs : List α) :
    gsubFrom r rep b xs = gsub r rep xs := by
  cases b with
  | true => rfl
  | false => simp only [gsub, gsubFrom, gsubAux, h]

theorem gsubFrom_nil {b : Bool} (h : first r b [] = none) : gsubFrom r rep b [] = [] := by
  simp [gsubFrom, gsubAux, h]

/-- No match here: the symbol is copied. -/
theorem gsubFrom_skip {b : Bool} {a : α} {xs : List α} (h : first r b (a :: xs) = none) :
    gsubFrom r rep b (a :: xs) = a :: gsubFrom r rep false xs := by
  simp only [gsubFrom, List.length_cons, gsubAux, h]

/-- A match that reads something: it is replaced, and the scan resumes behind it. -/
theorem gsubFrom_match {b : Bool} {xs : List α} {d : Cursor α} (h : first r b xs = some d)
    (hd : d.rest.length < xs.length) :
    gsubFrom r rep b xs = rep d ++ gsubFrom r rep false d.rest := by
  simp only [gsubFrom, gsubAux, h, if_pos hd]
  rw [gsubAux_fuel r rep _ false d.rest hd]
  rfl

/-- A pattern that matches nowhere is replaced nowhere. -/
theorem gsubFrom_of_none {b : Bool} (h : ∀ xs, first r b xs = none)
    (h' : ∀ xs, first r false xs = none) (xs : List α) : gsubFrom r rep b xs = xs := by
  induction xs generalizing b with
  | nil => exact gsubFrom_nil r rep (h [])
  | cons a xs ih => rw [gsubFrom_skip r rep (h (a :: xs)), ih h']

end Global

/-! ### Deleting -/

theorem suffix_of_mem_singleton {c d : Cursor α} (h : d ∈ [c]) : d.rest <:+ c.rest := by
  obtain rfl := List.mem_singleton.mp h
  exact List.suffix_rfl

theorem many_suffix {f : Cursor α → List (Cursor α)}
    (hf : ∀ c, ∀ d ∈ f c, d.rest <:+ c.rest) (fuel : Nat) (c : Cursor α) :
    ∀ d ∈ many f fuel c, d.rest <:+ c.rest := by
  induction fuel generalizing c with
  | zero =>
    intro d hd
    exact suffix_of_mem_singleton hd
  | succ fuel ih =>
    intro d hd
    simp only [many_succ, List.mem_append, List.mem_flatMap, List.mem_filter,
      List.mem_singleton] at hd
    rcases hd with ⟨e, ⟨he, -⟩, hd⟩ | rfl
    · exact (ih e d hd).trans (hf c e he)
    · exact List.suffix_rfl

/-- A match leaves an end of what was there to read. -/
theorem outcomes_suffix (r : Regex α) (c : Cursor α) : ∀ d ∈ outcomes r c, d.rest <:+ c.rest := by
  induction r generalizing c with
  | sym p =>
    intro d hd
    obtain ⟨a, -, hrest, -⟩ := mem_outcomes_sym hd
    rw [hrest]
    exact List.suffix_cons a d.rest
  | empty =>
    intro d hd
    exact suffix_of_mem_singleton hd
  | cat r s ihr ihs =>
    intro d hd
    obtain ⟨e, he, hd⟩ := mem_outcomes_cat.mp hd
    exact (ihs e d hd).trans (ihr c e he)
  | alt r s ihr ihs =>
    intro d hd
    rcases List.mem_append.mp hd with hd | hd
    · exact ihr c d hd
    · exact ihs c d hd
  | star r ih => exact many_suffix ih _ c
  | group n r ih =>
    intro d hd
    obtain ⟨e, he, rfl⟩ := List.mem_map.mp hd
    exact ih c e he
  | bos =>
    intro d hd
    rw [outcomes_bos] at hd
    split at hd
    · exact suffix_of_mem_singleton hd
    · cases hd
  | eos nl =>
    intro d hd
    exact suffix_of_mem_singleton (List.mem_singleton.mpr (mem_outcomes_eos hd).1)

theorem first_suffix {r : Regex α} {b : Bool} {xs : List α} {d : Cursor α}
    (h : first r b xs = some d) : d.rest <:+ xs :=
  outcomes_suffix r _ d (List.mem_of_mem_head? h)

theorem searchFrom_sublist {r : Regex α} {b : Bool} {xs : List α} {m : Match α}
    (h : searchFrom r b xs = some m) : (m.before ++ m.stop.rest).Sublist xs := by
  induction xs generalizing b m with
  | nil =>
    cases hf : first r b [] with
    | some d =>
      rw [searchFrom_some hf] at h
      rw [← Option.some.inj h]
      exact (first_suffix hf).sublist
    | none =>
      rw [searchFrom_nil hf] at h
      cases h
  | cons a xs ih =>
    cases hf : first r b (a :: xs) with
    | some d =>
      rw [searchFrom_some hf] at h
      rw [← Option.some.inj h]
      exact (first_suffix hf).sublist
    | none =>
      rw [searchFrom_cons hf] at h
      obtain ⟨n, hn, rfl⟩ := Option.map_eq_some_iff.mp h
      exact (ih hn).cons_cons a

/-- `s/r//` only takes something away. -/
theorem sub_sublist (r : Regex α) (xs : List α) : (sub r (fun _ => []) xs).Sublist xs := by
  unfold sub
  cases h : search r xs with
  | none => exact List.Sublist.refl xs
  | some m => simpa using searchFrom_sublist h

theorem gsubAux_sublist (r : Regex α) (fuel : Nat) (b : Bool) (xs : List α) :
    (gsubAux r (fun _ => []) fuel b xs).Sublist xs := by
  induction fuel generalizing b xs with
  | zero => exact List.Sublist.refl xs
  | succ fuel ih =>
    have hskip (xs : List α) : (match xs with
        | [] => []
        | a :: rest => a :: gsubAux r (fun _ => []) fuel false rest).Sublist xs := by
      cases xs with
      | nil => exact List.Sublist.refl []
      | cons a rest => exact (ih false rest).cons_cons a
    simp only [gsubAux]
    cases h : first r b xs with
    | none => exact hskip xs
    | some d =>
      by_cases hd : d.rest.length < xs.length
      · simp only [if_pos hd, List.nil_append]
        exact (ih false d.rest).trans (first_suffix h).sublist
      · simp only [if_neg hd, List.nil_append]
        exact hskip xs

/-- `s/r//g` only takes something away. -/
theorem gsub_sublist (r : Regex α) (xs : List α) : (gsub r (fun _ => []) xs).Sublist xs :=
  gsubAux_sublist r _ true xs

/-! ### Giving back -/

theorem many_sym_append {p : α → Bool} {xs : List α} (hxs : ∀ a ∈ xs, p a) (ys : List α)
    (fuel : Nat) (caps : List (Nat × List α)) :
    ∃ shorter, many (outcomes (.sym p)) (xs.length + fuel) ⟨false, xs ++ ys, caps⟩ =
      many (outcomes (.sym p)) fuel ⟨false, ys, caps⟩ ++ shorter := by
  induction xs with
  | nil => exact ⟨[], by simp⟩
  | cons x xs ih =>
    obtain ⟨shorter, ih⟩ := ih fun a ha => hxs a (List.mem_cons_of_mem x ha)
    refine ⟨shorter ++ [⟨false, x :: xs ++ ys, caps⟩], ?_⟩
    rw [List.length_cons, Nat.add_right_comm, many_succ, List.cons_append, outcomes_sym_cons,
      if_pos (hxs x List.mem_cons_self), List.filter_cons_of_pos (by simp), List.filter_nil,
      List.flatMap_singleton, ih, List.append_assoc]

/-- A run in front of `ys` goes on into `ys` as far as it can, and gives back what the rest
of the pattern needs. -/
theorem outcomes_cat_group_plus_append {p : α → Bool} {run : List α} (hrun : ∀ a ∈ run, p a)
    (hne : run ≠ []) (ys : List α) (n : Nat) {s : Regex α} (b : Bool) (caps : List (Nat × List α))
    {d : Cursor α}
    (h : (((outcomes (.star (.sym p)) ⟨false, ys, caps⟩).map fun e => (
      {e with caps := (n, run ++ ys.take (ys.length - e.rest.length)) :: e.caps} : Cursor α)).flatMap
        (outcomes s)).head? = some d) :
    (outcomes (.cat (.group n (.plus (.sym p))) s) ⟨b, run ++ ys, caps⟩).head? = some d := by
  obtain ⟨a, as, rfl⟩ := List.exists_cons_of_ne_nil hne
  obtain ⟨shorter, hshorter⟩ := many_sym_append (fun x hx => hrun x (List.mem_cons_of_mem a hx)) ys
    ys.length caps
  have hstar : outcomes (.plus (.sym p)) ⟨b, a :: as ++ ys, caps⟩ =
      outcomes (.star (.sym p)) ⟨false, ys, caps⟩ ++ shorter := by
    rw [outcomes_plus, List.cons_append, outcomes_sym_cons, if_pos (hrun a List.mem_cons_self),
      List.flatMap_singleton, outcomes_star, outcomes_star, ← hshorter, List.length_append]
  have htake : ∀ e ∈ outcomes (.star (.sym p)) ⟨false, ys, caps⟩,
      (a :: as ++ ys).take ((a :: as ++ ys).length - e.rest.length) =
        a :: as ++ ys.take (ys.length - e.rest.length) := by
    intro e he
    have hle : e.rest.length ≤ ys.length := (outcomes_suffix _ _ e he).length_le
    rw [List.length_append, Nat.add_sub_assoc hle, List.take_length_add_append]
  have hgroup : outcomes (.group n (.plus (.sym p))) ⟨b, a :: as ++ ys, caps⟩ =
      ((outcomes (.star (.sym p)) ⟨false, ys, caps⟩).map fun e => (
        {e with caps := (n, a :: as ++ ys.take (ys.length - e.rest.length)) :: e.caps} : Cursor α)) ++
      shorter.map fun e => {e with
        caps := (n, (a :: as ++ ys).take ((a :: as ++ ys).length - e.rest.length)) :: e.caps} := by
    rw [outcomes_group, hstar, List.map_append]
    refine congrArg (· ++ _) (List.map_congr_left fun e he => ?_)
    rw [htake e he]
  rw [outcomes_cat, hgroup, List.flatMap_append, List.head?_append, h, Option.some_or]

end Regex
end Perl
