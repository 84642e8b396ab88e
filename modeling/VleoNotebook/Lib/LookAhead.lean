import Mathlib.Data.List.DropRight
import VleoNotebook.Lib.Regex

/-! Patterns that look ahead, and splitting at them.

A look-ahead matches where its pattern does, or where it does not, and reads nothing. A text
is split at the matches of a pattern, the leftmost first; fields that are empty at the end
are dropped. -/
namespace Perl

/-- A pattern with look-aheads on its way. -/
inductive Pattern (α : Type) where
  | plain (r : Regex α)
  | cat (p q : Pattern α)
  /-- `(?=p)` -/
  | ahead (p : Pattern α)
  /-- `(?!p)` -/
  | notAhead (p : Pattern α)

namespace Pattern
variable {α : Type}

/-- Every way to match at a cursor, in the order they are tried; inside a look-ahead only
the first is. -/
def outcomes : Pattern α → Cursor α → List (Cursor α)
  | .plain r, c => r.outcomes c
  | .cat p q, c => (outcomes p c).flatMap (outcomes q)
  | .ahead p, c =>
    match outcomes p c with
    | [] => []
    | d :: _ => [{c with caps := d.caps}]
  | .notAhead p, c =>
    match outcomes p c with
    | [] => [c]
    | _ :: _ => []

/-- The first way to match in front of `xs`. -/
def first (p : Pattern α) (atStart : Bool) (xs : List α) : Option (Cursor α) :=
  (outcomes p ⟨atStart, xs, []⟩).head?

/-- The fields between the matches, for a pattern that always reads something. -/
def fields (p : Pattern α) : Nat → Bool → List α → List (List α)
  | 0, _, xs => [xs]
  | fuel + 1, atStart, xs =>
    match first p atStart xs with
    | some d => [] :: fields p fuel false d.rest
    | none =>
      match xs with
      | [] => [[]]
      | a :: rest => (fields p fuel false rest).modifyHead (a :: ·)

/-- `split(p, xs)` -/
def split (p : Pattern α) (xs : List α) : List (List α) :=
  (fields p (xs.length + 1) true xs).rdropWhile List.isEmpty

@[simp] theorem outcomes_plain (r : Regex α) (c : Cursor α) :
    outcomes (.plain r) c = r.outcomes c := rfl

@[simp] theorem outcomes_cat (p q : Pattern α) (c : Cursor α) :
    outcomes (.cat p q) c = (outcomes p c).flatMap (outcomes q) := rfl

theorem outcomes_ahead_ne_nil (p : Pattern α) (c : Cursor α) :
    outcomes (.ahead p) c ≠ [] ↔ outcomes p c ≠ [] := by
  rw [outcomes]
  cases outcomes p c <;> simp

theorem outcomes_notAhead_ne_nil (p : Pattern α) (c : Cursor α) :
    outcomes (.notAhead p) c ≠ [] ↔ outcomes p c = [] := by
  rw [outcomes]
  cases outcomes p c <;> simp

theorem outcomes_cat_ne_nil (p q : Pattern α) (c : Cursor α) :
    outcomes (.cat p q) c ≠ [] ↔ ∃ d ∈ outcomes p c, outcomes q d ≠ [] := by
  rw [outcomes_cat, ne_eq, List.flatMap_eq_nil_iff]
  simp

/-- A look-ahead does not move. -/
theorem rest_of_mem_ahead {p : Pattern α} {c d : Cursor α} (h : d ∈ outcomes (.ahead p) c) :
    d.rest = c.rest := by
  rw [outcomes] at h
  split at h
  · cases h
  · rw [List.mem_singleton.mp h]

end Pattern

end Perl
