import Mathlib.Data.List.Basic

/-! Procedures that change a state, leave effects behind and may die.

A procedure maps the state to what running it came to: the state it left, the
effects it had, in order, and the text it died with, if it did. Effects that came
before stay. `andThen` runs one procedure behind another unless the first died, and
`each` runs one for every element of a list. -/

/-- What running a procedure came to. -/
structure Ran (σ ε : Type) where
  state : σ
  effects : List ε
  error : Option String

abbrev Proc (σ ε : Type) := σ → Ran σ ε

namespace Proc
variable {σ ε α : Type}

def skip : Proc σ ε := fun s => ⟨s, [], none⟩

def die (text : String) : Proc σ ε := fun s => ⟨s, [], some text⟩

def emit (e : ε) : Proc σ ε := fun s => ⟨s, [e], none⟩

def update (f : σ → σ) : Proc σ ε := fun s => ⟨f s, [], none⟩

/-- `p; q` -/
def andThen (p q : Proc σ ε) : Proc σ ε := fun s =>
  match (p s).error with
  | some text => ⟨(p s).state, (p s).effects, some text⟩
  | none =>
    let r := q (p s).state
    ⟨r.state, (p s).effects ++ r.effects, r.error⟩

/-- `foreach my $x (xs) { f x }` -/
def each (f : α → Proc σ ε) : List α → Proc σ ε
  | [] => skip
  | x :: xs => andThen (f x) (each f xs)

@[simp] theorem skip_apply (s : σ) : (skip : Proc σ ε) s = ⟨s, [], none⟩ := rfl

@[simp] theorem die_apply (text : String) (s : σ) :
    (die text : Proc σ ε) s = ⟨s, [], some text⟩ := rfl

@[simp] theorem emit_apply (e : ε) (s : σ) : emit e s = ⟨s, [e], none⟩ := rfl

@[simp] theorem update_apply (f : σ → σ) (s : σ) :
    (update f : Proc σ ε) s = ⟨f s, [], none⟩ := rfl

theorem andThen_of_ok {p : Proc σ ε} (q : Proc σ ε) {s : σ} (h : (p s).error = none) :
    andThen p q s = ⟨(q (p s).state).state, (p s).effects ++ (q (p s).state).effects,
      (q (p s).state).error⟩ := by
  simp only [andThen, h]

theorem andThen_of_error {p : Proc σ ε} (q : Proc σ ε) {s : σ} (h : (p s).error ≠ none) :
    andThen p q s = p s := by
  obtain ⟨text, ht⟩ := Option.ne_none_iff_exists'.mp h
  simp only [andThen, ht]
  rw [← ht]

@[simp] theorem emit_andThen (e : ε) (q : Proc σ ε) (s : σ) :
    andThen (emit e) q s = ⟨(q s).state, e :: (q s).effects, (q s).error⟩ := rfl

@[simp] theorem skip_andThen (q : Proc σ ε) (s : σ) : andThen skip q s = q s := by
  simp [andThen]

@[simp] theorem update_andThen (f : σ → σ) (q : Proc σ ε) (s : σ) :
    andThen (update f) q s = q (f s) := by
  simp [andThen]

@[simp] theorem die_andThen (text : String) (q : Proc σ ε) (s : σ) :
    andThen (die text) q s = ⟨s, [], some text⟩ := rfl

/-- A sequence survives exactly when both parts do. -/
theorem andThen_error_eq_none {p q : Proc σ ε} {s : σ} :
    (andThen p q s).error = none ↔
      (p s).error = none ∧ (q (p s).state).error = none := by
  by_cases h : (p s).error = none
  · rw [andThen_of_ok q h]
    exact ⟨fun hq => ⟨h, hq⟩, And.right⟩
  · rw [andThen_of_error q h]
    exact ⟨fun hp => absurd hp h, fun hp => absurd hp.1 h⟩

/-- A relation between the state before and what a run came to that follows through
a sequence holds of the sequence when it holds of its parts. -/
theorem andThen_induction {R : σ → Ran σ ε → Prop} {p q : Proc σ ε} {s : σ}
    (hcomp : ∀ s a b, R s a → a.error = none → R a.state b →
      R s ⟨b.state, a.effects ++ b.effects, b.error⟩)
    (hp : R s (p s)) (hq : R (p s).state (q (p s).state)) : R s (andThen p q s) := by
  by_cases h : (p s).error = none
  · rw [andThen_of_ok q h]
    exact hcomp s _ _ hp h hq
  · rwa [andThen_of_error q h]

section Each
variable {f : α → Proc σ ε}

/-- Procedures that leave the state alone leave it alone one after the other. -/
theorem each_state (hf : ∀ x s, (f x s).state = s) (xs : List α) (s : σ) :
    (each f xs s).state = s := by
  induction xs with
  | nil => rfl
  | cons x xs ih =>
    by_cases h : (f x s).error = none
    · rw [each, andThen_of_ok _ h, hf, ih]
    · rw [each, andThen_of_error _ h, hf]

theorem each_error_eq_none (hf : ∀ x s, (f x s).state = s) (xs : List α) (s : σ) :
    (each f xs s).error = none ↔ ∀ x ∈ xs, (f x s).error = none := by
  induction xs with
  | nil => simp [each]
  | cons x xs ih => rw [each, andThen_error_eq_none, hf, ih, List.forall_mem_cons]

/-- Where none of them dies, the effects are all of theirs. -/
theorem each_effects (hf : ∀ x s, (f x s).state = s) {xs : List α} {s : σ}
    (h : ∀ x ∈ xs, (f x s).error = none) :
    (each f xs s).effects = xs.flatMap fun x => (f x s).effects := by
  induction xs with
  | nil => rfl
  | cons x xs ih =>
    rw [List.forall_mem_cons] at h
    rw [each, andThen_of_ok _ h.1, hf, ih h.2, List.flatMap_cons]

/-- In any case the effects come from its elements, in their order. -/
theorem each_effects_sublist (hf : ∀ x s, (f x s).state = s) (xs : List α) (s : σ) :
    (each f xs s).effects.Sublist (xs.flatMap fun x => (f x s).effects) := by
  induction xs with
  | nil => exact List.Sublist.refl _
  | cons x xs ih =>
    rw [List.flatMap_cons]
    by_cases h : (f x s).error = none
    · rw [each, andThen_of_ok _ h, hf]
      exact List.Sublist.append (List.Sublist.refl _) ih
    · rw [each, andThen_of_error _ h]
      exact List.sublist_append_left _ _

end Each

end Proc
