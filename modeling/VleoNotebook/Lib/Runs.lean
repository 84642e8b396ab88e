import Mathlib.Data.List.Basic

/-! Runs of a machine given by a step function on states and actions.

An action that is not enabled steps to `none`, and a run is a list of actions
each enabled where it is taken. Properties of runs come in two kinds: of the
states reached (`Always`), and of the steps taken (`Meets`). What one step
preserves a run preserves (`run_invariant`), also when only the steps that meet a
condition preserve it (`meets_invariant`); where the condition is exactly what
keeps the property, a run has the one if and only if it has the other
(`always_iff_meets`). -/
namespace Runs
variable {σ α : Type} (step : σ → α → Option σ)

/-- The state after the actions, `none` when one of them is not enabled. -/
def run : σ → List α → Option σ
  | s, [] => some s
  | s, a :: as => (step s a).bind fun s' => run s' as

/-- Every step the run takes meets `ok`, a condition on the state before it. -/
def Meets (ok : σ → α → Prop) : σ → List α → Prop
  | _, [] => True
  | s, a :: as => ok s a ∧ ∀ s', step s a = some s' → Meets ok s' as

/-- Every state of the run, the first and the last included, has `P`. -/
def Always (P : σ → Prop) : σ → List α → Prop
  | s, [] => P s
  | s, a :: as => P s ∧ ∀ s', step s a = some s' → Always P s' as

variable {step}

theorem run_cons {s s' : σ} {a : α} {as : List α} (h : run step s (a :: as) = some s') :
    ∃ t, step s a = some t ∧ run step t as = some s' :=
  Option.bind_eq_some_iff.mp h

theorem run_append (s : σ) (as bs : List α) :
    run step s (as ++ bs) = (run step s as).bind fun t => run step t bs := by
  induction as generalizing s with
  | nil => rfl
  | cons a as ih =>
    simp only [List.cons_append, run, Option.bind_assoc]
    congr 1
    funext t
    exact ih t

/-- What every enabled step preserves, every run preserves. -/
theorem run_invariant {Inv : σ → Prop} (hstep : ∀ s a s', Inv s → step s a = some s' → Inv s')
    {s s' : σ} {as : List α} (hs : Inv s) (h : run step s as = some s') : Inv s' := by
  induction as generalizing s with
  | nil =>
    obtain rfl : s = s' := Option.some.inj h
    exact hs
  | cons a as ih =>
    obtain ⟨t, ht, hrun⟩ := run_cons h
    exact ih (hstep s a t hs ht) hrun

/-- What the steps that meet `ok` preserve, every run of such steps preserves. -/
theorem meets_invariant {ok : σ → α → Prop} {Inv : σ → Prop}
    (hstep : ∀ s a s', Inv s → ok s a → step s a = some s' → Inv s') {s s' : σ} {as : List α}
    (hs : Inv s) (hok : Meets step ok s as) (h : run step s as = some s') : Inv s' := by
  induction as generalizing s with
  | nil =>
    obtain rfl : s = s' := Option.some.inj h
    exact hs
  | cons a as ih =>
    obtain ⟨t, ht, hrun⟩ := run_cons h
    exact ih (hstep s a t hs hok.1 ht) (hok.2 t ht) hrun

/-- Where every step is one down, a run is no longer than what there is to go down. -/
theorem length_add_le {Inv : σ → Prop} {left : σ → Nat}
    (hinv : ∀ s a s', Inv s → step s a = some s' → Inv s')
    (hless : ∀ s a s', Inv s → step s a = some s' → left s' < left s) {s s' : σ} {as : List α}
    (hs : Inv s) (h : run step s as = some s') : as.length + left s' ≤ left s := by
  induction as generalizing s with
  | nil =>
    obtain rfl : s = s' := Option.some.inj h
    exact Nat.le_of_eq (Nat.zero_add _)
  | cons a as ih =>
    obtain ⟨t, ht, hrun⟩ := run_cons h
    have hfirst := hless s a t hs ht
    have hrest := ih (hinv s a t hs ht) hrun
    rw [List.length_cons]
    omega

theorem Always.mono {P Q : σ → Prop} (hPQ : ∀ s, P s → Q s) {s : σ} {as : List α}
    (h : Always step P s as) : Always step Q s as := by
  induction as generalizing s with
  | nil => exact hPQ s h
  | cons a as ih => exact ⟨hPQ s h.1, fun t ht => ih (h.2 t ht)⟩

instance decidableAlways {P : σ → Prop} [DecidablePred P] :
    (s : σ) → (as : List α) → Decidable (Always step P s as)
  | s, [] => inferInstanceAs (Decidable (P s))
  | s, a :: as =>
    match h : step s a with
    | none => decidable_of_iff (P s) (by simp [Always, h])
    | some t =>
      haveI : Decidable (Always step P t as) := decidableAlways t as
      decidable_of_iff (P s ∧ Always step P t as) (by simp [Always, h])

instance decidableMeets {ok : σ → α → Prop} [∀ s a, Decidable (ok s a)] :
    (s : σ) → (as : List α) → Decidable (Meets step ok s as)
  | _, [] => isTrue trivial
  | s, a :: as =>
    match h : step s a with
    | none => decidable_of_iff (ok s a) (by simp [Meets, h])
    | some t =>
      haveI : Decidable (Meets step ok t as) := decidableMeets t as
      decidable_of_iff (ok s a ∧ Meets step ok t as) (by simp [Meets, h])

/-- Every state along a run has what every step preserves. -/
theorem always_of_invariant {Inv : σ → Prop}
    (hstep : ∀ s a s', Inv s → step s a = some s' → Inv s') {s : σ} (as : List α) (hs : Inv s) :
    Always step Inv s as := by
  induction as generalizing s with
  | nil => exact hs
  | cons a as ih => exact ⟨hs, fun t ht => ih (hstep s a t hs ht)⟩

/-- What every step into a state with `P` preserves, every run that stays in `P` preserves. -/
theorem always_invariant {P Inv : σ → Prop}
    (hstep : ∀ s a s', P s' → Inv s → step s a = some s' → Inv s') {s s' : σ} {as : List α}
    (hs : Inv s) (hP : Always step P s as) (h : run step s as = some s') : Inv s' := by
  induction as generalizing s with
  | nil =>
    obtain rfl : s = s' := Option.some.inj h
    exact hs
  | cons a as ih =>
    obtain ⟨t, ht, hrun⟩ := run_cons h
    have hrest := hP.2 t ht
    have ht' : P t := by
      cases as with
      | nil => exact hrest
      | cons b bs => exact hrest.1
    exact ih (hstep s a t ht' hs ht) hrest hrun

/-- Where, under an invariant, a step from a state with `P` leads to one with `P`
exactly when it meets `ok`, a run stays in `P` exactly when all its steps meet `ok`. -/
theorem always_iff_meets {P I : σ → Prop} {ok : σ → α → Prop}
    (hinv : ∀ s a s', I s → step s a = some s' → I s')
    (hstep : ∀ s a s', I s → P s → step s a = some s' → (P s' ↔ ok s a)) {s s' : σ}
    {as : List α} (hi : I s) (hs : P s) (h : run step s as = some s') :
    Always step P s as ↔ Meets step ok s as := by
  induction as generalizing s with
  | nil => exact ⟨fun _ => trivial, fun _ => hs⟩
  | cons a as ih =>
    obtain ⟨t, ht, hrun⟩ := run_cons h
    have hok := hstep s a t hi hs ht
    have hthe : ∀ u, step s a = some u → u = t := fun u hu => Option.some.inj (hu.symm.trans ht)
    constructor
    · rintro ⟨-, hrest⟩
      have halways := hrest t ht
      have hP : P t := by
        cases as with
        | nil => exact halways
        | cons b bs => exact halways.1
      refine ⟨hok.mp hP, fun u hu => ?_⟩
      rw [hthe u hu]
      exact (ih (hinv s a t hi ht) hP hrun).mp halways
    · rintro ⟨hmeets, hrest⟩
      have hP := hok.mpr hmeets
      refine ⟨hs, fun u hu => ?_⟩
      rw [hthe u hu]
      exact (ih (hinv s a t hi ht) hP hrun).mpr (hrest t ht)

/-- A condition that keeps an invariant may use it. -/
theorem Meets.imp {ok ok' : σ → α → Prop} {Inv : σ → Prop}
    (hinv : ∀ s a s', Inv s → ok s a → step s a = some s' → Inv s')
    (hok : ∀ s a, Inv s → ok s a → ok' s a) {s : σ} {as : List α} (hs : Inv s)
    (h : Meets step ok s as) : Meets step ok' s as := by
  induction as generalizing s with
  | nil => trivial
  | cons a as ih =>
    exact ⟨hok s a hs h.1, fun t ht => ih (hinv s a t hs h.1 ht) (h.2 t ht)⟩

/-- An invariant may speak of the actions taken so far. -/
theorem run_history {Inv : List α → σ → Prop}
    (hstep : ∀ past s a s', Inv past s → step s a = some s' → Inv (past ++ [a]) s')
    {past as : List α} {s s' : σ} (hs : Inv past s) (h : run step s as = some s') :
    Inv (past ++ as) s' := by
  induction as generalizing past s with
  | nil =>
    obtain rfl : s = s' := Option.some.inj h
    rwa [List.append_nil]
  | cons a as ih =>
    obtain ⟨t, ht, hrun⟩ := run_cons h
    have hrest := ih (hstep past s a t hs ht) hrun
    rwa [List.append_assoc] at hrest

/-- So may one that the steps with a condition keep. -/
theorem meets_history {ok : σ → α → Prop} {Inv : List α → σ → Prop}
    (hstep : ∀ past s a s', Inv past s → ok s a → step s a = some s' → Inv (past ++ [a]) s')
    {past as : List α} {s s' : σ} (hs : Inv past s) (hok : Meets step ok s as)
    (h : run step s as = some s') : Inv (past ++ as) s' := by
  induction as generalizing past s with
  | nil =>
    obtain rfl : s = s' := Option.some.inj h
    rwa [List.append_nil]
  | cons a as ih =>
    obtain ⟨t, ht, hrun⟩ := run_cons h
    have hrest := ih (hstep past s a t hs hok.1 ht) (hok.2 t ht) hrun
    rwa [List.append_assoc] at hrest

/-- So may one that the steps into states with `P` keep. -/
theorem always_history {P : σ → Prop} {Inv : List α → σ → Prop}
    (hstep : ∀ past s a s', P s' → Inv past s → step s a = some s' → Inv (past ++ [a]) s')
    {past as : List α} {s s' : σ} (hs : Inv past s) (hP : Always step P s as)
    (h : run step s as = some s') : Inv (past ++ as) s' := by
  induction as generalizing past s with
  | nil =>
    obtain rfl : s = s' := Option.some.inj h
    rwa [List.append_nil]
  | cons a as ih =>
    obtain ⟨t, ht, hrun⟩ := run_cons h
    have halways := hP.2 t ht
    have ht' : P t := by
      cases as with
      | nil => exact halways
      | cons b bs => exact halways.1
    have hrest := ih (hstep past s a t ht' hs ht) halways hrun
    rwa [List.append_assoc] at hrest

/-- Under an invariant, two conditions that agree on the steps taken agree on runs. -/
theorem meets_congr {Inv : σ → Prop} {ok ok' : σ → α → Prop}
    (hinv : ∀ s a s', Inv s → step s a = some s' → Inv s')
    (hok : ∀ s a s', Inv s → step s a = some s' → (ok s a ↔ ok' s a)) {s s' : σ}
    {as : List α} (hs : Inv s) (h : run step s as = some s') :
    Meets step ok s as ↔ Meets step ok' s as := by
  induction as generalizing s with
  | nil => exact Iff.rfl
  | cons a as ih =>
    obtain ⟨t, ht, hrun⟩ := run_cons h
    have hrest : ∀ u, step s a = some u → (Meets step ok u as ↔ Meets step ok' u as) := by
      intro u hu
      obtain rfl : u = t := Option.some.inj (hu.symm.trans ht)
      exact ih (hinv s a u hs ht) hrun
    exact and_congr (hok s a t hs ht) (forall_congr' fun u => forall_congr' fun hu => hrest u hu)

end Runs
