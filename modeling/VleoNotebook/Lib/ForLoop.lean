import Mathlib.Logic.Basic

/-! Loops that count: `for (i = start; cond; i += step) { body }`.

The condition sees the counter and the state, and the body may fail. A loop that its fuel does
not see to the end has no result; fuel for one turn more than there are numbers up to a
bound that ends the loop is enough (`holds`). What a loop that stores one value at places of a
list has stored so far is `Stored`. -/
namespace ForLoop
variable {σ : Type}

def forLoop (cond : Nat → σ → Bool) (step : Nat) (body : Nat → σ → Option σ) :
    Nat → Nat → σ → Option σ
  | 0, _, _ => none
  | fuel + 1, i, s =>
    if cond i s then (body i s).bind (forLoop cond step body fuel (i + step)) else some s

variable {cond : Nat → σ → Bool} {step : Nat} {body : Nat → σ → Option σ}

theorem forLoop_turn {i : Nat} {s s' : σ} (hcond : cond i s = true) (hbody : body i s = some s')
    (fuel : Nat) :
    forLoop cond step body (fuel + 1) i s = forLoop cond step body fuel (i + step) s' := by
  rw [forLoop, if_pos hcond, hbody, Option.bind_some]

theorem forLoop_stop {i : Nat} {s : σ} (hcond : cond i s = false) (fuel : Nat) :
    forLoop cond step body (fuel + 1) i s = some s := by
  rw [forLoop, if_neg (by rw [hcond]; exact Bool.false_ne_true)]

/-- **What every turn leads on holds in the end**, and the loop does end. -/
theorem holds (Inv : Nat → σ → Prop) (bound : Nat) (hstep : 0 < step) {fuel i : Nat} {s : σ}
    (hfuel : bound - i < fuel) (hstart : Inv i s)
    (hbound : ∀ j t, Inv j t → bound ≤ j → cond j t = false)
    (hturn : ∀ j t, Inv j t → cond j t = true → ∃ t', body j t = some t' ∧ Inv (j + step) t') :
    ∃ j t, forLoop cond step body fuel i s = some t ∧ Inv j t ∧ cond j t = false := by
  induction fuel generalizing i s with
  | zero => exact absurd hfuel (Nat.not_lt_zero _)
  | succ fuel ih =>
    cases hcond : cond i s with
    | false => exact ⟨i, s, forLoop_stop hcond fuel, hstart, hcond⟩
    | true =>
      obtain ⟨s', hbody, hinv⟩ := hturn i s hstart hcond
      have hi : i < bound := by
        refine Nat.lt_of_not_le fun hge => ?_
        rw [hbound i s hstart hge] at hcond
        cases hcond
      obtain ⟨j, t, hrun, ht⟩ := ih (by omega) hinv
      exact ⟨j, t, by rw [forLoop_turn hcond hbody, hrun], ht⟩

/-! ### Stores -/

variable {α : Type} {place : Nat → Nat} {v : α} {a b : Nat} {xs ys : List α}

/-- `ys` is `xs` with `v` stored at the places of the numbers from `a` up to `b`. -/
structure Stored (place : Nat → Nat) (v : α) (a b : Nat) (xs ys : List α) : Prop where
  length : ys.length = xs.length
  stored : ∀ q, a ≤ q → q < b → place q < xs.length → ys[place q]? = some v
  kept : ∀ k, (∀ q, a ≤ q → q < b → k ≠ place q) → ys[k]? = xs[k]?

theorem stored_refl (place : Nat → Nat) (v : α) (a : Nat) (xs : List α) :
    Stored place v a a xs xs :=
  ⟨rfl, fun _ hle hlt => absurd hlt (Nat.not_lt_of_le hle), fun _ _ => rfl⟩

/-- One more store. -/
theorem Stored.set (h : Stored place v a b xs ys) (hab : a ≤ b) (hlt : place b < xs.length) :
    Stored place v a (b + 1) xs (ys.set (place b) v) := by
  rw [← h.length] at hlt
  refine ⟨by rw [List.length_set, h.length], fun q hle hq hplace => ?_, fun k hk => ?_⟩
  · obtain heq | hne := eq_or_ne (place b) (place q)
    · rw [heq] at hlt ⊢
      exact List.getElem?_set_self hlt
    · rw [List.getElem?_set_ne hne]
      refine h.stored q hle (Nat.lt_of_le_of_ne (Nat.le_of_lt_succ hq) ?_) hplace
      rintro rfl
      exact hne rfl
  · rw [List.getElem?_set_ne (hk b hab (Nat.lt_succ_self b)).symm]
    exact h.kept k fun q hle hq => hk q hle (Nat.lt_succ_of_lt hq)

/-- **A loop that stores a value at its counter** comes to its end with the value at all the
places it steps on below the bound, and the others as they were. -/
theorem stores {bound start fuel : Nat} {cond : Nat → Bool}
    {body : Nat → List α → Option (List α)} (hstep : 0 < step) (hfuel : bound - start < fuel)
    (hle : bound ≤ xs.length) (hcond : ∀ i, cond i = true ↔ i < bound)
    (hbody : ∀ i t, i < t.length → body i t = some (t.set i v)) :
    ∃ ys, forLoop (fun i _ => cond i) step body fuel start xs = some ys ∧
      ys.length = xs.length ∧
      (∀ r, start + r * step < bound → ys[start + r * step]? = some v) ∧
      ∀ k, (∀ r, k ≠ start + r * step) → ys[k]? = xs[k]? := by
  let place (r : Nat) : Nat := start + r * step
  have hturn (i : Nat) (t : List α) (ht : ∃ r, i = place r ∧ Stored place v 0 r xs t)
      (hi : cond i = true) :
      ∃ t', body i t = some t' ∧ ∃ r, i + step = place r ∧ Stored place v 0 r xs t' := by
    obtain ⟨r, rfl, hstored⟩ := ht
    have hlt : place r < xs.length := Nat.lt_of_lt_of_le ((hcond _).mp hi) hle
    refine ⟨_, hbody _ _ (by rwa [hstored.length]), r + 1, ?_, hstored.set (Nat.zero_le r) hlt⟩
    show start + r * step + step = start + (r + 1) * step
    rw [Nat.succ_mul, Nat.add_assoc]
  have hstop (i : Nat) (hi : bound ≤ i) : cond i = false :=
    Bool.eq_false_iff.mpr fun h => absurd ((hcond i).mp h) (Nat.not_lt_of_le hi)
  obtain ⟨i, ys, hrun, ⟨r, rfl, hstored⟩, hend⟩ :=
    holds (fun i t => ∃ r, i = place r ∧ Stored place v 0 r xs t) bound hstep hfuel
      ⟨0, by simp [place], stored_refl place v 0 xs⟩ (fun i t _ hi => hstop i hi) hturn
  have hpast : bound ≤ start + r * step :=
    Nat.le_of_not_lt fun h => Bool.eq_false_iff.mp hend ((hcond _).mpr h)
  have hseen (q : Nat) (hq : start + q * step < bound) : q < r :=
    Nat.lt_of_mul_lt_mul_right (a := step) (by omega)
  exact ⟨ys, hrun, hstored.length,
    fun q hq => hstored.stored q (Nat.zero_le q) (hseen q hq) (Nat.lt_of_lt_of_le hq hle),
    fun k hk => hstored.kept k fun q _ _ => hk q⟩

end ForLoop
