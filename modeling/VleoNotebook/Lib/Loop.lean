import Mathlib.Logic.Relation

/-! Loops given by their body.

The body makes of a state the next one, or leaves the loop with a result. A loop has a
result if some number of turns comes to it (`Results`); states on the way have the results
of the first (`results_of_reaches`). Where an invariant always leads on, the loop never ends
(`not_ends`). -/
namespace Loop
variable {σ β : Type} (body : σ → σ ⊕ β)

/-- The result, if these turns come to one. -/
def run : Nat → σ → Option β
  | 0, _ => none
  | n + 1, s =>
    match body s with
    | .inl s' => run n s'
    | .inr b => some b

def Results (s : σ) (b : β) : Prop := ∃ n, run body n s = some b

def Ends (s : σ) : Prop := ∃ b, Results body s b

/-- Turns lead from one state to the other. -/
def Reaches : σ → σ → Prop := Relation.ReflTransGen fun s t => body s = .inl t

variable {body} {s t : σ} {b : β}

theorem results_of_inr (h : body s = .inr b) (c : β) : Results body s c ↔ b = c := by
  constructor
  · rintro ⟨n, hn⟩
    cases n with
    | zero => cases hn
    | succ n =>
      simp only [run, h] at hn
      exact Option.some.inj hn
  · rintro rfl
    exact ⟨1, by simp only [run, h]⟩

theorem results_of_inl (h : body s = .inl t) (c : β) : Results body s c ↔ Results body t c := by
  constructor
  · rintro ⟨n, hn⟩
    cases n with
    | zero => cases hn
    | succ n =>
      simp only [run, h] at hn
      exact ⟨n, hn⟩
  · rintro ⟨n, hn⟩
    exact ⟨n + 1, by simpa only [run, h] using hn⟩

/-- A state on the way has the results of the first. -/
theorem results_of_reaches (h : Reaches body s t) (c : β) :
    Results body s c ↔ Results body t c := by
  induction h with
  | refl => exact Iff.rfl
  | tail _ hstep ih => exact ih.trans (results_of_inl hstep c)

/-- **A loop that an invariant always leads on does not end.** -/
theorem not_ends {Inv : σ → Prop} (hstep : ∀ s, Inv s → ∃ t, body s = .inl t ∧ Inv t) (hs : Inv s) :
    ¬ Ends body s := by
  rintro ⟨b, n, hn⟩
  induction n generalizing s with
  | zero => cases hn
  | succ n ih =>
    obtain ⟨t, ht, hinv⟩ := hstep s hs
    simp only [run, ht] at hn
    exact ih hinv hn

end Loop
