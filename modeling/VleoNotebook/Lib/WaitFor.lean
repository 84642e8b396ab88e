import Mathlib.Data.Set.Basic
import Mathlib.Logic.Relation

/-! Wait-for relations.

`W s t` says that `s` waits for `t`. A set is deadlocked when everything in it waits
for something in it. Taking waits away brings no deadlock (`Free.mono`), and a new
wait of something that waited for nothing brings one exactly when what it waits for
already waits for it, directly or through others (`free_insert`). There may be
infinitely many processes, so this is not said by counting. -/
namespace WaitFor
variable {ν : Type} {W W' : ν → ν → Prop}

def Deadlocked (W : ν → ν → Prop) (X : Set ν) : Prop :=
  X.Nonempty ∧ ∀ s ∈ X, ∃ t ∈ X, W s t

/-- Nothing is deadlocked. -/
def Free (W : ν → ν → Prop) : Prop := ∀ X, ¬ Deadlocked W X

theorem Free.mono (hfree : Free W) (h : ∀ s t, W' s t → W s t) : Free W' := by
  rintro X ⟨hX, hwaits⟩
  refine hfree X ⟨hX, fun s hs => ?_⟩
  obtain ⟨t, ht, hst⟩ := hwaits s hs
  exact ⟨t, ht, h s t hst⟩

section Insert
variable {s t : ν} (hW' : ∀ a b, W' a b ↔ W a b ∨ a = s ∧ b = t)
include hW'

/-- Every process but `s` waits as before. -/
theorem waits_of_ne {a b : ν} (ha : a ≠ s) : W' a b ↔ W a b :=
  (hW' a b).trans (or_iff_left fun h => ha h.1)

/-- The chain from `t` to `s` and the new wait are a deadlock. -/
theorem deadlocked_of_chain (hchain : Relation.ReflTransGen W t s) :
    Deadlocked W' {x | Relation.ReflTransGen W t x ∧ Relation.ReflTransGen W x s} := by
  refine ⟨⟨t, .refl, hchain⟩, fun x ⟨hx, hxs⟩ => ?_⟩
  rcases Relation.ReflTransGen.cases_head hxs with rfl | ⟨y, hxy, hys⟩
  · exact ⟨t, ⟨.refl, hchain⟩, (hW' x t).mpr (.inr ⟨rfl, rfl⟩)⟩
  · exact ⟨y, ⟨hx.tail hxy, hys⟩, (hW' x y).mpr (.inl hxy)⟩

/-- What `t` waits for was deadlocked before, if it is now and does not reach `s`. -/
theorem deadlocked_without {X : Set ν} (hX : Deadlocked W' X) (ht : t ∈ X)
    (hchain : ¬ Relation.ReflTransGen W t s) :
    Deadlocked W {x | x ∈ X ∧ Relation.ReflTransGen W t x} := by
  refine ⟨⟨t, ht, .refl⟩, fun x ⟨hxX, hx⟩ => ?_⟩
  have hne : x ≠ s := by
    rintro rfl
    exact hchain hx
  obtain ⟨y, hy, hxy⟩ := hX.2 x hxX
  have hold : W x y := (waits_of_ne hW' hne).mp hxy
  exact ⟨y, ⟨hy, hx.tail hold⟩, hold⟩

theorem free_insert (hs : ∀ x, ¬ W s x) (hfree : Free W) :
    Free W' ↔ ¬ Relation.ReflTransGen W t s := by
  constructor
  · intro hfree' hchain
    exact hfree' _ (deadlocked_of_chain hW' hchain)
  · intro hchain X hX
    by_cases hsX : s ∈ X
    · -- `s` waits for `t` alone, so `t` is in the set as well
      obtain ⟨y, hy, hsy⟩ := hX.2 s hsX
      obtain ⟨-, rfl⟩ := ((hW' s y).mp hsy).resolve_left (hs y)
      exact hfree _ (deadlocked_without hW' hX hy hchain)
    · refine hfree X ⟨hX.1, fun a ha => ?_⟩
      obtain ⟨b, hb, hab⟩ := hX.2 a ha
      have hne : a ≠ s := by
        rintro rfl
        exact hsX ha
      exact ⟨b, hb, (waits_of_ne hW' hne).mp hab⟩

end Insert

end WaitFor
