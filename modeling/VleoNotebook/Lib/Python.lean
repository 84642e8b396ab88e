import Mathlib.Data.List.Basic

/-! Lists as Python has them.

A list is an object that is known by a reference; two names may stand for one list, and what is
written under one name is then read under the other. An index counts from the end if it is
negative, and an index out of the list raises an error, which is no result here. -/
namespace Python

/-- Where an index points in a list of this length. -/
def position (len : Nat) (i : Int) : Option Nat :=
  let k := if i < 0 then i + len else i
  if 0 ≤ k ∧ k < len then some k.toNat else none

/-- `l[i]` -/
def item {α : Type} (l : List α) (i : Int) : Option α := do l[← position l.length i]?

abbrev Ref := Nat

/-- The list objects by reference. -/
abbrev Heap (α : Type) := List (List α)

namespace Heap
variable {α : Type}

/-- `[]`, a new object. -/
def create (heap : Heap α) : Ref × Heap α := (heap.length, heap ++ [[]])

/-- `r.append(v)` -/
def push (heap : Heap α) (r : Ref) (v : α) : Option (Heap α) := do
  return heap.set r ((← heap[r]?) ++ [v])

/-- `r[i]` -/
def getItem (heap : Heap α) (r : Ref) (i : Int) : Option α := do item (← heap[r]?) i

/-- `r[i] = v` -/
def setItem (heap : Heap α) (r : Ref) (i : Int) (v : α) : Option (Heap α) := do
  let l ← heap[r]?
  return heap.set r (l.set (← position l.length i) v)

end Heap

/-! ### What is found and stored within bounds -/

theorem position_natCast {len i : Nat} (h : i < len) : position len i = some i := by
  have hneg : ¬ (i : Int) < 0 := by omega
  rw [position, if_neg hneg, if_pos (by omega), Int.toNat_natCast]

theorem item_natCast {α : Type} {l : List α} {i : Nat} {v : α} (h : l[i]? = some v) :
    item l i = some v := by
  obtain ⟨hi, -⟩ := List.getElem?_eq_some_iff.mp h
  rw [item, position_natCast hi]
  exact h

theorem mem_of_item {α : Type} {l : List α} {i : Int} {v : α} (h : item l i = some v) : v ∈ l := by
  obtain ⟨k, -, hk⟩ := Option.bind_eq_some_iff.mp h
  exact List.mem_of_getElem? hk

theorem mapM_eq_some {α β : Type} {f : α → Option β} {g : α → β} {l : List α}
    (h : ∀ a ∈ l, f a = some (g a)) : l.mapM f = some (l.map g) := by
  induction l with
  | nil => rfl
  | cons a l ih =>
    rw [List.mapM_cons, h a (List.mem_cons_self ..), ih fun b hb => h b (List.mem_cons_of_mem _ hb)]
    rfl

namespace Heap
variable {α : Type} {heap : Heap α} {r : Ref} {l : List α}

theorem push_eq (h : heap[r]? = some l) (v : α) :
    heap.push r v = some (heap.set r (l ++ [v])) := by
  rw [push, h]
  rfl

theorem getItem_eq {i : Nat} {v : α} (h : heap[r]? = some l) (hv : l[i]? = some v) :
    heap.getItem r i = some v := by
  rw [getItem, h]
  exact item_natCast hv

theorem setItem_eq {i : Nat} (h : heap[r]? = some l) (hi : i < l.length) (v : α) :
    heap.setItem r i v = some (heap.set r (l.set i v)) := by
  rw [setItem, h]
  simp only [Option.bind_eq_bind, Option.bind_some, position_natCast hi]
  rfl

end Heap

/-! ### `for i in range(n)` -/

variable {σ : Type}

/-- The body for 0 up to `n - 1`, as long as none of its turns raises an error. -/
def forRange (n : Nat) (body : σ → Nat → Option σ) (s : σ) : Option σ :=
  (List.range n).foldlM body s

theorem forRange_succ (n : Nat) (body : σ → Nat → Option σ) (s : σ) :
    forRange (n + 1) body s = (forRange n body s).bind (body · n) := by
  rw [forRange, List.range_succ, List.foldlM_append]
  simp only [List.foldlM_cons, List.foldlM_nil, Option.bind_eq_bind, forRange]
  congr 1
  funext t
  cases body t n <;> rfl

/-- **What every turn leads on holds after the last.** -/
theorem forRange_holds (Inv : Nat → σ → Prop) {n : Nat} {body : σ → Nat → Option σ} {s : σ}
    (hzero : Inv 0 s)
    (hturn : ∀ i t, i < n → Inv i t → ∃ t', body t i = some t' ∧ Inv (i + 1) t') :
    ∃ t, forRange n body s = some t ∧ Inv n t := by
  induction n with
  | zero => exact ⟨s, rfl, hzero⟩
  | succ n ih =>
    obtain ⟨t, ht, hinv⟩ := ih fun i t hi => hturn i t (by omega)
    obtain ⟨t', ht', hinv'⟩ := hturn n t (by omega) hinv
    exact ⟨t', by rw [forRange_succ, ht, Option.bind_some, ht'], hinv'⟩

end Python
