import Mathlib.Algebra.BigOperators.Group.Finset.Piecewise
import Mathlib.Algebra.Order.Ring.Nat

/-! Sets of semaphores as System V has them, and counting the processes that use them.

The operations of one `semop` are made all together or not at all: each sees what those
before it have done, and the first that cannot be made decides whether the process waits or
the call fails. -/
namespace SysV

/-- `SEMVMX`, what a semaphore can hold. -/
def semvmx : Nat := 32767

/-- `struct sembuf`; the flag is `IPC_NOWAIT`. -/
structure SemBuf where
  num : Nat
  op : ℤ
  nowait : Bool
deriving DecidableEq, Repr

/-- How a `semop` comes out: with these values, or the process waits, or it fails. -/
inductive Semop where
  | done (vals : List Nat)
  | wait
  | error
deriving DecidableEq, Repr

/-- Of an operation that cannot be made now. -/
def blocked (o : SemBuf) : Semop := if o.nowait then .error else .wait

/-- The operations on a set with these values. -/
def perform (vals : List Nat) : List SemBuf → Semop
  | [] => .done vals
  | o :: os =>
    match vals[o.num]? with
    | none => .error
    | some v =>
      if o.op = 0 then if v = 0 then perform vals os else blocked o
      else if v + o.op < 0 then blocked o
      else if v + o.op > semvmx then .error
      else perform (vals.set o.num (v + o.op).toNat) os

/-- `semop` on a set that may have been removed. -/
def semop (sems : Option (List Nat)) (os : List SemBuf) : Semop :=
  match sems with
  | none => .error
  | some vals => perform vals os

section Perform
variable {vals : List Nat} {num v : Nat} {nowait : Bool} {os : List SemBuf}

/-- Taking one. -/
theorem perform_down (h : vals[num]? = some v) : perform vals (⟨num, -1, nowait⟩ :: os) =
    if v = 0 then blocked ⟨num, -1, nowait⟩
    else if v ≤ semvmx + 1 then perform (vals.set num (v - 1)) os else .error := by
  simp only [perform, h]
  rw [if_neg (by decide)]
  by_cases hv : v = 0
  · rw [if_pos (by omega), if_pos hv]
  · rw [if_neg (by omega), if_neg hv]
    by_cases hmax : v ≤ semvmx + 1
    · have hpred : ((v : ℤ) + -1).toNat = v - 1 := by omega
      rw [if_neg (by omega), if_pos hmax, hpred]
    · rw [if_pos (by omega), if_neg hmax]

/-- Giving one. -/
theorem perform_up (h : vals[num]? = some v) : perform vals (⟨num, 1, nowait⟩ :: os) =
    if v < semvmx then perform (vals.set num (v + 1)) os else .error := by
  simp only [perform, h]
  rw [if_neg (by decide), if_neg (by omega)]
  by_cases hmax : v < semvmx
  · have hsucc : ((v : ℤ) + 1).toNat = v + 1 := by omega
    rw [if_neg (by omega), if_pos hmax, hsucc]
  · rw [if_pos (by omega), if_neg hmax]

/-- Waiting for zero. -/
theorem perform_zero (h : vals[num]? = some v) : perform vals (⟨num, 0, nowait⟩ :: os) =
    if v = 0 then perform vals os else blocked ⟨num, 0, nowait⟩ := by
  simp only [perform, h, if_true]

end Perform

/-! ### Counting processes -/

variable {C β : Type} [Fintype C]

/-- How many processes are in such a state. -/
def count (p : β → Bool) (f : C → β) : Nat := (Finset.univ.filter fun c => p (f c)).card

theorem count_eq_sum (p : β → Bool) (f : C → β) : count p f = ∑ c, (p (f c)).toNat := by
  rw [count, Finset.card_filter]
  refine Finset.sum_congr rfl fun c _ => ?_
  cases p (f c) <;> rfl

/-- One process goes to another state. -/
theorem sum_update [DecidableEq C] (m : β → Nat) (f : C → β) (c : C) (v : β) :
    ∑ d, m (Function.update f c v d) + m (f c) = ∑ d, m (f d) + m v := by
  have hrest : ∑ d ∈ Finset.univ.erase c, m (Function.update f c v d) =
      ∑ d ∈ Finset.univ.erase c, m (f d) := by
    refine Finset.sum_congr rfl fun d hd => ?_
    rw [Function.update_of_ne (Finset.ne_of_mem_erase hd)]
  rw [← Finset.add_sum_erase _ _ (Finset.mem_univ c), hrest,
    ← Finset.add_sum_erase Finset.univ (fun d => m (f d)) (Finset.mem_univ c),
    Function.update_self]
  omega

theorem count_update [DecidableEq C] (p : β → Bool) (f : C → β) (c : C) (v : β) :
    count p (Function.update f c v) + (p (f c)).toNat = count p f + (p v).toNat := by
  rw [count_eq_sum, count_eq_sum]
  exact sum_update (fun b => (p b).toNat) f c v

theorem count_pos {p : β → Bool} {f : C → β} {c : C} (h : p (f c) = true) : 0 < count p f :=
  Finset.card_pos.mpr ⟨c, Finset.mem_filter.mpr ⟨Finset.mem_univ c, h⟩⟩

theorem count_eq_zero {p : β → Bool} {f : C → β} (h : ∀ c, p (f c) = false) : count p f = 0 := by
  rw [count, Finset.card_eq_zero, Finset.filter_eq_empty_iff]
  intro c _
  rw [h c]
  exact Bool.false_ne_true

theorem exists_of_count_pos {p : β → Bool} {f : C → β} (h : 0 < count p f) :
    ∃ c, p (f c) = true := by
  obtain ⟨c, hc⟩ := Finset.card_pos.mp h
  exact ⟨c, (Finset.mem_filter.mp hc).2⟩

/-- Where there is at most one, two are the same. -/
theorem eq_of_count_le_one {p : β → Bool} {f : C → β} (h : count p f ≤ 1) {c d : C}
    (hc : p (f c) = true) (hd : p (f d) = true) : c = d :=
  Finset.card_le_one.mp h c (Finset.mem_filter.mpr ⟨Finset.mem_univ c, hc⟩) d
    (Finset.mem_filter.mpr ⟨Finset.mem_univ d, hd⟩)

end SysV
