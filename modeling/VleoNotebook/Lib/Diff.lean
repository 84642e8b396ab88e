import Mathlib.Data.List.Nodup
import Mathlib.Data.List.Sublists

/-! Differences between lists.

A script keeps, removes and adds; it goes from the elements it keeps and removes to those it
keeps and adds. A difference keeps as many as can be kept, a longest common subsequence. On
lists without duplicates it adds just the new elements if and only if the common ones stand
in the same order in both lists (`mem_added_iff_new`). -/
namespace Diff

inductive Edit (α : Type) where
  | keep (a : α)
  | remove (a : α)
  | add (a : α)
deriving DecidableEq, Repr

variable {α : Type}

namespace Edit

def old? : Edit α → Option α
  | keep a | remove a => some a
  | add _ => none

def new? : Edit α → Option α
  | keep a | add a => some a
  | remove _ => none

def kept? : Edit α → Option α
  | keep a => some a
  | remove _ | add _ => none

def added? : Edit α → Option α
  | add a => some a
  | keep _ | remove _ => none

end Edit

def old (es : List (Edit α)) : List α := es.filterMap Edit.old?

def new (es : List (Edit α)) : List α := es.filterMap Edit.new?

def kept (es : List (Edit α)) : List α := es.filterMap Edit.kept?

def added (es : List (Edit α)) : List α := es.filterMap Edit.added?

/-- `c` is a longest common subsequence. -/
structure IsLongest (c a b : List α) : Prop where
  left : c.Sublist a
  right : c.Sublist b
  longest : ∀ d : List α, d.Sublist a → d.Sublist b → d.length ≤ c.length

/-- The script goes from `a` to `b` and keeps as much as can be kept. -/
structure IsDiff (a b : List α) (es : List (Edit α)) : Prop where
  old : old es = a
  new : new es = b
  longest : IsLongest (kept es) a b

/-- What is new in the end was kept or added. -/
theorem new_perm (es : List (Edit α)) : (new es).Perm (kept es ++ added es) := by
  induction es with
  | nil => exact List.Perm.nil
  | cons e es ih =>
    cases e with
    | keep a => exact ih.cons a
    | remove a => exact ih
    | add a => exact (ih.cons a).trans List.perm_middle.symm

theorem mem_new_iff (es : List (Edit α)) (p : α) : p ∈ new es ↔ p ∈ kept es ∨ p ∈ added es := by
  rw [(new_perm es).mem_iff, List.mem_append]

/-- What is added is in the list the script goes to. -/
theorem IsDiff.mem_of_added {a b : List α} {es : List (Edit α)} (h : IsDiff a b es) {p : α}
    (hp : p ∈ added es) : p ∈ b := by
  rw [← h.new, mem_new_iff]
  exact Or.inr hp

theorem not_mem_kept_of_mem_added {es : List (Edit α)} (h : (new es).Nodup) {p : α}
    (hp : p ∈ added es) : p ∉ kept es := by
  obtain ⟨-, -, hdisjoint⟩ := List.nodup_append'.mp ((new_perm es).nodup_iff.mp h)
  exact fun hkept => hdisjoint hkept hp

variable [DecidableEq α]

/-- The elements that are in the other list too. -/
def common (a b : List α) : List α := a.filter (· ∈ b)

/-- What is common stands in one order. -/
def SameOrder (a b : List α) : Prop := common a b = common b a

theorem mem_common {a b : List α} {p : α} : p ∈ common a b ↔ p ∈ a ∧ p ∈ b := by
  rw [common, List.mem_filter, decide_eq_true_iff]

theorem sublist_common {a b c : List α} (ha : c.Sublist a) (hb : ∀ p ∈ c, p ∈ b) :
    c.Sublist (common a b) := by
  have hself : c.filter (· ∈ b) = c := List.filter_eq_self.mpr fun p hp => by simpa using hb p hp
  rw [← hself]
  exact ha.filter _

/-- What is kept is all that is common, if it is no less. -/
theorem eq_common {a b c : List α} (ha : c.Sublist a) (hb : ∀ p ∈ c, p ∈ b) (hnodup : a.Nodup)
    (hall : ∀ p ∈ a, p ∈ b → p ∈ c) : c = common a b := by
  refine (sublist_common ha hb).eq_of_length_le ?_
  refine ((hnodup.filter _).subperm fun p hp => ?_).length_le
  obtain ⟨hpa, hpb⟩ := mem_common.mp hp
  exact hall p hpa hpb

/-- **Just the new elements are added** if and only if the others stand in one order. -/
theorem mem_added_iff_new {a b : List α} {es : List (Edit α)} (ha : a.Nodup) (hb : b.Nodup)
    (h : IsDiff a b es) : (∀ p, p ∈ added es ↔ p ∈ b ∧ p ∉ a) ↔ SameOrder a b := by
  obtain ⟨-, rfl, hleft, hright, hlongest⟩ := h
  have hinA (p : α) (hp : p ∈ kept es) : p ∈ a := hleft.subset hp
  have hinB (p : α) (hp : p ∈ kept es) : p ∈ new es := hright.subset hp
  constructor
  · intro hadded
    have hcommon (p : α) (hpa : p ∈ a) (hpb : p ∈ new es) : p ∈ kept es :=
      ((mem_new_iff es p).mp hpb).resolve_right fun hp => ((hadded p).mp hp).2 hpa
    calc common a (new es)
      _ = kept es := (eq_common hleft hinB ha hcommon).symm
      _ = common (new es) a := eq_common hright hinA hb fun p hpb hpa => hcommon p hpa hpb
  · intro horder
    have hlength : (common a (new es)).length ≤ (kept es).length := by
      refine hlongest _ List.filter_sublist ?_
      rw [horder]
      exact List.filter_sublist
    have hkept : kept es = common a (new es) := (sublist_common hleft hinB).eq_of_length_le hlength
    intro p
    constructor
    · intro hp
      have hpb : p ∈ new es := (mem_new_iff es p).mpr (Or.inr hp)
      refine ⟨hpb, fun hpa => not_mem_kept_of_mem_added hb hp ?_⟩
      rw [hkept]
      exact mem_common.mpr ⟨hpa, hpb⟩
    · intro ⟨hpb, hpa⟩
      exact ((mem_new_iff es p).mp hpb).resolve_left fun hp => hpa (hinA p hp)

end Diff
