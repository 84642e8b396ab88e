import Mathlib.Data.List.Basic
import Mathlib.Tactic.Ring

/-! Numbers in base 128, the least digit first, with every byte marked but the last.

What is written of a number is read back, whatever follows (`take_write`, `value_write`), and
no group of bytes for a number is shorter (`length_write_value_le`). A reader that takes so
many bytes and no more does not look behind the last (`take_append`). -/
namespace Varint

/-! ### Writing -/

/-- The bytes of `n`; there are not more than `turns + 1`. -/
def writeUpTo : (turns n : Nat) → List UInt8
  | 0, n => [UInt8.ofNat n]
  | turns + 1, n =>
    if n > 127 then UInt8.ofNat (n % 128 + 128) :: writeUpTo turns (n / 128) else [UInt8.ofNat n]

/-- The bytes of a number. -/
def write (n : Nat) : List UInt8 := writeUpTo n n

/-- Turns that are left over change nothing. -/
theorem writeUpTo_eq {turns n : Nat} (h : n ≤ turns) : writeUpTo turns n = write n := by
  induction n using Nat.strong_induction_on generalizing turns with
  | _ n ih =>
    obtain rfl | hpos := Nat.eq_zero_or_pos n
    · cases turns <;> rfl
    · obtain ⟨turns, rfl⟩ := Nat.exists_eq_add_one.mpr (hpos.trans_le h)
      obtain ⟨m, hm⟩ := Nat.exists_eq_add_one.mpr hpos
      have hlt : n / 128 < n := Nat.div_lt_self hpos (by decide)
      rw [write, writeUpTo]
      conv_rhs => rw [hm, writeUpTo, ← hm]
      rw [ih _ hlt (by omega), ih _ hlt (by omega)]

/-- What one more turn writes. -/
theorem write_eq (n : Nat) : write n =
    if n > 127 then UInt8.ofNat (n % 128 + 128) :: write (n / 128) else [UInt8.ofNat n] := by
  obtain rfl | hpos := Nat.eq_zero_or_pos n
  · rfl
  · rw [← writeUpTo_eq (Nat.le_succ n), writeUpTo,
      writeUpTo_eq (Nat.div_le_self n 128)]

/-- `n` by what is written of it. -/
theorem write_induction {P : Nat → Prop} (hlast : ∀ n, n ≤ 127 → P n)
    (hmore : ∀ n, 127 < n → P (n / 128) → P n) (n : Nat) : P n := by
  induction n using Nat.strong_induction_on with
  | _ n ih =>
    by_cases h : 127 < n
    · exact hmore n h (ih _ (Nat.div_lt_self (by omega) (by decide)))
    · exact hlast n (by omega)

theorem write_last {n : Nat} (h : n ≤ 127) : write n = [UInt8.ofNat n] := by
  rw [write_eq, if_neg (by omega)]

theorem write_more {n : Nat} (h : 127 < n) :
    write n = UInt8.ofNat (n % 128 + 128) :: write (n / 128) := by
  rw [write_eq, if_pos h]

theorem write_ne_nil (n : Nat) : write n ≠ [] := by
  rw [write_eq]
  split <;> exact List.cons_ne_nil _ _

theorem length_write_pos (n : Nat) : 0 < (write n).length := List.length_pos_of_ne_nil (write_ne_nil n)

/-- So many bytes are enough for the numbers of so many digits. -/
theorem length_write_le_iff (k n : Nat) : (write n).length ≤ k + 1 ↔ n < 128 ^ (k + 1) := by
  induction k generalizing n with
  | zero =>
    by_cases h : 127 < n
    · rw [write_more h, List.length_cons]
      have hpos := length_write_pos (n / 128)
      omega
    · rw [write_last (by omega)]
      simp only [List.length_singleton]
      omega
  | succ k ih =>
    by_cases h : 127 < n
    · rw [write_more h, List.length_cons, Nat.add_le_add_iff_right, ih,
        Nat.div_lt_iff_lt_mul (by decide), ← pow_succ]
    · rw [write_last (by omega)]
      have hle : 128 ^ 1 ≤ 128 ^ (k + 1 + 1) := Nat.pow_le_pow_right (by decide) (by omega)
      simp only [List.length_singleton]
      omega

theorem length_write_mono {m n : Nat} (h : m ≤ n) : (write m).length ≤ (write n).length := by
  obtain ⟨k, hk⟩ := Nat.exists_eq_add_one.mpr (length_write_pos n)
  have hn : n < 128 ^ (k + 1) := (length_write_le_iff k n).mp hk.le
  rw [hk]
  exact (length_write_le_iff k m).mpr (h.trans_lt hn)

/-! ### Reading -/

/-- The number of a group of bytes, the marks not counted. -/
def value : List UInt8 → Nat
  | [] => 0
  | b :: bs => b.toNat % 128 + 128 * value bs

/-- The bytes up to the first unmarked one, not more than `more + 1`, and what follows. -/
def take : (more : Nat) → List UInt8 → Option (List UInt8 × List UInt8)
  | _, [] => none
  | more, b :: bs =>
    if b.toNat < 128 then some ([b], bs)
    else
      match more with
      | 0 => none
      | more + 1 => (take more bs).map fun found => (b :: found.1, found.2)

@[simp] theorem take_nil (more : Nat) : take more [] = none := by
  cases more <;> rfl

theorem take_last {b : UInt8} (h : b.toNat < 128) (more : Nat) (bs : List UInt8) :
    take more (b :: bs) = some ([b], bs) := by
  cases more <;> exact if_pos h

theorem take_full {b : UInt8} (h : ¬ b.toNat < 128) (bs : List UInt8) : take 0 (b :: bs) = none :=
  if_neg h

theorem take_marked {b : UInt8} (h : ¬ b.toNat < 128) (more : Nat) (bs : List UInt8) :
    take (more + 1) (b :: bs) = (take more bs).map fun found => (b :: found.1, found.2) := if_neg h

theorem toNat_last {n : Nat} (h : n ≤ 127) : (UInt8.ofNat n).toNat = n := by
  rw [UInt8.toNat_ofNat']
  omega

theorem toNat_marked (n : Nat) : (UInt8.ofNat (n % 128 + 128)).toNat = n % 128 + 128 := by
  rw [UInt8.toNat_ofNat']
  omega

theorem value_write (n : Nat) : value (write n) = n := by
  induction n using write_induction with
  | hlast n h =>
    rw [write_last h, value, value, toNat_last h]
    omega
  | hmore n h ih =>
    rw [write_more h, value, toNat_marked, ih]
    omega

/-- **What is written of a number is taken whole**, if it is not too long. -/
theorem take_write {more n : Nat} (h : (write n).length ≤ more + 1) (rest : List UInt8) :
    take more (write n ++ rest) = some (write n, rest) := by
  induction n using write_induction generalizing more with
  | hlast n hn =>
    have hlt : (UInt8.ofNat n).toNat < 128 := by
      rw [toNat_last hn]
      omega
    rw [write_last hn, List.singleton_append, take_last hlt]
  | hmore n hn ih =>
    have hmark : ¬ (UInt8.ofNat (n % 128 + 128)).toNat < 128 := by
      rw [toNat_marked]
      omega
    rw [write_more hn, List.length_cons] at h
    have hpos := length_write_pos (n / 128)
    obtain ⟨more, rfl⟩ := Nat.exists_eq_add_one.mpr (show 0 < more by omega)
    rw [write_more hn, List.cons_append, take_marked hmark, ih (by omega)]
    rfl

variable {more : Nat} {bs found rest : List UInt8}

/-- What can be taken. -/
theorem take_cons_some {b : UInt8} (h : take more (b :: bs) = some (found, rest)) :
    b.toNat < 128 ∧ found = [b] ∧ rest = bs ∨
      ¬ b.toNat < 128 ∧ ∃ more' found', more = more' + 1 ∧ found = b :: found' ∧
        take more' bs = some (found', rest) := by
  by_cases hb : b.toNat < 128
  · rw [take_last hb] at h
    obtain ⟨rfl, rfl⟩ := Prod.mk.inj (Option.some.inj h)
    exact .inl ⟨hb, rfl, rfl⟩
  · cases more with
    | zero => simp [take_full hb] at h
    | succ more =>
      rw [take_marked hb] at h
      obtain ⟨⟨found', rest'⟩, htake, heq⟩ := Option.map_eq_some_iff.mp h
      obtain ⟨rfl, rfl⟩ := Prod.mk.inj heq
      exact .inr ⟨hb, more, found', rfl, rfl, htake⟩

theorem take_eq_append (h : take more bs = some (found, rest)) : bs = found ++ rest := by
  induction bs generalizing more found with
  | nil => simp at h
  | cons b bs ih =>
    obtain ⟨-, rfl, rfl⟩ | ⟨-, more', found', -, rfl, htake⟩ := take_cons_some h
    · rfl
    · rw [List.cons_append, ← ih htake]

theorem length_take (h : take more bs = some (found, rest)) :
    0 < found.length ∧ found.length ≤ more + 1 := by
  induction bs generalizing more found with
  | nil => simp at h
  | cons b bs ih =>
    obtain ⟨-, rfl, rfl⟩ | ⟨-, more', found', rfl, rfl, htake⟩ := take_cons_some h
    · simp
    · have hlen := ih htake
      rw [List.length_cons]
      omega

/-- Nothing behind the group is looked at. -/
theorem take_append (h : take more bs = some (found, rest)) (tail : List UInt8) :
    take more (bs ++ tail) = some (found, rest ++ tail) := by
  induction bs generalizing more found with
  | nil => simp at h
  | cons b bs ih =>
    obtain ⟨hb, rfl, rfl⟩ | ⟨hb, more', found', rfl, rfl, htake⟩ := take_cons_some h
    · rw [List.cons_append, take_last hb]
    · rw [List.cons_append, take_marked hb, ih htake]
      rfl

/-- A group that was taken is taken again. -/
theorem take_self (h : take more bs = some (found, rest)) :
    take more found = some (found, []) := by
  induction bs generalizing more found with
  | nil => simp at h
  | cons b bs ih =>
    obtain ⟨hb, rfl, rfl⟩ | ⟨hb, more', found', rfl, rfl, htake⟩ := take_cons_some h
    · exact take_last hb more []
    · rw [take_marked hb, ih htake]
      rfl

theorem value_lt (bs : List UInt8) : value bs < 128 ^ bs.length := by
  induction bs with
  | nil => exact Nat.one_pos
  | cons b bs ih =>
    rw [value, List.length_cons, pow_succ]
    have hlt := Nat.mod_lt b.toNat (show 0 < 128 by decide)
    omega

/-- **No group of bytes for a number is shorter than what is written of it.** -/
theorem length_write_value_le (h : bs ≠ []) : (write (value bs)).length ≤ bs.length := by
  obtain ⟨k, hk⟩ := Nat.exists_eq_add_one.mpr (List.length_pos_of_ne_nil h)
  rw [hk, length_write_le_iff, ← hk]
  exact value_lt bs

end Varint
