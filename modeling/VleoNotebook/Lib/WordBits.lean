import Mathlib.Data.List.Basic
import Mathlib.Order.Basic

/-! A set of numbers as the bits of a list of words. -/
namespace WordBits
variable {w : Nat}

/-- Bit `b` of the list; past its end there are no ones. -/
def bit (words : List (BitVec w)) (b : Nat) : Bool :=
  ((words[b / w]?).map fun word => word.getLsbD (b % w)).getD false

/-- The list with bit `b` put to one. -/
def put (words : List (BitVec w)) (b : Nat) : List (BitVec w) :=
  words.set (b / w) ((words[b / w]?).getD 0 ||| 1#w <<< (b % w))

variable {words : List (BitVec w)} {b : Nat}

@[simp] theorem length_put : (put words b).length = words.length := List.length_set ..

theorem bit_replicate (n b : Nat) : bit (List.replicate n (0#w)) b = false := by
  rw [bit, List.getElem?_replicate]
  split
  · exact BitVec.getLsbD_zero
  · rfl

theorem index_lt (hb : b < w * words.length) : b / w < words.length :=
  Nat.div_lt_of_lt_mul hb

/-- **Just the bit that is put becomes one.** -/
theorem bit_put (hb : b < w * words.length) (c : Nat) :
    bit (put words b) c = (decide (c = b) || bit words c) := by
  have hw : 0 < w := Nat.pos_of_ne_zero fun h => by simp [h] at hb
  have hindex := index_lt hb
  rw [bit, bit, put, List.getElem?_set, List.getElem?_eq_getElem hindex, Option.getD_some]
  by_cases hword : b / w = c / w
  · have hone : (1#w <<< (b % w)).getLsbD (c % w) = decide (c = b) := by
      have hb' := Nat.div_add_mod b w
      have hc' := Nat.div_add_mod c w
      rw [hword] at hb'
      have heq : c % w = b % w ↔ c = b := by omega
      rw [BitVec.getLsbD_shiftLeft, BitVec.getLsbD_one, decide_eq_true (Nat.mod_lt c hw),
        decide_eq_true hw]
      by_cases hcb : c = b
      · subst hcb
        simp
      · rw [decide_eq_false hcb]
        have hne := mt heq.mp hcb
        simp only [Bool.true_and, Bool.and_eq_false_imp, Bool.not_eq_true', decide_eq_false_iff_not]
        omega
    rw [if_pos hword, if_pos hindex, ← hword, List.getElem?_eq_getElem hindex]
    simp only [Option.map_some, Option.getD_some, BitVec.getLsbD_or, hone]
    exact Bool.or_comm ..
  · have hne : c ≠ b := fun h => hword (by rw [h])
    rw [if_neg hword, decide_eq_false hne, Bool.false_or]

end WordBits
