import Mathlib.Data.Nat.Bitwise
import Mathlib.Tactic.NormNum
import VleoNotebook.Lib.Varint

/-! The encoder of `Protobuf`, on a Perl with 64-bit integers.

A message goes over the wire as a row of events: a key, which is a field number with three
bits for the kind of event, and what belongs to the kind. -/
namespace VleoNotebook.Protobuf

/-- A string of bytes. -/
abbrev Octets := List UInt8

/-- `%wire_types` -/
inductive Wire where
  | varint
  | fixed64
  | lengthDelimited
  | startGroup
  | endGroup
  | fixed32
deriving DecidableEq, Repr

def Wire.num : Wire → Nat
  | varint => 0
  | fixed64 => 1
  | lengthDelimited => 2
  | startGroup => 3
  | endGroup => 4
  | fixed32 => 5

/-- An event: a field number with a value, or the begin or end of a group. -/
inductive Event where
  | varint (fieldnum value : Nat)
  | fixed64 (fieldnum : Nat) (value : Octets)
  | lengthDelimited (fieldnum : Nat) (value : Octets)
  | startGroup (fieldnum : Nat)
  | endGroup (fieldnum : Nat)
  | fixed32 (fieldnum : Nat) (value : Octets)
deriving DecidableEq, Repr

/-! ### Integers -/

/-- An integer that is no double: an IV or a UV. -/
def IsInteger (v : ℤ) : Prop := -2 ^ 63 ≤ v ∧ v < 2 ^ 64

instance (v : ℤ) : Decidable (IsInteger v) := inferInstanceAs (Decidable (_ ∧ _))

/-- The 64 bits of an integer. -/
def word (v : ℤ) : Nat := (v % 2 ^ 64).toNat

/-- `encode_varint`. It takes big integers too. -/
def encodeVarint (int : ℤ) : Except String Octets :=
  let neg := int < 0
  let buf := Varint.write (if neg then word int else int.toNat)
  let buf := if neg then buf.dropLast ++ List.replicate (10 - buf.length) 0xff ++ [1] else buf
  if buf.length > 10 then .error "Integer too long" else .ok buf

/-- `zigzag_encode` -/
def zigzagEncode (v : ℤ) : Nat :=
  let shifted := word v <<< 1 % 2 ^ 64
  if v ≥ 0 then shifted else (shifted ^^^ (2 ^ 64 - 1)) ||| 1

/-! ### Events -/

def encodeFieldAndWireType (field : Nat) (wire : Wire) : Except String Octets :=
  encodeVarint ((field <<< 3 % 2 ^ 64 ||| wire.num : Nat) : ℤ)

/-- `encode_length_delimited`, of octets. -/
def encodeLengthDelimited (buf : Octets) : Except String Octets := do
  return (← encodeVarint buf.length) ++ buf

def encodeWireVarint (field : Nat) (int : ℤ) : Except String Octets := do
  return (← encodeFieldAndWireType field .varint) ++ (← encodeVarint int)

/-- `encode_wire_fixed32`, `encode_wire_fixed64` and their siblings, of octets. -/
def encodeWire : Event → Except String Octets
  | .varint field int => encodeWireVarint field int
  | .fixed64 field buf =>
    if buf.length ≠ 8 then .error "value must be an 8 octet byte"
    else do return (← encodeFieldAndWireType field .fixed64) ++ buf
  | .lengthDelimited field bytes => do
    return (← encodeFieldAndWireType field .lengthDelimited) ++ (← encodeLengthDelimited bytes)
  | .startGroup field => encodeFieldAndWireType field .startGroup
  | .endGroup field => encodeFieldAndWireType field .endGroup
  | .fixed32 field buf =>
    if buf.length ≠ 4 then .error "value must be a 4 octet byte"
    else do return (← encodeFieldAndWireType field .fixed32) ++ buf

/-- The events one behind the other. -/
def encodeEvents : List Event → Except String Octets
  | [] => .ok []
  | e :: es => do return (← encodeWire e) ++ (← encodeEvents es)

/-! ### What is written -/

theorem bind_eq_ok {ε α β : Type} {x : Except ε α} {f : α → Except ε β} {b : β} :
    x >>= f = .ok b ↔ ∃ a, x = .ok a ∧ f a = .ok b := by
  cases x with
  | error e =>
    refine iff_of_false nofun ?_
    intro h
    obtain ⟨a, ha, -⟩ := h
    cases ha
  | ok a =>
    constructor
    · exact fun h => ⟨a, rfl, h⟩
    · intro h
      obtain ⟨a', ha, hf⟩ := h
      obtain rfl := Except.ok.inj ha
      exact hf

theorem word_lt (v : ℤ) : word v < 2 ^ 64 := by
  unfold word
  omega

theorem word_natCast {n : Nat} (h : n < 2 ^ 64) : word n = n := by
  unfold word
  omega

/-- A negative integer takes ten bytes, the last of which is one already. -/
theorem write_of_neg {n : Nat} (hlow : 2 ^ 63 ≤ n) (h : n < 2 ^ 64) :
    (Varint.write n).length = 10 ∧ (Varint.write n).dropLast ++ [1] = Varint.write n := by
  have hten : (Varint.write n).length ≤ 10 := (Varint.length_write_le_iff 9 n).mpr (by omega)
  have hnine : ¬ (Varint.write n).length ≤ 9 := by
    rw [Varint.length_write_le_iff 8 n]
    omega
  -- the last byte stands for the 63 bits in front of it
  have hlast (k m : Nat) (hlow : 128 ^ k ≤ m) (hm : m < 2 * 128 ^ k) :
      (Varint.write m).dropLast ++ [1] = Varint.write m := by
    induction k generalizing m with
    | zero =>
      obtain rfl : m = 1 := by omega
      rfl
    | succ k ih =>
      have hpos : 0 < 128 ^ k := by positivity
      rw [pow_succ] at hlow hm
      rw [Varint.write_more (by omega), List.dropLast_cons_of_ne_nil (Varint.write_ne_nil _),
        List.cons_append, ih (m / 128) (by omega) (by omega)]
  exact ⟨by omega, hlast 9 n (by omega) (by omega)⟩

/-- What is written of an integer is what is written of its bits. -/
theorem encodeVarint_eq {v : ℤ} (h : IsInteger v) : encodeVarint v = .ok (Varint.write (word v)) := by
  obtain ⟨hlow, hhigh⟩ := h
  by_cases hneg : v < 0
  · obtain ⟨hlen, hlast⟩ := write_of_neg (show 2 ^ 63 ≤ word v by unfold word; omega) (word_lt v)
    simp only [encodeVarint, if_pos hneg, hlen, Nat.sub_self, List.replicate_zero, List.append_nil,
      hlast]
    rfl
  · have hword : v.toNat = word v := by
      unfold word
      omega
    have hlen : ¬ (Varint.write (word v)).length > 10 := by
      rw [not_lt, Varint.length_write_le_iff 9]
      have hlt := word_lt v
      omega
    simp only [encodeVarint, if_neg hneg, hword, if_neg hlen]

theorem isInteger_natCast {n : Nat} (h : n < 2 ^ 64) : IsInteger (n : ℤ) := by
  unfold IsInteger
  omega

theorem encodeVarint_natCast {n : Nat} (h : n < 2 ^ 64) :
    encodeVarint n = .ok (Varint.write n) := by
  rw [encodeVarint_eq (isInteger_natCast h), word_natCast h]

/-- The key of an event. -/
def key (field : Nat) (wire : Wire) : Nat := 8 * field + wire.num

theorem Wire.num_lt (wire : Wire) : wire.num < 8 := by
  cases wire <;> decide

theorem key_lt {field : Nat} (h : field < 2 ^ 61) (wire : Wire) : key field wire < 2 ^ 64 := by
  have hnum := wire.num_lt
  unfold key
  omega

theorem key_shift (field : Nat) (wire : Wire) : key field wire >>> 3 = field := by
  have hnum := wire.num_lt
  rw [key, Nat.shiftRight_eq_div_pow]
  omega

theorem key_and (field : Nat) (wire : Wire) : key field wire &&& 7 = wire.num := by
  have hnum := wire.num_lt
  have hmod : key field wire &&& 7 = key field wire % 8 := Nat.and_two_pow_sub_one_eq_mod _ 3
  rw [hmod, key]
  omega

/-- A key by its bits. -/
theorem eq_key {n : Nat} (wire : Wire) (h : n &&& 7 = wire.num) : n = key (n >>> 3) wire := by
  have hmod : n &&& 7 = n % 8 := Nat.and_two_pow_sub_one_eq_mod n 3
  rw [key, ← h, Nat.shiftRight_eq_div_pow]
  omega

/-- **A field number below 2^61 stands whole in its key.** -/
theorem encodeFieldAndWireType_eq {field : Nat} (h : field < 2 ^ 61) (wire : Wire) :
    encodeFieldAndWireType field wire = .ok (Varint.write (key field wire)) := by
  have hkey : field <<< 3 % 2 ^ 64 ||| wire.num = key field wire := by
    rw [Nat.shiftLeft_eq, Nat.mod_eq_of_lt (by omega), Nat.mul_comm field, key,
      Nat.two_pow_add_eq_or_of_lt (i := 3) wire.num_lt field]
  rw [encodeFieldAndWireType, hkey, encodeVarint_natCast (key_lt h wire)]

end VleoNotebook.Protobuf
