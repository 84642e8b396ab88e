import VleoNotebook.Protobuf.Decoder

/-! The integer types of fields.

A value is packed for its type when it is encoded and unpacked when it is decoded, and is
checked neither time; the host is taken to be little-endian, with integers of 64 bits. It
comes back where the type says so (`IntType.Holds`) and nowhere else (`fieldReadBack_iff`):
what is negative is lost in an `enum`, and `int32`, written in 64 bits, holds what `int64`
does. -/
namespace VleoNotebook.Protobuf

/-! ### The types -/

/-- The types of integers. -/
inductive IntType where
  | int32 | int64 | uint32 | uint64 | sint32 | sint64 | bool | enum
  | fixed32 | fixed64 | sfixed32 | sfixed64
deriving DecidableEq, Repr

/-- `pack("V", ...)` and `pack("q", ...)`: so many of the lowest bytes, the lowest first. -/
def pack (v : ℤ) (len : Nat) : Octets :=
  (List.range len).map fun i => UInt8.ofNat (word v / 256 ^ i)

/-- `unpack("V", ...)` and `unpack("Q", ...)` -/
def unpack : Octets → Nat
  | [] => 0
  | b :: bs => b.toNat + 256 * unpack bs

/-- `unpack("l", ...)` and `unpack("q", ...)`, which take the bytes in the order of the host: here
the lowest first. -/
def unpackSigned (bs : Octets) : ℤ :=
  if unpack bs < 2 ^ (8 * bs.length - 1) then unpack bs else unpack bs - 2 ^ (8 * bs.length)

/-- `encode_field_int32` and its siblings -/
def encodeField (type : IntType) (field : Nat) (v : ℤ) : Except String Octets :=
  match type with
  | .int32 | .int64 | .uint32 | .uint64 | .bool | .enum => encodeWireVarint field v
  | .sint32 | .sint64 => encodeWireVarint field (zigzagEncode v)
  | .fixed32 | .sfixed32 => encodeWire (.fixed32 field (pack v 4))
  | .fixed64 | .sfixed64 => encodeWire (.fixed64 field (pack v 8))

/-- `zigzag_decode` -/
def zigzagDecode (v : Nat) : ℤ := if 1 &&& v ≠ 0 then -(1 + (v >>> 1 : Nat)) else (v >>> 1 : Nat)

/-- `decode_field_int32` and `decode_field_int64` -/
def decodeSigned (int : Nat) : ℤ :=
  if int &&& 2 ^ 63 ≠ 0 then -(((int ^^^ (2 ^ 64 - 1)) + 1) &&& (2 ^ 64 - 1) : Nat) else int

/-- `decode_value`, of a value that came in an event of the kind its type has. -/
def decodeValue (type : IntType) (e : Event) : Option ℤ :=
  match type, e with
  | .int32, .varint _ int | .int64, .varint _ int => some (decodeSigned int)
  | .uint32, .varint _ int | .uint64, .varint _ int | .bool, .varint _ int | .enum, .varint _ int =>
    some int
  | .sint32, .varint _ v | .sint64, .varint _ v => some (zigzagDecode v)
  | .fixed32, .fixed32 _ octets => some (unpack octets)
  | .sfixed32, .fixed32 _ v => some (unpackSigned v)
  | .fixed64, .fixed64 _ v => some (unpack v)
  | .sfixed64, .fixed64 _ v => some (unpackSigned v)
  | _, _ => none

/-! ### What is asked -/

/-- The value goes out in a field and comes back in the same field. -/
def ReadBack (type : IntType) (field : Nat) (v : ℤ) : Prop :=
  ∃ data e, encodeField type field v = .ok data ∧ decode data = .ok [e] ∧ e.fieldnum = field ∧
    decodeValue type e = some v

/-- What a field of the type holds. -/
def IntType.Holds : IntType → ℤ → Prop
  | int32, v | int64, v | sint32, v | sint64, v | sfixed64, v => -2 ^ 63 ≤ v ∧ v < 2 ^ 63
  | uint32, v | uint64, v | bool, v | enum, v | fixed64, v => 0 ≤ v ∧ v < 2 ^ 64
  | fixed32, v => 0 ≤ v ∧ v < 2 ^ 32
  | sfixed32, v => -2 ^ 31 ≤ v ∧ v < 2 ^ 31

/-! ### One event -/

/-- The event a value goes out in. -/
def IntType.event (type : IntType) (field : Nat) (v : ℤ) : Event :=
  match type with
  | int32 | int64 | uint32 | uint64 | bool | enum => .varint field (word v)
  | sint32 | sint64 => .varint field (zigzagEncode v)
  | fixed32 | sfixed32 => .fixed32 field (pack v 4)
  | fixed64 | sfixed64 => .fixed64 field (pack v 8)

theorem length_pack (v : ℤ) (len : Nat) : (pack v len).length = len := by
  simp [pack]

/-! ### Bits -/

theorem xor_allBits {n : Nat} (h : n < 2 ^ 64) : n ^^^ (2 ^ 64 - 1) = 2 ^ 64 - 1 - n := by
  refine Nat.eq_of_testBit_eq fun i => ?_
  have hsub : 2 ^ 64 - 1 - n = 2 ^ 64 - (n + 1) := by omega
  rw [hsub, Nat.testBit_two_pow_sub_succ h, Nat.testBit_xor, Nat.testBit_two_pow_sub_one]
  by_cases hi : i < 64
  · simp [hi]
  · have hbit : n.testBit i = false :=
      Nat.testBit_lt_two_pow (h.trans_le (Nat.pow_le_pow_right (by decide) (by omega)))
    simp [hi, hbit]

theorem or_one_of_odd {n : Nat} (h : n % 2 = 1) : n ||| 1 = n := by
  have hn : 2 ^ 1 * (n / 2) ||| 1 = n := by
    rw [← Nat.two_pow_add_eq_or_of_lt (by decide : 1 < 2 ^ 1)]
    omega
  conv_lhs => rw [← hn]
  rw [Nat.or_assoc, Nat.or_self, hn]

/-- The bits of a number below zero are those of the odd number for it. -/
theorem zigzagEncode_eq {v : ℤ} (h : IsInteger v) : (zigzagEncode v : ℤ) =
    if 0 ≤ v then 2 * v % 2 ^ 64 else -2 * v - 1 := by
  obtain ⟨hlow, hhigh⟩ := h
  have hshift : word v <<< 1 % 2 ^ 64 = 2 * word v % 2 ^ 64 := by
    rw [Nat.shiftLeft_eq, Nat.mul_comm, pow_one]
  simp only [zigzagEncode, hshift]
  by_cases hv : 0 ≤ v
  · rw [if_pos hv, if_pos hv]
    unfold word
    omega
  · have hlt : 2 * word v % 2 ^ 64 < 2 ^ 64 := Nat.mod_lt _ (by decide)
    rw [if_neg hv, if_neg hv, xor_allBits hlt, or_one_of_odd (by omega)]
    unfold word at hlt ⊢
    omega

theorem zigzagDecode_eq (n : Nat) :
    zigzagDecode n = if n % 2 = 1 then -(n + 1 : ℤ) / 2 else (n : ℤ) / 2 := by
  unfold zigzagDecode
  rw [Nat.one_and_eq_mod_two, Nat.shiftRight_eq_div_pow]
  split <;> split <;> omega

theorem decodeSigned_eq {n : Nat} (h : n < 2 ^ 64) :
    decodeSigned n = if 2 ^ 63 ≤ n then (n : ℤ) - 2 ^ 64 else (n : ℤ) := by
  have hbit : n &&& 2 ^ 63 ≠ 0 ↔ 2 ^ 63 ≤ n := by
    rw [Nat.and_two_pow, Nat.testBit_eq_decide_div_mod_eq]
    by_cases hn : n / 2 ^ 63 % 2 = 1
    · rw [decide_eq_true hn]
      exact iff_of_true (by decide) (by omega)
    · rw [decide_eq_false hn]
      exact iff_of_false (by decide) (by omega)
  unfold decodeSigned
  by_cases hn : 2 ^ 63 ≤ n
  · rw [if_pos (hbit.mpr hn), if_pos hn, xor_allBits h, Nat.and_two_pow_sub_one_eq_mod]
    omega
  · rw [if_neg (mt hbit.mp hn), if_neg hn]

/-! ### Bytes -/

/-- What is packed is unpacked, but for what did not fit. -/
theorem unpack_pack (v : ℤ) (len : Nat) : unpack (pack v len) = word v % 256 ^ len := by
  suffices h : ∀ n : Nat, unpack ((List.range len).map fun i => UInt8.ofNat (n / 256 ^ i)) =
      n % 256 ^ len from h (word v)
  induction len with
  | zero =>
    intro n
    rw [pow_zero, Nat.mod_one]
    rfl
  | succ len ih =>
    intro n
    have htail : (fun i => UInt8.ofNat (n / 256 ^ (i + 1))) =
        fun i => UInt8.ofNat (n / 256 / 256 ^ i) := by
      funext i
      rw [Nat.div_div_eq_div_mul, pow_succ']
    rw [List.range_succ_eq_map, List.map_cons, List.map_map, unpack]
    simp only [Function.comp_def, htail, ih (n / 256), pow_zero, Nat.div_one]
    have hmod : n % 256 ^ (len + 1) = n % 256 + 256 * (n / 256 % 256 ^ len) := by
      rw [pow_succ', Nat.mod_mul]
    rw [UInt8.toNat_ofNat', hmod]

theorem unpackSigned_pack (v : ℤ) (len : Nat) : unpackSigned (pack v len) =
    if word v % 256 ^ len < 2 ^ (8 * len - 1) then ((word v % 256 ^ len : Nat) : ℤ)
    else ((word v % 256 ^ len : Nat) : ℤ) - 2 ^ (8 * len) := by
  rw [unpackSigned, unpack_pack, length_pack]

/-! ### What comes back -/

theorem encodeField_eq (type : IntType) {field : Nat} {v : ℤ} (hfield : field < 2 ^ 61)
    (h : IsInteger v) : (type.event field v).Fits ∧
      encodeField type field v = .ok (type.event field v).bytes := by
  have hvarint (int : ℤ) (hint : IsInteger int) :
      (Event.varint field (word int)).Fits ∧
        encodeWireVarint field int = .ok (Event.varint field (word int)).bytes := by
    refine ⟨⟨hfield, word_lt int⟩, ?_⟩
    rw [encodeWireVarint, encodeFieldAndWireType_eq hfield, encodeVarint_eq hint]
    rfl
  have hzigzag : zigzagEncode v < 2 ^ 64 := by
    have heq := zigzagEncode_eq h
    obtain ⟨hlow, hhigh⟩ := h
    split at heq <;> omega
  have hzigzagged := hvarint (zigzagEncode v) (isInteger_natCast hzigzag)
  rw [word_natCast hzigzag] at hzigzagged
  cases type with
  | int32 | int64 | uint32 | uint64 | bool | enum => exact hvarint v h
  | sint32 | sint64 => exact hzigzagged
  | fixed32 | sfixed32 =>
    have hfits : (Event.fixed32 field (pack v 4)).Fits := ⟨hfield, length_pack v 4⟩
    exact ⟨hfits, encodeWire_eq hfits⟩
  | fixed64 | sfixed64 =>
    have hfits : (Event.fixed64 field (pack v 8)).Fits := ⟨hfield, length_pack v 8⟩
    exact ⟨hfits, encodeWire_eq hfits⟩

theorem IntType.nesting_event (type : IntType) (field : Nat) (v : ℤ) :
    (type.event field v).nesting = 0 := by
  cases type <;> rfl

theorem IntType.fieldnum_event (type : IntType) (field : Nat) (v : ℤ) :
    (type.event field v).fieldnum = field := by
  cases type <;> rfl

/-- **What a field makes of a value.** -/
theorem decodeValue_event_iff {type : IntType} {field : Nat} {v : ℤ} (h : IsInteger v) :
    decodeValue type (type.event field v) = some v ↔ type.Holds v := by
  have hword := word_lt v
  have hsigned := decodeSigned_eq hword
  have hzigzag := zigzagEncode_eq h
  obtain ⟨hlow, hhigh⟩ := h
  cases type with
  | int32 | int64 =>
    simp only [IntType.event, decodeValue, IntType.Holds, Option.some.injEq, hsigned]
    unfold word
    split <;> omega
  | uint32 | uint64 | bool | enum =>
    simp only [IntType.event, decodeValue, IntType.Holds, Option.some.injEq]
    unfold word
    omega
  | sint32 | sint64 =>
    simp only [IntType.event, decodeValue, IntType.Holds, Option.some.injEq, zigzagDecode_eq]
    split at hzigzag <;> split <;> omega
  | fixed32 =>
    simp only [IntType.event, decodeValue, IntType.Holds, Option.some.injEq, unpack_pack]
    unfold word
    omega
  | sfixed32 =>
    simp only [IntType.event, decodeValue, IntType.Holds, Option.some.injEq, unpackSigned_pack]
    unfold word
    split <;> omega
  | fixed64 =>
    simp only [IntType.event, decodeValue, IntType.Holds, Option.some.injEq, unpack_pack]
    unfold word
    omega
  | sfixed64 =>
    simp only [IntType.event, decodeValue, IntType.Holds, Option.some.injEq, unpackSigned_pack]
    unfold word
    split <;> omega

/-- **Exactly what a type holds comes back** from a field of it, in the same field, if the number
of the field has room in its key. -/
theorem fieldReadBack_iff (type : IntType) (field : Nat) (v : ℤ) (h : IsInteger v) :
    ReadBack type field v ↔ field < 2 ^ 61 ∧ type.Holds v := by
  constructor
  · intro hback
    obtain ⟨data, e, hdata, hdecode, rfl, hvalue⟩ := hback
    have hfits := ((decode_iff data [e]).mp hdecode).1.fits e List.mem_cons_self
    have hfield : e.fieldnum < 2 ^ 61 := hfits.fieldnum_lt
    obtain ⟨hevent, hencode⟩ := encodeField_eq type hfield h
    obtain rfl := Except.ok.inj (hencode.symm.trans hdata)
    have hsame := (decode_iff _ _).mpr ⟨Stream.single hevent.written, by
      simpa [nesting] using type.nesting_event e.fieldnum v⟩
    rw [hdecode] at hsame
    obtain ⟨heq, -⟩ := List.cons.inj (Except.ok.inj hsame)
    rw [heq] at hvalue
    exact ⟨hfield, (decodeValue_event_iff h).mp hvalue⟩
  · intro hholds
    obtain ⟨hfield, hholds⟩ := hholds
    obtain ⟨hevent, hencode⟩ := encodeField_eq type hfield h
    have hdecode := (decode_iff _ _).mpr ⟨Stream.single hevent.written, by
      simpa [nesting] using type.nesting_event field v⟩
    exact ⟨_, _, hencode, hdecode, type.fieldnum_event field v, (decodeValue_event_iff h).mpr hholds⟩

/-- An `enum` below zero. -/
theorem fieldReadBack_iff_enum : ReadBack .enum 5 (-1) ↔ (5 < 2 ^ 61 ∧ IntType.Holds .enum (-1)) :=
  fieldReadBack_iff .enum 5 (-1) (by decide)

end VleoNotebook.Protobuf
