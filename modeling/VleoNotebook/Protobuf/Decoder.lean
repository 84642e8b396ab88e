import VleoNotebook.Protobuf.Encoder

/-! The decoder of `Protobuf`, and what it accepts.

What belongs on the wire is said apart from the program: a number in at most ten bytes
(`IsVarint`), an event behind its key (`Written`), one event behind the other (`Stream`).
The decoder reads exactly these (`readEvent_iff`), as many groups begun as ended
(`decode_iff`); which group ends where it does not ask. So what is encoded is decoded
again and nothing shorter stands for the same events (`decode_encodeEvents_iff`), and a
message that is cut off is read where it is cut between events and outside of groups
(`decode_prefix_iff`). -/
namespace VleoNotebook.Protobuf

/-! ### Reading -/

/-- What the decoder dies of. -/
inductive Died where
  | expectedVarint (pos : Nat)
  | truncated (length : Nat)
  | unsupported (wireFormat : Nat)
  | stillInGroup
deriving DecidableEq, Repr

def Died.text : Died → String
  | expectedVarint pos => "Expected varint at position " ++ toString pos
  | truncated length => "Truncated message in middle of " ++ toString length ++ " byte value.\n"
  | unsupported wireFormat => "Unsupported wire format: " ++ toString wireFormat ++ "\n"
  | stillInGroup => "Still in a group after encountering the end of the stream."

/-- `$num`, with so many `$bytes` read before. -/
def number : (bytes : Nat) → Octets → Nat
  | _, [] => 0
  | bytes, b :: bs => (b.toNat &&& 0x7f) <<< (7 * bytes) % 2 ^ 64 + number (bytes + 1) bs

/-- `$get_varint`, in a message of this length with this much of it left. -/
def getVarint (length : Nat) (data : Octets) : Except Died (Nat × Octets) :=
  match Varint.take 9 data with
  | none => .error (.expectedVarint (length - data.length))
  | some (enc, rest) => .ok (number 0 enc, rest)

/-- `$consume` -/
def consume (length : Nat) (data : Octets) : Except Died (Octets × Octets) :=
  if data.length < length then .error (.truncated length)
  else .ok (data.take length, data.drop length)

/-- A turn of the loop of `decode`. -/
def readEvent (length : Nat) (data : Octets) : Except Died (Event × Octets) := do
  let (fieldAndWire, data) ← getVarint length data
  let fieldNum := fieldAndWire >>> 3
  match fieldAndWire &&& 7 with
  | 0 =>
    let (value, data) ← getVarint length data
    return (.varint fieldNum value, data)
  | 2 =>
    let (len, data) ← getVarint length data
    let (value, data) ← consume len data
    return (.lengthDelimited fieldNum value, data)
  | 1 =>
    let (value, data) ← consume 8 data
    return (.fixed64 fieldNum value, data)
  | 5 =>
    let (value, data) ← consume 4 data
    return (.fixed32 fieldNum value, data)
  | 3 => return (.startGroup fieldNum, data)
  | 4 => return (.endGroup fieldNum, data)
  | wireFormat => throw (.unsupported wireFormat)

/-- What an event adds to `$group_depth`. -/
def Event.nesting : Event → ℤ
  | startGroup _ => 1
  | endGroup _ => -1
  | _ => 0

/-- The loop of `decode`. With a turn for every byte it does not run out of them. -/
def decodeFrom (length : Nat) : (turns : Nat) → Octets → (groupDepth : ℤ) → Except Died (List Event)
  | _, [], groupDepth => if groupDepth ≠ 0 then .error .stillInGroup else .ok []
  | 0, _ :: _, _ => .error .stillInGroup
  | turns + 1, b :: data, groupDepth => do
    let (e, rest) ← readEvent length (b :: data)
    return e :: (← decodeFrom length turns rest (groupDepth + e.nesting))

/-- `decode` -/
def decode (data : Octets) : Except Died (List Event) := decodeFrom data.length data.length data 0

/-! ### What belongs on the wire -/

/-- The bytes stand for the number: up to ten, all but the last marked. What goes beyond 64
bits is not counted. -/
def IsVarint (bs : Octets) (n : Nat) : Prop :=
  Varint.take 9 bs = some (bs, []) ∧ n = Varint.value bs % 2 ^ 64

/-- The bytes stand for the event. -/
inductive Written : Octets → Event → Prop where
  | varint {k v : Octets} {field n : Nat} (hk : IsVarint k (key field .varint))
    (hv : IsVarint v n) : Written (k ++ v) (.varint field n)
  | fixed64 {k buf : Octets} {field : Nat} (hk : IsVarint k (key field .fixed64))
    (hbuf : buf.length = 8) : Written (k ++ buf) (.fixed64 field buf)
  | lengthDelimited {k l buf : Octets} {field : Nat}
    (hk : IsVarint k (key field .lengthDelimited)) (hl : IsVarint l buf.length) :
    Written (k ++ (l ++ buf)) (.lengthDelimited field buf)
  | startGroup {k : Octets} {field : Nat} (hk : IsVarint k (key field .startGroup)) :
    Written k (.startGroup field)
  | endGroup {k : Octets} {field : Nat} (hk : IsVarint k (key field .endGroup)) :
    Written k (.endGroup field)
  | fixed32 {k buf : Octets} {field : Nat} (hk : IsVarint k (key field .fixed32))
    (hbuf : buf.length = 4) : Written (k ++ buf) (.fixed32 field buf)

/-- The bytes stand for the events, one behind the other. -/
inductive Stream : Octets → List Event → Prop where
  | nil : Stream [] []
  | cons {bs data : Octets} {e : Event} {es : List Event} (he : Written bs e)
    (hes : Stream data es) : Stream (bs ++ data) (e :: es)

/-- How many more groups begin than end. -/
def nesting (es : List Event) : ℤ := (es.map Event.nesting).sum

/-! ### Numbers -/

section Reading
variable {length : Nat} {data rest : Octets}

/-- The bytes of a number are added up without a carry. -/
theorem number_eq {bytes : Nat} {bs : Octets} (h : bytes + bs.length ≤ 10) :
    number bytes bs = 128 ^ bytes * Varint.value bs % 2 ^ 64 := by
  induction bs generalizing bytes with
  | nil => simp [number, Varint.value]
  | cons b bs ih =>
    rw [List.length_cons] at h
    have hmask : b.toNat &&& 0x7f = b.toNat % 128 := Nat.and_two_pow_sub_one_eq_mod b.toNat 7
    have hpow : 2 ^ (7 * bytes) = 128 ^ bytes := pow_mul 2 7 bytes
    rw [number, hmask, Nat.shiftLeft_eq, hpow, Varint.value, ih (by omega)]
    by_cases hbytes : bytes ≤ 8
    · -- what comes behind does not reach the digit
      obtain ⟨q, hq⟩ : ∃ q, 2 ^ 64 = 128 ^ bytes * (128 * q) := by
        refine ⟨2 ^ (57 - 7 * bytes), ?_⟩
        have h128 : 128 = 2 ^ 7 := by norm_num
        rw [← hpow, h128, ← pow_add, ← pow_add]
        congr 1
        omega
      have hlt := Nat.mod_lt b.toNat (show 0 < 128 by decide)
      have hqpos : 0 < q := by
        by_contra hzero
        obtain rfl : q = 0 := by omega
        simp at hq
      have hdigit : b.toNat % 128 * 128 ^ bytes < 2 ^ 64 := by
        rw [hq, Nat.mul_comm]
        exact Nat.mul_lt_mul_of_pos_left (by omega) (by positivity)
      have hrest : (b.toNat % 128 + 128 * Varint.value bs) % (128 * q) =
          b.toNat % 128 + 128 * (Varint.value bs % q) := by
        rw [Nat.mod_mul, Nat.add_mul_mod_self_left, Nat.mod_mod,
          Nat.add_mul_div_left _ _ (by decide), Nat.div_eq_of_lt hlt, Nat.zero_add]
      rw [Nat.mod_eq_of_lt hdigit, hq, pow_succ, Nat.mul_assoc, Nat.mul_mod_mul_left,
        Nat.mul_mod_mul_left, Nat.mul_mod_mul_left, Nat.mul_comm _ (128 ^ bytes), ← Nat.mul_add,
        hrest]
    · -- the tenth byte is the last
      obtain rfl : bs = [] := List.eq_nil_of_length_eq_zero (by omega)
      simp only [Varint.value, Nat.mul_zero, Nat.add_zero, Nat.zero_mod]
      rw [Nat.mul_comm]

/-- **The decoder takes a number where one stands**, and nothing behind it. -/
theorem getVarint_iff {n : Nat} : getVarint length data = .ok (n, rest) ↔
    ∃ bs, IsVarint bs n ∧ data = bs ++ rest := by
  unfold getVarint
  constructor
  · intro h
    cases htake : Varint.take 9 data with
    | none => simp [htake] at h
    | some found =>
      obtain ⟨bs, rest'⟩ := found
      simp only [htake, Except.ok.injEq, Prod.mk.injEq] at h
      obtain ⟨rfl, rfl⟩ := h
      have hdata := Varint.take_eq_append htake
      have hself : Varint.take 9 bs = some (bs, []) := Varint.take_self htake
      refine ⟨bs, ⟨hself, ?_⟩, hdata⟩
      rw [number_eq (by have hlen := Varint.length_take htake; omega), pow_zero, Nat.one_mul]
  · intro h
    obtain ⟨bs, ⟨htake, hn⟩, rfl⟩ := h
    have hlen := Varint.length_take htake
    rw [Varint.take_append htake, List.nil_append]
    simp only [Except.ok.injEq, Prod.mk.injEq, and_true]
    rw [number_eq (by omega), pow_zero, Nat.one_mul, hn]

theorem consume_iff {n : Nat} {value : Octets} : consume n data = .ok (value, rest) ↔
    value.length = n ∧ data = value ++ rest := by
  unfold consume
  by_cases h : data.length < n
  · rw [if_pos h]
    refine iff_of_false (by simp) ?_
    intro hdata
    obtain ⟨rfl, rfl⟩ := hdata
    rw [List.length_append] at h
    omega
  · rw [if_neg h]
    constructor
    · intro heq
      obtain ⟨rfl, rfl⟩ := Prod.mk.inj (Except.ok.inj heq)
      exact ⟨List.length_take_of_le (by omega), (List.take_append_drop n data).symm⟩
    · intro hdata
      obtain ⟨rfl, rfl⟩ := hdata
      rw [List.take_left, List.drop_left]

/-! ### Events -/

/-- What is read is what is written in front. -/
theorem written_of_readEvent {e : Event} (h : readEvent length data = .ok (e, rest)) :
    ∃ bs, Written bs e ∧ data = bs ++ rest := by
  unfold readEvent at h
  obtain ⟨⟨fw, data₁⟩, hkey, hread⟩ := bind_eq_ok.mp h
  obtain ⟨k, hk, rfl⟩ := getVarint_iff.mp hkey
  simp only at hread
  split at hread
  · rename_i hwire
    obtain ⟨⟨n, data₂⟩, hvalue, hdone⟩ := bind_eq_ok.mp hread
    obtain ⟨v, hv, rfl⟩ := getVarint_iff.mp hvalue
    obtain ⟨rfl, rfl⟩ := Prod.mk.inj (Except.ok.inj hdone)
    rw [eq_key .varint hwire] at hk
    exact ⟨k ++ v, .varint hk hv, (List.append_assoc ..).symm⟩
  · rename_i hwire
    obtain ⟨⟨n, data₂⟩, hlen, hmore⟩ := bind_eq_ok.mp hread
    obtain ⟨l, hl, rfl⟩ := getVarint_iff.mp hlen
    obtain ⟨⟨buf, data₃⟩, hbuf, hdone⟩ := bind_eq_ok.mp hmore
    obtain ⟨rfl, rfl⟩ := consume_iff.mp hbuf
    obtain ⟨rfl, rfl⟩ := Prod.mk.inj (Except.ok.inj hdone)
    rw [eq_key .lengthDelimited hwire] at hk
    exact ⟨k ++ (l ++ buf), .lengthDelimited hk hl, by simp only [List.append_assoc]⟩
  · rename_i hwire
    obtain ⟨⟨buf, data₂⟩, hbuf, hdone⟩ := bind_eq_ok.mp hread
    obtain ⟨hlen, rfl⟩ := consume_iff.mp hbuf
    obtain ⟨rfl, rfl⟩ := Prod.mk.inj (Except.ok.inj hdone)
    rw [eq_key .fixed64 hwire] at hk
    exact ⟨k ++ buf, .fixed64 hk hlen, (List.append_assoc ..).symm⟩
  · rename_i hwire
    obtain ⟨⟨buf, data₂⟩, hbuf, hdone⟩ := bind_eq_ok.mp hread
    obtain ⟨hlen, rfl⟩ := consume_iff.mp hbuf
    obtain ⟨rfl, rfl⟩ := Prod.mk.inj (Except.ok.inj hdone)
    rw [eq_key .fixed32 hwire] at hk
    exact ⟨k ++ buf, .fixed32 hk hlen, (List.append_assoc ..).symm⟩
  · rename_i hwire
    obtain ⟨rfl, rfl⟩ := Prod.mk.inj (Except.ok.inj hread)
    rw [eq_key .startGroup hwire] at hk
    exact ⟨k, .startGroup hk, rfl⟩
  · rename_i hwire
    obtain ⟨rfl, rfl⟩ := Prod.mk.inj (Except.ok.inj hread)
    rw [eq_key .endGroup hwire] at hk
    exact ⟨k, .endGroup hk, rfl⟩
  · cases hread

/-- What is written is read, whatever follows. -/
theorem readEvent_of_written {bs : Octets} {e : Event} (h : Written bs e) :
    readEvent length (bs ++ rest) = .ok (e, rest) := by
  cases h with
  | @varint k v field n hk hv =>
    rw [readEvent, List.append_assoc, getVarint_iff.mpr ⟨k, hk, rfl⟩]
    simp only [bind, Except.bind, key_and, key_shift, Wire.num]
    rw [getVarint_iff.mpr ⟨v, hv, rfl⟩]
    rfl
  | @fixed64 k buf field hk hbuf =>
    rw [readEvent, List.append_assoc, getVarint_iff.mpr ⟨k, hk, rfl⟩]
    simp only [bind, Except.bind, key_and, key_shift, Wire.num]
    rw [consume_iff.mpr ⟨hbuf, rfl⟩]
    rfl
  | @lengthDelimited k l buf field hk hl =>
    rw [readEvent, List.append_assoc, getVarint_iff.mpr ⟨k, hk, rfl⟩]
    simp only [bind, Except.bind, key_and, key_shift, Wire.num, List.append_assoc]
    rw [getVarint_iff.mpr ⟨l, hl, rfl⟩]
    simp only
    rw [consume_iff.mpr ⟨rfl, rfl⟩]
    rfl
  | startGroup hk =>
    rw [readEvent, getVarint_iff.mpr ⟨bs, hk, rfl⟩]
    simp only [bind, Except.bind, key_and, key_shift, Wire.num]
    rfl
  | endGroup hk =>
    rw [readEvent, getVarint_iff.mpr ⟨bs, hk, rfl⟩]
    simp only [bind, Except.bind, key_and, key_shift, Wire.num]
    rfl
  | @fixed32 k buf field hk hbuf =>
    rw [readEvent, List.append_assoc, getVarint_iff.mpr ⟨k, hk, rfl⟩]
    simp only [bind, Except.bind, key_and, key_shift, Wire.num]
    rw [consume_iff.mpr ⟨hbuf, rfl⟩]
    rfl

/-- **A turn of the decoder reads exactly the event that stands in front.** -/
theorem readEvent_iff {e : Event} : readEvent length data = .ok (e, rest) ↔
    ∃ bs, Written bs e ∧ data = bs ++ rest := by
  refine ⟨written_of_readEvent, fun h => ?_⟩
  obtain ⟨bs, hbs, rfl⟩ := h
  exact readEvent_of_written hbs

end Reading

/-! ### Streams -/

theorem IsVarint.length_pos {bs : Octets} {n : Nat} (h : IsVarint bs n) : 0 < bs.length :=
  (Varint.length_take h.1).1

theorem Written.length_pos {bs : Octets} {e : Event} (h : Written bs e) : 0 < bs.length := by
  cases h with
  | varint hk | fixed64 hk | lengthDelimited hk | fixed32 hk =>
    rw [List.length_append]
    exact Nat.add_pos_left hk.length_pos _
  | startGroup hk | endGroup hk => exact hk.length_pos

theorem Stream.nil_iff {es : List Event} : Stream [] es ↔ es = [] := by
  constructor
  · intro h
    generalize hdata : ([] : Octets) = data at h
    cases h with
    | nil => rfl
    | cons he hes =>
      obtain ⟨rfl, -⟩ := List.append_eq_nil_iff.mp hdata.symm
      exact absurd he.length_pos (by decide)
  · intro h
    subst h
    exact .nil

/-- What a stream begins with is read, and a stream follows. -/
theorem Stream.readEvent (length : Nat) {data : Octets} {es : List Event} (h : Stream data es)
    (hne : data ≠ []) : ∃ e rest es', es = e :: es' ∧
      Protobuf.readEvent length data = .ok (e, rest) ∧ Stream rest es' := by
  cases h with
  | nil => exact absurd rfl hne
  | cons he hes => exact ⟨_, _, _, rfl, readEvent_of_written he, hes⟩

theorem Stream.single {bs : Octets} {e : Event} (h : Written bs e) : Stream bs [e] := by
  rw [← List.append_nil bs]
  exact .cons h .nil

theorem nesting_cons (e : Event) (es : List Event) :
    nesting (e :: es) = e.nesting + nesting es := by
  simp [nesting]

theorem nesting_append (es es' : List Event) : nesting (es ++ es') = nesting es + nesting es' := by
  simp [nesting]

/-- At the end no group is left. -/
theorem decodeFrom_nil {length turns : Nat} {groupDepth : ℤ} {es : List Event} :
    decodeFrom length turns [] groupDepth = .ok es ↔ Stream [] es ∧ groupDepth + nesting es = 0 := by
  have hloop : decodeFrom length turns [] groupDepth =
      if groupDepth ≠ 0 then .error .stillInGroup else .ok [] := by
    cases turns <;> rfl
  rw [hloop, Stream.nil_iff]
  by_cases hdepth : groupDepth = 0
  · rw [if_neg (not_not.mpr hdepth)]
    constructor
    · intro h
      obtain rfl := Except.ok.inj h
      exact ⟨rfl, by simpa [nesting] using hdepth⟩
    · intro h
      rw [h.1]
  · rw [if_pos hdepth]
    refine iff_of_false nofun ?_
    intro h
    obtain ⟨rfl, hzero⟩ := h
    exact hdepth (by simpa [nesting] using hzero)

theorem decodeFrom_iff {length turns : Nat} {data : Octets} {groupDepth : ℤ} {es : List Event}
    (h : data.length ≤ turns) : decodeFrom length turns data groupDepth = .ok es ↔
      Stream data es ∧ groupDepth + nesting es = 0 := by
  induction turns generalizing data groupDepth es with
  | zero =>
    obtain rfl := List.eq_nil_of_length_eq_zero (Nat.le_zero.mp h)
    exact decodeFrom_nil
  | succ turns ih =>
    cases data with
    | nil =>
      exact decodeFrom_nil
    | cons b data =>
      rw [decodeFrom, bind_eq_ok]
      constructor
      · intro hread
        obtain ⟨⟨e, rest⟩, hevent, hmore⟩ := hread
        obtain ⟨es', hrest, hdone⟩ := bind_eq_ok.mp hmore
        obtain rfl := Except.ok.inj hdone
        obtain ⟨bs, hbs, hdata⟩ := readEvent_iff.mp hevent
        have hlen := congrArg List.length hdata
        have hpos := hbs.length_pos
        simp only [List.length_cons, List.length_append] at h hlen
        obtain ⟨hstream, hdepth⟩ := (ih (by omega)).mp hrest
        rw [hdata, nesting_cons]
        exact ⟨.cons hbs hstream, by omega⟩
      · intro hread
        obtain ⟨hstream, hdepth⟩ := hread
        obtain ⟨e, rest, es', rfl, hevent, hrest⟩ :=
          hstream.readEvent length (List.cons_ne_nil b data)
        obtain ⟨bs, hbs, hdata⟩ := readEvent_iff.mp hevent
        have hlen := congrArg List.length hdata
        have hpos := hbs.length_pos
        simp only [List.length_cons, List.length_append] at h hlen
        rw [nesting_cons, ← add_assoc] at hdepth
        have hmore : decodeFrom length turns rest (groupDepth + e.nesting) = .ok es' :=
          (ih (by omega)).mpr ⟨hrest, hdepth⟩
        exact ⟨(e, rest), hevent, bind_eq_ok.mpr ⟨es', hmore, rfl⟩⟩

/-- **The decoder accepts exactly the streams of events in which as many groups begin as end**,
and makes of them these events. -/
theorem decode_iff (data : Octets) (es : List Event) :
    decode data = .ok es ↔ Stream data es ∧ nesting es = 0 := by
  rw [decode, decodeFrom_iff (Nat.le_refl _), zero_add]

/-! ### What is encoded -/

/-- The event has room on the wire. -/
def Event.Fits : Event → Prop
  | varint field value => field < 2 ^ 61 ∧ value < 2 ^ 64
  | fixed64 field value => field < 2 ^ 61 ∧ value.length = 8
  | lengthDelimited field value => field < 2 ^ 61 ∧ value.length < 2 ^ 64
  | startGroup field => field < 2 ^ 61
  | endGroup field => field < 2 ^ 61
  | fixed32 field value => field < 2 ^ 61 ∧ value.length = 4

def Event.fieldnum : Event → Nat
  | varint field _ | fixed64 field _ | lengthDelimited field _ | startGroup field | endGroup field
  | fixed32 field _ => field

theorem Event.Fits.fieldnum_lt {e : Event} (h : e.Fits) : e.fieldnum < 2 ^ 61 := by
  cases e with
  | varint field value | fixed64 field value | lengthDelimited field value
  | fixed32 field value => exact h.1
  | startGroup field | endGroup field => exact h

theorem isVarint_write {n : Nat} (h : n < 2 ^ 64) : IsVarint (Varint.write n) n := by
  have hlen : (Varint.write n).length ≤ 9 + 1 := (Varint.length_write_le_iff 9 n).mpr (by omega)
  have htake := Varint.take_write hlen []
  rw [List.append_nil] at htake
  exact ⟨htake, by rw [Varint.value_write, Nat.mod_eq_of_lt h]⟩

theorem IsVarint.lt {bs : Octets} {n : Nat} (h : IsVarint bs n) : n < 2 ^ 64 := by
  rw [h.2]
  exact Nat.mod_lt _ (by decide)

theorem IsVarint.length_write_le {bs : Octets} {n : Nat} (h : IsVarint bs n) :
    (Varint.write n).length ≤ bs.length := by
  have hle : n ≤ Varint.value bs := by
    rw [h.2]
    exact Nat.mod_le _ _
  exact (Varint.length_write_mono hle).trans
    (Varint.length_write_value_le (List.ne_nil_of_length_pos h.length_pos))

theorem lt_of_key_lt {field : Nat} {wire : Wire} (h : key field wire < 2 ^ 64) : field < 2 ^ 61 := by
  unfold key at h
  omega

theorem Written.fits {bs : Octets} {e : Event} (h : Written bs e) : e.Fits := by
  cases h with
  | varint hk hv => exact ⟨lt_of_key_lt hk.lt, hv.lt⟩
  | fixed64 hk hbuf | fixed32 hk hbuf => exact ⟨lt_of_key_lt hk.lt, hbuf⟩
  | lengthDelimited hk hl => exact ⟨lt_of_key_lt hk.lt, hl.lt⟩
  | startGroup hk | endGroup hk => exact lt_of_key_lt hk.lt

/-- What the encoder writes of an event. -/
def Event.bytes : Event → Octets
  | varint field value => Varint.write (key field .varint) ++ Varint.write value
  | fixed64 field value => Varint.write (key field .fixed64) ++ value
  | lengthDelimited field value =>
    Varint.write (key field .lengthDelimited) ++ (Varint.write value.length ++ value)
  | startGroup field => Varint.write (key field .startGroup)
  | endGroup field => Varint.write (key field .endGroup)
  | fixed32 field value => Varint.write (key field .fixed32) ++ value

theorem encodeWire_eq {e : Event} (h : e.Fits) : encodeWire e = .ok e.bytes := by
  cases e with
  | varint field value =>
    rw [encodeWire, encodeWireVarint, encodeFieldAndWireType_eq h.1, encodeVarint_natCast h.2]
    rfl
  | fixed64 field value =>
    rw [encodeWire, if_neg (not_not.mpr h.2), encodeFieldAndWireType_eq h.1]
    rfl
  | lengthDelimited field value =>
    rw [encodeWire, encodeLengthDelimited, encodeFieldAndWireType_eq h.1, encodeVarint_natCast h.2]
    rfl
  | startGroup field => exact encodeFieldAndWireType_eq h .startGroup
  | endGroup field => exact encodeFieldAndWireType_eq h .endGroup
  | fixed32 field value =>
    rw [encodeWire, if_neg (not_not.mpr h.2), encodeFieldAndWireType_eq h.1]
    rfl

theorem Event.Fits.written {e : Event} (h : e.Fits) : Written e.bytes e := by
  have hkey {field : Nat} (hfield : field < 2 ^ 61) (wire : Wire) :=
    isVarint_write (key_lt hfield wire)
  cases e with
  | varint field value => exact .varint (hkey h.1 _) (isVarint_write h.2)
  | fixed64 field value => exact .fixed64 (hkey h.1 _) h.2
  | lengthDelimited field value => exact .lengthDelimited (hkey h.1 _) (isVarint_write h.2)
  | startGroup field => exact .startGroup (hkey h _)
  | endGroup field => exact .endGroup (hkey h _)
  | fixed32 field value => exact .fixed32 (hkey h.1 _) h.2

/-- Nothing shorter stands for the event. -/
theorem Written.length_bytes_le {bs : Octets} {e : Event} (h : Written bs e) :
    e.bytes.length ≤ bs.length := by
  cases h with
  | varint hk hv =>
    simp only [Event.bytes, List.length_append]
    exact Nat.add_le_add hk.length_write_le hv.length_write_le
  | fixed64 hk hbuf | fixed32 hk hbuf =>
    simp only [Event.bytes, List.length_append]
    exact Nat.add_le_add_right hk.length_write_le _
  | lengthDelimited hk hl =>
    simp only [Event.bytes, List.length_append]
    exact Nat.add_le_add hk.length_write_le (Nat.add_le_add_right hl.length_write_le _)
  | startGroup hk | endGroup hk => exact hk.length_write_le

theorem Stream.fits {data : Octets} {es : List Event} (h : Stream data es) : ∀ e ∈ es, e.Fits := by
  induction h with
  | nil => nofun
  | cons he hes ih => exact List.forall_mem_cons.mpr ⟨he.fits, ih⟩

theorem encodeEvents_eq {es : List Event} (h : ∀ e ∈ es, e.Fits) :
    encodeEvents es = .ok (es.flatMap Event.bytes) := by
  induction es with
  | nil => rfl
  | cons e es ih =>
    obtain ⟨he, hes⟩ := List.forall_mem_cons.mp h
    rw [encodeEvents, encodeWire_eq he, ih hes]
    rfl

theorem stream_bytes {es : List Event} (h : ∀ e ∈ es, e.Fits) : Stream (es.flatMap Event.bytes) es := by
  induction es with
  | nil => exact .nil
  | cons e es ih =>
    obtain ⟨he, hes⟩ := List.forall_mem_cons.mp h
    exact .cons he.written (ih hes)

theorem Stream.length_bytes_le {data : Octets} {es : List Event} (h : Stream data es) :
    (es.flatMap Event.bytes).length ≤ data.length := by
  induction h with
  | nil => exact Nat.le_refl 0
  | cons he hes ih =>
    rw [List.flatMap_cons, List.length_append, List.length_append]
    exact Nat.add_le_add he.length_bytes_le ih

/-- **What is encoded is decoded again, and is the shortest message for its events**, exactly of
events that have room on the wire, as many groups begun as ended. -/
theorem decode_encodeEvents_iff (es : List Event) :
    (∃ data, encodeEvents es = .ok data ∧ decode data = .ok es ∧
      ∀ data', decode data' = .ok es → data.length ≤ data'.length) ↔
        (∀ e ∈ es, e.Fits) ∧ nesting es = 0 := by
  constructor
  · intro h
    obtain ⟨data, -, hdata, -⟩ := h
    obtain ⟨hstream, hnesting⟩ := (decode_iff data es).mp hdata
    exact ⟨hstream.fits, hnesting⟩
  · intro h
    obtain ⟨hfits, hnesting⟩ := h
    refine ⟨_, encodeEvents_eq hfits, ?_, fun data' hdata' => ?_⟩
    · exact (decode_iff _ _).mpr ⟨stream_bytes hfits, hnesting⟩
    · exact ((decode_iff _ _).mp hdata').1.length_bytes_le

/-! ### Cuts and joins -/

theorem Stream.append {data data' : Octets} {es es' : List Event} (h : Stream data es)
    (h' : Stream data' es') : Stream (data ++ data') (es ++ es') := by
  induction h with
  | nil => exact h'
  | cons he hes ih =>
    rw [List.append_assoc, List.cons_append]
    exact .cons he ih

/-- What follows a stream is a stream of what is left of the events. -/
theorem Stream.of_append {data data' : Octets} {es es' : List Event} (h : Stream data es)
    (h' : Stream (data ++ data') es') : ∃ es'', es' = es ++ es'' ∧ Stream data' es'' := by
  induction h generalizing es' with
  | nil => exact ⟨es', rfl, h'⟩
  | @cons bs rest e es he hes ih =>
    have hne : bs ++ rest ++ data' ≠ [] := by
      rw [List.append_assoc]
      exact List.append_ne_nil_of_left_ne_nil (List.ne_nil_of_length_pos he.length_pos) _
    obtain ⟨e', rest', es₁, rfl, hread, hrest⟩ := h'.readEvent 0 hne
    rw [List.append_assoc, readEvent_of_written he] at hread
    obtain ⟨rfl, rfl⟩ := Prod.mk.inj (Except.ok.inj hread)
    obtain ⟨es'', rfl, hstream⟩ := ih hrest
    exact ⟨es'', rfl, hstream⟩

/-- **Of a message a prefix is accepted exactly when it is cut between events and outside of
groups.** -/
theorem decode_prefix_iff {data data' : Octets} {es : List Event}
    (h : decode (data ++ data') = .ok es) :
    (∃ es₁, decode data = .ok es₁) ↔
      ∃ es₁ es₂, es = es₁ ++ es₂ ∧ Stream data es₁ ∧ Stream data' es₂ ∧ nesting es₁ = 0 := by
  obtain ⟨hstream, -⟩ := (decode_iff _ _).mp h
  constructor
  · intro hprefix
    obtain ⟨es₁, hes₁⟩ := hprefix
    obtain ⟨hstream₁, hnesting⟩ := (decode_iff _ _).mp hes₁
    obtain ⟨es₂, rfl, hstream₂⟩ := hstream₁.of_append hstream
    exact ⟨es₁, es₂, rfl, hstream₁, hstream₂, hnesting⟩
  · intro hcut
    obtain ⟨es₁, es₂, -, hstream₁, -, hnesting⟩ := hcut
    exact ⟨es₁, (decode_iff _ _).mpr ⟨hstream₁, hnesting⟩⟩

/-- **Behind a message the decoder starts anew.** Whatever follows one that is accepted, the
whole is accepted exactly when what follows is, and its events are those of the one and
then those of the other. -/
theorem decode_append (data data' : Octets) (es es' : List Event) (h : decode data = .ok es) :
    decode (data ++ data') = .ok es' ↔ ∃ es'', es' = es ++ es'' ∧ decode data' = .ok es'' := by
  obtain ⟨hstream, hnesting⟩ := (decode_iff data es).mp h
  constructor
  · intro h'
    obtain ⟨hstream', hnesting'⟩ := (decode_iff _ _).mp h'
    obtain ⟨es'', rfl, hrest⟩ := hstream.of_append hstream'
    rw [nesting_append, hnesting, zero_add] at hnesting'
    exact ⟨es'', rfl, (decode_iff _ _).mpr ⟨hrest, hnesting'⟩⟩
  · intro h'
    obtain ⟨es'', rfl, hrest⟩ := h'
    obtain ⟨hstream', hnesting'⟩ := (decode_iff _ _).mp hrest
    exact (decode_iff _ _).mpr ⟨hstream.append hstream',
      by rw [nesting_append, hnesting, hnesting', add_zero]⟩

/-- A field 1 with 1 in it, then one that is cut off. -/
theorem decode_append_cut : decode ([0x08, 0x01] ++ [0x12]) = .ok [.varint 1 1] ↔
    ∃ es'', [Event.varint 1 1] = [.varint 1 1] ++ es'' ∧ decode [0x12] = .ok es'' :=
  decode_append [0x08, 0x01] [0x12] [.varint 1 1] [.varint 1 1] (by decide)

end VleoNotebook.Protobuf
