import Mathlib.Data.List.Nodup
import Mathlib.Logic.Function.Basic
import VleoNotebook.Protobuf.Scalars

/-! Messages of a schema whose fields are integers, bytes, messages and groups.

A message goes out field by field, in the order of their numbers, with what it does not
know behind them, and comes in event by event. Messages in it go out in a string of their
own or as a group, and those of a group are read from the same row of events as what is
around it. -/
namespace VleoNotebook.Protobuf

/-! ### Schemas and messages -/

/-- 1, 2 and 3 in `label` -/
inductive Label where
  | optional
  | required
  | repeated
deriving DecidableEq, Repr

/-- The types of fields, without `STRING`, `FLOAT` and `DOUBLE`. Messages are of a class. -/
inductive FieldType (C : Type) where
  | int (type : IntType)
  | bytes
  | message (c : C)
  | group (c : C)
deriving DecidableEq

structure FieldDescriptor (C : Type) where
  number : Nat
  name : String
  label : Label
  type : FieldType C

mutual

inductive Value where
  | int (v : ℤ)
  | bytes (bs : Octets)
  | message (m : Object)

/-- The values of each field, by its number, and `_protobuf_extra_fields`. -/
inductive Object where
  | mk (slots : Nat → List Value) (extra : List Event)

end

namespace Object

def slots : Object → Nat → List Value
  | mk slots _ => slots

def extra : Object → List Event
  | mk _ extra => extra

/-- A message after `clear`. -/
def empty : Object := mk (fun _ => []) []

/-- `set_value` and `push_value` -/
def store {C : Type} (m : Object) (f : FieldDescriptor C) (v : Value) : Object :=
  match f.label with
  | .repeated => mk (Function.update m.slots f.number (m.slots f.number ++ [v])) m.extra
  | _ => mk (Function.update m.slots f.number [v]) m.extra

def pushExtra (m : Object) (e : Event) : Object := mk m.slots (m.extra ++ [e])

end Object

/-- What a message dies of. -/
inductive Trouble where
  | encoder (text : String)
  | decoder (died : Died)
  | missing (name : String)
  | fieldNumber
  | groupOrValue
  | value
  /-- A value that came in an event of another kind than the type of its field has. -/
  | otherKind
  /-- A value that does not pass the constraint of its attribute. -/
  | constraint (name : String)
  /-- More messages in one another than were asked for. -/
  | deep

def Trouble.text : Trouble → String
  | encoder text => text
  | decoder died => died.text
  | missing name => "Missing required field '" ++ name ++ "'\n"
  | fieldNumber => "assert: expected field number."
  | groupOrValue => "internal assert: expected a group or value from parse stream."
  | value => "internal assert: expected value in non-aggregate"
  | otherKind => ""
  | constraint name => "Attribute (" ++ name ++ ") does not pass the type constraint"
  | deep => ""

variable {C : Type} (schema : C → List (FieldDescriptor C))

/-- `attribute_by_number`. Of two fields with one number the later counts. -/
def attributeByNumber (c : C) (number : Nat) : Option (FieldDescriptor C) :=
  (schema c).reverse.find? (·.number = number)

/-- `protobuf_attributes` -/
def protobufAttributes (c : C) : List (FieldDescriptor C) :=
  (schema c).mergeSort fun f g => f.number ≤ g.number

/-! ### Going out -/

/-- Deaths of the encoder. -/
def encoded {α : Type} (result : Except String α) : Except Trouble α := result.mapError .encoder

/-- `encode_field`, of a value of the field. -/
def encodeFieldValue (serialize : C → Object → Except Trouble Octets) (f : FieldDescriptor C) :
    Value → Except Trouble Octets
  | .int v =>
    match f.type with
    | .int type => encoded (encodeField type f.number v)
    | _ => .error .otherKind
  | .bytes bs =>
    match f.type with
    | .bytes => encoded (encodeWire (.lengthDelimited f.number bs))
    | _ => .error .otherKind
  | .message m =>
    match f.type with
    | .message c => do encoded (encodeWire (.lengthDelimited f.number (← serialize c m)))
    | .group c => do
      return (← encoded (encodeWire (.startGroup f.number))) ++ (← serialize c m) ++
        (← encoded (encodeWire (.endGroup f.number)))
    | _ => .error .otherKind

/-- The bytes of all of these, one behind the other. -/
def concat {α : Type} (write : α → Except Trouble Octets) : List α → Except Trouble Octets
  | [] => .ok []
  | x :: xs => do return (← write x) ++ (← concat write xs)

/-- `protobuf_emit` of an attribute -/
def protobufEmit (serialize : C → Object → Except Trouble Octets) (m : Object)
    (f : FieldDescriptor C) : Except Trouble Octets :=
  if f.label = .required ∧ (m.slots f.number).isEmpty then .error (.missing f.name)
  else concat (encodeFieldValue serialize f) (m.slots f.number)

/-- `encode_wire`, of what was read as an event. One without a value has no `wire_format`, which
makes it a number, and is the number 0. -/
def encodeExtra : Event → Except Trouble Octets
  | .startGroup field | .endGroup field => encoded (encodeWireVarint field 0)
  | e => encoded (encodeWire e)

/-- `serialize_to_string`, of a message with others in it down to this depth. -/
def serializeToString : (depth : Nat) → C → Object → Except Trouble Octets
  | 0, _, _ => .error .deep
  | depth + 1, c, m => do
    return (← concat (protobufEmit (serializeToString depth) m) (protobufAttributes schema c)) ++
      (← concat encodeExtra m.extra)

/-! ### Coming in -/

/-- `next` of `Protobuf::Decoder::EventIterator`, of an event that is there: the group depth
behind it, or none if the iterator is done with it. -/
def next : (groupDepth : Option ℤ) → Event → Option (Option ℤ)
  | none, _ => some none
  | some groupDepth, .startGroup _ => some (some (groupDepth + 1))
  | some groupDepth, .endGroup _ =>
    if groupDepth - 1 = 0 then none else some (some (groupDepth - 1))
  | some groupDepth, _ => some (some groupDepth)

/-- A way to merge messages of any class, from events at a group depth. -/
abbrev Merging (C : Type) := C → List Event → Option ℤ → Except Trouble (Object × List Event)

/-- The message in an event, and what is left of the events: those of a group are merged up to its
end. An event of a number ends here; the program takes its value for a string of events. -/
def readAggregate (merge : Merging C) (c : C) (e : Event) (es : List Event) :
    Except Trouble (Value × List Event) :=
  match e with
  | .startGroup _ => do
    let (m, es) ← merge c es (some 1)
    return (.message m, es)
  | .lengthDelimited _ bs => do
    let (m, _) ← merge c (← (decode bs).mapError .decoder) none
    return (.message m, es)
  | .endGroup _ => .error .groupOrValue
  | _ => .error .otherKind

/-- The value in an event that is no message. An event of another kind than that of the type ends
here; the program makes of its value what it can. -/
def readScalar (type : FieldType C) (e : Event) : Except Trouble Value :=
  match e, type with
  | .startGroup _, _ | .endGroup _, _ => .error .value
  | e, .int type =>
    match decodeValue type e with
    | some v => .ok (.int v)
    | none => .error .otherKind
  | .lengthDelimited _ bs, .bytes => .ok (.bytes bs)
  | _, _ => .error .otherKind

/-- `message_type` of a field that `is_aggregate` -/
def FieldType.messageType : FieldType C → Option C
  | message c | group c => some c
  | _ => none

/-- The value of a field in an event, and what is left of the events. -/
def readValue (merge : Merging C) (f : FieldDescriptor C) (e : Event) (es : List Event) :
    Except Trouble (Value × List Event) :=
  match f.type.messageType with
  | some c => readAggregate merge c e es
  | none => do return (← readScalar f.type e, es)

/-- The constraint of a scalar attribute. What is pushed to another is not checked. -/
def passes (f : FieldDescriptor C) (v : Value) : Bool :=
  match f.label, f.type, v with
  | .repeated, _, _ => true
  | _, .int .bool, .int v => v = 0 ∨ v = 1
  | _, _, _ => true

/-- `_merge_from_decode_iterator`, of an iterator over these events at this depth. What is left
are the events the iterator leaves to those it came from. -/
def merge : (turns : Nat) → C → Object → List Event → (groupDepth : Option ℤ) →
    Except Trouble (Object × List Event)
  | _, _, m, [], _ => .ok (m, [])
  | 0, _, _, _ :: _, _ => .error .deep
  | turns + 1, c, m, e :: es, groupDepth =>
    match next groupDepth e with
    | none => .ok (m, es)
    | some groupDepth =>
      if e.fieldnum = 0 then .error .fieldNumber
      else
        match attributeByNumber schema c e.fieldnum with
        | none => merge turns c (m.pushExtra e) es groupDepth
        | some f => do
          let (v, es) ← readValue (fun c => merge turns c .empty) f e es
          if passes f v then merge turns c (m.store f v) es groupDepth
          else .error (.constraint f.name)

/-- `merge_from_string` -/
def mergeFromString (c : C) (m : Object) (bs : Octets) : Except Trouble Object := do
  let (m, _) ← merge schema bs.length c m (← (decode bs).mapError .decoder) none
  return m

/-- `parse_from_string`, whatever the message was before. -/
def parseFromString (c : C) (bs : Octets) : Except Trouble Object :=
  mergeFromString schema c .empty bs

/-! ### Turns -/

/-- How many events there are, with those that can be in a string of their own. -/
def Event.weight : Event → Nat
  | lengthDelimited _ bs => 1 + bs.length
  | _ => 1

def weight (es : List Event) : Nat := (es.map Event.weight).sum

@[simp] theorem weight_nil : weight [] = 0 := rfl

@[simp] theorem weight_cons (e : Event) (es : List Event) :
    weight (e :: es) = e.weight + weight es := by
  simp [weight]

@[simp] theorem weight_append (es es' : List Event) : weight (es ++ es') = weight es + weight es' := by
  simp [weight]

theorem Event.weight_pos (e : Event) : 0 < e.weight := by
  cases e <;> simp [Event.weight]

theorem Written.weight_le {bs : Octets} {e : Event} (h : Written bs e) : e.weight ≤ bs.length := by
  have hpos := h.length_pos
  cases h with
  | lengthDelimited hk hl =>
    have hkey := hk.length_pos
    simp only [Event.weight, List.length_append]
    omega
  | _ => exact hpos

theorem Stream.weight_le {data : Octets} {es : List Event} (h : Stream data es) :
    weight es ≤ data.length := by
  induction h with
  | nil => exact Nat.le_refl 0
  | cons he hes ih =>
    rw [weight_cons, List.length_append]
    exact Nat.add_le_add he.weight_le ih

theorem weight_le_of_decode {data : Octets} {es : List Event} (h : decode data = .ok es) :
    weight es ≤ data.length :=
  ((decode_iff data es).mp h).1.weight_le

theorem weight_le_of_suffix {es es' : List Event} (h : es' <:+ es) : weight es' ≤ weight es := by
  obtain ⟨front, rfl⟩ := h
  rw [weight_append]
  exact Nat.le_add_left _ _

section Merging
variable {schema} {M M' : Merging C} {f : FieldDescriptor C} {e : Event} {es es' : List Event}

theorem readValue_aggregate {c : C} (h : f.type.messageType = some c) :
    readValue M f e es = readAggregate M c e es := by
  simp only [readValue, h]

theorem readValue_scalar (h : f.type.messageType = none) {v : Value}
    (hread : readScalar f.type e = .ok v) : readValue M f e es = .ok (v, es) := by
  simp only [readValue, h, hread]
  rfl

theorem readValue_suffix (hM : ∀ c es groupDepth m es', M c es groupDepth = .ok (m, es') → es' <:+ es)
    {v : Value} (h : readValue M f e es = .ok (v, es')) : es' <:+ es := by
  unfold readValue at h
  cases htype : f.type.messageType with
  | none =>
    rw [htype] at h
    obtain ⟨v', -, hdone⟩ := bind_eq_ok.mp h
    obtain ⟨-, rfl⟩ := Prod.mk.inj (Except.ok.inj hdone)
    exact List.suffix_rfl
  | some c =>
    rw [htype] at h
    cases e with
    | startGroup field =>
      obtain ⟨⟨m, rest⟩, hmerge, hdone⟩ := bind_eq_ok.mp h
      obtain ⟨-, rfl⟩ := Prod.mk.inj (Except.ok.inj hdone)
      exact hM _ _ _ _ _ hmerge
    | lengthDelimited field bs =>
      obtain ⟨evs, -, hmore⟩ := bind_eq_ok.mp h
      obtain ⟨⟨m, rest⟩, -, hdone⟩ := bind_eq_ok.mp hmore
      obtain ⟨-, rfl⟩ := Prod.mk.inj (Except.ok.inj hdone)
      exact List.suffix_rfl
    | varint field value => cases h
    | fixed64 field value => cases h
    | endGroup field => cases h
    | fixed32 field value => cases h

/-- Messages in a value are merged from lighter events. -/
theorem readValue_congr (hM : ∀ c evs groupDepth, weight evs + 1 ≤ weight (e :: es) →
    M c evs groupDepth = M' c evs groupDepth) : readValue M f e es = readValue M' f e es := by
  unfold readValue
  cases f.type.messageType with
  | none => rfl
  | some c =>
    cases e with
    | startGroup field =>
      have hone : (Event.startGroup field).weight = 1 := rfl
      simp only [readAggregate]
      rw [hM c es _ (by rw [weight_cons]; omega)]
    | lengthDelimited field bs =>
      have hlen : (Event.lengthDelimited field bs).weight = 1 + bs.length := rfl
      cases hdecode : decode bs with
      | error died =>
        simp only [readAggregate, hdecode]
        rfl
      | ok evs =>
        have hweight := weight_le_of_decode hdecode
        simp only [readAggregate, hdecode, Except.mapError, bind, Except.bind]
        rw [hM c evs _ (by rw [weight_cons]; omega)]
    | varint field value => rfl
    | fixed64 field value => rfl
    | endGroup field => rfl
    | fixed32 field value => rfl

/-- What is left is left of what was there. -/
theorem merge_suffix {turns : Nat} {c : C} {m m' : Object} {groupDepth : Option ℤ}
    (h : merge schema turns c m es groupDepth = .ok (m', es')) : es' <:+ es := by
  induction turns generalizing c m es groupDepth m' es' with
  | zero =>
    cases es with
    | nil =>
      obtain ⟨-, rfl⟩ := Prod.mk.inj (Except.ok.inj h)
      exact List.suffix_rfl
    | cons e es => cases h
  | succ turns ih =>
    cases es with
    | nil =>
      obtain ⟨-, rfl⟩ := Prod.mk.inj (Except.ok.inj h)
      exact List.suffix_rfl
    | cons e es =>
      rw [merge] at h
      split at h
      · obtain ⟨-, rfl⟩ := Prod.mk.inj (Except.ok.inj h)
        exact List.suffix_cons e _
      · split at h
        · cases h
        · split at h
          · exact (ih h).trans (List.suffix_cons e es)
          · obtain ⟨⟨v, rest⟩, hread, hmore⟩ := bind_eq_ok.mp h
            have hrest : rest <:+ es := readValue_suffix (fun c es groupDepth m es' => ih) hread
            simp only at hmore
            split at hmore
            · exact ((ih hmore).trans hrest).trans (List.suffix_cons e es)
            · cases hmore

/-- **Enough turns are enough**: more of them change nothing. -/
theorem merge_turns {turns turns' : Nat} (c : C) (m : Object) {es : List Event}
    (groupDepth : Option ℤ) (h : weight es ≤ turns) (h' : weight es ≤ turns') :
    merge schema turns c m es groupDepth = merge schema turns' c m es groupDepth := by
  induction turns generalizing turns' c m es groupDepth with
  | zero =>
    cases es with
    | nil => cases turns' <;> rfl
    | cons e es =>
      have hpos := e.weight_pos
      rw [weight_cons] at h
      omega
  | succ turns ih =>
    cases es with
    | nil => cases turns' <;> rfl
    | cons e es =>
      have hpos := e.weight_pos
      have hcons := weight_cons e es
      obtain ⟨turns', rfl⟩ := Nat.exists_eq_add_one.mpr (show 0 < turns' by omega)
      have hread (f : FieldDescriptor C) :
          readValue (fun c => merge schema turns c .empty) f e es =
            readValue (fun c => merge schema turns' c .empty) f e es :=
        readValue_congr fun c evs groupDepth hevs => ih c _ groupDepth (by omega) (by omega)
      rw [merge, merge]
      cases next groupDepth e with
      | none => rfl
      | some groupDepth =>
        simp only
        split
        · rfl
        · cases attributeByNumber schema c e.fieldnum with
          | none => exact ih c _ groupDepth (by omega) (by omega)
          | some f =>
            simp only [hread f]
            cases hvalue : readValue (fun c => merge schema turns' c .empty) f e es with
            | error trouble => rfl
            | ok read =>
              obtain ⟨v, rest⟩ := read
              have hrest : rest <:+ es :=
                readValue_suffix (fun c es groupDepth m es' => merge_suffix) hvalue
              have hweight := weight_le_of_suffix hrest
              simp only [bind, Except.bind]
              split
              · exact ih c _ groupDepth (by omega) (by omega)
              · rfl

theorem bind_ne_deep {α β : Type} {x : Except Trouble α} {k : α → Except Trouble β}
    (hx : x ≠ .error .deep) (hk : ∀ a, x = .ok a → k a ≠ .error .deep) :
    x >>= k ≠ .error .deep := by
  cases x with
  | error trouble => exact fun h => hx (congrArg Except.error (Except.error.inj h))
  | ok a => exact hk a rfl

theorem decoded_ne_deep (bs : Octets) : (decode bs).mapError Trouble.decoder ≠ .error .deep := by
  cases decode bs <;> nofun

theorem decoded_ok {bs : Octets} (h : (decode bs).mapError Trouble.decoder = .ok es) :
    decode bs = .ok es := by
  cases hread : decode bs with
  | error died =>
    rw [hread] at h
    cases h
  | ok es' =>
    rw [hread] at h
    exact congrArg Except.ok (Except.ok.inj h)

theorem readValue_ne_deep (hM : ∀ c evs groupDepth, weight evs + 1 ≤ weight (e :: es) →
    M c evs groupDepth ≠ .error .deep) : readValue M f e es ≠ .error .deep := by
  cases htype : f.type.messageType with
  | none =>
    have hscalar : readScalar f.type e ≠ .error .deep := by
      unfold readScalar
      split
      · nofun
      · nofun
      · split <;> nofun
      · nofun
      · nofun
    simp only [readValue, htype]
    exact bind_ne_deep hscalar fun _ _ => nofun
  | some c =>
    rw [readValue_aggregate htype]
    cases e with
    | startGroup field =>
      have hone : (Event.startGroup field).weight = 1 := rfl
      refine bind_ne_deep (hM c es _ (by rw [weight_cons]; omega)) fun read _ => ?_
      cases read
      nofun
    | lengthDelimited field bs =>
      have hlen : (Event.lengthDelimited field bs).weight = 1 + bs.length := rfl
      refine bind_ne_deep (decoded_ne_deep bs) fun evs hevs => ?_
      have hweight := weight_le_of_decode (decoded_ok hevs)
      refine bind_ne_deep (hM c evs _ (by rw [weight_cons]; omega)) fun read _ => ?_
      cases read
      nofun
    | varint field value => nofun
    | fixed64 field value => nofun
    | endGroup field => nofun
    | fixed32 field value => nofun

theorem merge_ne_deep {turns : Nat} (c : C) (m : Object) {es : List Event} (groupDepth : Option ℤ)
    (h : weight es ≤ turns) : merge schema turns c m es groupDepth ≠ .error .deep := by
  induction turns generalizing c m es groupDepth with
  | zero =>
    cases es with
    | nil => nofun
    | cons e es =>
      have hpos := e.weight_pos
      rw [weight_cons] at h
      omega
  | succ turns ih =>
    cases es with
    | nil => nofun
    | cons e es =>
      have hpos := e.weight_pos
      have hcons := weight_cons e es
      rw [merge]
      cases next groupDepth e with
      | none => nofun
      | some groupDepth =>
        simp only
        split
        · nofun
        · cases attributeByNumber schema c e.fieldnum with
          | none => exact ih c _ groupDepth (by omega)
          | some f =>
            refine bind_ne_deep ?_ fun read hread => ?_
            · exact readValue_ne_deep fun c evs groupDepth hevs => ih c _ groupDepth (by omega)
            · obtain ⟨v, rest⟩ := read
              have hrest : rest <:+ es :=
                readValue_suffix (fun c es groupDepth m es' => merge_suffix) hread
              have hweight := weight_le_of_suffix hrest
              simp only
              split
              · exact ih c _ groupDepth (by omega)
              · nofun

/-- Merging a string never runs out of turns. -/
theorem mergeFromString_ne_deep (c : C) (m : Object) (bs : Octets) :
    mergeFromString schema c m bs ≠ .error .deep := by
  refine bind_ne_deep (decoded_ne_deep bs) fun es hes => ?_
  have hweight := weight_le_of_decode (decoded_ok hes)
  refine bind_ne_deep (merge_ne_deep c m none hweight) fun read _ => ?_
  cases read
  nofun

end Merging

end VleoNotebook.Protobuf
