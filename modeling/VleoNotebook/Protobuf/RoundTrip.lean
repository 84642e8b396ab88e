import Mathlib.Data.List.Perm.Basic
import VleoNotebook.Protobuf.Message

/-! A message that went out comes in again.

The events of a field bring its values to the message that reads them, wherever they stand
in a row of events (`Brings`), and so field by field the whole message comes in. A group
that holds a group does not: the iterator over the outer one counts the begin of the inner,
whose end another iterator takes. -/
namespace VleoNotebook.Protobuf

variable {C : Type} {schema : C → List (FieldDescriptor C)}

/-! ### What events bring -/

/-- Read in front of anything, at this group depth, the events make of the one message the
other. -/
def Brings (schema : C → List (FieldDescriptor C)) (c : C) (groupDepth : Option ℤ)
    (es : List Event) (m m' : Object) : Prop :=
  ∀ turns tail, weight (es ++ tail) ≤ turns → ∃ turns', weight tail ≤ turns' ∧
    merge schema turns c m (es ++ tail) groupDepth = merge schema turns' c m' tail groupDepth

section Brings
variable {c : C} {groupDepth : Option ℤ} {es es' : List Event} {m m' m'' : Object}

theorem Brings.nil : Brings schema c groupDepth [] m m := fun turns _ h => ⟨turns, h, rfl⟩

theorem Brings.append (h : Brings schema c groupDepth es m m')
    (h' : Brings schema c groupDepth es' m' m'') :
    Brings schema c groupDepth (es ++ es') m m'' := by
  intro turns tail hturns
  rw [List.append_assoc] at hturns ⊢
  obtain ⟨turns', hturns', heq⟩ := h turns (es' ++ tail) hturns
  obtain ⟨turns'', hturns'', heq'⟩ := h' turns' tail hturns'
  exact ⟨turns'', hturns'', heq.trans heq'⟩

/-- One event that brings a value. -/
theorem brings_value {e : Event} {f : FieldDescriptor C} {v : Value}
    (hnext : next groupDepth e = some groupDepth) (hnumber : e.fieldnum ≠ 0)
    (hattr : attributeByNumber schema c e.fieldnum = some f) (hpasses : passes f v = true)
    (hread : ∀ turns tail, weight (e :: tail) ≤ turns + 1 →
      readValue (fun c => merge schema turns c .empty) f e tail = .ok (v, tail)) :
    Brings schema c groupDepth [e] m (m.store f v) := by
  intro turns tail hturns
  have hpos := e.weight_pos
  rw [List.singleton_append] at hturns ⊢
  rw [weight_cons] at hturns
  obtain ⟨turns, rfl⟩ := Nat.exists_eq_add_one.mpr (show 0 < turns by omega)
  refine ⟨turns, by omega, ?_⟩
  simp only [merge, hnext, if_neg hnumber, hattr]
  rw [hread turns tail (by rw [weight_cons]; exact hturns)]
  simp only [bind, Except.bind, hpasses, if_true]

/-- One event of a field the class does not know. -/
theorem brings_extra {e : Event} (hnext : next groupDepth e = some groupDepth)
    (hnumber : e.fieldnum ≠ 0) (hattr : attributeByNumber schema c e.fieldnum = none) :
    Brings schema c groupDepth [e] m (m.pushExtra e) := by
  intro turns tail hturns
  have hpos := e.weight_pos
  rw [List.singleton_append] at hturns ⊢
  rw [weight_cons] at hturns
  obtain ⟨turns, rfl⟩ := Nat.exists_eq_add_one.mpr (show 0 < turns by omega)
  refine ⟨turns, by omega, ?_⟩
  simp only [merge, hnext, if_neg hnumber, hattr]

/-- A group that is brought to its end brings a value. -/
theorem brings_group {c' : C} {f : FieldDescriptor C} (htype : f.type.messageType = some c')
    (hlabel : passes f (.message m') = true) (hnumber : f.number ≠ 0)
    (hattr : attributeByNumber schema c f.number = some f)
    (h : Brings schema c' (some 1) es .empty m') :
    Brings schema c none (.startGroup f.number :: es ++ [.endGroup f.number]) m
      (m.store f (.message m')) := by
  intro turns tail hturns
  simp only [List.cons_append, List.append_assoc, List.nil_append, weight_cons] at hturns ⊢
  have hone : (Event.startGroup f.number).weight = 1 := rfl
  obtain ⟨turns, rfl⟩ := Nat.exists_eq_add_one.mpr (show 0 < turns by omega)
  obtain ⟨turns', hturns', heq⟩ := h turns (.endGroup f.number :: tail) (by omega)
  have hend : (Event.endGroup f.number).weight = 1 := rfl
  rw [weight_cons] at hturns'
  obtain ⟨turns', rfl⟩ := Nat.exists_eq_add_one.mpr (show 0 < turns' by omega)
  -- the end of the group is taken, and what is behind it is left
  have hgroup : merge schema turns c' .empty (es ++ .endGroup f.number :: tail) (some 1) =
      .ok (m', tail) := by
    rw [heq]
    simp [merge, next]
  refine ⟨turns, by simp only [weight_append, weight_cons] at hturns; omega, ?_⟩
  simp only [merge, next, Event.fieldnum, if_neg hnumber, hattr, readValue_aggregate htype,
    readAggregate, hgroup, bind, Except.bind, pure, Except.pure, hlabel, if_true]

end Brings

/-! ### What goes out and comes in -/

/-- The numbers of the fields of a class are in order. -/
structure WellFormed (schema : C → List (FieldDescriptor C)) : Prop where
  nodup : ∀ c, ((schema c).map FieldDescriptor.number).Nodup
  number : ∀ c, ∀ f ∈ schema c, f.number ≠ 0 ∧ f.number < 2 ^ 61

/-- A field is not a group, or stands where groups may. -/
def FieldType.FitsAt (type : FieldType C) (groupDepth : Option ℤ) : Prop :=
  groupDepth = none ∨ ∀ c, type ≠ .group c

/-- No field with a value is a group. -/
def NoGroups (schema : C → List (FieldDescriptor C)) (c : C) (m : Object) : Prop :=
  ∀ f ∈ schema c, m.slots f.number ≠ [] → ∀ c', f.type ≠ .group c'

/-- An event with a value, of a field that the class does not know. -/
structure Unknown (schema : C → List (FieldDescriptor C)) (c : C) (e : Event) : Prop where
  fits : e.Fits
  number : e.fieldnum ≠ 0
  unknown : ∀ f ∈ schema c, f.number ≠ e.fieldnum
  value : ∀ field, e ≠ .startGroup field ∧ e ≠ .endGroup field

/-- What a field of this type can carry, with messages that are valid. -/
def FieldType.Carries (Valid : C → Object → Prop) (serialize : C → Object → Except Trouble Octets)
    (schema : C → List (FieldDescriptor C)) (type : FieldType C) (v : Value) : Prop :=
  match type, v with
  | .int type, .int v => IsInteger v ∧ type.Holds v
  | .bytes, .bytes bs => bs.length < 2 ^ 64
  | .message c, .message m => Valid c m ∧ ∀ bs, serialize c m = .ok bs → bs.length < 2 ^ 64
  | .group c, .message m => Valid c m ∧ NoGroups schema c m
  | _, _ => False

/-- A message of the class, with others in it down to this depth and no group in a group. -/
def Valid (schema : C → List (FieldDescriptor C)) : (depth : Nat) → C → Object → Prop
  | 0, _, _ => False
  | depth + 1, c, m =>
    (∀ number, (∀ f ∈ schema c, f.number ≠ number) → m.slots number = []) ∧
    (∀ f ∈ schema c, (f.label = .required → m.slots f.number ≠ []) ∧
      (f.label ≠ .repeated → (m.slots f.number).length ≤ 1) ∧
      ∀ v ∈ m.slots f.number, passes f v = true ∧
        f.type.Carries (Valid schema depth) (serializeToString schema depth) schema v) ∧
    ∀ e ∈ m.extra, Unknown schema c e

theorem WellFormed.attributeByNumber (h : WellFormed schema) {c : C} {f : FieldDescriptor C}
    (hf : f ∈ schema c) : Protobuf.attributeByNumber schema c f.number = some f := by
  have hfind : ∃ g ∈ (schema c).reverse, g.number = f.number := ⟨f, by simpa using hf, rfl⟩
  obtain ⟨g, hg⟩ := Option.isSome_iff_exists.mp
    (List.find?_isSome.mpr (by simpa using hfind) :
      ((schema c).reverse.find? (·.number = f.number)).isSome)
  have hgmem : g ∈ schema c := by simpa using List.mem_of_find?_eq_some hg
  have hgnumber : g.number = f.number := by simpa using List.find?_some hg
  rw [Protobuf.attributeByNumber, hg, List.inj_on_of_nodup_map (h.nodup c) hgmem hf hgnumber]

theorem attributeByNumber_eq_none {c : C} {number : Nat} (h : ∀ f ∈ schema c, f.number ≠ number) :
    attributeByNumber schema c number = none := by
  simpa [attributeByNumber] using h

/-- What goes out in front of something and comes in in front of it. -/
structure Sent (schema : C → List (FieldDescriptor C)) (c : C) (At : Option ℤ → Prop)
    (data : Octets) (es : List Event) (m m' : Object) : Prop where
  stream : Stream data es
  nesting : nesting es = 0
  brings : ∀ groupDepth, At groupDepth → Brings schema c groupDepth es m m'

/-- A value that goes out and comes in. -/
def Carried (schema : C → List (FieldDescriptor C)) (c : C) (f : FieldDescriptor C) (v : Value)
    (data : Octets) (es : List Event) : Prop :=
  ∀ m, Sent schema c f.type.FitsAt data es m (m.store f v)

/-- The values of a field, and what came in for it later. -/
def FieldDescriptor.join (f : FieldDescriptor C) (old new : List Value) : List Value :=
  if f.label = .repeated then old ++ new else if new.isEmpty then old else new

/-- One message with another: what is repeated is appended, and what is not is replaced by what the
other has. -/
def Object.mergedWith (schema : C → List (FieldDescriptor C)) (c : C) (m₀ m : Object) : Object :=
  mk (fun number =>
    match Protobuf.attributeByNumber schema c number with
    | some f => f.join (m₀.slots number) (m.slots number)
    | none => m₀.slots number) (m₀.extra ++ m.extra)

/-- A message that goes out, and comes in with whatever was there. -/
def Whole (schema : C → List (FieldDescriptor C)) (c : C) (m : Object) (data : Octets)
    (es : List Event) : Prop :=
  ∀ m₀, Sent schema c (fun groupDepth => groupDepth = none ∨ NoGroups schema c m) data es m₀
    (m₀.mergedWith schema c m)

/-! ### One value -/

theorem Brings.merge_eq {c : C} {es : List Event} {m m' : Object}
    (h : Brings schema c none es m m') {turns : Nat} (hturns : weight es ≤ turns) :
    merge schema turns c m es none = .ok (m', []) := by
  rw [← List.append_nil es] at hturns ⊢
  obtain ⟨turns', -, heq⟩ := h turns [] hturns
  rw [heq]
  cases turns' <;> rfl

/-- Events without a value apart, the depth stays. -/
theorem next_of_value {e : Event} (h : ∀ field, e ≠ .startGroup field ∧ e ≠ .endGroup field)
    (groupDepth : Option ℤ) : next groupDepth e = some groupDepth := by
  cases groupDepth with
  | none => rfl
  | some groupDepth =>
    cases e with
    | startGroup field => exact absurd rfl (h field).1
    | endGroup field => exact absurd rfl (h field).2
    | _ => rfl

theorem IntType.event_value (type : IntType) (field : Nat) (v : ℤ) :
    ∀ field', type.event field v ≠ .startGroup field' ∧ type.event field v ≠ .endGroup field' := by
  intro field'
  cases type <;> exact ⟨nofun, nofun⟩

theorem next_lengthDelimited (field : Nat) (bs : Octets) (groupDepth : Option ℤ) :
    next groupDepth (.lengthDelimited field bs) = some groupDepth := by
  cases groupDepth <;> rfl

theorem readScalar_int {type : IntType} {field : Nat} {v : ℤ}
    (hv : decodeValue type (type.event field v) = some v) :
    readScalar (.int type : FieldType C) (type.event field v) = .ok (.int v) := by
  cases type <;> simp only [IntType.event, readScalar] at hv ⊢ <;> rw [hv]

section Value
variable {depth : Nat} {c : C} {f : FieldDescriptor C}

theorem carried_int (hwf : WellFormed schema) (hf : f ∈ schema c) {type : IntType} {v : ℤ}
    (htype : f.type = .int type) (hpasses : passes f (.int v) = true) (hint : IsInteger v)
    (hholds : type.Holds v) (serialize : C → Object → Except Trouble Octets) :
    ∃ data es, encodeFieldValue serialize f (.int v) = .ok data ∧
      Carried schema c f (.int v) data es := by
  obtain ⟨hzero, hlt⟩ := hwf.number c f hf
  obtain ⟨hfits, hencode⟩ := encodeField_eq type hlt hint
  have hnumber := type.fieldnum_event f.number v
  refine ⟨_, [type.event f.number v], ?_, fun m => ⟨.single hfits.written, ?_, fun groupDepth _ => ?_⟩⟩
  · simp only [encodeFieldValue, htype, hencode]
    rfl
  · rw [nesting_cons, type.nesting_event]
    rfl
  · refine brings_value (next_of_value (type.event_value _ _) groupDepth) (by rwa [hnumber])
      (by rw [hnumber, hwf.attributeByNumber hf]) hpasses fun turns tail _ => ?_
    refine readValue_scalar (by rw [htype]; rfl) ?_
    rw [htype]
    exact readScalar_int ((decodeValue_event_iff hint).mpr hholds)

theorem carried_bytes (hwf : WellFormed schema) (hf : f ∈ schema c) {bs : Octets}
    (htype : f.type = .bytes) (hlen : bs.length < 2 ^ 64)
    (serialize : C → Object → Except Trouble Octets) :
    ∃ data es, encodeFieldValue serialize f (.bytes bs) = .ok data ∧
      Carried schema c f (.bytes bs) data es := by
  obtain ⟨hzero, hlt⟩ := hwf.number c f hf
  have hfits : (Event.lengthDelimited f.number bs).Fits := ⟨hlt, hlen⟩
  refine ⟨_, [.lengthDelimited f.number bs], ?_, fun m => ⟨.single hfits.written, rfl,
    fun groupDepth _ => ?_⟩⟩
  · simp only [encodeFieldValue, htype, encodeWire_eq hfits]
    rfl
  · have hpasses : passes f (.bytes bs) = true := by
      simp only [passes, htype]
      split <;> simp_all
    refine brings_value (next_lengthDelimited f.number _ groupDepth) hzero
      (hwf.attributeByNumber hf) hpasses fun turns tail _ => ?_
    exact readValue_scalar (by rw [htype]; rfl) (by rw [htype]; rfl)

theorem passes_message (f : FieldDescriptor C) (m : Object) : passes f (.message m) = true := by
  unfold passes
  split <;> first | rfl | simp_all

theorem carried_message (hwf : WellFormed schema) (hf : f ∈ schema c) {c' : C} {m' : Object}
    (htype : f.type = .message c') {serialize : C → Object → Except Trouble Octets} {bs : Octets}
    {es : List Event} (hbs : serialize c' m' = .ok bs) (hlen : bs.length < 2 ^ 64)
    (h : Sent schema c' (fun groupDepth => groupDepth = none ∨ NoGroups schema c' m') bs es
      .empty m') :
    ∃ data es, encodeFieldValue serialize f (.message m') = .ok data ∧
      Carried schema c f (.message m') data es := by
  obtain ⟨hzero, hlt⟩ := hwf.number c f hf
  have hfits : (Event.lengthDelimited f.number bs).Fits := ⟨hlt, hlen⟩
  have hdecode : decode bs = .ok es := (decode_iff _ _).mpr ⟨h.stream, h.nesting⟩
  refine ⟨_, [.lengthDelimited f.number bs], ?_, fun m => ⟨.single hfits.written, rfl,
    fun groupDepth _ => ?_⟩⟩
  · simp only [encodeFieldValue, htype, hbs, bind, Except.bind, encodeWire_eq hfits]
    rfl
  · refine brings_value (next_lengthDelimited f.number _ groupDepth) hzero
      (hwf.attributeByNumber hf) (passes_message f m') fun turns tail hturns => ?_
    have hweight := weight_le_of_decode hdecode
    rw [weight_cons, Event.weight] at hturns
    have hmerge : merge schema turns c' .empty es none = .ok (m', []) :=
      (h.brings none (.inl rfl)).merge_eq (by omega)
    have haggregate : f.type.messageType = some c' := by
      rw [htype]
      rfl
    simp only [readValue_aggregate haggregate, readAggregate, hdecode, Except.mapError, bind,
      Except.bind, hmerge, pure, Except.pure]

theorem carried_group (hwf : WellFormed schema) (hf : f ∈ schema c) {c' : C} {m' : Object}
    (htype : f.type = .group c') {serialize : C → Object → Except Trouble Octets} {bs : Octets}
    {es : List Event} (hbs : serialize c' m' = .ok bs) (hgroups : NoGroups schema c' m')
    (h : Sent schema c' (fun groupDepth => groupDepth = none ∨ NoGroups schema c' m') bs es
      .empty m') :
    ∃ data es, encodeFieldValue serialize f (.message m') = .ok data ∧
      Carried schema c f (.message m') data es := by
  obtain ⟨hzero, hlt⟩ := hwf.number c f hf
  have hstart : (Event.startGroup f.number).Fits := hlt
  have hend : (Event.endGroup f.number).Fits := hlt
  refine ⟨(Event.startGroup f.number).bytes ++ bs ++ (Event.endGroup f.number).bytes,
    .startGroup f.number :: es ++ [.endGroup f.number], ?_, fun m => ⟨?_, ?_,
      fun groupDepth hfits => ?_⟩⟩
  · simp only [encodeFieldValue, htype, hbs, bind, Except.bind, encodeWire_eq hstart,
      encodeWire_eq hend, encoded, Except.mapError, pure, Except.pure]
  · exact (Stream.cons hstart.written h.stream).append (.single hend.written)
  · rw [nesting_append, nesting_cons, h.nesting]
    rfl
  · obtain rfl | hnot := hfits
    · exact brings_group (by rw [htype]; rfl) (passes_message f m') hzero (hwf.attributeByNumber hf)
        (h.brings (some 1) (.inr hgroups))
    · exact absurd htype (hnot c')

end Value

/-! ### A message -/

section Sent
variable {c : C} {At : Option ℤ → Prop} {data data' : Octets} {es es' : List Event}
  {m m' m'' : Object}

theorem Sent.nil : Sent schema c At [] [] m m := ⟨.nil, rfl, fun _ _ => .nil⟩

theorem Sent.append (h : Sent schema c At data es m m') (h' : Sent schema c At data' es' m' m'') :
    Sent schema c At (data ++ data') (es ++ es') m m'' where
  stream := h.stream.append h'.stream
  nesting := by rw [nesting_append, h.nesting, h'.nesting, add_zero]
  brings := fun groupDepth hat => (h.brings groupDepth hat).append (h'.brings groupDepth hat)

/-- What each brings, all bring one behind the other. -/
theorem sent_concat {α : Type} {write : α → Except Trouble Octets} {put : Object → α → Object}
    {xs : List α} (h : ∀ x ∈ xs, ∃ data es, write x = .ok data ∧
      ∀ m, Sent schema c At data es m (put m x)) :
    ∃ data es, concat write xs = .ok data ∧ ∀ m, Sent schema c At data es m (xs.foldl put m) := by
  induction xs with
  | nil => exact ⟨[], [], rfl, fun _ => .nil⟩
  | cons x xs ih =>
    obtain ⟨hx, hxs⟩ := List.forall_mem_cons.mp h
    obtain ⟨data, es, hwrite, hsent⟩ := hx
    obtain ⟨data', es', hwrite', hsent'⟩ := ih hxs
    refine ⟨data ++ data', es ++ es', ?_, fun m => (hsent m).append (hsent' _)⟩
    rw [concat, hwrite, hwrite']
    rfl

end Sent

/-- One value of a field after the other. -/
def Object.storeAll (m : Object) (f : FieldDescriptor C) (vs : List Value) : Object :=
  vs.foldl (fun m v => m.store f v) m

/-- Values of one field, put into a message. -/
theorem storeAll_eq {f : FieldDescriptor C} {vs : List Value}
    (hlabel : f.label ≠ .repeated → vs.length ≤ 1) (slots : Nat → List Value)
    (extra : List Event) : (Object.mk slots extra).storeAll f vs =
      .mk (Function.update slots f.number (f.join (slots f.number) vs)) extra := by
  by_cases hrepeated : f.label = .repeated
  · rw [FieldDescriptor.join, if_pos hrepeated]
    induction vs generalizing slots with
    | nil =>
      rw [List.append_nil, Function.update_eq_self]
      rfl
    | cons v vs ih =>
      have hstore : (Object.mk slots extra).store f v =
          .mk (Function.update slots f.number (slots f.number ++ [v])) extra := by
        simp only [Object.store, hrepeated, Object.slots, Object.extra]
      have hrest := ih (fun h => absurd hrepeated h)
        (Function.update slots f.number (slots f.number ++ [v]))
      rw [Object.storeAll] at hrest ⊢
      rw [List.foldl_cons, hstore, hrest, Function.update_self, Function.update_idem,
        List.append_assoc]
      rfl
  · have hlen := hlabel hrepeated
    rw [FieldDescriptor.join, if_neg hrepeated]
    match vs, hlen with
    | [], _ =>
      rw [List.isEmpty_nil, if_pos rfl, Function.update_eq_self]
      rfl
    | [v], _ =>
      simp only [Object.storeAll, List.foldl_cons, List.foldl_nil, Object.store, Object.slots,
        Object.extra, List.isEmpty_cons, Bool.false_eq_true, if_false]

/-- The values of these fields joined with those of the message. -/
def joinAll (m : Object) (fs : List (FieldDescriptor C)) (slots : Nat → List Value) :
    Nat → List Value := fun number =>
  match fs.find? (·.number = number) with
  | some f => f.join (slots number) (m.slots number)
  | none => slots number

theorem joinAll_cons (m : Object) {f : FieldDescriptor C} {fs : List (FieldDescriptor C)}
    (h : f.number ∉ fs.map FieldDescriptor.number) (slots : Nat → List Value) :
    joinAll m (f :: fs) slots =
      joinAll m fs (Function.update slots f.number (f.join (slots f.number) (m.slots f.number))) := by
  funext number
  by_cases hnumber : f.number = number
  · subst hnumber
    have hnone : fs.find? (·.number = f.number) = none := by
      rw [List.find?_eq_none]
      intro g hg heq
      exact h (List.mem_map.mpr ⟨g, hg, by simpa using heq⟩)
    simp [joinAll, hnone]
  · simp [joinAll, hnumber, Function.update_of_ne (Ne.symm hnumber)]

/-- A field that goes out and comes in with all its values. -/
structure FieldSent (schema : C → List (FieldDescriptor C)) (c : C)
    (serialize : C → Object → Except Trouble Octets) (m : Object) (f : FieldDescriptor C) :
    Prop where
  mem : f ∈ schema c
  required : f.label = .required → m.slots f.number ≠ []
  single : f.label ≠ .repeated → (m.slots f.number).length ≤ 1
  values : ∀ v ∈ m.slots f.number, ∃ data es, encodeFieldValue serialize f v = .ok data ∧
    Carried schema c f v data es

theorem sent_field {c : C} {serialize : C → Object → Except Trouble Octets} {m : Object}
    {f : FieldDescriptor C} (h : FieldSent schema c serialize m f) :
    ∃ data es, protobufEmit serialize m f = .ok data ∧ ∀ slots extra,
      Sent schema c (fun groupDepth => groupDepth = none ∨ NoGroups schema c m) data es
        (.mk slots extra)
        (.mk (Function.update slots f.number (f.join (slots f.number) (m.slots f.number))) extra) := by
  have hemit : protobufEmit serialize m f =
      concat (encodeFieldValue serialize f) (m.slots f.number) := by
    rw [protobufEmit, if_neg]
    intro hmissing
    exact h.required hmissing.1 (List.isEmpty_iff.mp hmissing.2)
  have hvalues : ∀ v ∈ m.slots f.number, ∃ data es, encodeFieldValue serialize f v = .ok data ∧
      ∀ m₀ : Object, Sent schema c (fun groupDepth => groupDepth = none ∨ NoGroups schema c m)
        data es m₀ (m₀.store f v) := by
    intro v hv
    obtain ⟨data, es, hencode, hcarried⟩ := h.values v hv
    refine ⟨data, es, hencode, fun m₀ => ⟨(hcarried m₀).stream, (hcarried m₀).nesting,
      fun groupDepth hat => (hcarried m₀).brings groupDepth ?_⟩⟩
    exact hat.imp_right fun hgroups => hgroups f h.mem (List.ne_nil_of_mem hv)
  obtain ⟨data, es, hconcat, hsent⟩ := sent_concat hvalues
  refine ⟨data, es, hemit.trans hconcat, fun slots extra => ?_⟩
  rw [← storeAll_eq h.single slots extra]
  exact hsent _

theorem sent_fields {c : C} {serialize : C → Object → Except Trouble Octets} {m : Object}
    {fs : List (FieldDescriptor C)} (h : ∀ f ∈ fs, FieldSent schema c serialize m f)
    (hnodup : (fs.map FieldDescriptor.number).Nodup) :
    ∃ data es, concat (protobufEmit serialize m) fs = .ok data ∧ ∀ slots extra,
      Sent schema c (fun groupDepth => groupDepth = none ∨ NoGroups schema c m) data es
        (.mk slots extra) (.mk (joinAll m fs slots) extra) := by
  induction fs with
  | nil => exact ⟨[], [], rfl, fun _ _ => .nil⟩
  | cons f fs ih =>
    obtain ⟨hf, hfs⟩ := List.forall_mem_cons.mp h
    rw [List.map_cons, List.nodup_cons] at hnodup
    obtain ⟨data, es, hemit, hsent⟩ := sent_field hf
    obtain ⟨data', es', hemit', hsent'⟩ := ih hfs hnodup.2
    refine ⟨data ++ data', es ++ es', ?_, fun slots extra => ?_⟩
    · rw [concat, hemit, hemit']
      rfl
    · rw [joinAll_cons m hnodup.1]
      exact (hsent slots extra).append (hsent' _ extra)

theorem sent_extra {c : C} {At : Option ℤ → Prop} {es : List Event}
    (h : ∀ e ∈ es, Unknown schema c e) : ∃ data, concat encodeExtra es = .ok data ∧
      ∀ m : Object, Sent schema c At data es m (.mk m.slots (m.extra ++ es)) := by
  induction es with
  | nil =>
    refine ⟨[], rfl, fun m => ?_⟩
    rw [List.append_nil]
    cases m
    exact .nil
  | cons e es ih =>
    obtain ⟨he, hes⟩ := List.forall_mem_cons.mp h
    obtain ⟨data, hconcat, hsent⟩ := ih hes
    have hencode : encodeExtra e = .ok e.bytes := by
      have hwire := encodeWire_eq he.fits
      cases e with
      | startGroup field => exact absurd rfl (he.value field).1
      | endGroup field => exact absurd rfl (he.value field).2
      | _ =>
        rw [encodeExtra, hwire]
        · rfl
        all_goals nofun
    have hnesting : e.nesting = 0 := by
      cases e with
      | startGroup field => exact absurd rfl (he.value field).1
      | endGroup field => exact absurd rfl (he.value field).2
      | _ => rfl
    have hone (m : Object) : Sent schema c At e.bytes [e] m (m.pushExtra e) := by
      refine ⟨.single he.fits.written, by rw [nesting_cons, hnesting]; rfl, fun groupDepth _ => ?_⟩
      exact brings_extra (next_of_value he.value groupDepth) he.number
        (attributeByNumber_eq_none he.unknown)
    refine ⟨e.bytes ++ data, ?_, fun m => ?_⟩
    · rw [concat, hencode, hconcat]
      rfl
    · have hall := (hone m).append (hsent (m.pushExtra e))
      simp only [Object.pushExtra, Object.slots, Object.extra, List.append_assoc,
        List.singleton_append] at hall
      exact hall

/-- A field is found wherever the fields of the class are listed. -/
theorem WellFormed.find?_eq (h : WellFormed schema) {c : C} {fs : List (FieldDescriptor C)}
    (hperm : fs.Perm (schema c)) (number : Nat) :
    fs.find? (·.number = number) = Protobuf.attributeByNumber schema c number := by
  by_cases hknown : ∃ f ∈ schema c, f.number = number
  · obtain ⟨f, hf, rfl⟩ := hknown
    obtain ⟨g, hg⟩ := Option.isSome_iff_exists.mp (List.find?_isSome.mpr
      ⟨f, hperm.mem_iff.mpr hf, by simp⟩ : (fs.find? (·.number = f.number)).isSome)
    have hgmem := hperm.mem_iff.mp (List.mem_of_find?_eq_some hg)
    have hgnumber : g.number = f.number := by simpa using List.find?_some hg
    rw [hg, h.attributeByNumber hf, List.inj_on_of_nodup_map (h.nodup c) hgmem hf hgnumber]
  · have hunknown : ∀ f ∈ schema c, f.number ≠ number := fun f hf heq => hknown ⟨f, hf, heq⟩
    rw [attributeByNumber_eq_none hunknown, List.find?_eq_none]
    intro f hf
    simpa using hunknown f (hperm.mem_iff.mp hf)

theorem WellFormed.joinAll_protobufAttributes (h : WellFormed schema) (c : C) (m : Object)
    (slots : Nat → List Value) : joinAll m (protobufAttributes schema c) slots = fun number =>
      match Protobuf.attributeByNumber schema c number with
      | some f => f.join (slots number) (m.slots number)
      | none => slots number := by
  have hperm : (protobufAttributes schema c).Perm (schema c) := List.mergeSort_perm _ _
  funext number
  rw [joinAll, h.find?_eq hperm]

/-- Merged into an empty message, a valid one is what it was. -/
theorem Valid.empty_mergedWith (hwf : WellFormed schema) {depth : Nat} {c : C} {m : Object}
    (h : Valid schema depth c m) : Object.empty.mergedWith schema c m = m := by
  cases depth with
  | zero => exact h.elim
  | succ depth =>
    obtain ⟨hothers, -, -⟩ := h
    cases m with
    | mk slots extra =>
      simp only [Object.mergedWith, Object.empty, Object.slots, Object.extra, List.nil_append,
        Object.mk.injEq, and_true]
      funext number
      by_cases hknown : ∃ f ∈ schema c, f.number = number
      · obtain ⟨f, hf, rfl⟩ := hknown
        rw [hwf.attributeByNumber hf]
        simp only [FieldDescriptor.join, List.nil_append]
        split
        · rfl
        · split
          · rename_i hempty
            rw [List.isEmpty_iff.mp hempty]
          · rfl
      · have hunknown : ∀ f ∈ schema c, f.number ≠ number := fun f hf heq => hknown ⟨f, hf, heq⟩
        rw [attributeByNumber_eq_none hunknown]
        exact (hothers number hunknown).symm

/-- **What is valid goes out and comes in**, in a message around it or as a group. -/
theorem whole_of_valid (hwf : WellFormed schema) {depth : Nat} {c : C} {m : Object}
    (h : Valid schema depth c m) : ∃ data es, serializeToString schema depth c m = .ok data ∧
      Whole schema c m data es := by
  induction depth generalizing c m with
  | zero => exact h.elim
  | succ depth ih =>
    obtain ⟨hothers, hfields, hextra⟩ := h
    have hsent : ∀ f ∈ schema c, FieldSent schema c (serializeToString schema depth) m f := by
      intro f hf
      obtain ⟨hrequired, hsingle, hvalues⟩ := hfields f hf
      refine ⟨hf, hrequired, hsingle, fun v hv => ?_⟩
      obtain ⟨hpasses, hcarries⟩ := hvalues v hv
      cases htype : f.type with
      | int type =>
        rw [htype] at hcarries
        cases v with
        | int v => exact carried_int hwf hf htype hpasses hcarries.1 hcarries.2 _
        | bytes bs => exact hcarries.elim
        | message m' => exact hcarries.elim
      | bytes =>
        rw [htype] at hcarries
        cases v with
        | int v => exact hcarries.elim
        | bytes bs => exact carried_bytes hwf hf htype hcarries _
        | message m' => exact hcarries.elim
      | message c' =>
        rw [htype] at hcarries
        cases v with
        | int v => exact hcarries.elim
        | bytes bs => exact hcarries.elim
        | message m' =>
          obtain ⟨bs, es, hbs, hwhole⟩ := ih hcarries.1
          have hparsed := hwhole .empty
          rw [hcarries.1.empty_mergedWith hwf] at hparsed
          exact carried_message hwf hf htype hbs (hcarries.2 bs hbs) hparsed
      | group c' =>
        rw [htype] at hcarries
        cases v with
        | int v => exact hcarries.elim
        | bytes bs => exact hcarries.elim
        | message m' =>
          obtain ⟨bs, es, hbs, hwhole⟩ := ih hcarries.1
          have hparsed := hwhole .empty
          rw [hcarries.1.empty_mergedWith hwf] at hparsed
          exact carried_group hwf hf htype hbs hcarries.2 hparsed
    have hperm : (protobufAttributes schema c).Perm (schema c) := List.mergeSort_perm _ _
    have hnumbers : ((protobufAttributes schema c).map FieldDescriptor.number).Nodup :=
      (hperm.map _).nodup_iff.mpr (hwf.nodup c)
    obtain ⟨data, es, hemit, hall⟩ :=
      sent_fields (fun f hf => hsent f (hperm.mem_iff.mp hf)) hnumbers
    obtain ⟨data', hconcat, hrest⟩ := sent_extra hextra
    refine ⟨data ++ data', es ++ m.extra, ?_, fun m₀ => ?_⟩
    · rw [serializeToString, hemit, hconcat]
      rfl
    · cases m₀ with
      | mk slots extra =>
        have hwhole := (hall slots extra).append (hrest _)
        rw [hwf.joinAll_protobufAttributes] at hwhole
        exact hwhole

/-- What is read behind one message is merged with it. -/
theorem Whole.mergeFromString {c : C} {m : Object} {data : Octets} {es : List Event}
    (h : Whole schema c m data es) (m₀ : Object) :
    Protobuf.mergeFromString schema c m₀ data = .ok (m₀.mergedWith schema c m) := by
  have hsent := h m₀
  have hdecode : decode data = .ok es := (decode_iff _ _).mpr ⟨hsent.stream, hsent.nesting⟩
  have hmerge : merge schema data.length c m₀ es none = .ok (m₀.mergedWith schema c m, []) :=
    (hsent.brings none (.inl rfl)).merge_eq (weight_le_of_decode hdecode)
  simp only [Protobuf.mergeFromString, hdecode, Except.mapError, bind, Except.bind, hmerge, pure,
    Except.pure]

/-- **A message that is valid comes in as it went out**, and merged into another it joins what is
there. -/
theorem mergeFromString_serializeToString (schema : C → List (FieldDescriptor C))
    (hwf : WellFormed schema) (depth : Nat) (c : C) (m : Object) (h : Valid schema depth c m) :
    ∃ data, serializeToString schema depth c m = .ok data ∧
      parseFromString schema c data = .ok m ∧
      ∀ m₀, mergeFromString schema c m₀ data = .ok (m₀.mergedWith schema c m) := by
  obtain ⟨data, es, hdata, hwhole⟩ := whole_of_valid hwf h
  refine ⟨data, hdata, ?_, hwhole.mergeFromString⟩
  rw [parseFromString, hwhole.mergeFromString, h.empty_mergedWith hwf]

/-! A response of `memcache_service.proto`, and a class that has one in a group. -/

inductive MemcacheClass where
  | item
  | getResponse
  | holder
deriving DecidableEq, Repr

def memcache : MemcacheClass → List (FieldDescriptor MemcacheClass)
  | .item => [⟨2, "key", .required, .bytes⟩, ⟨3, "value", .required, .bytes⟩,
      ⟨4, "flags", .optional, .int .fixed32⟩]
  | .getResponse => [⟨1, "item", .repeated, .group .item⟩]
  | .holder => [⟨7, "response", .optional, .group .getResponse⟩]

def item : Object :=
  .mk (fun number => if number = 2 then [.bytes [0x6b]] else if number = 3 then [.bytes [0x76]]
    else []) []

def response : Object := .mk (fun number => if number = 1 then [.message item] else []) []

theorem memcache_wellFormed : WellFormed memcache := by
  refine ⟨fun c => ?_, fun c => ?_⟩ <;> cases c <;> decide

theorem item_valid : Valid memcache 1 .item item := by
  refine ⟨fun number h => ?_, fun f hf => ?_, nofun⟩
  · simp only [memcache, List.forall_mem_cons] at h
    obtain ⟨htwo, hthree, -⟩ := h
    simp only [item, Object.slots, if_neg (Ne.symm htwo), if_neg (Ne.symm hthree)]
  · simp only [memcache, List.mem_cons, List.not_mem_nil, or_false] at hf
    obtain rfl | rfl | rfl := hf
    · refine ⟨fun _ => List.cons_ne_nil _ _, fun _ => Nat.le_refl 1, fun v hv => ?_⟩
      obtain rfl := List.mem_singleton.mp hv
      exact ⟨rfl, show 1 < 2 ^ 64 by decide⟩
    · refine ⟨fun _ => List.cons_ne_nil _ _, fun _ => Nat.le_refl 1, fun v hv => ?_⟩
      obtain rfl := List.mem_singleton.mp hv
      exact ⟨rfl, show 1 < 2 ^ 64 by decide⟩
    · exact ⟨nofun, fun _ => Nat.zero_le 1, nofun⟩

theorem item_noGroups : NoGroups memcache .item item := by
  intro f hf _ c'
  simp only [memcache, List.mem_cons, List.not_mem_nil, or_false] at hf
  obtain rfl | rfl | rfl := hf <;> nofun

theorem response_valid : Valid memcache 2 .getResponse response := by
  refine ⟨fun number h => ?_, fun f hf => ?_, nofun⟩
  · exact if_neg (Ne.symm (h _ List.mem_cons_self))
  · obtain rfl := List.mem_singleton.mp hf
    refine ⟨nofun, fun h => absurd rfl h, fun v hv => ?_⟩
    obtain rfl := List.mem_singleton.mp hv
    exact ⟨rfl, item_valid, item_noGroups⟩

theorem mergeFromString_serializeToString_response :
    ∃ data, serializeToString memcache 2 .getResponse response = .ok data ∧
      parseFromString memcache .getResponse data = .ok response ∧
      ∀ m₀, mergeFromString memcache .getResponse m₀ data =
        .ok (m₀.mergedWith memcache .getResponse response) :=
  mergeFromString_serializeToString memcache memcache_wellFormed 2 .getResponse response
    response_valid

/-- **One message behind the other comes in as the one merged with the other.** -/
theorem parseFromString_append (schema : C → List (FieldDescriptor C)) (hwf : WellFormed schema)
    (depth depth' : Nat) (c : C) (m m' : Object) (h : Valid schema depth c m)
    (h' : Valid schema depth' c m') : ∃ data data', serializeToString schema depth c m = .ok data ∧
      serializeToString schema depth' c m' = .ok data' ∧
      parseFromString schema c (data ++ data') = .ok (m.mergedWith schema c m') := by
  obtain ⟨data, es, hdata, hwhole⟩ := whole_of_valid hwf h
  obtain ⟨data', es', hdata', hwhole'⟩ := whole_of_valid hwf h'
  refine ⟨data, data', hdata, hdata', ?_⟩
  have hsent := hwhole .empty
  rw [h.empty_mergedWith hwf] at hsent
  have hsent' := hwhole' m
  have hdecode : decode (data ++ data') = .ok (es ++ es') :=
    (decode_iff _ _).mpr ⟨hsent.stream.append hsent'.stream,
      by rw [nesting_append, hsent.nesting, hsent'.nesting, add_zero]⟩
  have hboth := (hsent.brings none (.inl rfl)).append (hsent'.brings none (.inl rfl))
  simp only [parseFromString, mergeFromString, hdecode, Except.mapError, bind, Except.bind,
    hboth.merge_eq (weight_le_of_decode hdecode), pure, Except.pure]

/-- Two responses make one with both items. -/
theorem parseFromString_append_response : ∃ data data',
    serializeToString memcache 2 .getResponse response = .ok data ∧
      serializeToString memcache 2 .getResponse response = .ok data' ∧
      parseFromString memcache .getResponse (data ++ data') =
        .ok (response.mergedWith memcache .getResponse response) :=
  parseFromString_append memcache memcache_wellFormed 2 2 .getResponse response response
    response_valid response_valid

/-! ### A group in a group -/

/-- Messages merged from these events, with turns enough. -/
def mergeEvents (schema : C → List (FieldDescriptor C)) (c : C) (m : Object) (es : List Event)
    (groupDepth : Option ℤ) : Except Trouble (Object × List Event) :=
  merge schema (weight es) c m es groupDepth

theorem mergeEvents_eq {turns : Nat} {c : C} {m : Object} {es : List Event} {groupDepth : Option ℤ}
    (h : weight es ≤ turns) :
    merge schema turns c m es groupDepth = mergeEvents schema c m es groupDepth :=
  merge_turns c m groupDepth h (Nat.le_refl _)

theorem Brings.mergeEvents {c : C} {groupDepth : Option ℤ} {es : List Event} {m m' : Object}
    (h : Brings schema c groupDepth es m m') (tail : List Event) :
    Protobuf.mergeEvents schema c m (es ++ tail) groupDepth =
      Protobuf.mergeEvents schema c m' tail groupDepth := by
  obtain ⟨turns', hturns', heq⟩ := h _ tail (Nat.le_refl _)
  rw [Protobuf.mergeEvents, heq, mergeEvents_eq hturns']

theorem weight_endGroup (field : Nat) (es : List Event) :
    weight (.endGroup field :: es) = weight es + 1 := by
  rw [weight_cons, Nat.add_comm]
  rfl

/-- One turn on the begin of a group. -/
theorem mergeEvents_startGroup {c c' : C} {f : FieldDescriptor C} {m : Object}
    (hnumber : f.number ≠ 0) (hattr : attributeByNumber schema c f.number = some f)
    (htype : f.type.messageType = some c') (tail : List Event)
    {groupDepth groupDepth' : Option ℤ}
    (hnext : next groupDepth (.startGroup f.number) = some groupDepth') :
    mergeEvents schema c m (.startGroup f.number :: tail) groupDepth =
      mergeEvents schema c' .empty tail (some 1) >>= fun read =>
        mergeEvents schema c (m.store f (.message read.1)) read.2 groupDepth' := by
  have hone : weight (.startGroup f.number :: tail) = weight tail + 1 := by
    rw [weight_cons, Nat.add_comm]
    rfl
  rw [mergeEvents, hone]
  simp only [merge, hnext, Event.fieldnum, if_neg hnumber, hattr, readValue_aggregate htype,
    readAggregate]
  rw [mergeEvents_eq (Nat.le_refl _)]
  cases hread : mergeEvents schema c' .empty tail (some 1) with
  | error trouble => rfl
  | ok read =>
    obtain ⟨m', rest⟩ := read
    have hrest : rest <:+ tail := merge_suffix hread
    simp only [bind, Except.bind, pure, Except.pure, passes_message, if_true]
    exact mergeEvents_eq (weight_le_of_suffix hrest)

/-- **What follows a group with a group in it is taken for a part of it.** The end of the outer
group becomes a field it does not know, and all that comes behind, up to the end of another
group around, is merged into the message of the group. -/
theorem mergeEvents_group_in_group (hwf : WellFormed schema) {c c' c'' : C}
    {f g : FieldDescriptor C} (hf : f ∈ schema c) (hg : g ∈ schema c') (hftype : f.type = .group c')
    (hgtype : g.type = .group c'') (hunknown : ∀ k ∈ schema c', k.number ≠ f.number) (depth : Nat)
    {m : Object} (hm : Valid schema depth c'' m) (hgroups : NoGroups schema c'' m) :
    ∃ data es, serializeToString schema depth c'' m = .ok data ∧ decode data = .ok es ∧
      ∀ m₀ tail, mergeEvents schema c m₀ (.startGroup f.number :: .startGroup g.number :: (es ++
          .endGroup g.number :: .endGroup f.number :: tail)) none =
        mergeEvents schema c'
            ((Object.empty.store g (.message m)).pushExtra (.endGroup f.number)) tail (some 1) >>=
          fun read => mergeEvents schema c (m₀.store f (.message read.1)) read.2 none := by
  obtain ⟨data, es, hdata, hwhole⟩ := whole_of_valid hwf hm
  have hsent := hwhole .empty
  rw [hm.empty_mergedWith hwf] at hsent
  obtain ⟨hfzero, -⟩ := hwf.number c f hf
  obtain ⟨hgzero, -⟩ := hwf.number c' g hg
  refine ⟨data, es, hdata, (decode_iff _ _).mpr ⟨hsent.stream, hsent.nesting⟩, fun m₀ tail => ?_⟩
  -- the inner iterator takes the end of its own group
  have hinner : mergeEvents schema c'' .empty (es ++ .endGroup g.number :: .endGroup f.number :: tail)
      (some 1) = .ok (m, .endGroup f.number :: tail) := by
    rw [(hsent.brings (some 1) (.inr hgroups)).mergeEvents, mergeEvents, weight_endGroup]
    simp [merge, next]
  -- the outer one has counted its begin, and takes the end of the outer group for an event
  have houter (m' : Object) : mergeEvents schema c' m' (.endGroup f.number :: tail) (some 2) =
      mergeEvents schema c' (m'.pushExtra (.endGroup f.number)) tail (some 1) := by
    rw [mergeEvents, weight_endGroup]
    simp only [merge, next, Event.fieldnum, if_neg hfzero, attributeByNumber_eq_none hunknown]
    rfl
  rw [mergeEvents_startGroup hfzero (hwf.attributeByNumber hf) (by rw [hftype]; rfl) _ rfl,
    mergeEvents_startGroup hgzero (hwf.attributeByNumber hg) (by rw [hgtype]; rfl) _ rfl, hinner]
  simp only [bind, Except.bind]
  have hdepth : (1 + 1 : ℤ) = 2 := by norm_num
  rw [hdepth, houter]

/-- **A message with a group in a group does not come in as it went out**, whatever else follows:
what is behind the group goes into it. -/
theorem mergeFromString_group_in_group (hwf : WellFormed schema) {c c' c'' : C}
    {f g : FieldDescriptor C} (hf : f ∈ schema c) (hg : g ∈ schema c') (hftype : f.type = .group c')
    (hgtype : g.type = .group c'') (hunknown : ∀ k ∈ schema c', k.number ≠ f.number) (depth : Nat)
    {m : Object} (hm : Valid schema depth c'' m) (hgroups : NoGroups schema c'' m) :
    ∃ data, serializeToString schema depth c'' m = .ok data ∧
      ∀ m₀ rest tail, decode rest = .ok tail →
        mergeFromString schema c m₀ ((Event.startGroup f.number).bytes ++
            ((Event.startGroup g.number).bytes ++ (data ++ ((Event.endGroup g.number).bytes ++
              ((Event.endGroup f.number).bytes ++ rest))))) = do
          let (m', tail) ← mergeEvents schema c'
            ((Object.empty.store g (.message m)).pushExtra (.endGroup f.number)) tail (some 1)
          let (m, _) ← mergeEvents schema c (m₀.store f (.message m')) tail none
          return m := by
  obtain ⟨data, es, hdata, hdecode, hmerge⟩ :=
    mergeEvents_group_in_group hwf hf hg hftype hgtype hunknown depth hm hgroups
  refine ⟨data, hdata, fun m₀ rest tail hrest => ?_⟩
  obtain ⟨-, hflt⟩ := hwf.number c f hf
  obtain ⟨-, hglt⟩ := hwf.number c' g hg
  have hstart {field : Nat} (h : field < 2 ^ 61) :
      Written (Event.startGroup field).bytes (.startGroup field) :=
    (show (Event.startGroup field).Fits from h).written
  have hend {field : Nat} (h : field < 2 ^ 61) :
      Written (Event.endGroup field).bytes (.endGroup field) :=
    (show (Event.endGroup field).Fits from h).written
  obtain ⟨hstream, hnesting⟩ := (decode_iff _ _).mp hdecode
  obtain ⟨hstream', hnesting'⟩ := (decode_iff _ _).mp hrest
  have hall : Stream _ (.startGroup f.number :: .startGroup g.number :: (es ++
      .endGroup g.number :: .endGroup f.number :: tail)) :=
    .cons (hstart hflt) (.cons (hstart hglt)
      (hstream.append (.cons (hend hglt) (.cons (hend hflt) hstream'))))
  have hwhole := (decode_iff _ _).mpr ⟨hall, by
    simp only [nesting_cons, nesting_append, hnesting, hnesting', Event.nesting]
    norm_num⟩
  simp only [mergeFromString, hwhole, Except.mapError, bind, Except.bind]
  rw [mergeEvents_eq (weight_le_of_decode hwhole), hmerge]
  cases mergeEvents schema c' ((Object.empty.store g (.message m)).pushExtra
    (.endGroup f.number)) tail (some 1) <;> rfl

theorem mergeFromString_group_in_group_response : ∃ data,
    serializeToString memcache 1 .item item = .ok data ∧ ∀ m₀ rest tail, decode rest = .ok tail →
      mergeFromString memcache .holder m₀ ((Event.startGroup 7).bytes ++
          ((Event.startGroup 1).bytes ++ (data ++ ((Event.endGroup 1).bytes ++
            ((Event.endGroup 7).bytes ++ rest))))) = do
        let (m', tail) ← mergeEvents memcache .getResponse ((Object.empty.store
          ⟨1, "item", .repeated, .group MemcacheClass.item⟩ (.message item)).pushExtra
            (.endGroup 7)) tail (some 1)
        let (m, _) ← mergeEvents memcache .holder
          (m₀.store ⟨7, "response", .optional, .group MemcacheClass.getResponse⟩ (.message m'))
            tail none
        return m :=
  mergeFromString_group_in_group memcache_wellFormed
    (show (⟨7, "response", .optional, .group .getResponse⟩ : FieldDescriptor MemcacheClass) ∈
      memcache .holder from List.mem_cons_self)
    (show (⟨1, "item", .repeated, .group .item⟩ : FieldDescriptor MemcacheClass) ∈
      memcache .getResponse from List.mem_cons_self)
    rfl rfl (by decide) 1 item_valid item_noGroups

end VleoNotebook.Protobuf
