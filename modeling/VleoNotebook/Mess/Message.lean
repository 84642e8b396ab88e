import Mathlib.Data.List.Basic

/-! Messages (`MessMessage`).

A message has a type, a source and a destination of two parts each (a MESS server
and a client of it, or the server itself), the method, its arguments, a status and
the UUIDs of itself and of the message it answers. `Message.new` is the only
constructor the programs use; it dies on arguments that do not fit together. Undef
and the empty string are both `""`, except for the arguments, where undef is
`none`. -/
namespace VleoNotebook.Mess

/-- `MT_CALL` and its siblings. -/
inductive MsgType where
  | call
  | ret
  | event
  | revent
  | reventConfirm
deriving DecidableEq, Repr

/-- The text a type is written as. -/
def MsgType.text : MsgType → String
  | .call => "CALL"
  | .ret => "RET"
  | .event => "EVENT"
  | .revent => "RELIABLE_EVENT"
  | .reventConfirm => "REVENT_CONFIRM"

/-- `MS_ORIG` and its siblings. -/
inductive Status where
  | orig
  | ok
  | noaddr
  | nomethod
deriving DecidableEq, Repr

def Status.text : Status → String
  | .orig => "ORIG"
  | .ok => "OK"
  | .noaddr => "NOADDR"
  | .nomethod => "NOMETHOD"

/-- `DST_BCAST` -/
def dstBcast : String := "_BCAST_"

/-- `SUBADDR_SELF`: the MESS server proper, not one of its clients. -/
def subaddrSelf : String := "_SELF_"

/-- The arguments of a method, by name. -/
abbrev Hash := List (String × String)

/-- `$h->{key}` as a string. -/
def Hash.get (h : Hash) (key : String) : String := (h.lookup key).getD ""

structure Message where
  type : MsgType
  src : String
  srcsub : String
  dst : String
  dstsub : String
  uuid : String
  uuidorig : String
  method : String
  argval : Option Hash
  status : Status
deriving DecidableEq, Repr

/-- A string Perl takes for true. -/
def Truthy (s : String) : Prop := s ≠ "" ∧ s ≠ "0"

instance (s : String) : Decidable (Truthy s) := inferInstanceAs (Decidable (_ ∧ _))

/-- Types whose messages start an exchange. -/
def MsgType.originates : MsgType → Bool
  | .call | .event | .revent => true
  | .ret | .reventConfirm => false

/-- `grep { $type eq $_ } (MT_CALL,...)` -/
def MsgType.ofText (s : String) : Option MsgType :=
  [MsgType.call, .ret, .event, .revent, .reventConfirm].find? fun t => s = t.text

def Status.ofText (s : String) : Option Status :=
  [Status.orig, .ok, .noaddr, .nomethod].find? fun t => s = t.text

/-- The UUID of the message answered: none for a message that starts an exchange,
36 characters for one that answers. -/
def UuidorigFits (t : MsgType) (uuidorig : String) : Prop :=
  (uuidorig.length = 0 ∧ t.originates = true) ∨ (uuidorig.length = 36 ∧ t.originates = false)

instance (t : MsgType) (uuidorig : String) : Decidable (UuidorigFits t uuidorig) :=
  inferInstanceAs (Decidable (_ ∨ _))

/-- `MessMessage::new`, called from `MessageTransport`; `uuid` is what `OSSP::uuid`
makes. The checks are in the source's order, with the texts they die with. -/
def Message.new (uuid type srcsub src dstsub dst method : String) (argval : Option Hash)
    (status uuidorig : String) : Except String Message :=
  match MsgType.ofText type with
  | none => .error s!"unknown message type {type} called by MessageTransport "
  | some t =>
    if ¬ Truthy src then .error "message src can't be empty"
    else if ¬ Truthy srcsub then .error "message srcsub can't be empty"
    else if ¬ Truthy dst then .error "message dst can't be empty"
    else if ¬ Truthy dstsub then .error "message dstsub can't be empty"
    else if ¬ Truthy method then .error "message method can't be empty"
    else
      let status := if t.originates then Status.orig.text else status
      match Status.ofText status with
      | none => .error s!"unknown status {status} called by MessageTransport"
      | some st =>
        if UuidorigFits t uuidorig then
          .ok ⟨t, src, srcsub, dst, dstsub, uuid, uuidorig, method, argval, st⟩
        else
          .error <| "uuid orig shall be empty for originating event " ++
            "(MT_CALL,MT_EVENT,MT_REVENT) oruuid orig shall be specified and 36 char long " ++
            "for reply event(MT_RETURN,MT_REVENT_CONFIRM), got type " ++
            s!"{type} and uuid='{uuidorig}'"

/-- `new` succeeds exactly on arguments that fit, and keeps them. -/
theorem Message.new_eq_ok {uuid type srcsub src dstsub dst method : String}
    {argval : Option Hash} {status uuidorig : String} {m : Message} :
    Message.new uuid type srcsub src dstsub dst method argval status uuidorig = .ok m ↔
      ∃ t st, MsgType.ofText type = some t ∧
        Status.ofText (if t.originates then Status.orig.text else status) = some st ∧
        (Truthy src ∧ Truthy srcsub ∧ Truthy dst ∧ Truthy dstsub ∧ Truthy method) ∧
        UuidorigFits t uuidorig ∧
        ⟨t, src, srcsub, dst, dstsub, uuid, uuidorig, method, argval, st⟩ = m := by
  unfold Message.new
  cases ht : MsgType.ofText type with
  | none => simp
  | some t =>
    cases hs : Status.ofText (if t.originates then Status.orig.text else status) with
    | none =>
      simp only [hs]
      split_ifs <;> simp [hs]
    | some st =>
      simp only [hs]
      split_ifs with h1 h2 h3 h4 h5 h6 <;> simp_all
end VleoNotebook.Mess
