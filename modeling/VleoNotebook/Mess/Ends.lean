import VleoNotebook.Mess.Server

/-! The programs behind a MESS server: its clients (`tcClient.pl`) and its tc-server
(`tcServer.pl`).

Each takes one message at a time and answers some. What it created and handed to
`print` or `send`, in order, are its effects; whether a queue takes it is its own
matter (`mqTakes`), and no program looks. Nothing is kept between messages. A
`tcClient` answers a `ping` that is a call. The tc-server looks at the method only,
and it answers `pingtcs` twice: the `else` belongs to the second `if`. -/
namespace VleoNotebook.Mess

open Proc

abbrev Answers := Proc Unit Message

/-- `new MessageTransport(...)` and sending it. -/
def reply (made : Except String Message) : Answers :=
  match made with
  | .error text => die text
  | .ok m => emit m

/-- `tcClient`'s receive loop with one message; the client is `MY_ID` at the server
`MY_MESS_ID`. -/
def tcClient (myId myMessId : String) (w : World) (m : Message) : Answers :=
  match m.argval with
  | none => die "Can't use an undefined value as a HASH reference" -- in `printMsg`
  | some args =>
    if m.method = "ping" ∧ m.type = .call then
      reply (Message.new w.uuid MsgType.ret.text myId myMessId m.srcsub m.src m.method
        (some [("tm0", args.get "tm"), ("tm", w.now)]) Status.ok.text m.uuid)
    else skip

/-- A reply of the tc-server, handed to the queue. -/
def tcServerReply (cfg : Config) (uuid : String) (m : Message) (argval : Option Hash)
    (status : Status) : Answers :=
  reply (Message.new uuid MsgType.ret.text cfg.tcServId cfg.messMyId m.srcsub m.src m.method
    argval status.text m.uuid)

/-- `tcServer`'s loop with one message, up to the queue. -/
def tcServer (cfg : Config) (w : World) (m : Message) : Answers :=
  andThen (if m.method = "pingtcs" then tcServerReply cfg w.uuid m m.argval .ok else skip)
    (if m.method = "mqRegister" then tcServerReply cfg w.uuid' m (some [("tm", w.now)]) .ok
      else tcServerReply cfg w.uuid' m m.argval .nomethod)

/-! ### What they answer -/

/-- A message answers another: it is a RET that carries the other's UUID. -/
def Answering (reply call : Message) : Prop := reply.type = .ret ∧ reply.uuidorig = call.uuid

theorem answering_of_new {uuid srcsub src dstsub dst method status : String}
    {argval : Option Hash} {m made : Message}
    (h : Message.new uuid MsgType.ret.text srcsub src dstsub dst method argval status m.uuid =
      .ok made) : Answering made m ∧ made.uuid = uuid := by
  obtain ⟨t, st, ht, -, -, -, rfl⟩ := Message.new_eq_ok.mp h
  have hret : MsgType.ofText MsgType.ret.text = some .ret := by decide
  exact ⟨⟨Option.some.inj (ht.symm.trans hret), rfl⟩, rfl⟩

/-- All effects of a program answer the message it was given, under UUIDs it drew, no
more of them than it drew. -/
def AnswersOnly (m : Message) (uuids : List String) (p : Answers) : Prop :=
  ∀ s, (∀ r ∈ (p s).effects, Answering r m ∧ r.uuid ∈ uuids) ∧
    (p s).effects.length ≤ uuids.length

theorem answersOnly_skip (m : Message) (uuids : List String) : AnswersOnly m uuids skip := by
  intro s
  simp

theorem answersOnly_reply {uuid srcsub src dstsub dst method status : String}
    {argval : Option Hash} (m : Message) :
    AnswersOnly m [uuid] (reply (Message.new uuid MsgType.ret.text srcsub src dstsub dst method
      argval status m.uuid)) := by
  intro s
  cases h : Message.new uuid MsgType.ret.text srcsub src dstsub dst method argval status m.uuid with
  | error text => simp [reply]
  | ok made => simpa [reply] using answering_of_new h

theorem answersOnly_andThen {m : Message} {us vs : List String} {p q : Answers}
    (hp : AnswersOnly m us p) (hq : AnswersOnly m vs q) :
    AnswersOnly m (us ++ vs) (andThen p q) := by
  intro s
  have hleft : ∀ r ∈ (p s).effects, Answering r m ∧ r.uuid ∈ us ++ vs := fun r hr =>
    ⟨((hp s).1 r hr).1, List.mem_append_left _ ((hp s).1 r hr).2⟩
  rw [List.length_append]
  by_cases h : (p s).error = none
  · rw [andThen_of_ok q h]
    refine ⟨fun r hr => ?_, ?_⟩
    · rcases List.mem_append.mp hr with hr | hr
      · exact hleft r hr
      · exact ⟨((hq _).1 r hr).1, List.mem_append_right _ ((hq _).1 r hr).2⟩
    · rw [List.length_append]
      exact Nat.add_le_add (hp s).2 (hq _).2
  · rw [andThen_of_error q h]
    exact ⟨hleft, Nat.le_trans (hp s).2 (Nat.le_add_right _ _)⟩

theorem tcClient_answers (myId myMessId : String) (w : World) (m : Message) :
    AnswersOnly m [w.uuid] (tcClient myId myMessId w m) := by
  unfold tcClient
  cases m.argval with
  | none => intro s; simp
  | some args =>
    simp only
    split
    · exact answersOnly_reply m
    · exact answersOnly_skip m _

theorem tcServer_answers (cfg : Config) (w : World) (m : Message) :
    AnswersOnly m [w.uuid, w.uuid'] (tcServer cfg w m) := by
  have hfirst : AnswersOnly m [w.uuid] (if m.method = "pingtcs" then
      tcServerReply cfg w.uuid m m.argval .ok else skip) := by
    split
    · exact answersOnly_reply m
    · exact answersOnly_skip m _
  have hsecond : AnswersOnly m [w.uuid'] (if m.method = "mqRegister" then
      tcServerReply cfg w.uuid' m (some [("tm", w.now)]) .ok
      else tcServerReply cfg w.uuid' m m.argval .nomethod) := by
    split <;> exact answersOnly_reply m
  exact answersOnly_andThen hfirst hsecond

/-- A client leaves everything but calls alone. -/
theorem tcClient_not_call {myId myMessId : String} {w : World} {m : Message}
    (h : m.type ≠ .call) (s : Unit) : (tcClient myId myMessId w m s).effects = [] := by
  unfold tcClient
  cases m.argval with
  | none => rfl
  | some args => simp [h]

end VleoNotebook.Mess
