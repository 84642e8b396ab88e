import VleoNotebook.Mess.CallReplies

/-! Whether the tc-server answers each call once (`tcServer.pl`).

The loop takes the messages of the queue one by one. Each it gets through is replied to,
of whatever type it is, and a `pingtcs` twice. A reply that is too long, as it is frozen,
the queue refuses, and nobody looks at that. So there is one right reply for each call and
nothing else exactly where every message can be replied to, the right reply fits if and
only if the message is a call, and the second one to a `pingtcs` does not
(`tcServer_answers_each_iff`). -/
namespace VleoNotebook.Mess

open Proc

/-- The methods the tc-server implements. -/
def tcMethods : List String := ["pingtcs", "mqRegister"]

/-- `mq_msgsize` -/
def mqMsgsize : Nat := 8192

/-- The calls among what was received. -/
def callsOf (received : List (World × Message)) : List Message :=
  (received.filter fun p => p.2.type = .call).map Prod.snd

section Size
-- the length of a message as it is frozen
variable (size : Message → Nat)

/-- The queue takes the message. -/
def Fits (m : Message) : Prop := size m ≤ mqMsgsize

instance (m : Message) : Decidable (Fits size m) := inferInstanceAs (Decidable (_ ≤ _))

/-- What the queue takes of what is sent. -/
def mqTakes (sends : Answers) : Answers := fun s =>
  {sends s with effects := (sends s).effects.filter fun m => Fits size m}

/-- The loop with one message, and the queue behind it. -/
def tcServerTurn (cfg : Config) (w : World) (m : Message) : Answers :=
  mqTakes size (tcServer cfg w m)

/-- The loop, over the messages its queue gives, each in the world it meets. -/
def tcServerLoop (cfg : Config) : List (World × Message) → Answers :=
  each fun p => tcServerTurn size cfg p.1 p.2

/-- The loop gets through what it received, and what it sent is one right reply for each
call, in order and in its turn, and nothing else. -/
structure AnswersEach (cfg : Config) (received : List (World × Message)) : Prop where
  survives : (tcServerLoop size cfg received ()).error = none
  replies : List.Forall₂ (RepliesTo tcMethods) (tcServerLoop size cfg received ()).effects
    (callsOf received)
  turns : ∀ p ∈ received, (tcServerTurn size cfg p.1 p.2 ()).effects.length =
    if p.2.type = .call then 1 else 0

/-- A RET of the tc-server for a message. -/
def replyTo (cfg : Config) (uuid : String) (m : Message) (argval : Option Hash) (status : Status) :
    Message :=
  ⟨.ret, cfg.messMyId, cfg.tcServId, m.src, m.srcsub, uuid, m.uuid, m.method, argval, status⟩

/-- The reply a call of this kind asks for. -/
def rightReply (cfg : Config) (w : World) (m : Message) : Message :=
  if m.method = "pingtcs" then replyTo cfg w.uuid m m.argval .ok
  else if m.method = "mqRegister" then replyTo cfg w.uuid' m (some [("tm", w.now)]) .ok
  else replyTo cfg w.uuid' m m.argval .nomethod

/-- The message can be replied to, the right reply fits exactly if it is a call, and a
second one does not. -/
structure Served (cfg : Config) (w : World) (m : Message) : Prop where
  can : CanReply m
  right : Fits size (rightReply cfg w m) ↔ m.type = .call
  second : m.method = "pingtcs" → ¬ Fits size (replyTo cfg w.uuid' m m.argval .nomethod)

end Size

/-! ### One message -/

theorem tcServerReply_ok {cfg : Config} {m : Message} (h : CanReply m) (uuid : String)
    (argval : Option Hash) (status : Status) :
    tcServerReply cfg uuid m argval status = emit (replyTo cfg uuid m argval status) := by
  rw [tcServerReply, new_reply cfg.messMyId_truthy cfg.tcServId_truthy h]
  rfl

theorem tcServerReply_ok_iff (cfg : Config) (m : Message) (uuid : String) (argval : Option Hash)
    (status : Status) (s : Unit) :
    (tcServerReply cfg uuid m argval status s).error = none ↔ CanReply m := by
  by_cases hcan : CanReply m
  · simp [tcServerReply_ok hcan, hcan]
  · unfold tcServerReply
    cases hmade : Message.new uuid MsgType.ret.text cfg.tcServId cfg.messMyId m.srcsub m.src
      m.method argval status.text m.uuid with
    | error text => simp [reply, hcan]
    | ok made => exact absurd (canReply_of_new hmade) hcan

/-- The loop survives a message exactly when it can be replied to. -/
theorem tcServer_ok_iff (cfg : Config) (w : World) (m : Message) :
    (tcServer cfg w m ()).error = none ↔ CanReply m := by
  unfold tcServer
  rw [andThen_error_eq_none]
  by_cases hping : m.method = "pingtcs"
  · simp [hping, tcServerReply_ok_iff]
  · by_cases hreg : m.method = "mqRegister"
    · simp [hreg, tcServerReply_ok_iff]
    · simp [hping, hreg, tcServerReply_ok_iff]

/-- What is sent for a message: the right reply, and for a `pingtcs` another. -/
theorem tcServer_effects (cfg : Config) (w : World) {m : Message} (hcan : CanReply m) :
    (tcServer cfg w m ()).effects = rightReply cfg w m ::
      if m.method = "pingtcs" then [replyTo cfg w.uuid' m m.argval .nomethod] else [] := by
  unfold tcServer rightReply
  by_cases hping : m.method = "pingtcs"
  · have hreg : m.method ≠ "mqRegister" := by
      rw [hping]
      decide
    rw [if_pos hping, if_neg hreg, if_pos hping, if_pos hping, tcServerReply_ok hcan,
      tcServerReply_ok hcan]
    rfl
  · rw [if_neg hping, if_neg hping, if_neg hping, skip_andThen]
    by_cases hreg : m.method = "mqRegister"
    · rw [if_pos hreg, if_pos hreg, tcServerReply_ok hcan]
      rfl
    · rw [if_neg hreg, if_neg hreg, tcServerReply_ok hcan]
      rfl

theorem rightReply_repliesTo (cfg : Config) (w : World) (m : Message) :
    RepliesTo tcMethods (rightReply cfg w m) m := by
  unfold rightReply
  by_cases hping : m.method = "pingtcs"
  · rw [if_pos hping]
    exact ⟨rfl, rfl, rfl, rfl, rfl, (if_pos (by simp [hping, tcMethods])).symm⟩
  · by_cases hreg : m.method = "mqRegister"
    · rw [if_neg hping, if_pos hreg]
      exact ⟨rfl, rfl, rfl, rfl, rfl, (if_pos (by simp [hreg, tcMethods])).symm⟩
    · rw [if_neg hping, if_neg hreg]
      exact ⟨rfl, rfl, rfl, rfl, rfl, (if_neg (by simp [hping, hreg, tcMethods])).symm⟩

/-- The second reply to a `pingtcs` is not right. -/
theorem not_repliesTo_second (cfg : Config) (w : World) {m : Message}
    (hping : m.method = "pingtcs") :
    ¬ RepliesTo tcMethods (replyTo cfg w.uuid' m m.argval .nomethod) m := by
  intro h
  have hstatus := h.status
  rw [if_pos (by simp [hping, tcMethods])] at hstatus
  cases hstatus

section Turn
variable {size : Message → Nat} {cfg : Config} {w : World} {m : Message}

theorem mem_tcServerTurn {r : Message} (hcan : CanReply m) :
    r ∈ (tcServerTurn size cfg w m ()).effects ↔ (r = rightReply cfg w m ∨
      m.method = "pingtcs" ∧ r = replyTo cfg w.uuid' m m.argval .nomethod) ∧ Fits size r := by
  have hsent : (tcServerTurn size cfg w m ()).effects =
      (tcServer cfg w m ()).effects.filter fun m => Fits size m := rfl
  rw [hsent, List.mem_filter, decide_eq_true_iff, tcServer_effects cfg w hcan, List.mem_cons]
  by_cases hping : m.method = "pingtcs" <;> simp [hping]

/-- Without a second reply that fits, only the right one can arrive. -/
theorem tcServerTurn_single (hcan : CanReply m)
    (hsecond : m.method = "pingtcs" → ¬ Fits size (replyTo cfg w.uuid' m m.argval .nomethod)) :
    (tcServerTurn size cfg w m ()).effects =
      if Fits size (rightReply cfg w m) then [rightReply cfg w m] else [] := by
  have hsent : (tcServerTurn size cfg w m ()).effects =
      (tcServer cfg w m ()).effects.filter fun m => Fits size m := rfl
  rw [hsent, tcServer_effects cfg w hcan]
  by_cases hping : m.method = "pingtcs"
  · rw [if_pos hping, List.filter_cons, List.filter_singleton, decide_eq_false (hsecond hping)]
    by_cases hfits : Fits size (rightReply cfg w m) <;> simp [hfits]
  · rw [if_neg hping, List.filter_singleton]
    by_cases hfits : Fits size (rightReply cfg w m) <;> simp [hfits]

/-- **What is sent for a message is right exactly when it is served.** -/
theorem served_iff (hcan : CanReply m) :
    Served size cfg w m ↔
      (tcServerTurn size cfg w m ()).effects.length = (if m.type = .call then 1 else 0) ∧
        ∀ r ∈ (tcServerTurn size cfg w m ()).effects, RepliesTo tcMethods r m := by
  by_cases hsecond :
      m.method = "pingtcs" ∧ Fits size (replyTo cfg w.uuid' m m.argval .nomethod)
  · obtain ⟨hping, hfits⟩ := hsecond
    refine iff_of_false (fun h => h.second hping hfits) fun h => ?_
    exact not_repliesTo_second cfg w hping
      (h.2 _ ((mem_tcServerTurn hcan).mpr ⟨.inr ⟨hping, rfl⟩, hfits⟩))
  · have hnone := not_and.mp hsecond
    have hright := rightReply_repliesTo cfg w m
    have hserved : Served size cfg w m ↔ (Fits size (rightReply cfg w m) ↔ m.type = .call) :=
      ⟨fun h => h.right, fun h => ⟨hcan, h, hnone⟩⟩
    rw [hserved, tcServerTurn_single hcan hnone]
    by_cases hfits : Fits size (rightReply cfg w m) <;> by_cases hcall : m.type = .call <;>
      simp [hfits, hcall, hright]

end Turn

/-! ### The loop -/

section Loop
variable {size : Message → Nat} {cfg : Config}

theorem tcServerLoop_ok_iff (received : List (World × Message)) :
    (tcServerLoop size cfg received ()).error = none ↔ ∀ p ∈ received, CanReply p.2 := by
  unfold tcServerLoop
  rw [each_error_eq_none fun _ _ => rfl]
  exact forall₂_congr fun p _ => tcServer_ok_iff cfg p.1 p.2

/-- Where every element gives one thing if it has a property and else nothing, the things
belong to the elements that have it. -/
theorem forall₂_flatMap_filter {α β γ : Type} {R : β → γ → Prop} {f : α → List β} {p : α → Bool}
    {g : α → γ} {xs : List α} (hlen : ∀ x ∈ xs, (f x).length = if p x then 1 else 0) :
    List.Forall₂ R (xs.flatMap f) ((xs.filter p).map g) ↔ ∀ x ∈ xs, ∀ y ∈ f x, R y (g x) := by
  induction xs with
  | nil => simp
  | cons x xs ih =>
    rw [List.forall_mem_cons] at hlen
    obtain ⟨hx, hlen⟩ := hlen
    rw [List.forall_mem_cons, ← ih hlen, List.flatMap_cons]
    cases hp : p x with
    | false =>
      rw [hp, if_neg Bool.false_ne_true, List.length_eq_zero_iff] at hx
      rw [hx, List.filter_cons_of_neg (by simp [hp])]
      simp
    | true =>
      rw [hp, if_pos rfl, List.length_eq_one_iff] at hx
      obtain ⟨y, hy⟩ := hx
      rw [hy, List.filter_cons_of_pos hp, List.map_cons]
      simp

/-- **The tc-server sends one right reply for each call and nothing else if and only if
every message it receives is served**: it can be replied to, the right reply fits into the
queue exactly if it is a call, and the second one to a `pingtcs` does not. -/
theorem tcServer_answers_each_iff (size : Message → Nat) (cfg : Config)
    (received : List (World × Message)) :
    AnswersEach size cfg received ↔ ∀ p ∈ received, Served size cfg p.1 p.2 := by
  have heffects (hok : ∀ p ∈ received, CanReply p.2) :
      (tcServerLoop size cfg received ()).effects =
        received.flatMap fun p => (tcServerTurn size cfg p.1 p.2 ()).effects :=
    each_effects (fun _ _ => rfl) fun p hp => (tcServer_ok_iff cfg p.1 p.2).mpr (hok p hp)
  have hturns (h : ∀ p ∈ received, (tcServerTurn size cfg p.1 p.2 ()).effects.length =
      if p.2.type = .call then 1 else 0) :
      List.Forall₂ (RepliesTo tcMethods)
          (received.flatMap fun p => (tcServerTurn size cfg p.1 p.2 ()).effects)
          (callsOf received) ↔
        ∀ p ∈ received, ∀ r ∈ (tcServerTurn size cfg p.1 p.2 ()).effects,
          RepliesTo tcMethods r p.2 :=
    forall₂_flatMap_filter (by simpa using h)
  constructor
  · intro h
    have hcan := (tcServerLoop_ok_iff received).mp h.survives
    have hreplies := h.replies
    rw [heffects hcan, hturns h.turns] at hreplies
    exact fun p hp => (served_iff (hcan p hp)).mpr ⟨h.turns p hp, hreplies p hp⟩
  · intro h
    have hcan (p : World × Message) (hp : p ∈ received) := (h p hp).can
    have hright (p : World × Message) (hp : p ∈ received) :=
      (served_iff (hcan p hp)).mp (h p hp)
    have hlen (p : World × Message) (hp : p ∈ received) := (hright p hp).1
    refine ⟨(tcServerLoop_ok_iff received).mpr hcan, ?_, hlen⟩
    rw [heffects hcan, hturns hlen]
    exact fun p hp => (hright p hp).2

/-- What `MessMessage::new` lets a peer send never makes the loop die. -/
theorem tcServerLoop_ok_of_accepted {received : List (World × Message)}
    (h : ∀ p ∈ received, Accepted p.2) : (tcServerLoop size cfg received ()).error = none :=
  (tcServerLoop_ok_iff received).mpr fun p hp => (h p hp).canReply

end Loop

namespace Sample

/-- A call of `L1` to the tc-server. -/
def callOfTc (method : String) : Message :=
  {callOf method with dstsub := "S1"}

/-- About as long as the messages here are, frozen. -/
def frozenLength (_ : Message) : Nat := 400

end Sample

/-- A `pingtcs` is answered with `OK` and with `NOMETHOD`, and an event is answered. -/
theorem tcServer_answers_others :
    ¬ AnswersEach Sample.frozenLength Sample.m1
        [(Sample.world "a" "b", Sample.callOfTc "pingtcs")] ∧
      ((tcServerLoop Sample.frozenLength Sample.m1
        [(Sample.world "a" "b", Sample.callOfTc "pingtcs")] ()).effects.map Message.status) =
          [.ok, .nomethod] ∧
      ¬ AnswersEach Sample.frozenLength Sample.m1 [(Sample.world "a" "b", Sample.event)] := by
  refine ⟨fun h => ?_, by decide, fun h => ?_⟩
  · exact absurd h.replies.length_eq (by decide)
  · exact absurd h.replies.length_eq (by decide)

end VleoNotebook.Mess
