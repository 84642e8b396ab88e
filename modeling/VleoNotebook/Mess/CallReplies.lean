import VleoNotebook.Mess.Replies

/-! Whether a server answers each call to itself once.

The messages of all three links are flooded by the same code and differ in the local
handler: the queue's does nothing. Of the methods left to the handler the route
callback answers only `ping`; for any other it dies before the reply is built. So a
call is answered once in the one case of a new `ping` from a socket that the reply
can be made from (`call_answered_once_iff`). -/
namespace VleoNotebook.Mess

open Proc

/-- What a server receives messages from. -/
inductive Link where
  | client
  | peer
  | queue
deriving DecidableEq, Repr

/-- The main loop with a message received from a link. -/
def receiveFrom (cfg : Config) (w : World) : Link → Message → Routing
  | .client, m => fromSock cfg w m
  | .peer, m => fromSock cfg w m
  | .queue, m => fromMQ cfg w m

/-- The reply a caller waits for, from a program with these methods. -/
structure RepliesTo (implemented : List String) (reply call : Message) : Prop where
  type : reply.type = .ret
  dst : reply.dst = call.src
  dstsub : reply.dstsub = call.srcsub
  method : reply.method = call.method
  uuidorig : reply.uuidorig = call.uuid
  status : reply.status = if call.method ∈ implemented then .ok else .nomethod

/-- Exactly one reply is created, and it is the one the caller waits for. -/
def AnsweredOnce (m : Message) (es : List Effect) : Prop :=
  ∃ reply, replies es = [(reply, m)] ∧ RepliesTo ["ping"] reply m

/-- The methods the local handler never sees. -/
def handledBefore : List String := ["bcastRTE", "bcastIP_PORT", "mqRegister"]

theorem not_answeredOnce {m : Message} {es : List Effect} (h : replies es = []) :
    ¬ AnsweredOnce m es := by
  rintro ⟨reply, hone, -⟩
  rw [h] at hone
  cases hone

/-! ### The replies of a flood -/

theorem replies_routeNonlocal (localID : String) (m : Message) (r : RoutingTables) :
    replies (routeNonlocal localID m r).effects = [] :=
  replies_eq_nil fun e he => by simp [mem_routeNonlocal he]

theorem replies_noHandler (cfg : Config) (w : World) (localID : String) (m : Message)
    (r : RoutingTables) : replies (floodRoute cfg w localID m noHandler r).effects = [] := by
  refine replies_eq_nil fun e he => ?_
  rcases mem_floodRoute he with h | ⟨-, -, r', h⟩
  · simp [h]
  · cases h

/-- A new message left to the local handler leads to the replies this creates. -/
theorem replies_floodRoute {cfg : Config} {w : World} {localID : String} {m : Message}
    {handler : String → Message → Routing} {r : RoutingTables} (hnew : m.uuid ∉ r.seenUUID)
    (hself : ForSelf localID m) (hmethod : m.method ∉ handledBefore) :
    replies (floodRoute cfg w localID m handler r).effects =
      replies (handler localID m (r.see m.uuid)).effects := by
  simp only [handledBefore, List.mem_cons, List.not_mem_nil, or_false, not_or] at hmethod
  have hlocal : processLocal cfg w localID m handler (r.see m.uuid) =
      andThen (emit (.handled m)) (handler localID m) (r.see m.uuid) := by
    rw [processLocal, if_pos hself, if_neg hmethod.1, if_neg hmethod.2.1, if_neg hmethod.2.2]
  have hreplies : replies (processLocal cfg w localID m handler (r.see m.uuid)).effects =
      replies (handler localID m (r.see m.uuid)).effects := by
    rw [hlocal]
    rfl
  rw [floodRoute_of_unseen hnew, emit_andThen, ← List.singleton_append, replies_append]
  by_cases hok : (processLocal cfg w localID m handler (r.see m.uuid)).error = none
  · rw [andThen_of_ok _ hok, replies_append, replies_routeNonlocal, List.append_nil, hreplies]
    rfl
  · rw [andThen_of_error _ hok, hreplies]
    rfl

/-- The reply to a `ping` is the one waited for. -/
theorem pingReply_right (cfg : Config) (w : World) {m : Message} (hping : m.method = "ping")
    (hcan : CanReply m) (args : Hash) :
    ∃ reply, pingReply w cfg.messMyId m args = .ok reply ∧ RepliesTo ["ping"] reply m :=
  ⟨_, new_reply cfg.messMyId_truthy (by decide) hcan, rfl, rfl, rfl, rfl, rfl,
    (if_pos (List.mem_singleton.mpr hping)).symm⟩

/-- What the route callback does with a message for the server itself. -/
theorem routeCallback_answers_iff {cfg : Config} {w : World} {m : Message}
    (hself : m.dstsub = subaddrSelf) (r : RoutingTables) :
    AnsweredOnce m (routeCallback cfg w cfg.messMyId m r).effects ↔
      m.method = "ping" ∧ m.argval ≠ none ∧ CanReply m := by
  by_cases hping : m.method = "ping"
  · rw [routeCallback, if_pos hping, if_pos hself]
    cases hargs : m.argval with
    | none => exact iff_of_false (not_answeredOnce rfl) (by simp)
    | some args =>
      simp only
      by_cases hcan : CanReply m
      · obtain ⟨reply, hmade, hright⟩ := pingReply_right cfg w hping hcan args
        simp only [hmade]
        refine iff_of_true ⟨reply, ?_, hright⟩ ⟨hping, by simp, hcan⟩
        rw [emit_andThen, ← List.singleton_append, replies_append, replies_noHandler]
        rfl
      · cases hmade : pingReply w cfg.messMyId m args with
        | error text => exact iff_of_false (not_answeredOnce rfl) fun h => hcan h.2.2
        | ok reply => exact absurd (canReply_of_new hmade) hcan
  · rw [routeCallback, if_neg hping]
    exact iff_of_false (not_answeredOnce rfl) fun h => hping h.1

theorem fromSock_answers_iff {cfg : Config} {w : World} {m : Message} {r : RoutingTables}
    (hself : ForSelf cfg.messMyId m) (hmethod : m.method ∉ handledBefore) :
    AnsweredOnce m (fromSock cfg w m r).effects ↔
      m.method = "ping" ∧ m.argval ≠ none ∧ m.uuid ∉ r.seenUUID ∧ CanReply m := by
  unfold fromSock printMsg
  cases hargs : m.argval with
  | none => exact iff_of_false (not_answeredOnce rfl) (by simp)
  | some args =>
    simp only [skip_andThen]
    by_cases hseen : m.uuid ∈ r.seenUUID
    · rw [floodRoute_of_seen hseen]
      exact iff_of_false (not_answeredOnce rfl) fun h => h.2.2.1 hseen
    · rw [AnsweredOnce, replies_floodRoute hseen hself hmethod, ← AnsweredOnce,
        routeCallback_answers_iff hself.1, hargs]
      simp [hseen]

/-- **A call to the server itself is answered exactly once if and only if it is a new
`ping` by a socket** whose arguments are a hash and which a reply can be made to. So is
any other message: no link looks at the type. -/
theorem call_answered_once_iff (cfg : Config) (w : World) (link : Link) (m : Message)
    (r : RoutingTables) (hself : ForSelf cfg.messMyId m) (hmethod : m.method ∉ handledBefore) :
    AnsweredOnce m (receiveFrom cfg w link m r).effects ↔
      link ≠ .queue ∧ m.method = "ping" ∧ m.argval ≠ none ∧ m.uuid ∉ r.seenUUID ∧
        CanReply m := by
  cases link with
  | client => simpa [receiveFrom] using fromSock_answers_iff (w := w) (r := r) hself hmethod
  | peer => simpa [receiveFrom] using fromSock_answers_iff (w := w) (r := r) hself hmethod
  | queue => exact iff_of_false (not_answeredOnce fromMQ_replies) fun h => h.1 rfl

namespace Sample

/-- A call of `L1` to its server. -/
def callOf (method : String) : Message :=
  ⟨.call, "M1", "L1", "M1", subaddrSelf, "00000000-0000-11e0-0000-000000000011", "", method,
    some [], .orig⟩

end Sample

theorem call_answered_once_ping :
    AnsweredOnce (Sample.callOf "ping") (receiveFrom Sample.m1 (Sample.world "a" "b") .client
        (Sample.callOf "ping") Sample.routed).effects ↔
      Link.client ≠ .queue ∧ (Sample.callOf "ping").method = "ping" ∧
        (Sample.callOf "ping").argval ≠ none ∧
        (Sample.callOf "ping").uuid ∉ Sample.routed.seenUUID ∧ CanReply (Sample.callOf "ping") :=
  call_answered_once_iff _ _ _ _ _ (by decide) (by decide)

/-- A `status` by a socket is not answered, and a `ping` by the queue is not. -/
theorem calls_unanswered :
    ForSelf Sample.m1.messMyId (Sample.callOf "status") ∧ Accepted (Sample.callOf "status") ∧
      ¬ AnsweredOnce (Sample.callOf "status") (receiveFrom Sample.m1 (Sample.world "a" "b") .client
        (Sample.callOf "status") ⟨[], ∅⟩).effects ∧
      ForSelf Sample.m1.messMyId (Sample.callOf "ping") ∧ Accepted (Sample.callOf "ping") ∧
      ¬ AnsweredOnce (Sample.callOf "ping") (receiveFrom Sample.m1 (Sample.world "a" "b") .queue
        (Sample.callOf "ping") ⟨[], ∅⟩).effects :=
  ⟨by decide, ⟨by decide, "CALL", "", rfl⟩, not_answeredOnce rfl,
    by decide, ⟨by decide, "CALL", "", rfl⟩, not_answeredOnce rfl⟩

end VleoNotebook.Mess
