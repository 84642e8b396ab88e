import Mathlib.Algebra.BigOperators.Ring.Finset
import VleoNotebook.Mess.Flooding

/-! Replies answer calls, and how many there can be.

Three programs create replies: the route callback of a server, to a `ping`; a client,
to a `ping` that is a call; and a tc-server, to whatever it is sent. Only the client
looks at the type, so replies answer calls and nothing else in the runs in which what
the other two answer are calls (`CallsOnly`). In these runs the replies are counted:
each is paid for by a local effect under a call, or by a copy of a call sent to a
client or a tc-server, which is worth two (`Balanced`); and calls are only injected,
never created, so there are no more of these than tables have entries for each call
injected. -/
namespace VleoNotebook.Mess

open Proc

/-! ### The replies of a server -/

/-- The replies created among these effects. -/
def replies (es : List Effect) : List (Message × Message) := es.filterMap Net.reply

/-- The calls given to the local handler. -/
def handledCalls (es : List Effect) : Nat :=
  es.countP fun e => match e with
    | .handled m => decide (m.type = .call)
    | _ => false

@[simp] theorem replies_append (es es' : List Effect) :
    replies (es ++ es') = replies es ++ replies es' := List.filterMap_append

@[simp] theorem handledCalls_append (es es' : List Effect) :
    handledCalls (es ++ es') = handledCalls es + handledCalls es' := List.countP_append

theorem replies_eq_nil {es : List Effect} (h : ∀ e ∈ es, e.message ≠ none) : replies es = [] := by
  refine List.filterMap_eq_nil_iff.mpr fun e he => ?_
  cases e with
  | made reply call => exact absurd rfl (h _ he)
  | _ => rfl

theorem eq_made {e : Effect} {p : Message × Message} (h : Net.reply e = some p) :
    e = .made p.1 p.2 := by
  cases e with
  | made reply call =>
    obtain rfl := Option.some.inj h
    rfl
  | _ => cases h

/-- A flood whose handler creates no reply but to a call, and that once, creates no
more replies than it handles calls. -/
theorem floodRoute_replies_le {cfg : Config} {w : World} {localID : String} {m : Message}
    {handler : String → Message → Routing} {r : RoutingTables}
    (hh : m.uuid ∉ r.seenUUID → ForSelf localID m → ∀ r',
      (replies (handler localID m r').effects).length ≤ handledCalls [.handled m]) :
    (replies (floodRoute cfg w localID m handler r).effects).length ≤
      handledCalls (floodRoute cfg w localID m handler r).effects := by
  by_cases hseen : m.uuid ∈ r.seenUUID
  · rw [floodRoute_of_seen hseen]
    exact Nat.zero_le _
  have hlocal : (replies (processLocal cfg w localID m handler (r.see m.uuid)).effects).length ≤
      handledCalls (processLocal cfg w localID m handler (r.see m.uuid)).effects := by
    unfold processLocal
    split_ifs with hself h1 h2 hauto h3
    · exact Nat.zero_le _
    · rw [replies_eq_nil fun e he => by simp [mem_autoLink he]]
      exact Nat.zero_le _
    · exact Nat.zero_le _
    · exact Nat.zero_le _
    · rw [emit_andThen]
      calc (replies (.handled m :: (handler localID m (r.see m.uuid)).effects)).length
          = (replies (handler localID m (r.see m.uuid)).effects).length := rfl
        _ ≤ handledCalls [.handled m] := hh hseen hself _
        _ ≤ handledCalls ([.handled m] ++ (handler localID m (r.see m.uuid)).effects) := by
          rw [handledCalls_append]
          exact Nat.le_add_right _ _
    · exact Nat.zero_le _
  rw [floodRoute_of_unseen hseen, emit_andThen]
  by_cases hok : (processLocal cfg w localID m handler (r.see m.uuid)).error = none
  · have hsent : replies (routeNonlocal localID m
        (processLocal cfg w localID m handler (r.see m.uuid)).state).effects = [] :=
      replies_eq_nil fun e he => by simp [mem_routeNonlocal he]
    rw [andThen_of_ok _ hok, ← List.singleton_append]
    simp only [replies_append, handledCalls_append, List.length_append, hsent]
    have hpassed : (replies [.passed m]).length = 0 := rfl
    simp only [List.length_nil]
    omega
  · rw [andThen_of_error _ hok]
    exact hlocal

theorem routeCallback_replies_le {cfg : Config} {w : World} {localID : String} {m : Message}
    (hcall : m.method = "ping" → m.argval ≠ none → m.type = .call) (r : RoutingTables) :
    (replies (routeCallback cfg w localID m r).effects).length ≤ handledCalls [.handled m] := by
  have hnone : ∀ es : List Effect, replies es = [] →
      (replies es).length ≤ handledCalls [.handled m] := by
    intro es hes
    rw [hes]
    exact Nat.zero_le _
  unfold routeCallback
  by_cases hping : m.method = "ping"
  · rw [if_pos hping]
    by_cases hself : m.dstsub = subaddrSelf
    · rw [if_pos hself]
      cases hargs : m.argval with
      | none => exact hnone _ rfl
      | some args =>
        simp only
        cases hmade : pingReply w localID m args with
        | error text => exact hnone _ rfl
        | ok reply =>
          have hflood : replies (floodRoute cfg w localID reply noHandler r).effects = [] := by
            refine replies_eq_nil fun e he => ?_
            rcases mem_floodRoute he with h | ⟨-, -, r', h⟩
            · simp [h]
            · cases h
          have hone : handledCalls [.handled m] = 1 := by
            simp [handledCalls, hcall hping (by simp [hargs])]
          simp only [emit_andThen]
          rw [← List.singleton_append, replies_append, hflood, hone]
          exact Nat.le_refl 1
    · rw [if_neg hself]
      split_ifs
      · exact hnone _ rfl
      · exact hnone _ rfl
  · rw [if_neg hping]
    exact hnone _ rfl

/-- The message is a call, should the server answer it. -/
def CallIfAnswered (cfg : Config) (m : Message) (r : RoutingTables) : Prop :=
  m.uuid ∉ r.seenUUID → ForSelf cfg.messMyId m → m.method = "ping" → m.argval ≠ none →
    m.type = .call

instance (cfg : Config) (m : Message) (r : RoutingTables) : Decidable (CallIfAnswered cfg m r) :=
  inferInstanceAs (Decidable (_ → _ → _ → _ → _))

theorem fromSock_replies_le {cfg : Config} {w : World} {m : Message} {r : RoutingTables}
    (h : CallIfAnswered cfg m r) : (replies (fromSock cfg w m r).effects).length ≤
      handledCalls (fromSock cfg w m r).effects := by
  unfold fromSock printMsg
  cases m.argval with
  | none => exact Nat.zero_le _
  | some args =>
    simp only [skip_andThen]
    exact floodRoute_replies_le fun hseen hself r' =>
      routeCallback_replies_le (fun hping hargs => h hseen hself hping hargs) r'

/-- What a server creates answers the message, and that message is a call. -/
theorem fromSock_replies {cfg : Config} {w : World} {m : Message} {r : RoutingTables}
    (h : CallIfAnswered cfg m r) {p : Message × Message}
    (hp : p ∈ replies (fromSock cfg w m r).effects) : Answering p.1 p.2 ∧ p.2.type = .call := by
  obtain ⟨e, he, hreply⟩ := List.mem_filterMap.mp hp
  obtain rfl := eq_made hreply
  rcases mem_fromSock he with h' | ⟨reply, hseen, hself, ⟨hping, args, hargs, hmade⟩, h' | h'⟩
  · cases h'
  · cases h'
    exact ⟨(answering_of_new hmade).1, h hseen hself hping (by simp [hargs])⟩
  · cases h'

theorem fromMQ_replies {cfg : Config} {w : World} {m : Message} {r : RoutingTables} :
    replies (fromMQ cfg w m r).effects = [] :=
  replies_eq_nil fun e he => by simp [mem_fromMQ he]

/-! ### The load of a run -/

/-- The effect is about a call. -/
def Effect.isCall (e : Effect) : Bool := e.message.any fun m => decide (m.type = .call)

/-- The local effects under calls. -/
def hereCalls (es : List Effect) : Nat := es.countP fun e => e.isLocal && e.isCall

/-- The copies of calls sent. -/
def sentCalls (es : List Effect) : Nat := es.countP fun e => e.sentTo.isSome && e.isCall

/-- What pays for replies. -/
def load (es : List Effect) : Nat := hereCalls es + sentCalls es

theorem load_append (es es' : List Effect) : load (es ++ es') = load es + load es' := by
  simp only [load, hereCalls, sentCalls, List.countP_append]
  omega

/-- A copy of a call bound for a client or a tc-server. -/
def outlet {S C : Type} (c : Port S C × Message) : Bool :=
  !c.1.entrance && decide (c.2.type = .call)

/-- The actions that duplicate a copy. -/
def dups {S C : Type} (as : List (Action S C)) : Nat :=
  as.countP fun a => match a with
    | .duplicate _ _ => true
    | _ => false

/-- The UUIDs of the calls injected. -/
def calls {S C : Type} (as : List (Action S C)) : List String :=
  as.filterMap fun a => match a with
    | .inject _ m => if m.type = .call then some m.uuid else none
    | _ => none

section Network
variable {S C : Type} (N : Net S C)

theorem outlet_single (c : Port S C × Message) :
    [c].countP outlet ≤ if c.2.type = .call then 1 else 0 := by
  by_cases h : c.2.type = .call
  · rw [if_pos h]
    exact List.countP_le_length
  · simp [outlet, h]

/-- A copy that goes out is paid for by the effect that it is of. -/
theorem outlet_le_load {e : Effect} {m : Message} (hpays : e.isLocal ∨ e.sentTo.isSome)
    (hmessage : e.message = some m) (port : Port S C) :
    [(port, m)].countP outlet ≤ load [e] := by
  have hcall : e.isCall = decide (m.type = .call) := by
    rw [Effect.isCall, hmessage, Option.any_some]
  refine Nat.le_trans (outlet_single (port, m)) ?_
  rcases hpays with hlocal | hsent
  · refine Nat.le_add_right_of_le ?_
    simp [hereCalls, List.countP_cons, hlocal, hcall]
  · refine Nat.le_add_left_of_le ?_
    simp [sentCalls, List.countP_cons, hsent, hcall]

theorem load_ge_single (s : S) (e : Effect) :
    ([e].filterMap (N.copy s)).countP outlet + handledCalls [e] ≤ load [e] := by
  cases e with
  | handled m =>
    by_cases hm : m.type = .call <;>
      simp [Net.copy, List.filterMap_cons, handledCalls, load, hereCalls, sentCalls,
        Effect.isLocal, Effect.isCall, Effect.message, Effect.sentTo, hm]
  | toClient id via m => exact outlet_le_load (.inr rfl) rfl (N.port s via)
  | toPeer id via m => exact outlet_le_load (.inr rfl) rfl (N.port s via)
  | forwarded via m => exact outlet_le_load (.inl rfl) rfl (N.port s via)
  | _ => exact Nat.zero_le _

/-- What the effects of a server send out and handle is paid for. -/
theorem load_ge (s : S) (es : List Effect) :
    (es.filterMap (N.copy s)).countP outlet + handledCalls es ≤ load es := by
  induction es with
  | nil => exact Nat.le_refl 0
  | cons e es ih =>
    have hone := load_ge_single N s e
    rw [← List.singleton_append, load_append, handledCalls_append, List.filterMap_append,
      List.countP_append]
    omega

/-! ### The balance -/

/-- What the route callback and the tc-servers answer in this step are calls. -/
def CallsOnly (σ : State S C) : Action S C → Prop
  | .deliver (.sock s) m _ => CallIfAnswered (N.cfg s) m (σ.table s)
  | .deliver (.tcServer _) m _ => m.type = .call
  | _ => True

theorem calls_append (as bs : List (Action S C)) : calls (as ++ bs) = calls as ++ calls bs :=
  List.filterMap_append

theorem dups_append (past : List (Action S C)) (a : Action S C) :
    dups (past ++ [a]) = dups past + dups [a] := List.countP_append

/-- Nothing that was true of the calls so far is changed by one more action. -/
theorem mem_calls {past : List (Action S C)} {u : String} (h : u ∈ calls past)
    (a : Action S C) : u ∈ calls (past ++ [a]) := by
  rw [calls_append]
  exact List.mem_append_left _ h

instance (σ : State S C) : (a : Action S C) → Decidable (CallsOnly N σ a)
  | .deliver (.sock s) m _ =>
    inferInstanceAs (Decidable (CallIfAnswered (N.cfg s) m (σ.table s)))
  | .deliver (.tcServer _) m _ => inferInstanceAs (Decidable (m.type = .call))
  | .deliver (.mq _) _ _ => isTrue trivial
  | .deliver (.tcClient _) _ _ => isTrue trivial
  | .inject _ _ => isTrue trivial
  | .duplicate _ _ => isTrue trivial
  | .register _ _ _ _ => isTrue trivial

/-- A server's step: what it answers is a call, and pays for the answer. -/
theorem serve_replies {s : S} {w : World} {m : Message} {p : Port S C} {q : Routing}
    {σ : State S C} (hq : N.Serves s w m p q) (hok : CallsOnly N σ (.deliver p m w)) :
    (replies (q (σ.table s)).effects).length ≤ handledCalls (q (σ.table s)).effects ∧
      ∀ x ∈ replies (q (σ.table s)).effects, Answering x.1 x.2 ∧ x.2.type = .call := by
  rcases hq with ⟨rfl, rfl⟩ | ⟨rfl, rfl⟩
  · exact ⟨fromSock_replies_le hok, fun x => fromSock_replies hok⟩
  · rw [fromMQ_replies]
    exact ⟨Nat.zero_le _, by simp⟩

/-- A client's or a tc-server's step: likewise, at two replies a call. -/
theorem ask_replies {w : World} {m : Message} {p back : Port S C} {q : Answers} {σ : State S C}
    (hq : N.Asks w m p back q) (hok : CallsOnly N σ (.deliver p m w)) :
    (q ()).effects.length ≤ 2 * [(p, m)].countP outlet ∧
      (∀ r ∈ (q ()).effects, Answering r m ∧ m.type = .call) ∧ back.entrance = true := by
  have hone : m.type = .call → p.entrance = false → [(p, m)].countP outlet = 1 := by
    intro hcall hp
    simp [outlet, hcall, hp]
  rcases hq with ⟨c, rfl, rfl, rfl⟩ | ⟨s, rfl, rfl, rfl⟩
  · by_cases hcall : m.type = .call
    · obtain ⟨hanswers, hlen⟩ := tcClient_answers (N.myId c) (N.myMessId c) w m ()
      rw [hone hcall rfl]
      exact ⟨Nat.le_trans hlen (Nat.le_succ 1), fun r hr => ⟨(hanswers r hr).1, hcall⟩, rfl⟩
    · rw [tcClient_not_call hcall]
      exact ⟨Nat.zero_le _, by simp, rfl⟩
  · obtain ⟨hanswers, hlen⟩ := tcServer_answers (N.cfg s) w m ()
    rw [hone hok rfl]
    exact ⟨hlen, fun r hr => ⟨(hanswers r hr).1, hok⟩, rfl⟩

variable [DecidableEq S] [DecidableEq C]

/-- A copy taken out of flight no longer owes its replies. -/
theorem countP_take {σ : State S C} {p : Port S C} {m : Message} {w : World}
    (h : (p, m) ∈ σ.flight) :
    (Net.take σ p m w).flight.countP outlet + [(p, m)].countP outlet =
      σ.flight.countP outlet := by
  rw [(List.perm_cons_erase h).countP_eq, Nat.add_comm]
  change _ = ([(p, m)] ++ σ.flight.erase (p, m)).countP outlet
  rw [List.countP_append]
  rfl

variable [Fintype S]

/-- After these actions: calls are the ones injected, what was answered were calls,
and the replies are paid for, those to the copies still in flight included. -/
structure Balanced (past : List (Action S C)) (σ : State S C) : Prop where
  flight : ∀ c ∈ σ.flight, c.2.type = .call → c.2.uuid ∈ calls past
  log : ∀ s, ∀ e ∈ σ.log s, ∀ m, e.message = some m → m.type = .call → m.uuid ∈ calls past
  answers : ∀ p ∈ σ.made, Answering p.1 p.2 ∧ p.2.type = .call
  balance : σ.made.length + 2 * σ.flight.countP outlet ≤ 2 * (dups past + ∑ s, load (σ.log s))

omit [DecidableEq S] [DecidableEq C] in
theorem balanced_start (routes : S → Routes) : Balanced [] (State.start routes : State S C) := by
  constructor <;> simp [State.start]

theorem sum_load_perform (s : S) (q : Routing) (σ : State S C) :
    ∑ t, load ((N.perform s q σ).log t) =
      ∑ t, load (σ.log t) + load (q (σ.table s)).effects := by
  rw [← Finset.add_sum_erase _ _ (Finset.mem_univ s),
    ← Finset.add_sum_erase _ (fun t => load (σ.log t)) (Finset.mem_univ s)]
  have hrest : ∑ t ∈ Finset.univ.erase s, load ((N.perform s q σ).log t) =
      ∑ t ∈ Finset.univ.erase s, load (σ.log t) :=
    Finset.sum_congr rfl fun t ht => by
      rw [Net.perform_log_ne s q σ (Finset.ne_of_mem_erase ht)]
  rw [hrest, Net.perform_log_self, load_append]
  omega

section Step
variable {N} {past : List (Action S C)} {σ : State S C} (h : Balanced past σ)
include h

omit [DecidableEq S] [DecidableEq C] in
theorem Balanced.mem_log {s : S} {e : Effect} {x : Message} (a : Action S C) (he : e ∈ σ.log s)
    (hx : e.message = some x) (hcall : x.type = .call) : x.uuid ∈ calls (past ++ [a]) :=
  mem_calls (h.log s e he x hx hcall) a

omit [DecidableEq S] [DecidableEq C] in
theorem Balanced.inject {p : Port S C} {m : Message} (hp : p.entrance = true) :
    Balanced (past ++ [.inject p m])
      {σ with flight := (p, m) :: σ.flight, used := m.uuid :: σ.used} := by
  refine ⟨fun c hc hcall => ?_, fun s e he x hx hcall => h.mem_log _ he hx hcall, h.answers, ?_⟩
  · rcases List.mem_cons.mp hc with rfl | hc
    · rw [calls_append]
      exact List.mem_append_right _ (by simpa [calls] using hcall)
    · exact mem_calls (h.flight c hc hcall) _
  · have hnone : outlet (p, m) = false := by simp [outlet, hp]
    have hbalance := h.balance
    rw [List.countP_cons_of_neg (by simp [hnone]), dups_append]
    simp only at hbalance ⊢
    omega

omit [DecidableEq S] [DecidableEq C] in
/-- A copy more owes its replies, and the duplication pays for them. -/
theorem Balanced.duplicate {p : Port S C} {m : Message} (hflight : (p, m) ∈ σ.flight) :
    Balanced (past ++ [.duplicate p m]) {σ with flight := (p, m) :: σ.flight} := by
  refine ⟨fun c hc hcall => mem_calls ?_ _, fun s e he x hx hcall => h.mem_log _ he hx hcall,
    h.answers, ?_⟩
  · rcases List.mem_cons.mp hc with rfl | hc
    · exact h.flight _ hflight hcall
    · exact h.flight c hc hcall
  · have hone : [(p, m)].countP outlet ≤ 1 := List.countP_le_length
    have hmore : ((p, m) :: σ.flight).countP outlet =
        [(p, m)].countP outlet + σ.flight.countP outlet := by
      rw [← List.singleton_append, List.countP_append]
    have hdup : dups [Action.duplicate p m] = 1 := rfl
    have hbalance := h.balance
    simp only [hmore, dups_append, hdup] at hbalance ⊢
    omega

/-- A new entry of a table has no effects. -/
theorem Balanced.register (s : S) (id : String) (sock : Nat) (type : RouteType) :
    Balanced (past ++ [.register s id sock type])
      (N.perform s (lRoute id (.sock sock) type.text) σ) := by
  have hnone := lRoute_effects id (.sock sock) type.text (σ.table s)
  refine ⟨fun c hc hcall => mem_calls (h.flight c ?_ hcall) _,
    fun t e he x hx hcall => h.mem_log (s := t) _ ?_ hx hcall, fun x hx => h.answers x ?_, ?_⟩
  · rwa [Net.perform_quiet_flight hnone] at hc
  · rwa [Net.perform_quiet_log hnone] at he
  · rwa [Net.perform_quiet_made hnone] at hx
  · have hbalance := h.balance
    rw [Net.perform_quiet_log hnone, Net.perform_quiet_flight hnone,
      Net.perform_quiet_made hnone, dups_append]
    omega

/-- The copy that is answered pays for the answers. -/
theorem Balanced.ask {p back : Port S C} {m : Message} {w : World} {q : Answers}
    (hok : CallsOnly N σ (.deliver p m w)) (hflight : (p, m) ∈ σ.flight)
    (hq : N.Asks w m p back q) :
    Balanced (past ++ [.deliver p m w]) (Net.answer p.node back m q (Net.take σ p m w)) := by
  obtain ⟨hlen, hanswers, hback⟩ := ask_replies N hq hok
  refine ⟨fun c hc hcall => ?_, fun s e he x hx hcall => h.mem_log _ he hx hcall,
    fun x hx => ?_, ?_⟩
  · obtain hc | ⟨r, hr, rfl⟩ := Net.mem_answer_flight hc
    · exact mem_calls (h.flight c (Net.mem_take_flight hc) hcall) _
    · rw [(hanswers r hr).1.1] at hcall
      cases hcall
  · rcases List.mem_append.mp hx with hx | hx
    · exact h.answers x hx
    · obtain ⟨r, hr, rfl⟩ := List.mem_map.mp hx
      exact hanswers r hr
  · have hnone : ((q ()).effects.map fun r => (back, r)).countP outlet = 0 := by
      refine List.countP_eq_zero.mpr fun c hc => ?_
      obtain ⟨r, -, rfl⟩ := List.mem_map.mp hc
      simp [outlet, hback]
    have htake := countP_take (w := w) hflight
    have hbalance := h.balance
    simp only [Net.answer, List.length_append, List.length_map, List.countP_append, hnone,
      dups_append]
    simp only [Net.take] at htake ⊢
    omega

/-- The calls a server handles pay for what it creates and for what it sends on. -/
theorem Balanced.serve {p : Port S C} {m : Message} {w : World} {s : S} {q : Routing}
    (hok : CallsOnly N σ (.deliver p m w)) (hflight : (p, m) ∈ σ.flight)
    (hq : N.Serves s w m p q) :
    Balanced (past ++ [.deliver p m w]) (N.perform s q (Net.take σ p m w)) := by
  obtain ⟨hlen, hanswers⟩ := serve_replies N hq hok
  have hcalls : ∀ e ∈ (q (σ.table s)).effects, ∀ x, e.message = some x → x.type = .call →
      x.uuid ∈ calls past := fun e he x hx =>
    hq.about (P := fun x => x.type = .call → x.uuid ∈ calls past) (h.flight _ hflight)
      (fun r htype _ hcall => by rw [htype] at hcall; cases hcall) he hx
  refine ⟨fun c hc hcall => mem_calls ?_ _, fun t e he x hx hcall => mem_calls ?_ _,
    fun x hx => ?_, ?_⟩
  · obtain hc | ⟨e, he, hcopy⟩ := Net.mem_perform_flight hc
    · exact h.flight c (Net.mem_take_flight hc) hcall
    · exact hcalls e he c.2 hcopy hcall
  · obtain he | he := Net.mem_perform_log he
    · exact h.log t e he x hx hcall
    · exact hcalls e he x hx hcall
  · rcases List.mem_append.mp hx with hx | hx
    · exact h.answers x hx
    · exact hanswers x hx
  · have htake := countP_take (w := w) hflight
    have hload := load_ge N s (q (σ.table s)).effects
    have hbalance := h.balance
    rw [sum_load_perform, Net.perform_flight, Net.perform_made, List.length_append,
      List.countP_append, dups_append]
    simp only [replies, Net.take] at hlen hload htake ⊢
    omega

end Step

/-- **A step in which only calls are answered keeps the balance.** -/
theorem balanced_step (past : List (Action S C)) (σ : State S C) (a : Action S C)
    (σ' : State S C) (h : Balanced past σ) (hok : CallsOnly N σ a)
    (hstep : N.step σ a = some σ') : Balanced (past ++ [a]) σ' := by
  cases N.stepped hstep with
  | inject p m hp => exact h.inject hp
  | duplicate p m hflight => exact h.duplicate hflight
  | register s id sock type => exact h.register s id sock type
  | ask p m w back q hflight halive hfresh hq => exact h.ask hok hflight hq
  | serve p m w s q hflight halive hfresh hq => exact h.serve hok hflight hq

/-! ### The bound -/

omit [DecidableEq S] [DecidableEq C] [Fintype S] in
/-- Effects under few UUIDs, few under each, are few. -/
theorem countP_le_mul {es : List Effect} {k : Nat} {us : List String} {p : Effect → Bool}
    (hmem : ∀ e ∈ es, p e = true → ∃ u ∈ us, e.about = some u)
    (hk : ∀ u, (es.countP fun e => e.about == some u && p e) ≤ k) :
    es.countP p ≤ us.length * k := by
  induction us generalizing p with
  | nil =>
    have hzero : es.countP p = 0 := by
      refine List.countP_eq_zero.mpr fun e he hp => ?_
      obtain ⟨u, hu, -⟩ := hmem e he hp
      cases hu
    rw [hzero]
    exact Nat.zero_le _
  | cons u us ih =>
    have hsplit := List.countP_eq_countP_filter_add es p fun e => e.about == some u
    simp only [List.countP_filter] at hsplit
    have hthis : (es.countP fun e => p e && e.about == some u) ≤ k := by
      simpa only [Bool.and_comm] using hk u
    have hrest : (es.countP fun e => p e && !(e.about == some u)) ≤ us.length * k := by
      refine ih (fun e he hp => ?_) fun v => Nat.le_trans (List.countP_mono_left ?_) (hk v)
      · simp only [Bool.and_eq_true, Bool.not_eq_true', beq_eq_false_iff_ne] at hp
        obtain ⟨v, hv, habout⟩ := hmem e he hp.1
        refine ⟨v, (List.mem_cons.mp hv).resolve_left ?_, habout⟩
        rintro rfl
        exact hp.2 habout
      · intro e _ he
        simp only [Bool.and_eq_true] at he ⊢
        exact ⟨he.1, he.2.1⟩
    rw [List.length_cons, Nat.succ_mul]
    omega

omit [DecidableEq S] [DecidableEq C] in
/-- One local effect for each call, and one copy for each entry and call. -/
theorem load_le {past : List (Action S C)} {σ : State S C} (h : Balanced past σ)
    (hsound : AllSound σ) (s : S) :
    load (σ.log s) ≤ (calls past).length * (1 + (σ.table s).localRoutes.entries.length) := by
  have hcall : ∀ e ∈ σ.log s, e.isCall = true → ∃ u ∈ calls past, e.about = some u := by
    intro e he hc
    obtain ⟨m, hm, htype⟩ := (Option.any_eq_true _ _).mp hc
    refine ⟨m.uuid, h.log s e he m hm (of_decide_eq_true htype), ?_⟩
    rw [Effect.about_eq, hm]
    rfl
  have hhere : hereCalls (σ.log s) ≤ (calls past).length * 1 := by
    refine countP_le_mul (fun e he hp => hcall e he (Bool.and_eq_true_iff.mp hp).2) fun u =>
      Nat.le_trans (List.countP_mono_left ?_) ((hsound s).once .here u)
    intro e _ he
    simp only [Bool.and_eq_true] at he ⊢
    exact ⟨he.1, he.2.1⟩
  have hsent : sentCalls (σ.log s) ≤
      (calls past).length * (σ.table s).localRoutes.entries.length := by
    refine countP_le_mul (fun e he hp => hcall e he (Bool.and_eq_true_iff.mp hp).2) fun u =>
      Nat.le_trans (List.countP_mono_left ?_) ((hsound s).copies_le u)
    intro e _ he
    simp only [Bool.and_eq_true] at he ⊢
    exact ⟨he.1, he.2.1⟩
  rw [load, Nat.mul_add]
  exact Nat.add_le_add hhere hsent

/-- **Replies answer calls, and there are finitely many.** In every run in which what
the route callbacks and the tc-servers answer are calls, each reply created is a RET
that carries the UUID of a call; and apart from duplicates no more are created than
two for each server and each entry of a table, for each call injected. -/
theorem replies_answer_calls (routes : S → Routes) (as : List (Action S C)) (σ : State S C)
    (h : Runs.run N.step (State.start routes) as = some σ)
    (hok : Runs.Meets N.step (CallsOnly N) (State.start routes) as) :
    (∀ p ∈ σ.made, p.1.type = .ret ∧ p.1.uuidorig = p.2.uuid ∧ p.2.type = .call) ∧
      σ.made.length ≤ 2 * (dups as + (calls as).length *
        (Fintype.card S + ∑ s, (σ.table s).localRoutes.entries.length)) := by
  have hend : Balanced as σ :=
    Runs.meets_history (balanced_step N) (balanced_start routes) hok h
  refine ⟨fun p hp => ?_, ?_⟩
  · obtain ⟨⟨htype, huuid⟩, hcall⟩ := hend.answers p hp
    exact ⟨htype, huuid, hcall⟩
  · have hload : ∑ s, load (σ.log s) ≤ (calls as).length *
        (Fintype.card S + ∑ s, (σ.table s).localRoutes.entries.length) := by
      calc ∑ s, load (σ.log s)
          ≤ ∑ s, (calls as).length * (1 + (σ.table s).localRoutes.entries.length) :=
            Finset.sum_le_sum fun s _ => load_le hend (allSound_run N h) s
        _ = (calls as).length *
              (Fintype.card S + ∑ s, (σ.table s).localRoutes.entries.length) := by
            rw [← Finset.mul_sum, Finset.sum_add_distrib, Finset.sum_const, Finset.card_univ,
              Nat.nsmul_eq_mul, Nat.mul_one]
    have hbalance := hend.balance
    omega

end Network

theorem replies_answer_calls_pinging : ∃ σ,
    Runs.run Sample.net.step (State.start Sample.routes) Sample.pinging = some σ ∧
      (∀ p ∈ σ.made, p.1.type = .ret ∧ p.1.uuidorig = p.2.uuid ∧ p.2.type = .call) ∧
      σ.made.length ≤ 2 * (dups Sample.pinging + (calls Sample.pinging).length *
        (Fintype.card Bool + ∑ s, (σ.table s).localRoutes.entries.length)) := by
  obtain ⟨σ, h⟩ := Option.isSome_iff_exists.mp
    (by decide : (Runs.run Sample.net.step (State.start Sample.routes) Sample.pinging).isSome)
  exact ⟨σ, h, replies_answer_calls Sample.net Sample.routes Sample.pinging σ h (by decide)⟩

namespace Sample

/-- An event `ping` from the client `L1` to its server. -/
def event : Message :=
  ⟨.event, "M1", "L1", "M1", subaddrSelf, "00000000-0000-11e0-0000-00000000000b", "", "ping",
    some [("tm", "1300000000.25")], .orig⟩

/-- It enters `M1`, which answers; the reply goes to the client. -/
def eventPinging : List (Action Bool Unit) :=
  [.inject (.sock false) event,
    .deliver (.sock false) event (world "00000000-0000-11e0-0000-00000000000c" "d")]

/-- A call from the tc-server of `M2` to the tc-server of `M1`, and the RET it gets,
which the caller answers in turn. -/
def crossCall : Message :=
  ⟨.call, "M2", "S2", "M1", "S1", "00000000-0000-11e0-0000-00000000000e", "", "echo", some [],
    .orig⟩

def crossRet : Message :=
  ⟨.ret, "M1", "S1", "M2", "S2", "00000000-0000-11e0-0000-00000000000f", crossCall.uuid, "echo",
    some [], .nomethod⟩

def crossRetRet : Message :=
  ⟨.ret, "M2", "S2", "M1", "S1", "00000000-0000-11e0-0000-000000000010", crossRet.uuid, "echo",
    some [], .nomethod⟩

def crossing : List (Action Bool Unit) :=
  [.inject (.mq true) crossCall, .deliver (.mq true) crossCall (world "a" "b"),
    .deliver (.sock false) crossCall (world "c" "d"),
    .deliver (.tcServer false) crossCall (world "e" crossRet.uuid),
    .deliver (.mq false) crossRet (world "f" "g"), .deliver (.sock true) crossRet (world "h" "i"),
    .deliver (.tcServer true) crossRet (world "j" crossRetRet.uuid)]

end Sample

/-- An event is answered, and so is a RET. -/
theorem replies_answer_others :
    ((Runs.run Sample.net.step (State.start Sample.routes) Sample.eventPinging).any fun σ =>
      σ.made.any fun p => p.1.type = .ret ∧ p.1.uuidorig = Sample.event.uuid ∧
        p.2 = Sample.event ∧ p.2.type ≠ .call) = true ∧
    ((Runs.run Sample.net.step (State.start Sample.routes) Sample.crossing).any fun σ =>
      (Sample.crossRetRet, Sample.crossRet) ∈ σ.made ∧ Sample.crossRet.type = .ret ∧
        (.mq true, Sample.crossRetRet) ∈ σ.flight) = true := by
  decide

end VleoNotebook.Mess
