import VleoNotebook.Mess.Consistency
import VleoNotebook.Mess.TcServer

/-! A MESS server and its tc-server over their two message queues (`TwoWayMQLink.pm`).

Each queue holds ten messages. The server reads its queue without waiting, until it is
empty, and then takes one message from each connection that is ready; to send it waits
for room. The tc-server waits for a message and waits for room for each of its replies,
of which a `pingtcs` has two. So the two can wait for each other, each with its own
queue full (`Deadlocked`). Between two readings of its queue the server can put in as
many messages as connections are ready, and it is this number that decides
(`tcLink_deadlockFree_iff`). -/
namespace VleoNotebook.Mess

open Proc

/-- `mq_maxmsg` -/
def mqMaxmsg : Nat := 10

/-- What an effect puts into the queue to the tc-server. -/
def toMq : Effect → Option Message
  | .toClient _ .mq m | .forwarded .mq m => some m
  | _ => none

/-- The messages put into the queue to the tc-server. -/
def mqs (es : List Effect) : List Message := es.filterMap toMq

/-- Where the server is in a turn of its loop: before `select`, reading its queue, or
going through the sockets found ready. -/
inductive Phase where
  | select
  | queue (ready : List Nat)
  | socks (ready : List Nat)
deriving DecidableEq, Repr

structure TcLink where
  server : Server
  phase : Phase
  /-- What the server still has to send to the tc-server before it goes on. -/
  sending : List Message
  toTcs : List Message
  toMess : List Message
  /-- What the tc-server still has to send before it takes the next message. -/
  replying : List Message
  tcsDied : Option String

inductive LinkAction where
  /-- The server announces itself, and `select` finds these sockets ready. -/
  | wake (w : World) (ready : List Nat)
  | recv (w : World) (answer : Option String)
  /-- The queue is found empty. -/
  | drained
  /-- The next ready socket is dealt with. -/
  | handle (e : Event)
  | done
  | send
  | tcsRecv (w : World)
  | tcsSend

namespace TcLink

/-- The event is one of this socket. -/
def handles (cfg : LoopConfig) (sock : Nat) : Event → Bool
  | .accept _ _ _ => sock == cfg.serverSock
  | .receive n _ _ _ => sock == n
  | .close n => sock == n
  | _ => false

/-- The server takes an event, and has to send what this puts into the queue. -/
def serve (cfg : LoopConfig) (e : Event) (phase : Phase) (σ : TcLink) : Option TcLink :=
  (Server.step cfg σ.server e).map fun server => {σ with
    server := server
    phase := phase
    sending := mqs (Server.effects cfg σ.server e)}

/-- `mq_send`: a message that is too long is refused, and one there is no room for has to
wait. Nobody looks at what it returns. -/
def mqSend (size : Message → Nat) (queue : List Message) (m : Message) : Option (List Message) :=
  if mqMsgsize < size m then some queue
  else if queue.length < mqMaxmsg then some (queue ++ [m])
  else none

variable (cfg : LoopConfig) (size : Message → Nat)

def step (σ : TcLink) : LinkAction → Option TcLink
  | .wake w ready =>
    if σ.phase = .select ∧ σ.sending = [] ∧ ready.Nodup ∧ ready ⊆ σ.server.readSet then
      serve cfg (.bcastLocalIpPort w) (.queue ready) σ
    else none
  | .recv w answer =>
    match σ.phase, σ.sending, σ.toMess with
    | .queue ready, [], m :: rest =>
      serve cfg (.fromMQ m w answer) (.queue ready) {σ with toMess := rest}
    | _, _, _ => none
  | .drained =>
    match σ.phase, σ.sending, σ.toMess with
    | .queue ready, [], [] => some {σ with phase := .socks ready}
    | _, _, _ => none
  | .handle e =>
    match σ.phase, σ.sending with
    | .socks (sock :: ready), [] =>
      if handles cfg sock e then serve cfg e (.socks ready) σ else none
    | _, _ => none
  | .done =>
    match σ.phase, σ.sending with
    | .socks [], [] => some {σ with phase := .select}
    | _, _ => none
  | .send =>
    match σ.sending with
    | [] => none
    | m :: rest => (mqSend size σ.toTcs m).map fun queue =>
      {σ with toTcs := queue, sending := rest}
  | .tcsRecv w =>
    match σ.replying, σ.toTcs with
    | [], m :: rest =>
      if σ.tcsDied = none then
        let a := tcServer cfg.toConfig w m ()
        some {σ with toTcs := rest, replying := a.effects, tcsDied := a.error}
      else none
    | _, _ => none
  | .tcsSend =>
    match σ.replying with
    | [] => none
    | r :: rest => (mqSend size σ.toMess r).map fun queue =>
      {σ with toMess := queue, replying := rest}

/-- The registration at the tc-server, with which the server starts. -/
def registration (boot : Boot) : Ran RoutingTables Effect :=
  andThen (lRoute cfg.tcServId .mq RouteType.tcs.text) (Server.mqRegister cfg boot.w) ⟨[], ∅⟩

/-- Both programs have been started: the server is about to send its registration. The queues
are taken to be empty then, though they outlive the programs and may hold messages of an
earlier run. -/
def start (boot : Boot) : TcLink where
  server := Server.startup cfg boot
  phase := .select
  sending := mqs (registration cfg boot).effects
  toTcs := []
  toMess := []
  replying := []
  tcsDied := none

/-- Each of the two has something to send and no room for it. -/
def Deadlocked (σ : TcLink) : Prop :=
  (σ.sending ≠ [] ∧ step cfg size σ .send = none) ∧
    σ.replying ≠ [] ∧ step cfg size σ .tcsSend = none

instance (σ : TcLink) : Decidable (Deadlocked cfg size σ) :=
  inferInstanceAs (Decidable ((_ ∧ _) ∧ _ ∧ _))

/-- The ready sockets that are connections. -/
def connections (ready : List Nat) : Nat := ready.countP (· ≠ cfg.serverSock)

/-- The message claims to come from the tc-server of this server, which is where a reply
to it would go. -/
def InItsName (cfg : Config) (m : Message) : Prop := m.src = cfg.messMyId ∧ m.srcsub = cfg.tcServId

instance (cfg : Config) (m : Message) : Decidable (InItsName cfg m) :=
  inferInstanceAs (Decidable (_ ∧ _))

/-- No more than `k` connections are ready at a time, and what they bring is not sent in
the tc-server's name. -/
def AtMost (k : Nat) (_ : TcLink) : LinkAction → Prop
  | .wake _ ready => connections cfg ready ≤ k
  | .handle (.receive _ m _ _) => ¬ InItsName cfg.toConfig m
  | _ => True

instance (k : Nat) (σ : TcLink) : (a : LinkAction) → Decidable (AtMost cfg k σ a)
  | .wake _ _ => inferInstanceAs (Decidable (_ ≤ _))
  | .handle (.receive _ _ _ _) => inferInstanceAs (Decidable (¬ _))
  | .handle (.accept _ _ _) | .handle (.fromMQ _ _ _) | .handle (.close _)
  | .handle (.bcastLocalIpPort _) => isTrue trivial
  | .recv _ _ | .drained | .done | .send | .tcsRecv _ | .tcsSend => isTrue trivial

theorem AtMost.mono {j k : Nat} (hjk : j ≤ k) {σ : TcLink} {a : LinkAction}
    (h : AtMost cfg j σ a) : AtMost cfg k σ a := by
  cases a with
  | wake w ready => exact Nat.le_trans h hjk
  | handle e => cases e <;> exact h
  | _ => trivial

end TcLink

/-! ### What a processing puts into the queue -/

@[simp] theorem mqs_append (es es' : List Effect) : mqs (es ++ es') = mqs es ++ mqs es' :=
  List.filterMap_append

@[simp] theorem mqs_nil : mqs [] = [] := rfl

theorem mqs_eq_nil {es : List Effect} (h : ∀ e ∈ es, toMq e = none) : mqs es = [] :=
  List.filterMap_eq_nil_iff.mpr h

/-- Only the tc-server is reached by the queue. -/
def MqOnly (tcServId : String) (routes : Routes) : Prop :=
  ∀ e ∈ routes.entries, e.2.sock = .mq → e.1 = tcServId

theorem mqOnly_insert {tcServId id : String} {routes : Routes} (h : MqOnly tcServId routes)
    (n : Nat) (type : RouteType) : MqOnly tcServId (routes.insert id ⟨.sock n, type⟩) := by
  intro e he hmq
  rw [AList.entries_insert, List.mem_cons] at he
  rcases he with rfl | he
  · cases hmq
  · exact h e ((List.kerase_sublist id routes.entries).subset he) hmq

/-- Sending on puts at most one message into the queue, and only one for the tc-server. -/
theorem mqs_routeNonlocal (localID : String) (m : Message) (r : RoutingTables) :
    mqs (routeNonlocal localID m r).effects = [] ∨
      mqs (routeNonlocal localID m r).effects = [m] ∧ m.dst = localID ∧ m.dstsub ≠ subaddrSelf ∧
        r.localRoutes.lookup m.dstsub = some ⟨.mq, .tcs⟩ := by
  have hdata : ∀ via e, (∀ n, via = .sock n → toMq e = none) → mqs (sendData via e r).effects = [] := by
    intro via e he
    cases via with
    | sock n => exact mqs_eq_nil fun e' he' => List.mem_singleton.mp he' ▸ he n rfl
    | mq => rfl
  unfold routeNonlocal
  cases hc : clientRoute localID m.dst m.dstsub r with
  | some route =>
    obtain ⟨sock, type⟩ := route
    cases type with
    | mess => exact .inl rfl
    | tcc => exact .inl (hdata sock _ fun n hn => by rw [hn]; rfl)
    | tcs =>
      cases sock with
      | sock n => exact .inl rfl
      | mq =>
        unfold clientRoute at hc
        split at hc
        · rename_i hlocal
          exact .inr ⟨rfl, hlocal.1, hlocal.2, hc⟩
        · cases hc
  | none =>
    refine .inl ?_
    cases peerRoute m.dst r with
    | some route => exact hdata _ _ fun _ _ => rfl
    | none =>
      refine mqs_eq_nil fun e he => ?_
      obtain ⟨entry, -, he⟩ := List.mem_flatMap.mp
        ((each_effects_sublist (floodPeer_state m) _ r).subset he)
      rw [mem_floodPeer he]
      rfl

theorem mqs_autoLink (w : World) (localID : String) (m : Message) (r : RoutingTables) :
    mqs (autoLink w localID m r).effects = [] := by
  unfold autoLink
  cases m.argval with
  | none => rfl
  | some args =>
    simp only
    split
    · cases w.newClient (args.get "ip") (args.get "port") with
      | error text => rfl
      | ok n =>
        simp only [emit_andThen, lRoute_effects]
        rfl
    · rfl

/-- A flood puts what its handler does into the queue, or else at most the message. -/
theorem mqs_floodRoute {cfg : Config} {w : World} {localID : String} {m : Message}
    {handler : String → Message → Routing} {r : RoutingTables} :
    mqs (floodRoute cfg w localID m handler r).effects = [] ∨
      (ForSelf localID m ∧ ∃ r', mqs (floodRoute cfg w localID m handler r).effects =
        mqs (handler localID m r').effects) ∨
      mqs (floodRoute cfg w localID m handler r).effects = [m] ∧ m.dst = localID ∧
        m.dstsub ≠ subaddrSelf ∧ r.localRoutes.lookup m.dstsub = some ⟨.mq, .tcs⟩ := by
  by_cases hseen : m.uuid ∈ r.seenUUID
  · rw [floodRoute_of_seen hseen]
    exact .inl rfl
  rw [floodRoute_of_unseen hseen, emit_andThen]
  by_cases hself : ForSelf localID m
  · have hnonlocal : ∀ r', mqs (routeNonlocal localID m r').effects = [] := fun r' =>
      (mqs_routeNonlocal localID m r').resolve_right fun h => h.2.2.1 hself.1
    have hall : mqs (Effect.passed m :: (andThen (processLocal cfg w localID m handler)
        (routeNonlocal localID m) (r.see m.uuid)).effects) =
        mqs (processLocal cfg w localID m handler (r.see m.uuid)).effects := by
      rw [← List.singleton_append, mqs_append]
      by_cases hok : (processLocal cfg w localID m handler (r.see m.uuid)).error = none
      · rw [andThen_of_ok _ hok, mqs_append, hnonlocal, List.append_nil]
        rfl
      · rw [andThen_of_error _ hok]
        rfl
    rw [hall]
    unfold processLocal
    rw [if_pos hself]
    split_ifs with h1 h2 hauto h3
    · exact .inl rfl
    · exact .inl (mqs_autoLink w localID m _)
    · exact .inl rfl
    · exact .inl rfl
    · exact .inr (.inl ⟨hself, r.see m.uuid, rfl⟩)
  · have hlocal : processLocal cfg w localID m handler = skip := by rw [processLocal, if_neg hself]
    rw [hlocal, skip_andThen]
    exact (mqs_routeNonlocal localID m (r.see m.uuid)).imp_right .inr

/-- A handler that does nothing adds nothing. -/
theorem mqs_noHandler (cfg : Config) (w : World) (localID : String) (m : Message)
    (r : RoutingTables) :
    mqs (floodRoute cfg w localID m noHandler r).effects = [] ∨
      mqs (floodRoute cfg w localID m noHandler r).effects = [m] ∧ m.dst = localID ∧
        m.dstsub ≠ subaddrSelf ∧ r.localRoutes.lookup m.dstsub = some ⟨.mq, .tcs⟩ := by
  obtain h | ⟨-, r', h⟩ | h := @mqs_floodRoute cfg w localID m noHandler r
  · exact .inl h
  · exact .inl h
  · exact .inr h

theorem mqs_printed (m : Message) (q : Routing) (r : RoutingTables) :
    mqs (andThen (printMsg m) q r).effects = [] ∨
      mqs (andThen (printMsg m) q r).effects = mqs (q r).effects := by
  unfold printMsg
  cases m.argval with
  | none => exact .inl rfl
  | some args => exact .inr (by rw [skip_andThen])

/-- From the queue only a message for the tc-server goes back into the other one. -/
theorem mqs_fromMQ (cfg : Config) (w : World) (m : Message) (r : RoutingTables) :
    mqs (fromMQ cfg w m r).effects = [] ∨ m.dst = cfg.messMyId ∧
      r.localRoutes.lookup m.dstsub = some ⟨.mq, .tcs⟩ := by
  rcases mqs_printed m (floodRoute cfg w cfg.messMyId m noHandler) r with h | h
  · exact .inl h
  · rcases mqs_noHandler cfg w cfg.messMyId m r with h' | ⟨-, hdst, -, hroute⟩
    · exact .inl (h.trans h')
    · exact .inr ⟨hdst, hroute⟩

/-- The route callback puts in a reply of the server, if anything. -/
theorem mqs_routeCallback {cfg : Config} {w : World} {m : Message} (hself : m.dstsub = subaddrSelf)
    (r : RoutingTables) :
    mqs (routeCallback cfg w cfg.messMyId m r).effects = [] ∨
      ∃ x, mqs (routeCallback cfg w cfg.messMyId m r).effects = [x] ∧ x.srcsub = subaddrSelf := by
  unfold routeCallback
  simp only [if_pos hself]
  split
  · cases m.argval with
    | none => exact .inl rfl
    | some args =>
      simp only
      cases hmade : pingReply w cfg.messMyId m args with
      | error text => exact .inl rfl
      | ok reply =>
        have hsub : reply.srcsub = subaddrSelf := by
          obtain ⟨t, st, -, -, -, -, rfl⟩ := Message.new_eq_ok.mp hmade
          rfl
        simp only [emit_andThen]
        rcases mqs_noHandler cfg w cfg.messMyId reply r with h | ⟨h, -⟩
        · exact .inl h
        · exact .inr ⟨reply, h, hsub⟩
  · exact .inl rfl

/-- **A message from a connection puts at most one message into the queue**: itself, or
a reply of the server. -/
theorem mqs_fromSock (cfg : Config) (w : World) (m : Message) (r : RoutingTables) :
    mqs (fromSock cfg w m r).effects = [] ∨
      ∃ x, mqs (fromSock cfg w m r).effects = [x] ∧ (x = m ∨ x.srcsub = subaddrSelf) := by
  rcases mqs_printed m (floodRoute cfg w cfg.messMyId m (routeCallback cfg w)) r with h | h
  · exact .inl h
  · obtain h' | ⟨hself, r', h'⟩ | ⟨h', -⟩ :=
      @mqs_floodRoute cfg w cfg.messMyId m (routeCallback cfg w) r
    · exact .inl (h.trans h')
    · rcases mqs_routeCallback (w := w) hself.1 r' with hr | ⟨x, hr, hsub⟩
      · exact .inl (h.trans (h'.trans hr))
      · exact .inr ⟨x, h.trans (h'.trans hr), .inr hsub⟩
    · exact .inr ⟨m, h.trans h', .inl rfl⟩

/-- A message of the server's own making is put in if it is for the tc-server. -/
theorem mqs_originate (cfg : Config) (w : World) (made : Except String Message)
    (r : RoutingTables) : mqs (Server.originate cfg w made r).effects = [] ∨
      ∃ m, made = .ok m ∧ mqs (Server.originate cfg w made r).effects = [m] ∧
        m.dstsub ≠ subaddrSelf := by
  unfold Server.originate
  cases made with
  | error text => exact .inl rfl
  | ok m =>
    exact (mqs_noHandler cfg w cfg.messMyId m r).imp_right fun h => ⟨m, rfl, h.1, h.2.2.1⟩

theorem mqs_bcastLocalIpPort (cfg : LoopConfig) (w : World) (r : RoutingTables) :
    mqs (Server.bcastLocalIpPort cfg w r).effects = [] := by
  refine (mqs_originate _ w _ r).resolve_right fun ⟨m, hmade, _, hsub⟩ => ?_
  obtain ⟨t, st, -, -, -, -, rfl⟩ := Message.new_eq_ok.mp hmade
  exact hsub rfl

/-! ### Routes to the queue -/

section Routes
variable (cfg : LoopConfig)

theorem mqOnly_withLink {routes : Routes} (h : MqOnly cfg.tcServId routes)
    (link : Option (String × Nat)) : MqOnly cfg.tcServId (Server.withLink link routes) := by
  cases link with
  | none => exact h
  | some l => exact mqOnly_insert h _ _

theorem mqOnly_lRoute {r : RoutingTables} (h : MqOnly cfg.tcServId r.localRoutes) (id : String)
    (n : Nat) (type : String) :
    MqOnly cfg.tcServId (lRoute id (.sock n) type r).state.localRoutes := by
  obtain ⟨t, -, h'⟩ | ⟨text, h'⟩ := lRoute_cases id (.sock n) type r
  · rw [h']
    exact mqOnly_insert h n t
  · rw [h']
    exact h

@[simp] theorem connect_tables (answer : Option String) (link : Option (String × Nat))
    (σ : Server) : (Server.connect answer link σ).tables = σ.tables := by
  cases link <;> rfl

theorem mqOnly_identify {σ : Server} (h : MqOnly cfg.tcServId σ.tables.localRoutes) (sock : Nat) :
    MqOnly cfg.tcServId (Server.identify cfg sock σ).tables.localRoutes := by
  unfold Server.identify
  split
  · exact h
  · split
    · exact mqOnly_lRoute cfg h _ _ _
    · exact h

/-- **No event gives the queue another route.** -/
theorem mqOnly_step {σ σ' : Server} {e : Event} (h : MqOnly cfg.tcServId σ.tables.localRoutes)
    (hstep : Server.step cfg σ e = some σ') : MqOnly cfg.tcServId σ'.tables.localRoutes := by
  cases e with
  | accept sock peer login =>
    simp only [Server.step, Option.ite_none_right_eq_some, Option.some.injEq] at hstep
    obtain ⟨-, rfl⟩ := hstep
    unfold Server.accept
    cases login with
    | dies text => exact h
    | failed => exact mqOnly_identify cfg (σ := Server.opened sock peer σ) h sock
    | ok id => exact mqOnly_identify cfg (σ := {Server.opened sock peer σ with auth := _}) h sock
  | receive sock m w answer =>
    simp only [Server.step, Option.ite_none_right_eq_some, Option.some.injEq] at hstep
    obtain ⟨-, rfl⟩ := hstep
    rw [connect_tables]
    show MqOnly _ (fromSock cfg.toConfig w m σ.tables).state.localRoutes
    rw [Server.fromSock_routes]
    exact mqOnly_withLink cfg h _
  | fromMQ m w answer =>
    simp only [Server.step, Option.ite_none_right_eq_some, Option.some.injEq] at hstep
    obtain ⟨-, rfl⟩ := hstep
    rw [connect_tables]
    show MqOnly _ (fromMQ cfg.toConfig w m σ.tables).state.localRoutes
    rw [Server.fromMQ_routes]
    exact mqOnly_withLink cfg h _
  | close sock =>
    simp only [Server.step, Option.ite_none_right_eq_some, Option.some.injEq] at hstep
    obtain ⟨-, rfl⟩ := hstep
    exact h
  | bcastLocalIpPort w =>
    simp only [Server.step, Option.ite_none_right_eq_some, Option.some.injEq] at hstep
    obtain ⟨-, rfl⟩ := hstep
    show MqOnly _ (Server.bcastLocalIpPort cfg w σ.tables).state.localRoutes
    rwa [Server.bcastLocalIpPort_routes]

theorem mqOnly_registration (boot : Boot) :
    MqOnly cfg.tcServId (TcLink.registration cfg boot).state.localRoutes := by
  have hone : MqOnly cfg.tcServId
      (lRoute cfg.tcServId .mq RouteType.tcs.text ⟨[], ∅⟩).state.localRoutes := by
    intro e he _
    obtain ⟨t, -, h⟩ | ⟨text, h⟩ := lRoute_cases cfg.tcServId .mq RouteType.tcs.text ⟨[], ∅⟩
    · rw [h] at he
      rw [List.mem_singleton.mp he]
    · rw [h] at he
      cases he
  unfold TcLink.registration
  by_cases hok : (lRoute cfg.tcServId .mq RouteType.tcs.text ⟨[], ∅⟩).error = none
  · rw [andThen_of_ok _ hok]
    show MqOnly _ (Server.mqRegister cfg boot.w _).state.localRoutes
    rwa [Server.mqRegister_routes]
  · rwa [andThen_of_error _ hok]

theorem mqOnly_startup (boot : Boot) :
    MqOnly cfg.tcServId (Server.startup cfg boot).tables.localRoutes := by
  have hreg := mqOnly_registration cfg boot
  have hup : ∀ σ : Server, σ.tables = (TcLink.registration cfg boot).state →
      MqOnly cfg.tcServId (Server.connectUp cfg boot σ).tables.localRoutes := by
    intro σ hσ
    unfold Server.connectUp
    split
    · split
      · show MqOnly _ σ.tables.localRoutes
        rwa [hσ]
      · show MqOnly _ (lRoute cfg.messPrimary (.sock _) _ σ.tables).state.localRoutes
        rw [hσ]
        exact mqOnly_lRoute cfg hreg _ _ _
    · rwa [hσ]
  unfold Server.startup
  simp only
  split
  · exact hreg
  · split
    · exact hup _ rfl
    · exact hup _ rfl

/-- It puts at most itself into the queue, as a message of the server itself. -/
theorem mqs_registration (boot : Boot) : (mqs (TcLink.registration cfg boot).effects).length ≤ 1 ∧
    ∀ x ∈ mqs (TcLink.registration cfg boot).effects, x.srcsub = subaddrSelf := by
  have hnone : mqs (lRoute cfg.tcServId .mq RouteType.tcs.text ⟨[], ∅⟩).effects = [] := by
    rw [lRoute_effects]
    rfl
  unfold TcLink.registration
  by_cases hok : (lRoute cfg.tcServId .mq RouteType.tcs.text ⟨[], ∅⟩).error = none
  · rw [andThen_of_ok _ hok, mqs_append, hnone, List.nil_append]
    rcases mqs_originate cfg.toConfig boot.w _ _ with h | ⟨m, hmade, h, -⟩
    · unfold Server.mqRegister
      rw [h]
      simp
    · unfold Server.mqRegister
      rw [h]
      obtain ⟨t, st, -, -, -, -, rfl⟩ := Message.new_eq_ok.mp hmade
      simp
  · rw [andThen_of_error _ hok, hnone]
    simp

end Routes

/-- The tc-server replies to where a message came from. -/
theorem tcServer_back (cfg : Config) (w : World) (m : Message) :
    ∀ r ∈ (tcServer cfg w m ()).effects, r.dst = m.src ∧ r.dstsub = m.srcsub := by
  have hone : ∀ uuid argval status, ∀ r ∈ (tcServerReply cfg uuid m argval status ()).effects,
      r.dst = m.src ∧ r.dstsub = m.srcsub := by
    intro uuid argval status r hr
    unfold tcServerReply at hr
    cases hmade : Message.new uuid MsgType.ret.text cfg.tcServId cfg.messMyId m.srcsub m.src
      m.method argval status.text m.uuid with
    | error text =>
      rw [hmade] at hr
      cases hr
    | ok made =>
      rw [hmade] at hr
      obtain rfl := List.mem_singleton.mp hr
      obtain ⟨t, st, -, -, -, -, rfl⟩ := Message.new_eq_ok.mp hmade
      exact ⟨rfl, rfl⟩
  intro r hr
  unfold tcServer at hr
  have hsplit : ∀ p q : Answers, r ∈ (andThen p q ()).effects →
      r ∈ (p ()).effects ∨ r ∈ (q ()).effects := by
    intro p q h
    by_cases hok : (p ()).error = none
    · rw [andThen_of_ok _ hok] at h
      exact List.mem_append.mp h
    · rw [andThen_of_error _ hok] at h
      exact .inl h
  rcases hsplit _ _ hr with hr | hr
  · split at hr
    · exact hone _ _ _ r hr
    · cases hr
  · split at hr
    · exact hone _ _ _ r hr
    · exact hone _ _ _ r hr

/-! ### The steps -/

namespace TcLink
variable (cfg : LoopConfig) (size : Message → Nat)

/-- Everything a step can be. -/
inductive Stepped (σ : TcLink) : LinkAction → TcLink → Prop
  | wake (w : World) (ready : List Nat) (server : Server) (hphase : σ.phase = .select)
      (hidle : σ.sending = [])
      (hserver : Server.step cfg σ.server (.bcastLocalIpPort w) = some server) :
      Stepped σ (.wake w ready) {σ with
        server := server
        phase := .queue ready
        sending := mqs (Server.effects cfg σ.server (.bcastLocalIpPort w))}
  | recv (w : World) (answer : Option String) (ready : List Nat) (m : Message)
      (rest : List Message) (server : Server) (hphase : σ.phase = .queue ready)
      (hidle : σ.sending = []) (hqueue : σ.toMess = m :: rest)
      (hserver : Server.step cfg σ.server (.fromMQ m w answer) = some server) :
      Stepped σ (.recv w answer) {σ with
        server := server
        phase := .queue ready
        toMess := rest
        sending := mqs (Server.effects cfg σ.server (.fromMQ m w answer))}
  | drained (ready : List Nat) (hphase : σ.phase = .queue ready) (hidle : σ.sending = [])
      (hqueue : σ.toMess = []) : Stepped σ .drained {σ with phase := .socks ready}
  | handle (e : Event) (sock : Nat) (ready : List Nat) (server : Server)
      (hphase : σ.phase = .socks (sock :: ready)) (hidle : σ.sending = [])
      (hsock : handles cfg sock e = true)
      (hserver : Server.step cfg σ.server e = some server) :
      Stepped σ (.handle e) {σ with
        server := server
        phase := .socks ready
        sending := mqs (Server.effects cfg σ.server e)}
  | done (hphase : σ.phase = .socks []) (hidle : σ.sending = []) :
      Stepped σ .done {σ with phase := .select}
  | send (m : Message) (rest queue : List Message) (hsending : σ.sending = m :: rest)
      (hqueue : mqSend size σ.toTcs m = some queue) :
      Stepped σ .send {σ with toTcs := queue, sending := rest}
  | tcsRecv (w : World) (m : Message) (rest : List Message) (hidle : σ.replying = [])
      (hqueue : σ.toTcs = m :: rest) :
      Stepped σ (.tcsRecv w) {σ with
        toTcs := rest
        replying := (tcServer cfg.toConfig w m ()).effects
        tcsDied := (tcServer cfg.toConfig w m ()).error}
  | tcsSend (r : Message) (rest queue : List Message) (hreplying : σ.replying = r :: rest)
      (hqueue : mqSend size σ.toMess r = some queue) :
      Stepped σ .tcsSend {σ with toMess := queue, replying := rest}

variable {cfg size}

theorem stepped {σ σ' : TcLink} {a : LinkAction} (h : step cfg size σ a = some σ') :
    Stepped cfg size σ a σ' := by
  cases a with
  | wake w ready =>
    simp only [step, Option.ite_none_right_eq_some] at h
    obtain ⟨⟨hphase, hidle, -, -⟩, h⟩ := h
    obtain ⟨server, hserver, rfl⟩ := Option.map_eq_some_iff.mp h
    exact .wake w ready server hphase hidle hserver
  | recv w answer =>
    simp only [step] at h
    split at h
    · rename_i ready m rest hphase hidle hqueue
      obtain ⟨server, hserver, rfl⟩ := Option.map_eq_some_iff.mp h
      exact .recv w answer ready m rest server hphase hidle hqueue hserver
    · cases h
  | drained =>
    simp only [step] at h
    split at h
    · rename_i ready hphase hidle hqueue
      cases h
      exact .drained ready hphase hidle hqueue
    · cases h
  | handle e =>
    simp only [step] at h
    split at h
    · rename_i sock ready hphase hidle
      simp only [Option.ite_none_right_eq_some] at h
      obtain ⟨hsock, h⟩ := h
      obtain ⟨server, hserver, rfl⟩ := Option.map_eq_some_iff.mp h
      exact .handle e sock ready server hphase hidle hsock hserver
    · cases h
  | done =>
    simp only [step] at h
    split at h
    · rename_i hphase hidle
      cases h
      exact .done hphase hidle
    · cases h
  | send =>
    simp only [step] at h
    split at h
    · cases h
    · rename_i m rest hsending
      obtain ⟨queue, hqueue, rfl⟩ := Option.map_eq_some_iff.mp h
      exact .send m rest queue hsending hqueue
  | tcsRecv w =>
    simp only [step] at h
    split at h
    · rename_i m rest hidle hqueue
      simp only [Option.ite_none_right_eq_some, Option.some.injEq] at h
      obtain ⟨-, rfl⟩ := h
      exact .tcsRecv w m rest hidle hqueue
    · cases h
  | tcsSend =>
    simp only [step] at h
    split at h
    · cases h
    · rename_i r rest hreplying
      obtain ⟨queue, hqueue, rfl⟩ := Option.map_eq_some_iff.mp h
      exact .tcsSend r rest queue hreplying hqueue

/-! ### The level -/

/-- What a queue holds after a message was sent. -/
theorem mqSend_some {queue queue' : List Message} {m : Message}
    (h : mqSend size queue m = some queue') :
    queue' = queue ∨ queue.length < mqMaxmsg ∧ queue' = queue ++ [m] := by
  unfold mqSend at h
  split_ifs at h with hlong hroom
  · exact .inl (Option.some.inj h).symm
  · exact .inr ⟨hroom, (Option.some.inj h).symm⟩

theorem mqSend_none {queue : List Message} {m : Message} (h : mqSend size queue m = none) :
    mqMaxmsg ≤ queue.length := by
  unfold mqSend at h
  split_ifs at h with hlong hroom
  exact Nat.le_of_not_lt hroom

variable (cfg) in
/-- How full the link may be, where no more than `k` connections are ready at a time.
Going through them, every message on its way to the tc-server counts twice, as it may
lead to two replies, and so does every connection still to come. -/
def Level (k : Nat) (σ : TcLink) : Prop :=
  match σ.phase with
  | .select => σ.toTcs.length + σ.sending.length ≤ mqMaxmsg
  | .queue ready => σ.toTcs.length + σ.sending.length ≤ mqMaxmsg ∧ connections cfg ready ≤ k
  | .socks ready => 2 * (σ.toTcs.length + σ.sending.length) + σ.toMess.length +
      σ.replying.length + 2 * connections cfg ready ≤ 2 * mqMaxmsg + 2 + 2 * k

variable (cfg) in
/-- What holds after every step in which no more than `k` connections are ready. -/
structure Kept (k : Nat) (σ : TcLink) : Prop where
  routes : MqOnly cfg.tcServId σ.server.tables.localRoutes
  asked : ∀ m ∈ σ.toTcs ++ σ.sending, ¬ InItsName cfg.toConfig m
  replies : ∀ m ∈ σ.toMess ++ σ.replying, ¬ (m.dst = cfg.messMyId ∧ m.dstsub = cfg.tcServId)
  room : σ.toTcs.length ≤ mqMaxmsg
  owed : σ.replying.length ≤ 2
  level : Level cfg k σ

variable {k : Nat} {σ σ' : TcLink}

/-- Within a phase it is enough that no count grows. -/
theorem Level.mono (h : Level cfg k σ) (hphase : σ'.phase = σ.phase)
    (hasked : σ'.toTcs.length + σ'.sending.length ≤ σ.toTcs.length + σ.sending.length)
    (hall : 2 * (σ'.toTcs.length + σ'.sending.length) + σ'.toMess.length + σ'.replying.length ≤
      2 * (σ.toTcs.length + σ.sending.length) + σ.toMess.length + σ.replying.length) :
    Level cfg k σ' := by
  unfold Level at h ⊢
  rw [hphase]
  split at h
  · exact Nat.le_trans hasked h
  · exact ⟨Nat.le_trans hasked h.1, h.2⟩
  · omega

/-- No two can wait for each other while the level is kept. -/
theorem Kept.not_deadlocked (h : Kept cfg k σ) (hk : k ≤ 5) : ¬ Deadlocked cfg size σ := by
  rintro ⟨⟨hsending, hsend⟩, hreplying, htcsSend⟩
  obtain ⟨m, rest, hm⟩ := List.exists_cons_of_ne_nil hsending
  obtain ⟨r, rest', hr⟩ := List.exists_cons_of_ne_nil hreplying
  have hfull : mqMaxmsg ≤ σ.toTcs.length := by
    simp only [step, hm, Option.map_eq_none_iff] at hsend
    exact mqSend_none hsend
  have hfull' : mqMaxmsg ≤ σ.toMess.length := by
    simp only [step, hr, Option.map_eq_none_iff] at htcsSend
    exact mqSend_none htcsSend
  have hs : 1 ≤ σ.sending.length := List.length_pos_iff.mpr hsending
  have hp : 1 ≤ σ.replying.length := List.length_pos_iff.mpr hreplying
  have hlevel := h.level
  unfold Level at hlevel
  unfold mqMaxmsg at *
  split at hlevel <;> omega

theorem kept_start (boot : Boot) (hserv : cfg.tcServId ≠ subaddrSelf) :
    Kept cfg k (start cfg boot) := by
  obtain ⟨hone, hsub⟩ := mqs_registration cfg boot
  refine ⟨mqOnly_startup cfg boot, fun m hm hname => ?_, by simp [start], Nat.zero_le _,
    Nat.zero_le _, ?_⟩
  · exact hserv (hname.2.symm.trans (hsub m hm))
  · show 0 + (mqs (registration cfg boot).effects).length ≤ mqMaxmsg
    unfold mqMaxmsg
    omega

/-- Dealing with a socket puts in no more than it is a connection, and nothing in the
tc-server's name. -/
theorem mqs_handle {server server' : Server} {e : Event} {sock : Nat} {ready : List Nat}
    (hserv : cfg.tcServId ≠ subaddrSelf) (hsock : handles cfg sock e = true)
    (hserver : Server.step cfg server e = some server') (hok : AtMost cfg k σ (.handle e)) :
    (mqs (Server.effects cfg server e)).length + connections cfg ready ≤
        connections cfg (sock :: ready) ∧
      ∀ x ∈ mqs (Server.effects cfg server e), ¬ InItsName cfg.toConfig x := by
  have hmore : connections cfg ready ≤ connections cfg (sock :: ready) := by
    unfold connections
    rw [List.countP_cons]
    exact Nat.le_add_right _ _
  have hquiet : mqs (Server.effects cfg server e) = [] →
      (mqs (Server.effects cfg server e)).length + connections cfg ready ≤
          connections cfg (sock :: ready) ∧
        ∀ x ∈ mqs (Server.effects cfg server e), ¬ InItsName cfg.toConfig x := by
    intro h
    rw [h]
    exact ⟨by simpa using hmore, by simp⟩
  cases e with
  | accept n peer login => exact hquiet rfl
  | close n => exact hquiet rfl
  | fromMQ m w answer => cases hsock
  | bcastLocalIpPort w => cases hsock
  | receive n m w answer =>
    obtain rfl : sock = n := eq_of_beq hsock
    simp only [Server.step, Option.ite_none_right_eq_some] at hserver
    obtain ⟨⟨-, -, hconn, -⟩, -⟩ := hserver
    have hcount : connections cfg (sock :: ready) = connections cfg ready + 1 := by
      simp [connections, hconn]
    obtain h | ⟨x, h, hx⟩ := mqs_fromSock cfg.toConfig w m server.tables
    · exact hquiet h
    · refine ⟨?_, fun y hy => ?_⟩
      · show (mqs (fromSock cfg.toConfig w m server.tables).effects).length + _ ≤ _
        rw [h, hcount, Nat.add_comm]
        exact Nat.le_refl _
      · change y ∈ mqs (fromSock cfg.toConfig w m server.tables).effects at hy
        rw [h] at hy
        obtain rfl := List.mem_singleton.mp hy
        rcases hx with rfl | hsub
        · exact hok
        · exact fun hname => hserv (hname.2.symm.trans hsub)

/-- What the queue brings the server puts nothing into the other one. -/
theorem Kept.mqs_recv (h : Kept cfg k σ) {m : Message} (hm : m ∈ σ.toMess) (w : World)
    (answer : Option String) :
    mqs (Server.effects cfg σ.server (.fromMQ m w answer)) = [] := by
  refine (mqs_fromMQ cfg.toConfig w m σ.server.tables).resolve_right fun ⟨hdst, hroute⟩ => ?_
  exact h.replies m (List.mem_append_left _ hm)
    ⟨hdst, h.routes _ (AList.mem_lookup_iff.mp hroute) rfl⟩

/-- **A step in which no more than `k` connections are ready keeps the level.** -/
theorem kept_step (hserv : cfg.tcServId ≠ subaddrSelf) (σ : TcLink) (a : LinkAction)
    (σ' : TcLink) (h : Kept cfg k σ) (hok : AtMost cfg k σ a)
    (hstep : step cfg size σ a = some σ') : Kept cfg k σ' := by
  have hlevel := h.level
  have hroom := h.room
  have howed := h.owed
  cases stepped hstep with
  | wake w ready server hphase hidle hserver =>
    have hnone : mqs (Server.effects cfg σ.server (.bcastLocalIpPort w)) = [] :=
      mqs_bcastLocalIpPort cfg w _
    rw [hnone]
    refine ⟨mqOnly_step cfg h.routes hserver, fun m hm => h.asked m ?_, h.replies, hroom, howed,
      hroom, hok⟩
    simpa [hidle] using hm
  | recv w answer ready m rest server hphase hidle hqueue hserver =>
    have hmem : m ∈ σ.toMess := by
      rw [hqueue]
      exact List.mem_cons_self ..
    rw [h.mqs_recv hmem]
    refine ⟨mqOnly_step cfg h.routes hserver, fun x hx => h.asked x ?_, fun x hx => h.replies x ?_,
      hroom, howed, hroom, ?_⟩
    · simpa [hidle] using hx
    · rw [hqueue]
      exact List.mem_cons_of_mem _ hx
    · simp only [Level, hphase] at hlevel
      exact hlevel.2
  | drained ready hphase hidle hqueue =>
    refine ⟨h.routes, h.asked, h.replies, hroom, howed, ?_⟩
    simp only [Level, hphase, hidle, hqueue, List.length_nil] at hlevel ⊢
    omega
  | handle e sock ready server hphase hidle hsock hserver =>
    obtain ⟨hfew, hname⟩ : _ + connections cfg ready ≤ _ ∧ _ :=
      mqs_handle hserv hsock hserver hok
    refine ⟨mqOnly_step cfg h.routes hserver, fun x hx => ?_, h.replies, hroom, howed, ?_⟩
    · rcases List.mem_append.mp hx with hx | hx
      · exact h.asked x (List.mem_append_left _ hx)
      · exact hname x hx
    · simp only [Level, hphase, hidle, List.length_nil] at hlevel ⊢
      omega
  | done hphase hidle =>
    refine ⟨h.routes, h.asked, h.replies, hroom, howed, ?_⟩
    simp only [Level, hidle, List.length_nil]
    exact hroom
  | send m rest queue hsending hqueue =>
    obtain ⟨hlt, hlen, hsub⟩ : queue.length ≤ mqMaxmsg ∧ queue.length ≤ σ.toTcs.length + 1 ∧
        ∀ x ∈ queue ++ rest, x ∈ σ.toTcs ++ σ.sending := by
      rw [hsending]
      rcases mqSend_some hqueue with rfl | ⟨hlt, rfl⟩
      · exact ⟨hroom, Nat.le_succ _, by simp +contextual [or_imp]⟩
      · rw [List.length_append]
        exact ⟨hlt, Nat.le_refl _, by simp⟩
    refine ⟨h.routes, fun x hx => h.asked x (hsub x hx), h.replies, hlt, howed,
      hlevel.mono rfl ?_ ?_⟩
    · rw [hsending, List.length_cons]
      simp only
      omega
    · rw [hsending, List.length_cons]
      simp only
      omega
  | tcsRecv w m rest hidle hqueue =>
    have hm : ¬ InItsName cfg.toConfig m := h.asked m (by simp [hqueue])
    have hlen : (tcServer cfg.toConfig w m ()).effects.length ≤ 2 :=
      (tcServer_answers cfg.toConfig w m ()).2
    refine ⟨h.routes, fun x hx => h.asked x ?_, fun x hx => ?_, ?_, hlen, hlevel.mono rfl ?_ ?_⟩
    · rw [hqueue]
      exact List.mem_cons_of_mem _ hx
    · rcases List.mem_append.mp hx with hx | hx
      · exact h.replies x (List.mem_append_left _ hx)
      · -- a reply to the tc-server itself answers a message in its name
        obtain ⟨hdst, hdstsub⟩ := tcServer_back cfg.toConfig w m x hx
        rw [hdst, hdstsub]
        exact hm
    · rw [hqueue, List.length_cons] at hroom
      exact Nat.le_of_succ_le hroom
    · rw [hqueue, List.length_cons]
      simp only
      omega
    · rw [hqueue, List.length_cons]
      simp only
      omega
  | tcsSend r rest queue hreplying hqueue =>
    obtain ⟨hlen, hsub⟩ : queue.length ≤ σ.toMess.length + 1 ∧
        ∀ x ∈ queue ++ rest, x ∈ σ.toMess ++ σ.replying := by
      rw [hreplying]
      rcases mqSend_some hqueue with rfl | ⟨-, rfl⟩
      · exact ⟨Nat.le_succ _, by simp +contextual [or_imp]⟩
      · rw [List.length_append]
        exact ⟨Nat.le_refl _, by simp⟩
    rw [hreplying, List.length_cons] at howed
    refine ⟨h.routes, h.asked, fun x hx => h.replies x (hsub x hx), hroom,
      Nat.le_of_succ_le howed, hlevel.mono rfl (Nat.le_refl _) ?_⟩
    rw [hreplying, List.length_cons]
    simp only
    omega

/-! ### Waiting -/

/-- While the server waits the tc-server can send what it still has to send. -/
theorem Kept.tcsSends (hserv : cfg.tcServId ≠ subaddrSelf) (hk : k ≤ 5) {σ : TcLink}
    (h : Kept cfg k σ) (hsending : σ.sending ≠ []) (hwaits : step cfg size σ .send = none) :
    ∃ σ', Runs.run (step cfg size) σ (List.replicate σ.replying.length .tcsSend) = some σ' ∧
      Kept cfg k σ' ∧ σ'.replying = [] ∧ σ'.sending = σ.sending ∧ σ'.toTcs = σ.toTcs ∧
      σ'.tcsDied = σ.tcsDied := by
  generalize hn : σ.replying.length = n
  induction n generalizing σ with
  | zero => exact ⟨σ, rfl, h, List.length_eq_zero_iff.mp hn, rfl, rfl, rfl⟩
  | succ n ih =>
    have hreplying : σ.replying ≠ [] := List.ne_nil_of_length_eq_add_one hn
    have hclear : ¬ Deadlocked cfg size σ := h.not_deadlocked hk
    obtain ⟨σ₁, hσ₁⟩ := Option.ne_none_iff_exists'.mp fun hnone =>
      hclear ⟨⟨hsending, hwaits⟩, hreplying, hnone⟩
    have hkept := kept_step hserv σ .tcsSend σ₁ h trivial hσ₁
    cases stepped hσ₁ with
    | tcsSend r rest queue hreply hqueue =>
      rw [hreply, List.length_cons] at hn
      have hstill : step cfg size {σ with toMess := queue, replying := rest} .send = none := by
        obtain ⟨m, rest', hm⟩ := List.exists_cons_of_ne_nil hsending
        simp only [step, hm, Option.map_eq_none_iff] at hwaits ⊢
        exact hwaits
      obtain ⟨σ', hrun, hrest⟩ := ih hkept hsending hstill (Nat.succ.inj hn)
      refine ⟨σ', ?_, hrest⟩
      rw [List.replicate_succ, Runs.run, hσ₁]
      exact hrun

end TcLink

/-! ### Six connections -/

namespace Sample

/-- A primary whose clients are all of type TCC. -/
def busyLoop : LoopConfig := {loop with getType := fun _ => RouteType.tcc.text}

def busyBoot : Boot :=
  ⟨world "00000000-0000-11e0-0000-000000000009" "b", .error "Could not create socket: "⟩

/-- The `n`th `pingtcs` to the tc-server. -/
def pingtcs (n : Nat) : Message :=
  ⟨.call, "M1", "L1", "M1", "S1",
    "00000000-0000-11e0-0000-0000000000" ++ toString (n / 10) ++ toString (n % 10), "", "pingtcs",
    some [], .orig⟩

/-- The `n`th client logs in, at socket `n`. -/
def joining (n : Nat) : List LinkAction :=
  [.wake (world "a" "b") [0], .drained, .handle (.accept n peer (.ok ("L" ++ toString n))), .done]

/-- The connection asks, and what it asked is sent on. -/
def asking (sock n : Nat) : List LinkAction :=
  [.handle (.receive sock (pingtcs n) (world "a" "b") none), .send]

/-- The tc-server takes a message and sends both replies. -/
def answering : List LinkAction := [.tcsRecv (world "a" "b"), .tcsSend, .tcsSend]

/-- Six clients log in and ask, then five, then six again; the tc-server has just taken a
message when the server reads its queue for the last time. -/
def jamming : List LinkAction :=
  .send :: (List.range' 1 6).flatMap joining ++
  [.wake (world "a" "b") [1, 2, 3, 4, 5, 6], .drained] ++
    (List.range' 1 6).flatMap (fun sock => asking sock (10 + sock)) ++
    [.done, .tcsRecv (world "a" "b"), .tcsSend] ++
  [.wake (world "a" "b") [1, 2, 3, 4, 5], .recv (world "a" "b") none, .drained] ++
    (List.range' 1 4).flatMap (fun sock => asking sock (20 + sock)) ++
    [.tcsRecv (world "a" "b")] ++ asking 5 25 ++ [.done] ++
  [.wake (world "a" "b") [1, 2, 3, 4, 5, 6], .drained, .tcsSend, .tcsSend] ++
    (List.replicate 4 answering).flatten ++ [.tcsRecv (world "a" "b")] ++
    (List.range' 1 5).flatMap (fun sock => asking sock (30 + sock)) ++
    [.handle (.receive 6 (pingtcs 36) (world "a" "b") none)]

/-- Both queues are full. -/
theorem jammed : (Runs.run (TcLink.step busyLoop fun _ => 0) (TcLink.start busyLoop busyBoot)
    jamming).any (TcLink.Deadlocked busyLoop (fun _ => 0)) = true := by
  decide +kernel

theorem jamming_atMost : Runs.Meets (TcLink.step busyLoop fun _ => 0) (TcLink.AtMost busyLoop 6)
    (TcLink.start busyLoop busyBoot) jamming := by
  decide +kernel

end Sample

/-- **The server and its tc-server cannot wait for each other if and only if no more than
five connections are ready at a time**, as long as nobody sends in the tc-server's name. -/
theorem tcLink_deadlockFree_iff (k : Nat) :
    (∀ (cfg : LoopConfig) (size : Message → Nat) (boot : Boot) (as : List LinkAction)
      (σ : TcLink), cfg.tcServId ≠ subaddrSelf →
      Runs.run (TcLink.step cfg size) (TcLink.start cfg boot) as = some σ →
      Runs.Meets (TcLink.step cfg size) (TcLink.AtMost cfg k) (TcLink.start cfg boot) as →
      ¬ TcLink.Deadlocked cfg size σ) ↔ k ≤ 5 := by
  constructor
  · intro hfree
    by_contra hk
    obtain ⟨σ, hrun, hjam⟩ := (Option.any_eq_true _ _).mp Sample.jammed
    have hsix : Runs.Meets (TcLink.step Sample.busyLoop fun _ => 0)
        (TcLink.AtMost Sample.busyLoop k) (TcLink.start Sample.busyLoop Sample.busyBoot)
        Sample.jamming :=
      Sample.jamming_atMost.imp (fun _ _ _ _ _ _ => trivial)
        (fun _ _ _ h => h.mono Sample.busyLoop (by omega)) trivial
    exact hfree Sample.busyLoop (fun _ => 0) Sample.busyBoot Sample.jamming σ (by decide) hrun hsix
      (of_decide_eq_true hjam)
  · intro hk cfg size boot as σ hserv hrun hmeets
    exact (Runs.meets_invariant (TcLink.kept_step hserv) (TcLink.kept_start boot hserv) hmeets
      hrun).not_deadlocked hk

/-- **With up to five connections ready at a time the server never waits for more than
three steps of its tc-server**: with the tc-server alive, it sends what it still has to
send, takes one message, and there is room. -/
theorem tcLink_wait_ends {cfg : LoopConfig} {size : Message → Nat} {boot : Boot}
    {as : List LinkAction} {σ : TcLink} {k : Nat} (hk : k ≤ 5) (hserv : cfg.tcServId ≠ subaddrSelf)
    (hrun : Runs.run (TcLink.step cfg size) (TcLink.start cfg boot) as = some σ)
    (hmeets : Runs.Meets (TcLink.step cfg size) (TcLink.AtMost cfg k) (TcLink.start cfg boot) as)
    (hsending : σ.sending ≠ []) (hwaits : TcLink.step cfg size σ .send = none)
    (halive : σ.tcsDied = none) (w : World) :
    ∃ n ≤ 2, ∃ σ', Runs.run (TcLink.step cfg size) σ
        (List.replicate n .tcsSend ++ [.tcsRecv w]) = some σ' ∧
      TcLink.step cfg size σ' .send ≠ none := by
  have hkept := Runs.meets_invariant (TcLink.kept_step hserv) (TcLink.kept_start boot hserv) hmeets
    hrun
  obtain ⟨σ₁, hsends, hkept₁, hidle, hsame, hqueue, hdied⟩ :=
    hkept.tcsSends hserv hk hsending hwaits
  -- the queue the server waits for is full, so the tc-server has a message to take
  obtain ⟨m, rest, hm⟩ := List.exists_cons_of_ne_nil hsending
  have hfull : mqMaxmsg ≤ σ₁.toTcs.length := by
    simp only [TcLink.step, hm, Option.map_eq_none_iff] at hwaits
    rw [hqueue]
    exact TcLink.mqSend_none hwaits
  obtain ⟨x, queue, hx⟩ := List.exists_cons_of_length_pos
    (Nat.lt_of_lt_of_le (by decide : 0 < mqMaxmsg) hfull)
  have hroom : queue.length < mqMaxmsg := by
    have := hkept₁.room
    rw [hx, List.length_cons] at this
    exact this
  refine ⟨σ.replying.length, hkept.owed, {σ₁ with
    toTcs := queue
    replying := (tcServer cfg.toConfig w x ()).effects
    tcsDied := (tcServer cfg.toConfig w x ()).error}, ?_, ?_⟩
  · rw [Runs.run_append, hsends]
    simp [Runs.run, TcLink.step, hidle, hx, hdied, halive]
  · rw [hm] at hsame
    simp only [TcLink.step, hsame, TcLink.mqSend]
    split_ifs <;> simp

namespace Sample

/-- Five clients log in and ask twice, while the tc-server sleeps. -/
def waiting : List LinkAction :=
  .send :: (List.range' 1 5).flatMap joining ++
  [.wake (world "a" "b") [1, 2, 3, 4, 5], .drained] ++
    (List.range' 1 5).flatMap (fun sock => asking sock (10 + sock)) ++ [.done] ++
  [.wake (world "a" "b") [1, 2, 3, 4, 5], .drained] ++
    (List.range' 1 4).flatMap (fun sock => asking sock (20 + sock)) ++
    [.handle (.receive 5 (pingtcs 25) (world "a" "b") none)]

end Sample

theorem tcLink_wait_ends_waiting : ∃ σ,
    Runs.run (TcLink.step Sample.busyLoop fun _ => 0)
        (TcLink.start Sample.busyLoop Sample.busyBoot) Sample.waiting = some σ ∧
      ∃ n ≤ 2, ∃ σ', Runs.run (TcLink.step Sample.busyLoop fun _ => 0) σ
          (List.replicate n .tcsSend ++ [.tcsRecv (Sample.world "c" "d")]) = some σ' ∧
        TcLink.step Sample.busyLoop (fun _ => 0) σ' .send ≠ none := by
  have hsome : ((Runs.run (TcLink.step Sample.busyLoop fun _ => 0)
      (TcLink.start Sample.busyLoop Sample.busyBoot) Sample.waiting).any fun σ =>
        σ.sending ≠ [] ∧ (TcLink.step Sample.busyLoop (fun _ => 0) σ .send).isNone ∧
          σ.tcsDied = none) = true := by
    decide +kernel
  obtain ⟨σ, hrun, hwaits⟩ := (Option.any_eq_true _ _).mp hsome
  obtain ⟨hsending, hnone, halive⟩ := of_decide_eq_true hwaits
  have hmeets : Runs.Meets (TcLink.step Sample.busyLoop fun _ => 0)
      (TcLink.AtMost Sample.busyLoop 5) (TcLink.start Sample.busyLoop Sample.busyBoot)
      Sample.waiting := by
    decide +kernel
  exact ⟨σ, hrun, tcLink_wait_ends (Nat.le_refl 5) (by decide) hrun hmeets hsending
    (Option.isNone_iff_eq_none.mp hnone) halive _⟩

end VleoNotebook.Mess
