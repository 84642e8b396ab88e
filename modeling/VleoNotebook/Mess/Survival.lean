import VleoNotebook.Mess.Server

/-! Which messages a MESS server survives printing and routing.

`ROUTE_NONLOCAL` raises no exception exactly when what it looks up can be written
to (`Deliverable`). What is addressed to the server itself must in addition be a
method the code handles, and a link or a reply it leads to must go through
(`Answerable`). Together with arguments that can be printed this is all there is
(`fromSock_ok_iff`); nothing is asked of the message beyond that, so it may be one
that was damaged on its way. -/
namespace VleoNotebook.Mess

open Proc

/-! ### Sending -/

theorem sendData_ok_iff (via : Handle) (e : Effect) (r : RoutingTables) :
    (sendData via e r).error = none ↔ ∃ n, via = .sock n := by
  cases via <;> simp [sendData]

theorem sendMsg_ok_iff (via : Handle) (e : Effect) (r : RoutingTables) :
    (sendMsg via e r).error = none ↔ via = .mq := by
  cases via <;> simp [sendMsg]

theorem sendData_state (via : Handle) (e : Effect) (r : RoutingTables) :
    (sendData via e r).state = r := by
  cases via <;> rfl

theorem sendMsg_state (via : Handle) (e : Effect) (r : RoutingTables) :
    (sendMsg via e r).state = r := by
  cases via <;> rfl

theorem floodPeer_state (m : Message) (e : Sigma fun _ : String => Route) (r : RoutingTables) :
    (floodPeer m e r).state = r := by
  unfold floodPeer
  split
  · exact sendData_state _ _ r
  · rfl

/-- Sending a message on changes no table. -/
theorem routeNonlocal_state (localID : String) (m : Message) (r : RoutingTables) :
    (routeNonlocal localID m r).state = r := by
  unfold routeNonlocal
  split
  · split
    · exact sendData_state _ _ r
    · exact sendMsg_state _ _ r
    · rfl
  · split
    · exact sendData_state _ _ r
    · exact each_state (floodPeer_state m) _ r

/-- Whatever `dstsub@dst` is routed to by these tables can be written to: a client
by its socket, a tc-server by its queue, everything else by a socket. -/
def Deliverable (localID dst dstsub : String) (r : RoutingTables) : Prop :=
  match clientRoute localID dst dstsub r with
  | some route =>
    (route.type = .tcc ∧ ∃ n, route.sock = .sock n) ∨ (route.type = .tcs ∧ route.sock = .mq)
  | none =>
    match peerRoute dst r with
    | some route => ∃ n, route.sock = .sock n
    | none => ∀ e ∈ r.localRoutes.entries, e.2.type = .mess → ∃ n, e.2.sock = .sock n

theorem floodPeer_ok_iff (m : Message) (e : Sigma fun _ : String => Route) (r : RoutingTables) :
    (floodPeer m e r).error = none ↔ (e.2.type = .mess → ∃ n, e.2.sock = .sock n) := by
  unfold floodPeer
  by_cases h : e.2.type = .mess
  · rw [if_pos h, sendData_ok_iff]
    exact ⟨fun hs _ => hs, fun hs => hs h⟩
  · simp [h]

theorem routeNonlocal_ok_iff (localID : String) (m : Message) (r : RoutingTables) :
    (routeNonlocal localID m r).error = none ↔ Deliverable localID m.dst m.dstsub r := by
  unfold routeNonlocal Deliverable
  cases clientRoute localID m.dst m.dstsub r with
  | some route =>
    obtain ⟨sock, type⟩ := route
    cases type <;> simp [sendData_ok_iff, sendMsg_ok_iff]
  | none =>
    cases peerRoute m.dst r with
    | some route => exact sendData_ok_iff _ _ r
    | none =>
      simp only [each_error_eq_none (floodPeer_state m), floodPeer_ok_iff]

/-- Only the routes matter for it. -/
theorem deliverable_congr {localID dst dstsub : String} {r r' : RoutingTables}
    (h : r.localRoutes = r'.localRoutes) :
    Deliverable localID dst dstsub r ↔ Deliverable localID dst dstsub r' := by
  simp only [Deliverable, clientRoute, peerRoute, h]

/-- A new link is a socket, so it does not change what a message to the server
itself is routed to for the worse or the better. -/
theorem deliverable_insert {localID dst dstsub id : String} {n : Nat} {r : RoutingTables}
    (hself : dstsub = subaddrSelf) (hdst : dst = dstBcast ∨ dst = localID) (hid : id ≠ localID)
    (hnew : id ∉ r.localRoutes) :
    Deliverable localID dst dstsub
        {r with localRoutes := r.localRoutes.insert id ⟨.sock n, .mess⟩} ↔
      Deliverable localID dst dstsub r := by
  have hclient : ∀ r', clientRoute localID dst dstsub r' = none := by
    intro r'
    simp [clientRoute, hself]
  have hpeer : peerRoute dst {r with localRoutes := r.localRoutes.insert id ⟨.sock n, .mess⟩} =
      peerRoute dst r := by
    unfold peerRoute
    by_cases hb : dst = dstBcast
    · simp [hb]
    · obtain rfl := hdst.resolve_left hb
      simp [hb, AList.lookup_insert_ne (Ne.symm hid)]
  unfold Deliverable
  rw [hclient, hclient, hpeer]
  cases peerRoute dst r with
  | some route => rfl
  | none =>
    simp only [AList.entries_insert_of_notMem hnew, List.forall_mem_cons]
    exact and_iff_right fun _ => ⟨n, rfl⟩

/-! ### Making a reply -/

/-- What `MessMessage::new` lets a peer send, under a UUID as `OSSP::uuid` makes them. -/
structure Accepted (m : Message) : Prop where
  uuid_length : m.uuid.length = 36
  new : ∃ type status, Message.new m.uuid type m.srcsub m.src m.dstsub m.dst m.method m.argval
    status m.uuidorig = .ok m

theorem Accepted.truthy {m : Message} (h : Accepted m) :
    Truthy m.src ∧ Truthy m.srcsub ∧ Truthy m.dst ∧ Truthy m.dstsub ∧ Truthy m.method := by
  obtain ⟨type, status, hnew⟩ := h.new
  obtain ⟨t, st, -, -, htruthy, -⟩ := Message.new_eq_ok.mp hnew
  exact htruthy

/-- `MessMessage::new` makes a reply to the message. -/
def CanReply (m : Message) : Prop :=
  Truthy m.src ∧ Truthy m.srcsub ∧ Truthy m.method ∧ m.uuid.length = 36

instance (m : Message) : Decidable (CanReply m) := inferInstanceAs (Decidable (_ ∧ _ ∧ _ ∧ _))

section Making
variable {uuid src srcsub : String} {argval : Option Hash} {status : Status} {m : Message}

theorem new_reply (hsrc : Truthy src) (hsrcsub : Truthy srcsub) (h : CanReply m) :
    Message.new uuid MsgType.ret.text srcsub src m.srcsub m.src m.method argval status.text m.uuid =
      .ok ⟨.ret, src, srcsub, m.src, m.srcsub, uuid, m.uuid, m.method, argval, status⟩ := by
  obtain ⟨hdst, hdstsub, hmethod, huuid⟩ := h
  have hstatus : Status.ofText status.text = some status := by cases status <;> decide
  exact Message.new_eq_ok.mpr ⟨.ret, status, by decide, hstatus,
    ⟨hsrc, hsrcsub, hdst, hdstsub, hmethod⟩, .inr ⟨huuid, rfl⟩, rfl⟩

theorem canReply_of_new {reply : Message}
    (h : Message.new uuid MsgType.ret.text srcsub src m.srcsub m.src m.method argval status.text
      m.uuid = .ok reply) : CanReply m := by
  obtain ⟨t, st, ht, -, ⟨-, -, hdst, hdstsub, hmethod⟩, hfits, -⟩ := Message.new_eq_ok.mp h
  obtain rfl : MsgType.ret = t := Option.some.inj (by rw [← ht]; decide)
  exact ⟨hdst, hdstsub, hmethod, hfits.elim (fun hbad => absurd hbad.2 (by decide)) And.left⟩

theorem pingReply_method {w : World} {localID : String} {args : Hash} {reply : Message}
    (h : pingReply w localID m args = .ok reply) : reply.method = m.method := by
  obtain ⟨t, st, -, -, -, -, rfl⟩ := Message.new_eq_ok.mp h
  rfl

/-- What `MessMessage::new` lets a peer send can be replied to. -/
theorem Accepted.canReply (h : Accepted m) : CanReply m := by
  obtain ⟨hsrc, hsrcsub, -, -, hmethod⟩ := h.truthy
  exact ⟨hsrc, hsrcsub, hmethod, h.uuid_length⟩

end Making

/-! ### Processing -/

/-- `bcastIP_PORT` makes the server connect to this ID. -/
def WantsLink (cfg : Config) (localID : String) (m : Message) (args : Hash)
    (r : RoutingTables) : Prop :=
  cfg.messAutoLinks = true ∧ args.get "id" ≠ localID ∧ m.src ≠ localID ∧
    args.get "id" ∉ r.localRoutes

/-- A message to the server itself is one the code can answer: an event it passes
on, a registration, a `bcastIP_PORT` whose link, if one is wanted, comes about
under an ID that can be entered, or a `ping` to which a reply can be made, and
delivered if its UUID is new. -/
def Answerable (cfg : Config) (w : World) (m : Message) (args : Hash) (r : RoutingTables) :
    Prop :=
  m.method = "bcastRTE" ∨ m.method = "mqRegister" ∨
    (m.method = "bcastIP_PORT" ∧ (WantsLink cfg cfg.messMyId m args r →
      (∃ n, w.newClient (args.get "ip") (args.get "port") = .ok n) ∧ Truthy (args.get "id"))) ∨
    (m.method = "ping" ∧ CanReply m ∧
      (w.uuid ∈ r.seenUUID ∨ Deliverable cfg.messMyId m.src m.srcsub r))

theorem lRoute_mess {dst : String} (h : Truthy dst) (sock : Handle) :
    lRoute dst sock RouteType.mess.text =
      update fun r => {r with localRoutes := r.localRoutes.insert dst ⟨sock, .mess⟩} := by
  rw [lRoute, if_neg (not_not.mpr h)]
  rfl

/-- `lRoute` enters a route or dies, and does nothing else. -/
theorem lRoute_cases (id : String) (sock : Handle) (type : String) (r : RoutingTables) :
    (∃ t, RouteType.ofText type = some t ∧ lRoute id sock type r =
        ⟨{r with localRoutes := r.localRoutes.insert id ⟨sock, t⟩}, [], none⟩) ∨
      ∃ text, lRoute id sock type r = ⟨r, [], some text⟩ := by
  unfold lRoute
  by_cases hid : Truthy id
  · rw [if_neg (not_not.mpr hid)]
    cases ht : RouteType.ofText type with
    | none => exact .inr ⟨_, rfl⟩
    | some t => exact .inl ⟨t, rfl, rfl⟩
  · rw [if_pos hid]
    exact .inr ⟨_, rfl⟩

theorem lRoute_effects (id : String) (sock : Handle) (type : String) (r : RoutingTables) :
    (lRoute id sock type r).effects = [] := by
  obtain ⟨t, -, h⟩ | ⟨text, h⟩ := lRoute_cases id sock type r <;> rw [h]

theorem lRoute_seenUUID (id : String) (sock : Handle) (type : String) (r : RoutingTables) :
    (lRoute id sock type r).state.seenUUID = r.seenUUID := by
  obtain ⟨t, -, h⟩ | ⟨text, h⟩ := lRoute_cases id sock type r <;> rw [h]

/-- It keeps every ID in the table. -/
theorem lRoute_mem {id id' : String} {r : RoutingTables} (hmem : id' ∈ r.localRoutes)
    (sock : Handle) (type : String) : id' ∈ (lRoute id sock type r).state.localRoutes := by
  obtain ⟨t, -, h⟩ | ⟨text, h⟩ := lRoute_cases id sock type r <;> rw [h]
  · exact (AList.mem_insert _).mpr (.inr hmem)
  · exact hmem

theorem lRoute_not_truthy {dst : String} (h : ¬ Truthy dst) (sock : Handle) (type : String) :
    lRoute dst sock type = die "should specify at least dst to lookup" := by
  rw [lRoute, if_pos h]

theorem autoLink_ok_iff {w : World} {localID : String} {m : Message} {args : Hash}
    (hargs : m.argval = some args) (r : RoutingTables) :
    (autoLink w localID m r).error = none ↔
      (args.get "id" ≠ localID ∧ m.src ≠ localID ∧ args.get "id" ∉ r.localRoutes →
        (∃ n, w.newClient (args.get "ip") (args.get "port") = .ok n) ∧ Truthy (args.get "id")) := by
  unfold autoLink
  simp only [hargs]
  split_ifs with hcond
  · rw [forall_prop_of_true hcond]
    cases hnew : w.newClient (args.get "ip") (args.get "port") with
    | error text => simp
    | ok n =>
      by_cases hid : Truthy (args.get "id")
      · simp [lRoute_mess hid, hid]
      · simp [lRoute_not_truthy hid, hid]
  · simp [hcond]

/-- Where it survives, a link changes nothing for a message to the server itself. -/
theorem autoLink_deliverable {w : World} {localID : String} {m : Message} {r : RoutingTables}
    (hself : ForSelf localID m) (hok : (autoLink w localID m r).error = none) :
    Deliverable localID m.dst m.dstsub (autoLink w localID m r).state ↔
      Deliverable localID m.dst m.dstsub r := by
  unfold autoLink at hok ⊢
  cases hargs : m.argval with
  | none => simp [hargs] at hok
  | some args =>
    simp only [hargs] at hok ⊢
    split_ifs at hok ⊢ with hcond
    · cases hnew : w.newClient (args.get "ip") (args.get "port") with
      | error text => simp [hnew] at hok
      | ok n =>
        by_cases hid : Truthy (args.get "id")
        · simp only [lRoute_mess hid, emit_andThen, update_apply]
          exact deliverable_insert hself.1 hself.2 hcond.1 hcond.2.2
        · simp [hnew, lRoute_not_truthy hid] at hok
    · rfl

theorem floodRoute_of_seen {cfg : Config} {w : World} {localID : String} {m : Message}
    {handler : String → Message → Routing} {r : RoutingTables} (h : m.uuid ∈ r.seenUUID) :
    floodRoute cfg w localID m handler r = ⟨r, [], none⟩ := by
  rw [floodRoute, if_pos h]
  rfl

/-- The tables with one more UUID seen. -/
def RoutingTables.see (r : RoutingTables) (uuid : String) : RoutingTables :=
  {r with seenUUID := uuid :: r.seenUUID}

theorem floodRoute_of_unseen {cfg : Config} {w : World} {localID : String} {m : Message}
    {handler : String → Message → Routing} {r : RoutingTables} (h : m.uuid ∉ r.seenUUID) :
    floodRoute cfg w localID m handler r =
      andThen (emit (.passed m))
        (andThen (processLocal cfg w localID m handler) (routeNonlocal localID m))
        (r.see m.uuid) := by
  rw [floodRoute, if_neg h, seen, update_andThen]
  rfl

/-- The replies to a `ping` are flooded with a handler that does nothing. -/
theorem processLocal_noHandler (cfg : Config) (w : World) (localID : String) {m : Message}
    (hping : m.method = "ping") (r : RoutingTables) :
    (processLocal cfg w localID m noHandler r).state = r ∧
      (processLocal cfg w localID m noHandler r).error = none := by
  unfold processLocal
  split
  · simp [hping, noHandler]
  · simp

theorem floodRoute_noHandler_ok_iff {cfg : Config} {w : World} {localID : String} {m : Message}
    (hping : m.method = "ping") {r : RoutingTables} (hfresh : m.uuid ∉ r.seenUUID) :
    (floodRoute cfg w localID m noHandler r).error = none ↔
      Deliverable localID m.dst m.dstsub r := by
  obtain ⟨hstate, hok⟩ := processLocal_noHandler cfg w localID hping (r.see m.uuid)
  rw [floodRoute_of_unseen hfresh, emit_andThen, andThen_error_eq_none, routeNonlocal_ok_iff,
    hstate]
  exact and_iff_right hok

theorem routeCallback_ok_iff {cfg : Config} {w : World} {m : Message} {args : Hash}
    (hargs : m.argval = some args) (hself : m.dstsub = subaddrSelf) (r : RoutingTables) :
    (routeCallback cfg w cfg.messMyId m r).error = none ↔
      m.method = "ping" ∧ CanReply m ∧
        (w.uuid ∈ r.seenUUID ∨ Deliverable cfg.messMyId m.src m.srcsub r) := by
  unfold routeCallback
  by_cases hping : m.method = "ping"
  · rw [if_pos hping, if_pos hself]
    simp only [hargs]
    by_cases hcan : CanReply m
    · have hsrcsub : Truthy subaddrSelf := by decide
      simp only [pingReply, new_reply cfg.messMyId_truthy hsrcsub hcan, emit_andThen]
      by_cases hseen : w.uuid ∈ r.seenUUID
      · rw [floodRoute_of_seen hseen]
        simp [hping, hcan, hseen]
      · refine (floodRoute_noHandler_ok_iff ?_ hseen).trans ?_
        · exact hping
        · simp [hping, hcan, hseen]
    · cases hmade : pingReply w cfg.messMyId m args with
      | error text => simp [hcan]
      | ok reply => exact absurd (canReply_of_new hmade) hcan
  · simp [hping]

theorem processLocal_ok_iff {cfg : Config} {w : World} {m : Message} {args : Hash}
    (hargs : m.argval = some args) (r : RoutingTables) :
    (processLocal cfg w cfg.messMyId m (routeCallback cfg w) r).error = none ↔
      (ForSelf cfg.messMyId m → Answerable cfg w m args r) := by
  unfold processLocal
  by_cases hself : ForSelf cfg.messMyId m
  · rw [if_pos hself, forall_prop_of_true hself]
    unfold Answerable
    by_cases h1 : m.method = "bcastRTE"
    · simp [h1]
    by_cases h2 : m.method = "bcastIP_PORT"
    · rw [if_neg h1, if_pos h2]
      by_cases hauto : cfg.messAutoLinks = true
      · rw [if_pos hauto, autoLink_ok_iff hargs]
        simp [h2, WantsLink, hauto]
      · simp [h2, WantsLink, hauto]
    by_cases h3 : m.method = "mqRegister"
    · simp [h3]
    rw [if_neg h1, if_neg h2, if_neg h3, emit_andThen]
    rw [routeCallback_ok_iff hargs hself.1]
    simp [h1, h2, h3]
  · simp [hself]

theorem floodRoute_noHandler_routes {cfg : Config} {w : World} {localID : String} {m : Message}
    (hping : m.method = "ping") (r : RoutingTables) :
    (floodRoute cfg w localID m noHandler r).state.localRoutes = r.localRoutes := by
  by_cases hseen : m.uuid ∈ r.seenUUID
  · rw [floodRoute_of_seen hseen]
  · obtain ⟨hstate, hok⟩ := processLocal_noHandler cfg w localID hping (r.see m.uuid)
    rw [floodRoute_of_unseen hseen, emit_andThen, andThen_of_ok _ hok, routeNonlocal_state, hstate]
    rfl

/-- Doing what is addressed to the server itself does not change how the message is
sent on. -/
theorem processLocal_deliverable {cfg : Config} {w : World} {m : Message} {args : Hash}
    (hargs : m.argval = some args) {r : RoutingTables}
    (hok : (processLocal cfg w cfg.messMyId m (routeCallback cfg w) r).error = none) :
    Deliverable cfg.messMyId m.dst m.dstsub
        (processLocal cfg w cfg.messMyId m (routeCallback cfg w) r).state ↔
      Deliverable cfg.messMyId m.dst m.dstsub r := by
  unfold processLocal at hok ⊢
  by_cases hself : ForSelf cfg.messMyId m
  · rw [if_pos hself] at hok ⊢
    by_cases h1 : m.method = "bcastRTE"
    · rw [if_pos h1]
      rfl
    by_cases h2 : m.method = "bcastIP_PORT"
    · rw [if_neg h1, if_pos h2] at hok ⊢
      by_cases hauto : cfg.messAutoLinks = true
      · rw [if_pos hauto] at hok ⊢
        exact autoLink_deliverable hself hok
      · rw [if_neg hauto]
        rfl
    by_cases h3 : m.method = "mqRegister"
    · rw [if_neg h1, if_neg h2, if_pos h3]
      rfl
    rw [if_neg h1, if_neg h2, if_neg h3, emit_andThen] at hok ⊢
    unfold routeCallback at hok ⊢
    by_cases hping : m.method = "ping"
    · rw [if_pos hping, if_pos hself.1] at hok ⊢
      simp only [hargs] at hok ⊢
      cases hmade : pingReply w cfg.messMyId m args with
      | error text => simp [hmade] at hok
      | ok reply =>
        simp only [emit_andThen]
        refine deliverable_congr (floodRoute_noHandler_routes ?_ r)
        rw [← hping]
        exact pingReply_method hmade
    · simp [hping] at hok
  · rw [if_neg hself]
    rfl

/-! ### The exact condition -/

/-- What a server survives: a message whose arguments can be printed, and which it
has routed before, or can send on and, where it is addressed to the server itself,
can answer. -/
def Survives (cfg : Config) (w : World) (m : Message) (r : RoutingTables) : Prop :=
  ∃ args, m.argval = some args ∧
    (m.uuid ∈ r.seenUUID ∨ Deliverable cfg.messMyId m.dst m.dstsub r ∧
      (ForSelf cfg.messMyId m → Answerable cfg w m args (r.see m.uuid)))

/-- **Printing and routing a message completes without an exception exactly when the
server survives it.** -/
theorem fromSock_ok_iff (cfg : Config) (w : World) (m : Message) (r : RoutingTables) :
    (fromSock cfg w m r).error = none ↔ Survives cfg w m r := by
  unfold fromSock printMsg Survives
  cases hargs : m.argval with
  | none => simp
  | some args =>
    simp only [Option.some.injEq, exists_eq_left', skip_andThen]
    by_cases hseen : m.uuid ∈ r.seenUUID
    · simp [floodRoute_of_seen hseen, hseen]
    · rw [floodRoute_of_unseen hseen, emit_andThen, andThen_error_eq_none, routeNonlocal_ok_iff,
        processLocal_ok_iff hargs, or_iff_right hseen]
      constructor
      · rintro ⟨hanswer, hdeliver⟩
        refine ⟨?_, hanswer⟩
        have hok := (processLocal_ok_iff hargs _).mpr hanswer
        exact (processLocal_deliverable hargs hok).mp hdeliver
      · rintro ⟨hdeliver, hanswer⟩
        have hok := (processLocal_ok_iff hargs _).mpr hanswer
        exact ⟨hanswer, (processLocal_deliverable hargs hok).mpr hdeliver⟩

end VleoNotebook.Mess
