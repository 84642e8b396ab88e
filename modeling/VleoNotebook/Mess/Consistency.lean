import VleoNotebook.Mess.AtMostOnce
import VleoNotebook.Mess.Identity

/-! Whether the route table fits the connections.

Accepting a connection and linking to the upstream server set up the route, the
select set and `authOK` together, also when an ID connects again while its old
socket is open. Two steps do not: closing a socket leaves the routes that name it,
and a link made for a `bcastIP_PORT` gets a route and nothing else. So the tables
fit exactly in the runs without these (`consistent_iff_keeps`), and there nothing
is handed to a closed socket. -/
namespace VleoNotebook.Mess.Server

open Proc

/-! ### What a message does to the routes -/

/-- The routes with the link a message leads to. -/
def withLink (link : Option (String × Nat)) (routes : Routes) : Routes :=
  match link with
  | none => routes
  | some (id, sock) => routes.insert id ⟨.sock sock, .mess⟩

theorem newLink_of_seen {cfg : Config} {w : World} {m : Message} {r : RoutingTables}
    (h : m.uuid ∈ r.seenUUID) : newLink cfg w m r = none := by
  unfold newLink
  split
  · rfl
  · exact if_neg fun hcond => hcond.1 h

theorem newLink_of_method {cfg : Config} {w : World} {m : Message} {r : RoutingTables}
    (h : m.method ≠ "bcastIP_PORT") : newLink cfg w m r = none := by
  unfold newLink
  split
  · rfl
  · exact if_neg fun hcond => h hcond.2.2.1

theorem newLink_of_src {cfg : Config} {w : World} {m : Message} {r : RoutingTables}
    (h : m.src = cfg.messMyId) : newLink cfg w m r = none := by
  unfold newLink
  split
  · rfl
  · exact if_neg fun hcond => hcond.2.2.2.2.2.1 h

/-- `bcastIP_PORT` to the server itself adds the link it leads to. -/
theorem autoLink_routes {cfg : Config} {w : World} {m : Message} {r : RoutingTables}
    (hnew : m.uuid ∉ r.seenUUID) (hself : ForSelf cfg.messMyId m)
    (hmethod : m.method = "bcastIP_PORT") (hauto : cfg.messAutoLinks = true) :
    (autoLink w cfg.messMyId m (r.see m.uuid)).state.localRoutes =
      withLink (newLink cfg w m r) r.localRoutes := by
  unfold autoLink newLink
  cases hargs : m.argval with
  | none => rfl
  | some args =>
    simp only [hnew, hself, hmethod, hauto, not_false_eq_true, true_and]
    have hsame : (args.get "id" ≠ cfg.messMyId ∧ m.src ≠ cfg.messMyId ∧
        args.get "id" ∉ (r.see m.uuid).localRoutes) ↔
        args.get "id" ≠ cfg.messMyId ∧ m.src ≠ cfg.messMyId ∧ args.get "id" ∉ r.localRoutes :=
      Iff.rfl
    by_cases hcond : args.get "id" ≠ cfg.messMyId ∧ m.src ≠ cfg.messMyId ∧
        args.get "id" ∉ r.localRoutes
    · rw [if_pos (hsame.mpr hcond), if_pos hcond]
      cases w.newClient (args.get "ip") (args.get "port") with
      | error text => rfl
      | ok n =>
        by_cases hid : Truthy (args.get "id")
        · simp only [lRoute_mess hid, if_pos hid]
          rfl
        · simp only [lRoute_not_truthy hid, if_neg hid]
          rfl
    · rw [if_neg (fun h => hcond (hsame.mp h)), if_neg hcond]
      rfl

/-- A flood changes the routes by the link its message leads to, if its handler leaves
them alone. -/
theorem floodRoute_routes {cfg : Config} {w : World} {m : Message}
    {handler : String → Message → Routing}
    (hh : ∀ r, (handler cfg.messMyId m r).state.localRoutes = r.localRoutes)
    (r : RoutingTables) :
    (floodRoute cfg w cfg.messMyId m handler r).state.localRoutes =
      withLink (newLink cfg w m r) r.localRoutes := by
  by_cases hseen : m.uuid ∈ r.seenUUID
  · rw [floodRoute_of_seen hseen, newLink_of_seen hseen]
    rfl
  have hlocal : (processLocal cfg w cfg.messMyId m handler (r.see m.uuid)).state.localRoutes =
      withLink (newLink cfg w m r) r.localRoutes := by
    unfold processLocal
    by_cases hmethod : m.method = "bcastIP_PORT"
    · have hrte : m.method ≠ "bcastRTE" := by
        rw [hmethod]
        decide
      split_ifs with hself hauto
      · exact autoLink_routes hseen hself hmethod hauto
      · have hnone : newLink cfg w m r = none := by
          unfold newLink
          split
          · rfl
          · exact if_neg fun hcond => hauto hcond.2.2.2.1
        rw [hnone]
        rfl
      · have hnone : newLink cfg w m r = none := by
          unfold newLink
          split
          · rfl
          · exact if_neg fun hcond => hself hcond.2.1
        rw [hnone]
        rfl
    · rw [newLink_of_method hmethod]
      split_ifs
      · rfl
      · rfl
      · exact hh (r.see m.uuid)
      · rfl
  rw [floodRoute_of_unseen hseen, emit_andThen]
  by_cases hok : (processLocal cfg w cfg.messMyId m handler (r.see m.uuid)).error = none
  · rw [andThen_of_ok _ hok, routeNonlocal_state]
    exact hlocal
  · rw [andThen_of_error _ hok]
    exact hlocal

theorem routeCallback_routes (cfg : Config) (w : World) (m : Message) (r : RoutingTables) :
    (routeCallback cfg w cfg.messMyId m r).state.localRoutes = r.localRoutes := by
  unfold routeCallback
  by_cases hping : m.method = "ping"
  · rw [if_pos hping]
    by_cases hself : m.dstsub = subaddrSelf
    · rw [if_pos hself]
      cases m.argval with
      | none => rfl
      | some args =>
        simp only
        cases hmade : pingReply w cfg.messMyId m args with
        | error text => rfl
        | ok reply =>
          have hmethod : reply.method = "ping" := by
            obtain ⟨t, st, -, -, -, -, rfl⟩ := Message.new_eq_ok.mp hmade
            exact hping
          simp only [emit_andThen]
          exact floodRoute_noHandler_routes hmethod r
    · rw [if_neg hself]
      split_ifs <;> rfl
  · rw [if_neg hping]
    rfl

/-- A procedure behind `printMsg`. -/
theorem printMsg_andThen_routes {cfg : Config} {w : World} {m : Message} {q : Routing}
    {r : RoutingTables}
    (hq : (q r).state.localRoutes = withLink (newLink cfg w m r) r.localRoutes) :
    (andThen (printMsg m) q r).state.localRoutes =
      withLink (newLink cfg w m r) r.localRoutes := by
  unfold printMsg
  cases hargs : m.argval with
  | none =>
    have hnone : newLink cfg w m r = none := by simp [newLink, hargs]
    rw [hnone]
    rfl
  | some args =>
    simp only [skip_andThen]
    exact hq

theorem fromSock_routes (cfg : Config) (w : World) (m : Message) (r : RoutingTables) :
    (fromSock cfg w m r).state.localRoutes = withLink (newLink cfg w m r) r.localRoutes :=
  printMsg_andThen_routes (floodRoute_routes (routeCallback_routes cfg w m) r)

theorem fromMQ_routes (cfg : Config) (w : World) (m : Message) (r : RoutingTables) :
    (fromMQ cfg w m r).state.localRoutes = withLink (newLink cfg w m r) r.localRoutes :=
  printMsg_andThen_routes (floodRoute_routes (fun _ => rfl) r)

/-- A message from the server itself makes no link. -/
theorem originate_routes {cfg : Config} {w : World} {made : Except String Message}
    (h : ∀ m, made = .ok m → m.src = cfg.messMyId) (r : RoutingTables) :
    (originate cfg w made r).state.localRoutes = r.localRoutes := by
  unfold originate
  cases made with
  | error text => rfl
  | ok m =>
    simp only
    rw [floodRoute_routes (fun _ => rfl), newLink_of_src (h m rfl)]
    rfl

theorem src_of_new {uuid type srcsub src dstsub dst method status uuidorig : String}
    {argval : Option Hash} {m : Message}
    (h : Message.new uuid type srcsub src dstsub dst method argval status uuidorig = .ok m) :
    m.src = src := by
  obtain ⟨t, st, -, -, -, -, rfl⟩ := Message.new_eq_ok.mp h
  rfl

theorem bcastLocalIpPort_routes (cfg : LoopConfig) (w : World) (r : RoutingTables) :
    (bcastLocalIpPort cfg w r).state.localRoutes = r.localRoutes :=
  originate_routes (fun _ => src_of_new) r

theorem mqRegister_routes (cfg : LoopConfig) (w : World) (r : RoutingTables) :
    (mqRegister cfg w r).state.localRoutes = r.localRoutes :=
  originate_routes (fun _ => src_of_new) r

/-! ### Fitting -/

variable (cfg : LoopConfig)

/-- A route for a client or a peer is a socket, and a socket a route names is open,
selected, and has the identity the route is for. -/
structure Fits (σ : Server) (e : Sigma fun _ : String => Route) : Prop where
  isSock : e.2.type ≠ .tcs → ∃ n, e.2.sock = .sock n
  isOpen : ∀ n, e.2.sock = .sock n → n ∈ σ.openSocks
  selected : ∀ n, e.2.sock = .sock n → n ∈ σ.readSet
  identity : ∀ n, e.2.sock = .sock n → σ.authOK.lookup n = some e.1

/-- The route table fits the connections. -/
def Consistent (σ : Server) : Prop := ∀ e ∈ σ.tables.localRoutes.entries, Fits σ e

/-- The step closes no socket a route names and makes no link. -/
def Keeps (σ : Server) : Event → Prop
  | .close sock => sock ∉ routeSocks σ.tables
  | .receive _ m w _ => newLink cfg.toConfig w m σ.tables = none
  | .fromMQ m w _ => newLink cfg.toConfig w m σ.tables = none
  | _ => True

/-- The effects of the messages of a step. -/
def effects (σ : Server) : Event → List Effect
  | .receive _ m w _ => (fromSock cfg.toConfig w m σ.tables).effects
  | .fromMQ m w _ => (fromMQ cfg.toConfig w m σ.tables).effects
  | .bcastLocalIpPort w => (bcastLocalIpPort cfg w σ.tables).effects
  | _ => []

/-- No message is handed to a closed socket. -/
def SendsOpen (σ : Server) (e : Event) : Prop :=
  ∀ x ∈ effects cfg σ e, ∀ id n, x.sentTo = some (id, .sock n) → n ∈ σ.openSocks

theorem mem_routeSocks {r : RoutingTables} {n : Nat} :
    n ∈ routeSocks r ↔ ∃ e ∈ r.localRoutes.entries, e.2.sock = .sock n := by
  constructor
  · intro h
    obtain ⟨e, he, hn⟩ := List.mem_filterMap.mp h
    refine ⟨e, he, ?_⟩
    split at hn
    · rename_i n' hsock
      cases hn
      exact hsock
    · cases hn
  · rintro ⟨e, he, hn⟩
    exact List.mem_filterMap.mpr ⟨e, he, by rw [hn]⟩

variable {cfg} {σ : Server}

/-- Sockets a route names are live. -/
theorem live_of_route {n : Nat} (h : n ∈ routeSocks σ.tables) : n ∈ live cfg σ := by
  simp [live, h]

theorem Fits.mono {σ' : Server} {e : Sigma fun _ : String => Route} (h : Fits σ e)
    (hopen : ∀ n, e.2.sock = .sock n → n ∈ σ.openSocks → n ∈ σ'.openSocks)
    (hread : ∀ n, e.2.sock = .sock n → n ∈ σ.readSet → n ∈ σ'.readSet)
    (hauth : ∀ n, e.2.sock = .sock n → σ'.authOK.lookup n = σ.authOK.lookup n) : Fits σ' e where
  isSock := h.isSock
  isOpen n hn := hopen n hn (h.isOpen n hn)
  selected n hn := hread n hn (h.selected n hn)
  identity n hn := (hauth n hn).trans (h.identity n hn)

theorem consistent_accept {sock : Nat} (h : Consistent σ) (hfresh : sock ∉ live cfg σ)
    (peer : Peer) (login : Login) : Consistent (accept cfg sock peer login σ) := by
  have hother : ∀ e ∈ σ.tables.localRoutes.entries, ∀ n, e.2.sock = .sock n → n ≠ sock := by
    rintro e he n hn rfl
    exact hfresh (live_of_route (mem_routeSocks.mpr ⟨e, he, hn⟩))
  obtain ⟨auth, died, heq⟩ | ⟨id, auth, tables, died, heq, hentered, -⟩ :=
    accept_cases cfg sock peer login σ
  · rw [heq]
    exact fun e he => (h e he).mono (fun _ _ => List.mem_cons_of_mem _)
      (fun _ _ => List.mem_cons_of_mem _) (fun _ _ => rfl)
  · rw [heq]
    intro e he
    rcases hentered.mem he with hold | ⟨rfl, hsock⟩
    · exact (h e hold).mono (fun _ _ => List.mem_cons_of_mem _)
        (fun _ _ => List.mem_cons_of_mem _)
        (fun n hn => AList.lookup_insert_ne (hother e hold n hn))
    · have hthe : ∀ n, e.2.sock = .sock n → n = sock := fun n hn => by
        rw [hsock] at hn
        exact (Handle.sock.inj hn).symm
      refine ⟨fun _ => ⟨sock, hsock⟩, fun n hn => ?_, fun n hn => ?_, fun n hn => ?_⟩
      · exact hthe n hn ▸ List.mem_cons_self ..
      · exact hthe n hn ▸ List.mem_cons_self ..
      · rw [hthe n hn]
        exact AList.lookup_insert _

/-- A procedure on the tables, and the link it leads to. -/
theorem consistent_message_iff {p : Routing} {link : Option (String × Nat)}
    {answer : Option String} (h : Consistent σ) (hfresh : Fresh cfg σ link)
    (hroutes : (p σ.tables).state.localRoutes = withLink link σ.tables.localRoutes) :
    Consistent (connect answer link (perform p σ)) ↔ link = none := by
  cases link with
  | none =>
    refine iff_of_true (fun e he => ?_) rfl
    change e ∈ (p σ.tables).state.localRoutes.entries at he
    rw [hroutes] at he
    exact (h e he).mono (fun _ _ hn => hn) (fun _ _ hn => hn) (fun _ _ => rfl)
  | some link =>
    obtain ⟨id, sock⟩ := link
    refine iff_of_false (fun hall => hfresh ?_) (by simp)
    have hmem : (⟨id, ⟨.sock sock, .mess⟩⟩ : Sigma fun _ => Route) ∈
        (p σ.tables).state.localRoutes.entries := by
      rw [hroutes]
      exact List.mem_cons_self ..
    have hread : sock ∈ σ.readSet := (hall _ hmem).selected sock rfl
    simp [live, hread]

theorem consistent_close_iff {sock : Nat} (h : Consistent σ) :
    Consistent (close sock σ) ↔ sock ∉ routeSocks σ.tables := by
  constructor
  · intro hall hmem
    obtain ⟨e, he, hn⟩ := mem_routeSocks.mp hmem
    have hread := (hall e he).selected sock hn
    exact absurd (List.mem_filter.mp hread).2 (by simp)
  · intro hnot e he
    have hne : ∀ n, e.2.sock = .sock n → n ≠ sock := by
      rintro n hn rfl
      exact hnot (mem_routeSocks.mpr ⟨e, he, hn⟩)
    refine (h e he).mono (fun n hn hmem => ?_) (fun n hn hmem => ?_) (fun n hn => ?_)
    · exact List.mem_filter.mpr ⟨hmem, by simpa using hne n hn⟩
    · exact List.mem_filter.mpr ⟨hmem, by simpa using hne n hn⟩
    · exact AList.lookup_erase_ne (hne n hn)

/-- **From tables that fit, a step leads to tables that fit exactly when it closes no
socket a route names and makes no link.** -/
theorem consistent_step_iff {e : Event} {σ' : Server} (h : Consistent σ)
    (hstep : step cfg σ e = some σ') : Consistent σ' ↔ Keeps cfg σ e := by
  cases e with
  | accept sock peer login =>
    simp only [step, Option.ite_none_right_eq_some, Option.some.injEq] at hstep
    obtain ⟨⟨-, hfresh⟩, rfl⟩ := hstep
    exact iff_of_true (consistent_accept h hfresh peer login) trivial
  | receive sock m w answer =>
    simp only [step, Option.ite_none_right_eq_some, Option.some.injEq] at hstep
    obtain ⟨⟨-, -, -, -, hfresh⟩, rfl⟩ := hstep
    exact consistent_message_iff h hfresh (fromSock_routes _ w m _)
  | fromMQ m w answer =>
    simp only [step, Option.ite_none_right_eq_some, Option.some.injEq] at hstep
    obtain ⟨⟨-, hfresh⟩, rfl⟩ := hstep
    exact consistent_message_iff h hfresh (fromMQ_routes _ w m _)
  | close sock =>
    simp only [step, Option.ite_none_right_eq_some, Option.some.injEq] at hstep
    obtain ⟨-, rfl⟩ := hstep
    exact consistent_close_iff h
  | bcastLocalIpPort w =>
    simp only [step, Option.ite_none_right_eq_some, Option.some.injEq] at hstep
    obtain ⟨-, rfl⟩ := hstep
    have hfresh : Fresh cfg σ none := trivial
    have hkept : Consistent (connect none none (perform (bcastLocalIpPort cfg w) σ)) :=
      (consistent_message_iff h hfresh (bcastLocalIpPort_routes cfg w _)).mpr rfl
    exact iff_of_true hkept trivial

/-! ### Starting -/

theorem fits_mq (σ : Server) {e : Sigma fun _ : String => Route}
    (h : e.2 = ⟨.mq, .tcs⟩) : Fits σ e := by
  constructor <;> simp [h]

/-- Before the upstream link there is the route of the tc-server alone. -/
theorem mqRegister_entries (boot : Boot) :
    ∀ e ∈ (andThen (lRoute cfg.tcServId .mq RouteType.tcs.text) (mqRegister cfg boot.w)
      ⟨[], ∅⟩).state.localRoutes.entries, e.2 = ⟨.mq, .tcs⟩ := by
  have hone : ∀ e ∈ (lRoute cfg.tcServId .mq RouteType.tcs.text ⟨[], ∅⟩).state.localRoutes.entries,
      e.2 = ⟨.mq, .tcs⟩ := by
    obtain ⟨t, ht, h⟩ | ⟨text, h⟩ := lRoute_cases cfg.tcServId .mq RouteType.tcs.text ⟨[], ∅⟩
    · have htype : t = .tcs := Option.some.inj (ht.symm.trans (by decide))
      subst htype
      intro e he
      rw [h] at he
      rw [List.mem_singleton.mp he]
    · intro e he
      rw [h] at he
      cases he
  by_cases hok : (lRoute cfg.tcServId .mq RouteType.tcs.text ⟨[], ∅⟩).error = none
  · rw [andThen_of_ok _ hok]
    simp only [mqRegister_routes]
    exact hone
  · rw [andThen_of_error _ hok]
    exact hone

theorem consistent_connectUp {boot : Boot} (h : ∀ e ∈ σ.tables.localRoutes.entries,
    e.2 = ⟨.mq, .tcs⟩) : Consistent (connectUp cfg boot σ) := by
  unfold connectUp
  split
  · split
    · exact fun e he => fits_mq _ (h e he)
    · rename_i sock answer _
      intro e he
      change e ∈ (lRoute cfg.messPrimary (.sock sock) RouteType.mess.text
        σ.tables).state.localRoutes.entries at he
      obtain ⟨t, -, hroute⟩ | ⟨text, hroute⟩ :=
        lRoute_cases cfg.messPrimary (.sock sock) RouteType.mess.text σ.tables
      · rw [hroute] at he
        rcases List.mem_cons.mp he with rfl | he
        · refine ⟨fun _ => ⟨sock, rfl⟩, fun n hn => ?_, fun n hn => ?_, fun n hn => ?_⟩
          · cases hn
            exact List.mem_singleton_self _
          · cases hn
            exact List.mem_singleton_self _
          · cases hn
            exact AList.lookup_insert _
        · exact fits_mq _ (h e ((List.kerase_sublist _ _).subset he))
      · rw [hroute] at he
        exact fits_mq _ (h e he)
  · exact fun e he => fits_mq _ (h e he)

theorem consistent_startup (boot : Boot) : Consistent (startup cfg boot) := by
  unfold startup
  simp only
  split
  · exact fun e he => fits_mq _ (mqRegister_entries boot e he)
  · split
    · exact consistent_connectUp (mqRegister_entries boot)
    · exact fun e he => (consistent_connectUp (mqRegister_entries boot) e he).mono
        (fun _ _ => List.mem_cons_of_mem _) (fun _ _ => List.mem_cons_of_mem _) (fun _ _ => rfl)

/-! ### The exact condition -/

theorem originate_tidy (cfg : Config) (w : World) (made : Except String Message)
    (r : RoutingTables) : Tidy r (originate cfg w made r) := by
  unfold originate
  cases made with
  | error text => exact tidy_skip r _
  | ok m => exact floodRoute_tidy (fun _ r => tidy_skip r none) r

/-- With tables that fit and no link made, messages go to open sockets. -/
theorem sendsOpen_of_keeps {e : Event} (h : Consistent σ) (hkeeps : Keeps cfg σ e) :
    SendsOpen cfg σ e := by
  have hopen : ∀ {a : Ran RoutingTables Effect}, Tidy σ.tables a →
      a.state.localRoutes = σ.tables.localRoutes →
      ∀ x ∈ a.effects, ∀ id n, x.sentTo = some (id, .sock n) → n ∈ σ.openSocks := by
    intro a ha hroutes x hx id n hsent
    obtain ⟨type, hmem⟩ := ha.sent x hx id _ hsent
    rw [hroutes] at hmem
    exact (h _ hmem).isOpen n rfl
  cases e with
  | receive sock m w answer =>
    have hnone : newLink cfg.toConfig w m σ.tables = none := hkeeps
    exact hopen (fromSock_tidy _ w m _) (by rw [fromSock_routes, hnone]; rfl)
  | fromMQ m w answer =>
    have hnone : newLink cfg.toConfig w m σ.tables = none := hkeeps
    exact hopen (fromMQ_tidy _ w m _) (by rw [fromMQ_routes, hnone]; rfl)
  | bcastLocalIpPort w =>
    exact hopen (originate_tidy _ w _ _) (bcastLocalIpPort_routes cfg w _)
  | accept sock peer login => exact fun x hx => absurd hx List.not_mem_nil
  | close sock => exact fun x hx => absurd hx List.not_mem_nil

/-- **The route table fits the connections in every state of a run exactly when no step
of the run closes a socket a route names or makes a link**; and then no step hands a
message to a closed socket. -/
theorem consistent_iff_keeps (cfg : LoopConfig) (boot : Boot) (es : List Event) (σ : Server)
    (h : Runs.run (step cfg) (startup cfg boot) es = some σ) :
    (Runs.Always (step cfg) Consistent (startup cfg boot) es ↔
        Runs.Meets (step cfg) (Keeps cfg) (startup cfg boot) es) ∧
      (Runs.Meets (step cfg) (Keeps cfg) (startup cfg boot) es →
        Runs.Meets (step cfg) (SendsOpen cfg) (startup cfg boot) es) :=
  ⟨Runs.always_iff_meets (I := fun _ => True) (fun _ _ _ _ _ => trivial)
      (fun _ _ _ _ hs hstep => consistent_step_iff hs hstep) trivial (consistent_startup boot) h,
    Runs.Meets.imp (fun _ _ _ hs hok hstep => (consistent_step_iff hs hstep).mpr hok)
      (fun _ _ hs hok => sendsOpen_of_keeps hs hok) (consistent_startup boot)⟩

end VleoNotebook.Mess.Server

namespace VleoNotebook.Mess

namespace Sample

/-- The client `L1` logs in and hangs up, and `M2` links up. -/
def leaving : List Event :=
  [.accept 1 peer (.ok "L1"), .close 1, .accept 2 peer (.ok "M2")]

/-- A message for `L1`. -/
def late : Message :=
  ⟨.call, "M2", subaddrSelf, "M1", "L1", "00000000-0000-11e0-0000-000000000013", "", "ping",
    some [], .orig⟩

/-- `L1` logs in, `M2` links up, a third connection fails to, `M2` sends `L1` a message, and
the connection without an ID is closed. -/
def staying : List Event :=
  [.accept 1 peer (.ok "L1"), .accept 2 peer (.ok "M2"), .accept 3 peer .failed,
    .receive 2 late (world "c" "d") none, .close 3]

/-- The announcement of `M3`, which can be connected to. -/
def announcement : Message :=
  ⟨.event, "M3", subaddrSelf, dstBcast, subaddrSelf, "00000000-0000-11e0-0000-000000000014", "",
    "bcastIP_PORT", some [("id", "M3"), ("ip", "localhost"), ("port", "9999")], .orig⟩

def linking : World := ⟨fun _ _ => .ok 3, "e", "f", "1300000001.5"⟩

/-- `M2` links up and passes on the announcement. -/
def linkingUp : List Event := [.accept 2 peer (.ok "M2"), .receive 2 announcement linking none]

end Sample

theorem consistent_iff_keeps_staying : ∃ σ,
    Runs.run (Server.step Sample.loop) (Server.startup Sample.loop Sample.boot)
        Sample.staying = some σ ∧
      (Runs.Always (Server.step Sample.loop) Server.Consistent
          (Server.startup Sample.loop Sample.boot) Sample.staying ↔
        Runs.Meets (Server.step Sample.loop) (Server.Keeps Sample.loop)
          (Server.startup Sample.loop Sample.boot) Sample.staying) ∧
      (Runs.Meets (Server.step Sample.loop) (Server.Keeps Sample.loop)
          (Server.startup Sample.loop Sample.boot) Sample.staying →
        Runs.Meets (Server.step Sample.loop) (Server.SendsOpen Sample.loop)
          (Server.startup Sample.loop Sample.boot) Sample.staying) := by
  obtain ⟨σ, h⟩ := Option.isSome_iff_exists.mp (by decide :
    (Runs.run (Server.step Sample.loop) (Server.startup Sample.loop Sample.boot)
      Sample.staying).isSome)
  exact ⟨σ, h, Server.consistent_iff_keeps Sample.loop Sample.boot _ σ h⟩

/-- The route of `L1` outlives its connection, and the next message for it is handed to
the closed socket; and an announced server gets a route to a socket that is not
selected. -/
theorem leaving_inconsistent :
    (∃ σ, Runs.run (Server.step Sample.loop) (Server.startup Sample.loop Sample.boot)
        Sample.leaving = some σ ∧ ¬ Server.Consistent σ ∧
      (Server.step Sample.loop σ (.receive 2 Sample.late (Sample.world "c" "d") none)).isSome ∧
      ¬ Server.SendsOpen Sample.loop σ
        (.receive 2 Sample.late (Sample.world "c" "d") none)) ∧
    ∃ σ, Runs.run (Server.step Sample.loop) (Server.startup Sample.loop Sample.boot)
        Sample.linkingUp = some σ ∧ ¬ Server.Consistent σ := by
  constructor
  · have hrun : ((Runs.run (Server.step Sample.loop) (Server.startup Sample.loop Sample.boot)
        Sample.leaving).any fun σ =>
          (⟨"L1", ⟨.sock 1, .tcc⟩⟩ : Sigma fun _ => Route) ∈ σ.tables.localRoutes.entries ∧
          1 ∉ σ.openSocks ∧
          (Server.step Sample.loop σ (.receive 2 Sample.late (Sample.world "c" "d") none)).isSome ∧
          .toClient "L1" (.sock 1) Sample.late ∈ Server.effects Sample.loop σ
            (.receive 2 Sample.late (Sample.world "c" "d") none)) = true := by
      decide
    obtain ⟨σ, hσ, hall⟩ := (Option.any_eq_true _ _).mp hrun
    obtain ⟨hmem, hclosed, hstep, hsent⟩ := of_decide_eq_true hall
    exact ⟨σ, hσ, fun h => hclosed ((h _ hmem).isOpen 1 rfl), hstep,
      fun h => hclosed (h _ hsent "L1" 1 rfl)⟩
  · have hrun : ((Runs.run (Server.step Sample.loop) (Server.startup Sample.loop Sample.boot)
        Sample.linkingUp).any fun σ =>
          (⟨"M3", ⟨.sock 3, .mess⟩⟩ : Sigma fun _ => Route) ∈ σ.tables.localRoutes.entries ∧
          3 ∉ σ.readSet) = true := by
      decide
    obtain ⟨σ, hσ, hall⟩ := (Option.any_eq_true _ _).mp hrun
    obtain ⟨hmem, hread⟩ := of_decide_eq_true hall
    exact ⟨σ, hσ, fun h => hread ((h _ hmem).selected 3 rfl)⟩

end VleoNotebook.Mess
