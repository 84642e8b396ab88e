import VleoNotebook.Mess.CallReplies

/-! Whether a message for this server stops here.

`floodRoute` first does what is addressed to the server and then goes on to
`ROUTE_NONLOCAL` in every case; the label `SKIP_ROUTING` behind the flood is never
jumped to. There a message for the server is handed to the client or tc-server it
names, and without one it is sent on like a message for somebody else: to the entry
the server has under its own ID, or to all MESS peers. So it stops here if local
handling died before, if it names an entry of the table, or if there is no peer that
the message could be written to (`stopsHere_iff`). -/
namespace VleoNotebook.Mess

open Proc

/-- No copy of the message went to a MESS peer. -/
def StopsHere (m : Message) (a : Ran RoutingTables Effect) : Prop :=
  ∀ e ∈ a.effects, e.message = some m → ∀ id via, e.sentTo = some (id, via) →
    ∀ route, a.state.localRoutes.lookup id = some route → route.type ≠ .mess

/-! ### Sending on -/

/-- The peer a message for the server would be written to first: the entry of its own
ID, or the first MESS entry of the flood. -/
def nextPeer (localID : String) (routes : Routes) : Option Route :=
  match if localID ≠ dstBcast then routes.lookup localID else none with
  | some route => if route.type = .mess then some route else none
  | none => (routes.entries.find? fun e => e.2.type = .mess).map Sigma.snd

theorem stopsHere_of_nil {m : Message} {a : Ran RoutingTables Effect} (h : a.effects = []) :
    StopsHere m a := by
  simp [StopsHere, h]

theorem not_stopsHere {m : Message} {a : Ran RoutingTables Effect} (id : String) (n : Nat)
    (hsent : .toPeer id (.sock n) m ∈ a.effects)
    (hroute : a.state.localRoutes.lookup id = some ⟨.sock n, .mess⟩) : ¬ StopsHere m a :=
  fun h => h _ hsent rfl id (.sock n) rfl _ hroute rfl

/-- A single copy stops here exactly when its entry is no MESS peer. -/
theorem stopsHere_single {m : Message} {a : Ran RoutingTables Effect} {e : Effect} {id : String}
    {route : Route} (h : a.effects = [e]) (hmessage : e.message = some m)
    (hsent : e.sentTo = some (id, route.sock))
    (hroute : a.state.localRoutes.lookup id = some route) :
    StopsHere m a ↔ route.type ≠ .mess := by
  simp only [StopsHere, h, List.mem_singleton, forall_eq, hmessage, hsent, forall_const,
    Option.some.injEq, Prod.mk.injEq, and_imp]
  constructor
  · exact fun hstop => hstop id route.sock rfl rfl route hroute
  · rintro hne _ _ rfl rfl route' hroute'
    obtain rfl : route = route' := Option.some.inj (hroute.symm.trans hroute')
    exact hne

/-- A message for a client or the tc-server is sent to no one else. -/
theorem routeNonlocal_client_stops {localID : String} {m : Message} {r : RoutingTables}
    {route : Route} (h : clientRoute localID m.dst m.dstsub r = some route) :
    StopsHere m (routeNonlocal localID m r) := by
  have hlookup : r.localRoutes.lookup m.dstsub = some route := by
    unfold clientRoute at h
    split_ifs at h
    exact h
  have hstate : (routeNonlocal localID m r).state.localRoutes.lookup m.dstsub = some route := by
    rw [routeNonlocal_state, hlookup]
  obtain ⟨sock, type⟩ := route
  cases type with
  | mess => exact stopsHere_of_nil (by simp [routeNonlocal, h])
  | tcc =>
    cases sock with
    | mq => exact stopsHere_of_nil (by simp [routeNonlocal, h, sendData])
    | sock n =>
      exact (stopsHere_single (routeNonlocal_toClient h) rfl rfl hstate).mpr (by simp)
  | tcs =>
    cases sock with
    | sock n => exact stopsHere_of_nil (by simp [routeNonlocal, h, sendMsg])
    | mq =>
      refine (stopsHere_single (e := .toClient m.dstsub .mq m) ?_ rfl rfl hstate).mpr (by simp)
      simp [routeNonlocal, h, sendMsg]

/-- Of the first MESS entry it depends whether the flood writes anything. -/
theorem each_floodPeer_eq_nil (m : Message) (r : RoutingTables)
    (entries : List (Sigma fun _ : String => Route)) :
    (each (floodPeer m) entries r).effects = [] ↔
      ∀ route ∈ (entries.find? fun e => e.2.type = .mess).map Sigma.snd, route.sock = .mq := by
  induction entries with
  | nil => simp [each]
  | cons e entries ih =>
    obtain ⟨id, sock, type⟩ := e
    by_cases htype : type = .mess
    · cases sock with
      | sock n => simp [each, floodPeer, htype, sendData]
      | mq => simp [each, floodPeer, htype, sendData]
    · simp [each, floodPeer, htype, ih]

/-- Whatever the flood writes goes to MESS peers. -/
theorem stopsHere_flood (m : Message) (r : RoutingTables) :
    StopsHere m (each (floodPeer m) r.localRoutes.entries r) ↔
      (each (floodPeer m) r.localRoutes.entries r).effects = [] := by
  refine ⟨fun h => ?_, stopsHere_of_nil⟩
  rw [List.eq_nil_iff_forall_not_mem]
  intro e he
  have hsub := each_effects_sublist (floodPeer_state m) r.localRoutes.entries r
  obtain ⟨entry, hentry, hpeer⟩ := List.mem_flatMap.mp (hsub.subset he)
  obtain rfl := mem_floodPeer hpeer
  have htype : entry.2.type = .mess := by
    by_contra hne
    simp [floodPeer, hne] at hpeer
  refine h _ he rfl entry.1 entry.2.sock rfl entry.2 ?_ htype
  rw [each_state (floodPeer_state m)]
  exact AList.mem_lookup_iff.mpr hentry

/-- Without an entry under the local ID the message goes to the first peer. -/
theorem routeNonlocal_flood_stops_iff {m : Message} {r : RoutingTables}
    (hclient : clientRoute m.dst m.dst m.dstsub r = none) (hpeer : peerRoute m.dst r = none) :
    StopsHere m (routeNonlocal m.dst m r) ↔
      ∀ route ∈ nextPeer m.dst r.localRoutes, route.sock = .mq := by
  have hnext : nextPeer m.dst r.localRoutes =
      (r.localRoutes.entries.find? fun e => e.2.type = .mess).map Sigma.snd := by
    unfold peerRoute at hpeer
    rw [nextPeer, hpeer]
  have hflood : routeNonlocal m.dst m r = each (floodPeer m) r.localRoutes.entries r := by
    simp only [routeNonlocal, hclient, hpeer]
  rw [hnext, hflood, stopsHere_flood, each_floodPeer_eq_nil]

/-- With one it goes there. -/
theorem routeNonlocal_peer_stops_iff {m : Message} {r : RoutingTables} {route : Route}
    (hclient : clientRoute m.dst m.dst m.dstsub r = none)
    (hpeer : peerRoute m.dst r = some route) :
    StopsHere m (routeNonlocal m.dst m r) ↔
      ∀ route ∈ nextPeer m.dst r.localRoutes, route.sock = .mq := by
  have hnext : nextPeer m.dst r.localRoutes =
      if route.type = .mess then some route else none := by
    unfold peerRoute at hpeer
    rw [nextPeer, hpeer]
  have hlookup : (routeNonlocal m.dst m r).state.localRoutes.lookup m.dst = some route := by
    unfold peerRoute at hpeer
    split_ifs at hpeer
    rw [routeNonlocal_state, hpeer]
  rw [hnext]
  obtain ⟨sock, type⟩ := route
  cases sock with
  | mq =>
    refine iff_of_true (stopsHere_of_nil ?_) ?_
    · simp [routeNonlocal, hclient, hpeer, sendData]
    · by_cases htype : type = .mess <;> simp [htype]
  | sock n =>
    rw [stopsHere_single (routeNonlocal_toPeer hclient hpeer) rfl rfl hlookup]
    by_cases htype : type = .mess <;> simp [htype]

/-- The names of the table are handed a message for the server, and so is the peer
that comes next. -/
theorem routeNonlocal_stops_iff {localID : String} {m : Message} (hdst : m.dst = localID)
    (r : RoutingTables) :
    StopsHere m (routeNonlocal localID m r) ↔
      (m.dstsub ≠ subaddrSelf ∧ m.dstsub ∈ r.localRoutes) ∨
        ∀ route ∈ nextPeer localID r.localRoutes, route.sock = .mq := by
  cases hclient : clientRoute localID m.dst m.dstsub r with
  | some route =>
    refine iff_of_true (routeNonlocal_client_stops hclient) (.inl ?_)
    unfold clientRoute at hclient
    split_ifs at hclient with hself
    exact ⟨hself.2, AList.lookup_isSome.mp (by rw [hclient]; rfl)⟩
  | none =>
    have hnone : ¬ (m.dstsub ≠ subaddrSelf ∧ m.dstsub ∈ r.localRoutes) := by
      rintro ⟨hself, hmem⟩
      rw [clientRoute, if_pos ⟨hdst, hself⟩] at hclient
      exact AList.lookup_eq_none.mp hclient hmem
    rw [or_iff_right hnone]
    subst hdst
    cases hpeer : peerRoute m.dst r with
    | none => exact routeNonlocal_flood_stops_iff hclient hpeer
    | some route => exact routeNonlocal_peer_stops_iff hclient hpeer

/-! ### Local handling -/

/-- The handlers the program floods with. -/
inductive LocalHandler where
  | routeCallback
  | none
deriving DecidableEq, Repr

namespace LocalHandler

def run (cfg : Config) (w : World) : LocalHandler → String → Message → Routing
  | .routeCallback => Mess.routeCallback cfg w
  | .none => noHandler

/-- The handler comes to its end with a message it is called for: `sub {}` with any, the
route callback with a `ping` whose reply can be made and delivered. -/
def Ends (w : World) (localID : String) (m : Message) (r : RoutingTables) : LocalHandler → Prop
  | .routeCallback => m.method = "ping" ∧ ∃ args reply, m.argval = some args ∧
      pingReply w localID m args = .ok reply ∧
      (reply.uuid ∈ m.uuid :: r.seenUUID ∨ Deliverable localID reply.dst reply.dstsub r)
  | .none => True

end LocalHandler

instance (cfg : Config) (localID : String) (m : Message) (args : Hash) (r : RoutingTables) :
    Decidable (WantsLink cfg localID m args r) :=
  inferInstanceAs (Decidable (_ ∧ _ ∧ _ ∧ _))

section Handling
variable (cfg : Config) (w : World) (localID : String) (m : Message) (r : RoutingTables)

/-- The arguments of a message to the server itself that makes it want a link. -/
def linkArgs : Option Hash :=
  if m.dstsub = subaddrSelf ∧ m.method = "bcastIP_PORT" then
    m.argval.filter fun args => WantsLink cfg localID m args r
  else none

/-- The table when local handling has ended. -/
def routesAfter : Routes :=
  match linkArgs cfg localID m r with
  | none => r.localRoutes
  | some args =>
    match w.newClient (args.get "ip") (args.get "port") with
    | .error _ => r.localRoutes
    | .ok n => r.localRoutes.insert (args.get "id") ⟨.sock n, .mess⟩

/-- Local handling of a message for the server comes to its end. -/
structure LocalEnds (handler : LocalHandler) : Prop where
  /-- `bcastIP_PORT` is asked for its arguments, with `MESS_AUTO_LINKS` set. -/
  args : m.dstsub = subaddrSelf → m.method = "bcastIP_PORT" → cfg.messAutoLinks = true →
    m.argval ≠ none
  /-- A link comes about under an ID that can be entered. -/
  link : ∀ args ∈ linkArgs cfg localID m r,
    (∃ n, w.newClient (args.get "ip") (args.get "port") = .ok n) ∧ Truthy (args.get "id")
  handled : m.dstsub = subaddrSelf → m.method ∉ handledBefore →
    handler.Ends w localID m r

variable {cfg w localID m r}

theorem handler_tidy (handler : LocalHandler) (hself : m.dstsub = subaddrSelf)
    (r : RoutingTables) : Tidy r (handler.run cfg w localID m r) := by
  cases handler with
  | routeCallback => exact routeCallback_tidy hself r
  | none => exact tidy_skip r none

theorem handler_ok_iff (handler : LocalHandler) (hself : m.dstsub = subaddrSelf) :
    (handler.run cfg w localID m (r.see m.uuid)).error = none ↔ handler.Ends w localID m r := by
  cases handler with
  | none => exact iff_of_true rfl trivial
  | routeCallback =>
    simp only [LocalHandler.run, LocalHandler.Ends, routeCallback]
    by_cases hping : m.method = "ping"
    · rw [if_pos hping, if_pos hself, and_iff_right hping]
      cases hargs : m.argval with
      | none => simp
      | some args =>
        simp only [Option.some.injEq, exists_and_left, exists_eq_left']
        cases hreply : pingReply w localID m args with
        | error text => simp
        | ok reply =>
          simp only [emit_andThen, Except.ok.injEq, exists_eq_left']
          by_cases hseen : reply.uuid ∈ m.uuid :: r.seenUUID
          · exact iff_of_true (by rw [floodRoute_of_seen hseen]) (.inl hseen)
          · rw [floodRoute_noHandler_ok_iff ((pingReply_method hreply).trans hping) hseen,
              or_iff_right hseen]
            exact deliverable_congr rfl
    · simp [hping]

/-- A handler that is called for a message to the server itself enters no route. -/
theorem handler_routes (handler : LocalHandler) (hself : m.dstsub = subaddrSelf)
    (r : RoutingTables) :
    (handler.run cfg w localID m r).state.localRoutes = r.localRoutes := by
  cases handler with
  | none => rfl
  | routeCallback =>
    simp only [LocalHandler.run, routeCallback]
    by_cases hping : m.method = "ping"
    · rw [if_pos hping, if_pos hself]
      cases m.argval with
      | none => rfl
      | some args =>
        simp only
        cases hreply : pingReply w localID m args with
        | error text => rfl
        | ok reply =>
          exact floodRoute_noHandler_routes ((pingReply_method hreply).trans hping) r
    · rw [if_neg hping]
      rfl

/-- `floodRoute` comes to the code that makes a link. -/
def Links (cfg : Config) (m : Message) : Prop :=
  m.dstsub = subaddrSelf ∧ m.method = "bcastIP_PORT" ∧ cfg.messAutoLinks = true

theorem linkArgs_of_not_links (h : ¬ Links cfg m) : linkArgs cfg localID m r = none := by
  rw [Option.eq_none_iff_forall_not_mem]
  intro args hargs
  unfold linkArgs at hargs
  split_ifs at hargs with hcond
  · obtain ⟨-, hwants⟩ := Option.mem_filter_iff.mp hargs
    exact h ⟨hcond.1, hcond.2, (of_decide_eq_true hwants).1⟩
  · cases hargs

theorem routesAfter_of_not_links (h : ¬ Links cfg m) :
    routesAfter cfg w localID m r = r.localRoutes := by
  simp [routesAfter, linkArgs_of_not_links h]

/-- Away from that code only the handler can end it. -/
theorem localEnds_of_not_links (h : ¬ Links cfg m) (handler : LocalHandler) :
    LocalEnds cfg w localID m r handler ↔
      (m.dstsub = subaddrSelf → m.method ∉ handledBefore → handler.Ends w localID m r) where
  mp hends := hends.handled
  mpr hhandled := by
    refine ⟨fun h1 h2 h3 => absurd ⟨h1, h2, h3⟩ h, ?_, hhandled⟩
    simp [linkArgs_of_not_links h]

/-- At it there is no handler that could. -/
theorem localEnds_of_links (h : Links cfg m) (handler : LocalHandler) :
    LocalEnds cfg w localID m r handler ↔ ∃ args, m.argval = some args ∧
      (WantsLink cfg localID m args r →
        (∃ n, w.newClient (args.get "ip") (args.get "port") = .ok n) ∧
          Truthy (args.get "id")) := by
  obtain ⟨hself, hmethod, hauto⟩ := h
  constructor
  · intro hends
    obtain ⟨args, hargs⟩ := Option.ne_none_iff_exists'.mp (hends.args hself hmethod hauto)
    refine ⟨args, hargs, fun hwants => hends.link args ?_⟩
    simp [linkArgs, hself, hmethod, hargs, hwants]
  · rintro ⟨args, hargs, hlink⟩
    refine ⟨fun _ _ _ => by simp [hargs], fun args' hargs' => ?_, fun _ hm => ?_⟩
    · rw [linkArgs, if_pos ⟨hself, hmethod⟩, hargs, Option.mem_filter_iff] at hargs'
      obtain ⟨⟨⟩, hwants⟩ := hargs'
      exact hlink (of_decide_eq_true hwants)
    · exact absurd (by simp [handledBefore, hmethod]) hm

theorem autoLink_ends (handler : LocalHandler) (h : Links cfg m) :
    (autoLink w localID m (r.see m.uuid)).error = none ↔ LocalEnds cfg w localID m r handler := by
  rw [localEnds_of_links h]
  cases hargs : m.argval with
  | none => simp [autoLink, hargs]
  | some args =>
    rw [autoLink_ok_iff hargs]
    simp [WantsLink, h.2.2, RoutingTables.see]

theorem autoLink_routesAfter (h : Links cfg m)
    (hok : (autoLink w localID m (r.see m.uuid)).error = none) :
    (autoLink w localID m (r.see m.uuid)).state.localRoutes = routesAfter cfg w localID m r := by
  obtain ⟨args, hargs, hlink⟩ :=
    (localEnds_of_links h .none).mp ((autoLink_ends .none h).mp hok)
  have hwants : WantsLink cfg localID m args r ↔ args.get "id" ≠ localID ∧ m.src ≠ localID ∧
      args.get "id" ∉ (r.see m.uuid).localRoutes := and_iff_right h.2.2
  have hafter : linkArgs cfg localID m r =
      if WantsLink cfg localID m args r then some args else none := by
    simp [linkArgs, h.1, h.2.1, hargs, Option.filter]
  by_cases hw : WantsLink cfg localID m args r
  · obtain ⟨⟨n, hnew⟩, hid⟩ := hlink hw
    simp only [autoLink, hargs, if_pos (hwants.mp hw), hnew, lRoute_mess hid, routesAfter, hafter,
      if_pos hw]
    rfl
  · simp only [autoLink, hargs, if_neg (hwants.not.mp hw), routesAfter, hafter, if_neg hw]
    rfl

/-- What local handling comes to in the end, and with which routes. -/
theorem processLocal_ends (handler : LocalHandler) (hdst : m.dst = localID) :
    let a := processLocal cfg w localID m (handler.run cfg w) (r.see m.uuid)
    (a.error = none ↔ LocalEnds cfg w localID m r handler) ∧
      (a.error = none → a.state.localRoutes = routesAfter cfg w localID m r) := by
  unfold processLocal
  by_cases hlinks : Links cfg m
  · have hmethod := hlinks.2.1
    rw [if_pos ⟨hlinks.1, .inr hdst⟩, if_neg (by simp [hmethod]), if_pos hmethod,
      if_pos hlinks.2.2]
    exact ⟨autoLink_ends handler hlinks, autoLink_routesAfter hlinks⟩
  rw [localEnds_of_not_links hlinks, routesAfter_of_not_links hlinks]
  split_ifs with hself hrte hport hauto hreg
  · exact ⟨iff_of_true rfl fun _ h => absurd (by simp [handledBefore, hrte]) h, fun _ => rfl⟩
  · exact absurd ⟨hself.1, hport, hauto⟩ hlinks
  · exact ⟨iff_of_true rfl fun _ h => absurd (by simp [handledBefore, hport]) h, fun _ => rfl⟩
  · exact ⟨iff_of_true rfl fun _ h => absurd (by simp [handledBefore, hreg]) h, fun _ => rfl⟩
  · have hnot : m.method ∉ handledBefore := by simp [handledBefore, hrte, hport, hreg]
    rw [emit_andThen, forall_prop_of_true hself.1, forall_prop_of_true hnot]
    exact ⟨handler_ok_iff handler hself.1, fun _ => handler_routes handler hself.1 _⟩
  · exact ⟨iff_of_true rfl fun h => absurd ⟨h, .inr hdst⟩ hself, fun _ => rfl⟩

/-- Local handling sends no copy of the message itself. -/
theorem processLocal_sends (handler : LocalHandler) :
    ∀ e ∈ (processLocal cfg w localID m (handler.run cfg w) (r.see m.uuid)).effects,
      e.message = some m → e.sentTo = none := by
  obtain ⟨own, rest, hdoes⟩ : ∃ own rest, Does m (r.see m.uuid)
      (processLocal cfg w localID m (handler.run cfg w) (r.see m.uuid)) own rest :=
    processLocal_does fun hself => handler_tidy handler hself _
  intro e he hmessage
  rw [hdoes.effects] at he
  rcases List.mem_append.mp he with hown | hrest
  · exact (hdoes.isHere e hown).2
  · have habout : e.about = some m.uuid := by rw [Effect.about_eq, hmessage]; rfl
    exact absurd habout (hdoes.rest.quiet m.uuid (List.mem_cons_self ..) e hrest)

end Handling

/-! ### The exact condition -/

/-- Only what is sent on behind local handling counts. -/
theorem stopsHere_append {m : Message} {state : RoutingTables} {before after : List Effect}
    {error : Option String} (h : ∀ e ∈ before, e.message = some m → e.sentTo = none) :
    StopsHere m ⟨state, before ++ after, error⟩ ↔ StopsHere m ⟨state, after, error⟩ := by
  constructor
  · exact fun hstop e he => hstop e (List.mem_append_right _ he)
  · intro hstop e he hmessage id via hsent
    rcases List.mem_append.mp he with he | he
    · rw [h e he hmessage] at hsent
      cases hsent
    · exact hstop e he hmessage id via hsent

/-- **A new message for this server is sent to no MESS peer** if and only if local
handling dies, or it is for an entry of the table, or the peer it would be written to
first is no socket, if there is one. -/
theorem stopsHere_iff (cfg : Config) (w : World) (localID : String) (m : Message)
    (handler : LocalHandler) (r : RoutingTables) (hnew : m.uuid ∉ r.seenUUID)
    (hdst : m.dst = localID) :
    StopsHere m (floodRoute cfg w localID m (handler.run cfg w) r) ↔
      ¬ LocalEnds cfg w localID m r handler ∨
        (m.dstsub ≠ subaddrSelf ∧ m.dstsub ∈ r.localRoutes) ∨
        ∀ route ∈ nextPeer localID (routesAfter cfg w localID m r), route.sock = .mq := by
  obtain ⟨hok, hroutes⟩ := @processLocal_ends cfg w localID m r handler hdst
  have hlocal : ∀ e ∈ Effect.passed m ::
      (processLocal cfg w localID m (handler.run cfg w) (r.see m.uuid)).effects,
      e.message = some m → e.sentTo = none :=
    List.forall_mem_cons.mpr ⟨fun _ => rfl, processLocal_sends handler⟩
  rw [floodRoute_of_unseen hnew, emit_andThen]
  by_cases hends : LocalEnds cfg w localID m r handler
  · have hlocalOk := hok.mpr hends
    rw [or_iff_right (not_not.mpr hends), andThen_of_ok _ hlocalOk, ← List.cons_append,
      stopsHere_append hlocal, ← hroutes hlocalOk]
    refine (routeNonlocal_stops_iff hdst _).trans (or_congr_left (and_congr_right fun hself => ?_))
    rw [hroutes hlocalOk, routesAfter_of_not_links fun hlinks => hself hlinks.1]
  · rw [andThen_of_error _ (hok.not.mpr hends), ← List.append_nil (Effect.passed m :: _),
      stopsHere_append hlocal]
    exact iff_of_true (stopsHere_of_nil rfl) (.inl hends)

/-- The tables of a server with one MESS peer. -/
def peered : RoutingTables := ⟨[], (∅ : Routes).insert "M2" ⟨.sock 2, .mess⟩⟩

/-- A `ping` of the peer to the server itself. -/
def selfPing : Message :=
  ⟨.call, "M2", "L3", "M1", subaddrSelf, "00000000-0000-11e0-0000-000000000021", "", "ping",
    some [("tm", "0")], .orig⟩

theorem stopsHere_selfPing :
    StopsHere selfPing (floodRoute Sample.m1 (Sample.world "a" "b") "M1" selfPing
        (LocalHandler.routeCallback.run Sample.m1 (Sample.world "a" "b")) peered) ↔
      ¬ LocalEnds Sample.m1 (Sample.world "a" "b") "M1" selfPing peered .routeCallback ∨
        (selfPing.dstsub ≠ subaddrSelf ∧ selfPing.dstsub ∈ peered.localRoutes) ∨
        ∀ route ∈ nextPeer "M1"
            (routesAfter Sample.m1 (Sample.world "a" "b") "M1" selfPing peered),
          route.sock = .mq :=
  stopsHere_iff Sample.m1 (Sample.world "a" "b") "M1" selfPing .routeCallback peered (by decide) rfl

/-- A `ping` of the peer to a client the server does not know. -/
def strayPing : Message := {selfPing with dstsub := "L9"}

/-- What the server does with a message from a socket. -/
def routedBy (m : Message) : Ran RoutingTables Effect :=
  floodRoute Sample.m1 (Sample.world "a" "b") "M1" m
    (LocalHandler.routeCallback.run Sample.m1 (Sample.world "a" "b")) peered

/-- Both are sent back to the peer they came from, the first one behind its answer. -/
theorem selfPing_sentOn :
    (selfPing.uuid ∉ peered.seenUUID ∧ selfPing.dst = "M1" ∧
        ¬ StopsHere selfPing (routedBy selfPing)) ∧
      strayPing.uuid ∉ peered.seenUUID ∧ strayPing.dst = "M1" ∧
        ¬ StopsHere strayPing (routedBy strayPing) :=
  ⟨⟨by decide, rfl, not_stopsHere "M2" 2 (by decide) (by decide)⟩,
    by decide, rfl, not_stopsHere "M2" 2 (by decide) (by decide)⟩

end VleoNotebook.Mess
