import VleoNotebook.Mess.AtMostOnce

/-! What one processing of a message is sure to do.

A processing that survives has, for every message it let past the duplicate filter,
sent that message on completely, by the tables it left behind (`Complete`). And it
works on no messages but the one it was given and the reply it created to it
(`mem_fromSock`). -/
namespace VleoNotebook.Mess

open Proc

/-! ### Sending on -/

theorem routeNonlocal_toClient {localID : String} {m : Message} {r : RoutingTables} {n : Nat}
    (h : clientRoute localID m.dst m.dstsub r = some ⟨.sock n, .tcc⟩) :
    (routeNonlocal localID m r).effects = [.toClient m.dstsub (.sock n) m] := by
  simp [routeNonlocal, h, sendData]

theorem routeNonlocal_toPeer {localID : String} {m : Message} {r : RoutingTables} {n : Nat}
    {type : RouteType} (hc : clientRoute localID m.dst m.dstsub r = none)
    (hp : peerRoute m.dst r = some ⟨.sock n, type⟩) :
    (routeNonlocal localID m r).effects = [.toPeer m.dst (.sock n) m] := by
  simp [routeNonlocal, hc, hp, sendData]

/-- A flood that survives reaches every MESS entry. -/
theorem routeNonlocal_flood {localID : String} {m : Message} {r : RoutingTables}
    (hc : clientRoute localID m.dst m.dstsub r = none) (hp : peerRoute m.dst r = none)
    (hok : (routeNonlocal localID m r).error = none) {e : Sigma fun _ : String => Route}
    (he : e ∈ r.localRoutes.entries) (htype : e.2.type = .mess) :
    .toPeer e.1 e.2.sock m ∈ (routeNonlocal localID m r).effects := by
  unfold routeNonlocal at hok ⊢
  simp only [hc, hp] at hok ⊢
  rw [each_error_eq_none (floodPeer_state m)] at hok
  rw [each_effects (floodPeer_state m) hok]
  refine List.mem_flatMap.mpr ⟨e, he, ?_⟩
  obtain ⟨n, hn⟩ := (floodPeer_ok_iff m e r).mp (hok e he) htype
  simp [floodPeer, htype, hn, sendData]

/-! ### Completeness -/

/-- Every message that got past the filter was sent on completely, by these tables. -/
def Complete (localID : String) (r : RoutingTables) (es : List Effect) : Prop :=
  ∀ m, .passed m ∈ es → (routeNonlocal localID m r).error = none ∧
    (routeNonlocal localID m r).effects ⊆ es

theorem complete_of_none {localID : String} {r : RoutingTables} {es : List Effect}
    (h : ∀ m, .passed m ∉ es) : Complete localID r es :=
  fun m hm => absurd hm (h m)

theorem Complete.cons {localID : String} {r : RoutingTables} {e : Effect} {es : List Effect}
    (h : Complete localID r es) (he : ∀ m, e ≠ .passed m) : Complete localID r (e :: es) := by
  intro m hm
  obtain ⟨hok, hsub⟩ := h m ((List.mem_cons.mp hm).resolve_left (he m).symm)
  exact ⟨hok, List.subset_cons_of_subset e hsub⟩

theorem autoLink_complete (w : World) (localID : String) (m : Message) (r : RoutingTables) :
    Complete localID (autoLink w localID m r).state (autoLink w localID m r).effects := by
  refine complete_of_none fun m' => ?_
  unfold autoLink
  cases m.argval with
  | none => simp
  | some args =>
    simp only
    split
    · cases w.newClient (args.get "ip") (args.get "port") with
      | error text => simp
      | ok n => by_cases hid : Truthy (args.get "id") <;> simp [lRoute_mess, lRoute_not_truthy, hid]
    · simp

/-- A handler that is complete wherever it survives. -/
def HandlerComplete (localID : String) (m : Message) (handler : String → Message → Routing) :
    Prop :=
  ∀ r, (handler localID m r).error = none →
    Complete localID (handler localID m r).state (handler localID m r).effects

theorem processLocal_complete {cfg : Config} {w : World} {localID : String} {m : Message}
    {handler : String → Message → Routing} (hh : HandlerComplete localID m handler)
    {r : RoutingTables} (hok : (processLocal cfg w localID m handler r).error = none) :
    Complete localID (processLocal cfg w localID m handler r).state
      (processLocal cfg w localID m handler r).effects := by
  unfold processLocal at hok ⊢
  split_ifs at hok ⊢ with hself h1 h2 hauto h3
  · exact complete_of_none (by simp)
  · exact autoLink_complete w localID m r
  · exact complete_of_none (by simp)
  · exact complete_of_none (by simp)
  · exact (hh r hok).cons (by simp)
  · exact complete_of_none (by simp)

/-- **A flood that survives is complete whenever its handler is.** -/
theorem floodRoute_complete {cfg : Config} {w : World} {localID : String} {m : Message}
    {handler : String → Message → Routing} (hh : HandlerComplete localID m handler)
    {r : RoutingTables} (hok : (floodRoute cfg w localID m handler r).error = none) :
    Complete localID (floodRoute cfg w localID m handler r).state
      (floodRoute cfg w localID m handler r).effects := by
  by_cases hseen : m.uuid ∈ r.seenUUID
  · rw [floodRoute_of_seen hseen]
    exact complete_of_none (by simp)
  · rw [floodRoute_of_unseen hseen, emit_andThen] at hok ⊢
    obtain ⟨hlocal, hroute⟩ := andThen_error_eq_none.mp hok
    rw [andThen_of_ok _ hlocal, routeNonlocal_state]
    have hcomplete := processLocal_complete (w := w) hh hlocal
    have hsends := routeNonlocal_sends localID m
      (processLocal cfg w localID m handler (r.see m.uuid)).state
    intro m' hm'
    simp only [List.mem_cons, List.mem_append] at hm'
    rcases hm' with hm' | hm' | hm'
    · cases hm'
      exact ⟨hroute, List.subset_cons_of_subset _ (List.subset_append_right _ _)⟩
    · obtain ⟨hok', hsub⟩ := hcomplete m' hm'
      exact ⟨hok',
        List.Subset.trans hsub (List.subset_cons_of_subset _ (List.subset_append_left _ _))⟩
    · exact absurd (hsends.notPassed _ hm') (by simp [Effect.is])

theorem noHandler_complete (localID : String) (m : Message) :
    HandlerComplete localID m noHandler :=
  fun _ _ => complete_of_none (by simp [noHandler])

theorem routeCallback_complete (cfg : Config) (w : World) (localID : String) (m : Message) :
    HandlerComplete localID m (routeCallback cfg w) := by
  intro r hok
  unfold routeCallback at hok ⊢
  by_cases hping : m.method = "ping"
  · rw [if_pos hping] at hok ⊢
    by_cases hself : m.dstsub = subaddrSelf
    · rw [if_pos hself] at hok ⊢
      cases hargs : m.argval with
      | none => simp [hargs] at hok
      | some args =>
        simp only [hargs] at hok ⊢
        cases hreply : pingReply w localID m args with
        | error text => simp [hreply] at hok
        | ok reply =>
          simp only [hreply, emit_andThen] at hok ⊢
          exact (floodRoute_complete (noHandler_complete localID reply) hok).cons (by simp)
    · rw [if_neg hself]
      refine complete_of_none fun m' => ?_
      split_ifs <;> simp [sendMsg]
  · rw [if_neg hping]
    exact complete_of_none (by simp)

theorem fromSock_complete {cfg : Config} {w : World} {m : Message} {r : RoutingTables}
    (hok : (fromSock cfg w m r).error = none) :
    Complete cfg.messMyId (fromSock cfg w m r).state (fromSock cfg w m r).effects := by
  unfold fromSock printMsg at hok ⊢
  cases hargs : m.argval with
  | none => simp [hargs] at hok
  | some args =>
    simp only [hargs, skip_andThen] at hok ⊢
    exact floodRoute_complete (routeCallback_complete cfg w cfg.messMyId m) hok

theorem fromMQ_complete {cfg : Config} {w : World} {m : Message} {r : RoutingTables}
    (hok : (fromMQ cfg w m r).error = none) :
    Complete cfg.messMyId (fromMQ cfg w m r).state (fromMQ cfg w m r).effects := by
  unfold fromMQ printMsg at hok ⊢
  cases hargs : m.argval with
  | none => simp [hargs] at hok
  | some args =>
    simp only [hargs, skip_andThen] at hok ⊢
    exact floodRoute_complete (noHandler_complete cfg.messMyId m) hok

/-! ### The messages worked on -/

/-- The message an effect is about. The creation of a reply is about none. -/
def Effect.message : Effect → Option Message
  | .passed m | .handled m | .registered m | .linked m _ _ | .toClient _ _ m | .toPeer _ _ m
  | .forwarded _ m => some m
  | .made _ _ => none

theorem Effect.about_eq (e : Effect) : e.about = e.message.map Message.uuid := by
  cases e <;> rfl

section Mem
variable {cfg : Config} {w : World} {localID : String} {m : Message} {r : RoutingTables}
  {e : Effect}

theorem mem_routeNonlocal (he : e ∈ (routeNonlocal localID m r).effects) :
    e.message = some m := by
  have hone : ∀ via e', e'.message = some m → e ∈ (sendData via e' r).effects →
      e.message = some m := by
    intro via e' he' hmem
    cases via with
    | sock n => rwa [List.mem_singleton.mp hmem]
    | mq => cases hmem
  have hqueue : ∀ via e', e'.message = some m → e ∈ (sendMsg via e' r).effects →
      e.message = some m := by
    intro via e' he' hmem
    cases via with
    | sock n => cases hmem
    | mq => rwa [List.mem_singleton.mp hmem]
  unfold routeNonlocal at he
  split at he
  · split at he
    · exact hone _ _ rfl he
    · exact hqueue _ _ rfl he
    · cases he
  · split at he
    · exact hone _ _ rfl he
    · have hsub := each_effects_sublist (floodPeer_state m) r.localRoutes.entries r
      obtain ⟨entry, -, he⟩ := List.mem_flatMap.mp (hsub.subset he)
      rw [mem_floodPeer he]
      rfl

theorem mem_autoLink (he : e ∈ (autoLink w localID m r).effects) : e.message = some m := by
  unfold autoLink at he
  cases hargs : m.argval with
  | none => simp [hargs] at he
  | some args =>
    simp only [hargs] at he
    split at he
    · cases hnew : w.newClient (args.get "ip") (args.get "port") with
      | error text => simp [hnew] at he
      | ok n =>
        simp only [hnew, emit_andThen, lRoute_effects, List.mem_singleton] at he
        rw [he]
        rfl
    · cases he

/-- A flood works on its message, and its handler may do more. -/
theorem mem_floodRoute {handler : String → Message → Routing}
    (he : e ∈ (floodRoute cfg w localID m handler r).effects) :
    e.message = some m ∨ m.uuid ∉ r.seenUUID ∧ ForSelf localID m ∧
      ∃ r', e ∈ (handler localID m r').effects := by
  by_cases hseen : m.uuid ∈ r.seenUUID
  · rw [floodRoute_of_seen hseen] at he
    cases he
  rw [floodRoute_of_unseen hseen, emit_andThen] at he
  have hlocal : e ∈ (processLocal cfg w localID m handler (r.see m.uuid)).effects →
      e.message = some m ∨ m.uuid ∉ r.seenUUID ∧ ForSelf localID m ∧
        ∃ r', e ∈ (handler localID m r').effects := by
    intro he
    unfold processLocal at he
    split_ifs at he with hself h1 h2 hauto h3
    · cases he
    · exact .inl (mem_autoLink he)
    · cases he
    · exact .inl (by rw [List.mem_singleton.mp he]; rfl)
    · rcases List.mem_cons.mp he with rfl | he
      · exact .inl rfl
      · exact .inr ⟨hseen, hself, _, he⟩
    · cases he
  rcases List.mem_cons.mp he with rfl | he
  · exact .inl rfl
  by_cases hok : (processLocal cfg w localID m handler (r.see m.uuid)).error = none
  · rw [andThen_of_ok _ hok] at he
    rcases List.mem_append.mp he with he | he
    · exact hlocal he
    · exact .inl (mem_routeNonlocal he)
  · rw [andThen_of_error _ hok] at he
    exact hlocal he

/-- The route callback answers the message: a `ping` with arguments. -/
def Answered (w : World) (localID : String) (m reply : Message) : Prop :=
  m.method = "ping" ∧ ∃ args, m.argval = some args ∧ pingReply w localID m args = .ok reply

theorem mem_routeCallback (he : e ∈ (routeCallback cfg w localID m r).effects) :
    e.message = some m ∨ ∃ reply, Answered w localID m reply ∧
      (e = .made reply m ∨ e.message = some reply) := by
  unfold routeCallback at he
  by_cases hping : m.method = "ping"
  · rw [if_pos hping] at he
    by_cases hself : m.dstsub = subaddrSelf
    · rw [if_pos hself] at he
      cases hargs : m.argval with
      | none => simp [hargs] at he
      | some args =>
        simp only [hargs] at he
        cases hmade : pingReply w localID m args with
        | error text => simp [hmade] at he
        | ok reply =>
          simp only [hmade, emit_andThen] at he
          refine .inr ⟨reply, ⟨hping, args, hargs, hmade⟩, ?_⟩
          rcases List.mem_cons.mp he with rfl | he
          · exact .inl rfl
          · refine .inr ((mem_floodRoute he).resolve_right fun ⟨_, _, r', he'⟩ => ?_)
            cases he'
    · rw [if_neg hself] at he
      split_ifs at he with hserv
      · exact .inl (by rw [List.mem_singleton.mp he]; rfl)
      · cases he
  · rw [if_neg hping] at he
    cases he

theorem printMsg_effects (m : Message) (r : RoutingTables) : (printMsg m r).effects = [] := by
  unfold printMsg
  cases m.argval <;> rfl

theorem mem_printMsg_andThen {q : Routing} (he : e ∈ (andThen (printMsg m) q r).effects) :
    e ∈ (q r).effects := by
  by_cases hok : (printMsg m r).error = none
  · have hstate : (printMsg m r).state = r := by
      unfold printMsg
      cases m.argval <;> rfl
    rw [andThen_of_ok _ hok, printMsg_effects, hstate] at he
    exact he
  · rw [andThen_of_error _ hok, printMsg_effects] at he
    cases he

/-- **A server works on the message it was given and on its reply to it**, which it
creates for a `ping` to itself that it has not seen before. -/
theorem mem_fromSock (he : e ∈ (fromSock cfg w m r).effects) :
    e.message = some m ∨ ∃ reply, m.uuid ∉ r.seenUUID ∧ ForSelf cfg.messMyId m ∧
      Answered w cfg.messMyId m reply ∧ (e = .made reply m ∨ e.message = some reply) := by
  rcases mem_floodRoute (mem_printMsg_andThen he) with h | ⟨hnew, hself, r', h⟩
  · exact .inl h
  · exact (mem_routeCallback h).imp_right fun ⟨reply, hreply, h⟩ =>
      ⟨reply, hnew, hself, hreply, h⟩

theorem mem_fromMQ (he : e ∈ (fromMQ cfg w m r).effects) : e.message = some m := by
  refine (mem_floodRoute (mem_printMsg_andThen he)).resolve_right fun ⟨_, _, r', h⟩ => ?_
  cases h

end Mem

/-! ### What is seen -/

theorem floodRoute_sees {cfg : Config} {w : World} {localID : String} {m : Message}
    {handler : String → Message → Routing}
    (hh : m.dstsub = subaddrSelf → ∀ r, Tidy r (handler localID m r)) (r : RoutingTables) :
    m.uuid ∈ (floodRoute cfg w localID m handler r).state.seenUUID := by
  by_cases hseen : m.uuid ∈ r.seenUUID
  · rwa [floodRoute_of_seen hseen]
  · refine (floodRoute_tidy hh r).marked (.passed m) ?_ m.uuid rfl
    rw [floodRoute_of_unseen hseen, emit_andThen]
    exact List.mem_cons_self ..

/-- A message that was printed is seen afterwards. -/
theorem fromSock_sees {cfg : Config} {w : World} {m : Message} {r : RoutingTables}
    (hok : (fromSock cfg w m r).error = none) :
    m.uuid ∈ (fromSock cfg w m r).state.seenUUID := by
  unfold fromSock at hok ⊢
  obtain ⟨hprint, -⟩ := andThen_error_eq_none.mp hok
  rw [andThen_of_ok _ hprint]
  exact floodRoute_sees (fun h _ => routeCallback_tidy h _) _

theorem fromMQ_sees {cfg : Config} {w : World} {m : Message} {r : RoutingTables}
    (hok : (fromMQ cfg w m r).error = none) : m.uuid ∈ (fromMQ cfg w m r).state.seenUUID := by
  unfold fromMQ at hok ⊢
  obtain ⟨hprint, -⟩ := andThen_error_eq_none.mp hok
  rw [andThen_of_ok _ hprint]
  exact floodRoute_sees (fun _ r => tidy_skip r none) _

end VleoNotebook.Mess
