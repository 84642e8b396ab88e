import VleoNotebook.Mess.CallReplies
import VleoNotebook.Mess.NoLoss

/-! A `ping` from one client to another is answered (`tcClient.pl`).

The call is flooded to the callee's server, which sends it to the callee's socket; the
callee's RET is flooded back to the caller's server and sent to the caller's socket.
Both ways a message for a client passes the servers untouched (`Delivering`). A client
has no filter for duplicates, so it answers every copy its socket brings, and there are
as many RETs as copies: one, and one for every time a copy was doubled on that last
hop (`ping_answered`). -/
namespace VleoNotebook.Mess

open Proc

/-- `tcClient`'s command `p dstsub dst`: the call it sends. -/
def pingCall (myId myMessId dstsub dst : String) (w : World) : Except String Message :=
  Message.new w.uuid MsgType.call.text myId myMessId dstsub dst "ping" (some [("tm", w.now)]) "" ""

/-- What the command builds can be answered, once it has a UUID of 36 characters. -/
theorem pingCall_spec {myId myMessId dstsub dst : String} {w : World} {m : Message}
    (h : pingCall myId myMessId dstsub dst w = .ok m) :
    m = ⟨.call, myMessId, myId, dst, dstsub, w.uuid, "", "ping", some [("tm", w.now)], .orig⟩ ∧
      Truthy myMessId ∧ Truthy myId ∧ Truthy dst ∧ Truthy dstsub := by
  obtain ⟨t, st, ht, hst, ⟨hsrc, hsrcsub, hdst, hdstsub, -⟩, -, rfl⟩ := Message.new_eq_ok.mp h
  obtain rfl : MsgType.call = t := Option.some.inj (ht ▸ by decide)
  obtain rfl : Status.orig = st := Option.some.inj (hst ▸ by decide)
  exact ⟨rfl, hsrc, hsrcsub, hdst, hdstsub⟩

/-! ### Messages for a client -/

/-- A message for a client or a tc-server is not processed here, only passed on. -/
theorem floodRoute_passing {cfg : Config} {w : World} {localID : String} {m : Message}
    {handler : String → Message → Routing} {r : RoutingTables} (hsub : m.dstsub ≠ subaddrSelf)
    {e : Effect} (he : e ∈ (floodRoute cfg w localID m handler r).effects) :
    e = .passed m ∨
      e ∈ (routeNonlocal localID m (floodRoute cfg w localID m handler r).state).effects := by
  by_cases hseen : m.uuid ∈ r.seenUUID
  · rw [floodRoute_of_seen hseen] at he
    cases he
  · have hlocal : processLocal cfg w localID m handler (r.see m.uuid) = ⟨r.see m.uuid, [], none⟩ := by
      rw [processLocal, if_neg fun hself => hsub hself.1]
      rfl
    have hok : (processLocal cfg w localID m handler (r.see m.uuid)).error = none := by rw [hlocal]
    rw [floodRoute_of_unseen hseen, emit_andThen, andThen_of_ok _ hok, hlocal,
      routeNonlocal_state] at he ⊢
    simpa using he

section Network
variable {S C : Type} {N : Net S C}

/-- A client is at the other end of the socket `n` of its server. -/
structure Joined (N : Net S C) (c : C) (n : Nat) : Prop where
  messId : N.myMessId c = (N.cfg (N.home c)).messMyId
  wire : N.wire (N.home c) n = .inr c
  notSelf : N.myId c ≠ subaddrSelf

/-- Its server has the route to it. -/
def Routed (N : Net S C) (c : C) (n : Nat) (σ : State S C) : Prop :=
  (σ.table (N.home c)).localRoutes.lookup (N.myId c) = some ⟨.sock n, .tcc⟩

instance (N : Net S C) (c : C) (n : Nat) (σ : State S C) : Decidable (Routed N c n σ) :=
  inferInstanceAs (Decidable (_ = _))

/-- The message is for the client. -/
structure AddressedTo (N : Net S C) (c : C) (m : Message) : Prop where
  dst : m.dst = N.myMessId c
  dstsub : m.dstsub = N.myId c

/-- Nor is one that is printed first. -/
theorem printed_passing {cfg : Config} {w : World} {m : Message}
    {handler : String → Message → Routing} {r : RoutingTables} (hsub : m.dstsub ≠ subaddrSelf)
    {e : Effect}
    (he : e ∈ (andThen (printMsg m) (floodRoute cfg w cfg.messMyId m handler) r).effects) :
    e = .passed m ∨ e ∈ (routeNonlocal cfg.messMyId m
      (andThen (printMsg m) (floodRoute cfg w cfg.messMyId m handler) r).state).effects := by
  unfold printMsg at he ⊢
  cases hargs : m.argval with
  | none => simp [hargs] at he
  | some args =>
    simp only [hargs, skip_andThen] at he ⊢
    exact floodRoute_passing hsub he

theorem Net.Serves.passing {s : S} {w : World} {m : Message} {p : Port S C} {q : Routing}
    (h : N.Serves s w m p q) (hsub : m.dstsub ≠ subaddrSelf) {r : RoutingTables} {e : Effect}
    (he : e ∈ (q r).effects) :
    e = .passed m ∨ e ∈ (routeNonlocal (N.cfg s).messMyId m (q r).state).effects := by
  rcases h with ⟨-, rfl⟩ | ⟨-, rfl⟩
  · exact printed_passing hsub he
  · exact printed_passing hsub he

variable {L : S → S → Prop} {σ σ' : State S C} {c : C} {n : Nat} {m : Message}

/-- A copy to a MESS entry of a mesh goes to the server at the other end. -/
theorem Mesh.copy_toPeer (h : Mesh N L σ) {s : S} {entry : Sigma fun _ : String => Route}
    (hentry : entry ∈ (σ.table s).localRoutes.entries) (htype : entry.2.type = .mess)
    {id : String} {x y : Message} {q : Port S C}
    (hcopy : N.copy s (.toPeer id entry.2.sock y) = some (q, x)) : q.entrance = true := by
  obtain ⟨t, k, -, -, hsock, hwire⟩ := h.peers s entry hentry htype
  simp only [Net.copy, Net.port, hsock, hwire, Option.some.injEq, Prod.mk.injEq] at hcopy
  rw [← hcopy.1]
  rfl

/-- Away from the client's server, a message for the client goes to servers. -/
theorem copy_elsewhere (hid : Identified N) (hmesh : Mesh N L σ) {d s : S}
    (hdst : m.dst = (N.cfg d).messMyId) (hs : s ≠ d) {e : Effect} {q : Port S C} {x : Message}
    (he : e ∈ (routeNonlocal (N.cfg s).messMyId m (σ.table s)).effects)
    (hcopy : N.copy s e = some (q, x)) : q.entrance = true := by
  have hclient : clientRoute (N.cfg s).messMyId m.dst m.dstsub (σ.table s) = none :=
    if_neg fun h => hs (hid.injective (h.1.symm.trans hdst))
  cases hp : peerRoute m.dst (σ.table s) with
  | some route =>
    have hlookup : (σ.table s).localRoutes.lookup m.dst = some route := by
      unfold peerRoute at hp
      split at hp
      · exact hp
      · cases hp
    have hentry := AList.mem_lookup_iff.mp hlookup
    have htype : route.type = .mess := by
      by_contra hne
      exact hmesh.others s _ hentry hne d hdst
    obtain ⟨t, k, -, -, hsock, -⟩ := hmesh.peers s _ hentry htype
    obtain ⟨sock, type⟩ := route
    simp only at hsock
    subst hsock
    rw [routeNonlocal_toPeer hclient hp] at he
    obtain rfl := List.mem_singleton.mp he
    exact hmesh.copy_toPeer hentry htype hcopy
  | none =>
    have hflood : (routeNonlocal (N.cfg s).messMyId m (σ.table s)).effects =
        (each (floodPeer m) (σ.table s).localRoutes.entries (σ.table s)).effects := by
      simp only [routeNonlocal, hclient, hp]
    rw [hflood] at he
    obtain ⟨entry, hentry, he⟩ := List.mem_flatMap.mp
      ((each_effects_sublist (floodPeer_state m) _ _).subset he)
    have htype : entry.2.type = .mess := by
      by_contra hne
      simp [floodPeer, hne] at he
    rw [mem_floodPeer he] at hcopy
    exact hmesh.copy_toPeer hentry htype hcopy

/-- At the client's server it goes to the client. -/
theorem routeNonlocal_home (hc : Joined N c n) (hroute : Routed N c n σ) (hm : AddressedTo N c m) :
    (routeNonlocal (N.cfg (N.home c)).messMyId m (σ.table (N.home c))).effects =
      [.toClient m.dstsub (.sock n) m] := by
  refine routeNonlocal_toClient ?_
  rw [clientRoute, if_pos ⟨hm.dst.trans hc.messId, hm.dstsub ▸ hc.notSelf⟩, hm.dstsub]
  exact hroute

variable [DecidableEq S] [DecidableEq C] {s₀ : S}

/-! ### One message on its way to a client -/

/-- A message for the client entered at `s₀`; wherever its server let it past the
filter it was sent to the client, and its copies are bound for servers or the client. -/
structure Delivering (N : Net S C) (L : S → S → Prop) (c : C) (n : Nat) (m : Message) (s₀ : S)
    (σ : State S C) : Prop where
  tracked : Tracked N L m s₀ σ
  sent : σ.alive (.server (N.home c)) = true → .passed m ∈ σ.log (N.home c) →
    .toClient m.dstsub (.sock n) m ∈ σ.log (N.home c)
  ports : ∀ q, (q, m) ∈ σ.flight → q.entrance = true ∨ q = .tcClient c

section Serve
variable (hid : Identified N) (hc : Joined N c n) (hm : AddressedTo N c m)
  (h : Delivering N L c n m s₀ σ) {p : Port S C} {x : Message} {w : World} {s : S} {q : Routing}
  (hflight : (p, x) ∈ σ.flight) (hfresh : Net.Fresh w σ.used) (hq : N.Serves s w x p q)
include h hflight hfresh hq

omit [DecidableEq S] [DecidableEq C] in
/-- Only the processing of the message itself sends copies of it. -/
theorem serve_itself {e : Effect} (he : e ∈ (q (σ.table s)).effects) (hmessage : e.message = some m) :
    x = m :=
  hq.about (P := fun y => y.uuid = m.uuid → x = m) (h.tracked.genuine.flight _ hflight)
    (fun _ _ hr hu => absurd (hr.symm.trans hu ▸ h.tracked.genuine.used) hfresh.1) he hmessage rfl

include hid hc hm

theorem serve_copy (hmesh : Mesh N L (N.perform s q (Net.take σ p x w)))
    (hroute : Routed N c n (N.perform s q (Net.take σ p x w))) {e : Effect}
    (he : e ∈ (q (σ.table s)).effects) {port : Port S C}
    (hcopy : N.copy s e = some (port, m)) : port.entrance = true ∨
      (s = N.home c ∧ port = .tcClient c ∧ e = .toClient m.dstsub (.sock n) m) := by
  obtain rfl := serve_itself h hflight hfresh hq he (Net.copy_message hcopy)
  rcases hq.passing (hm.dstsub ▸ hc.notSelf) he with rfl | he
  · cases hcopy
  · have hstate : (q (σ.table s)).state = (N.perform s q (Net.take σ p x w)).table s :=
      (Net.perform_table_self s q (Net.take σ p x w)).symm
    rw [hstate] at he
    by_cases hs : s = N.home c
    · subst hs
      rw [routeNonlocal_home hc hroute hm] at he
      obtain rfl := List.mem_singleton.mp he
      simp only [Net.copy, Net.port, hc.wire, Option.some.injEq, Prod.mk.injEq] at hcopy
      exact .inr ⟨rfl, hcopy.1.symm, rfl⟩
    · exact .inl (copy_elsewhere hid hmesh (hm.dst.trans hc.messId) hs he hcopy)

/-- What is put in flight for the client is what its server sent it. -/
theorem count_serve (hmesh : Mesh N L (N.perform s q (Net.take σ p x w)))
    (hroute : Routed N c n (N.perform s q (Net.take σ p x w))) :
    ((q (σ.table s)).effects.filterMap (N.copy s)).count (.tcClient c, m) =
      if s = N.home c then (q (σ.table s)).effects.count (.toClient m.dstsub (.sock n) m) else 0 := by
  rw [List.count_filterMap]
  split
  · rename_i hs
    subst hs
    refine List.countP_congr fun e he => ?_
    rw [beq_iff_eq, beq_iff_eq]
    constructor
    · intro hcopy
      rcases serve_copy hid hc hm h hflight hfresh hq hmesh hroute he hcopy with hbad | ⟨-, -, rfl⟩
      · cases hbad
      · rfl
    · rintro rfl
      simp [Net.copy, Net.port, hc.wire]
  · rename_i hs
    refine List.countP_eq_zero.mpr fun e he hcopy => ?_
    rcases serve_copy hid hc hm h hflight hfresh hq hmesh hroute he (eq_of_beq hcopy) with
      hbad | ⟨hs', -⟩
    · cases hbad
    · exact hs hs'

end Serve

omit [DecidableEq S] [DecidableEq C] in
theorem Net.Asks.back_entrance {w : World} {x : Message} {p back : Port S C} {a : Answers}
    (h : N.Asks w x p back a) : back.entrance = true := by
  rcases h with ⟨d, -, rfl, -⟩ | ⟨t, -, rfl, -⟩ <;> rfl

/-- **A message on its way to a client keeps to its way.** -/
theorem delivering_step (hid : Identified N) (hc : Joined N c n) (hm : AddressedTo N c m)
    {a : Action S C} (hmesh : Mesh N L σ') (hroute : Routed N c n σ')
    (h : Delivering N L c n m s₀ σ) (hstep : N.step σ a = some σ') :
    Delivering N L c n m s₀ σ' where
  tracked := tracked_step hid σ a σ' hmesh h.tracked hstep
  sent := toClient_step (hm.dst.trans hc.messId) (hm.dstsub ▸ hc.notSelf) σ a σ'
    (hm.dstsub ▸ hroute) h.sent hstep
  ports := by
    intro r hr
    cases N.stepped hstep with
    | inject p x hp hnew =>
      rcases List.mem_cons.mp hr with hsame | hr
      · obtain ⟨rfl, -⟩ := Prod.mk.inj hsame
        exact .inl hp
      · exact h.ports r hr
    | duplicate p x hflight =>
      rcases List.mem_cons.mp hr with hsame | hr
      · exact h.ports r (hsame ▸ hflight)
      · exact h.ports r hr
    | register s id sock type =>
      rw [Net.perform_quiet_flight (lRoute_effects id (.sock sock) type.text (σ.table s))] at hr
      exact h.ports r hr
    | ask p x w back q hflight hup hfresh hq =>
      obtain hr | ⟨y, -, hsame⟩ := Net.mem_answer_flight hr
      · exact h.ports r (Net.mem_take_flight hr)
      · obtain ⟨rfl, -⟩ := Prod.mk.inj hsame
        exact .inl hq.back_entrance
    | serve p x w s q hflight hup hfresh hq =>
      rw [Net.perform_flight] at hr
      rcases List.mem_append.mp hr with hr | hr
      · exact h.ports r (Net.mem_take_flight hr)
      · obtain ⟨e, he, hcopy⟩ := List.mem_filterMap.mp hr
        rcases serve_copy hid hc hm h hflight hfresh hq hmesh hroute he hcopy with hin | ⟨-, hout, -⟩
        · exact .inl hin
        · exact .inr hout

omit [DecidableEq S] [DecidableEq C] in
/-- With nothing in flight and all servers up, the client has been sent it once. -/
theorem Delivering.arrived (h : Delivering N L c n m s₀ σ) (hc : Joined N c n)
    (hm : AddressedTo N c m) (hsound : AllSound σ)
    (hconn : ∀ s t, Relation.ReflTransGen L s t) (halive : ∀ s, σ.alive (.server s) = true)
    (hquiet : σ.flight = []) :
    (σ.log (N.home c)).count (.toClient m.dstsub (.sock n) m) = 1 := by
  have hnone : ∀ q, (q, m) ∉ σ.flight := by simp [hquiet]
  have hseen := h.tracked.reaches hsound halive hnone (hm.dst.trans hc.messId) (hconn s₀ _)
    (h.tracked.entered.seen halive hnone)
  obtain ⟨m', hm', hmem⟩ := (hsound (N.home c)).passed _ hseen
  obtain rfl := h.tracked.genuine.log _ m' hmem hm'
  exact count_toClient hsound (h.sent (halive _) hmem)

omit [DecidableEq S] [DecidableEq C] in
/-- A message under a new UUID is on its way where it was put in flight. -/
theorem delivering_new {r : Message} {t : S} (hknown : Known σ) (hsound : AllSound σ)
    (hnew : r.uuid ∉ σ.used) (hused : r.uuid ∈ σ'.used) (hlog : σ'.log = σ.log)
    (hflight : ∀ x ∈ σ'.flight, x ∈ σ.flight ∨ x = (.sock t, r))
    (hin : (.sock t, r) ∈ σ'.flight) : Delivering N L c n r t σ' := by
  have hpassed : ∀ s x, .passed x ∈ σ'.log s → x.uuid ≠ r.uuid := by
    intro s x hx hu
    rw [hlog] at hx
    exact hnew (hu ▸ hknown.seen s _ ((hsound s).marked _ hx x.uuid rfl))
  have hold : ∀ x ∈ σ.flight, x.2.uuid ≠ r.uuid := fun x hx hu => hnew (hu ▸ hknown.flight x hx)
  refine ⟨⟨⟨hused, fun x hx hu => ?_, fun s x hx hu => absurd hu (hpassed s x hx)⟩,
    .inl ⟨_, rfl, hin⟩, fun s _ hx => absurd rfl (hpassed s r hx)⟩,
    fun _ hx => absurd rfl (hpassed _ r hx), fun q hq => ?_⟩
  · rcases hflight x hx with hx | rfl
    · exact absurd hu (hold x hx)
    · rfl
  · rcases hflight _ hq with hq | hsame
    · exact absurd rfl (hold _ hq)
    · obtain ⟨rfl, -⟩ := Prod.mk.inj hsame
      exact .inl rfl

/-! ### The exchange -/

/-- The callee answers the call of the command `p`. -/
theorem tcClient_ping {myId myMessId toId toMessId : String} {w₀ : World}
    (h : pingCall myId myMessId toId toMessId w₀ = .ok m) (huuid : m.uuid.length = 36)
    (w : World) :
    ∃ r, tcClient toId toMessId w m () = ⟨(), [r], none⟩ ∧ RepliesTo ["ping"] r m ∧
      r.uuid = w.uuid := by
  obtain ⟨rfl, hsrc, hsrcsub, hdst, hdstsub⟩ := pingCall_spec h
  have hcan : CanReply ⟨.call, myMessId, myId, toMessId, toId, w₀.uuid, "", "ping",
      some [("tm", w₀.now)], .orig⟩ := ⟨hsrc, hsrcsub, (by decide : Truthy "ping"), huuid⟩
  refine ⟨⟨.ret, toMessId, toId, myMessId, myId, w.uuid, w₀.uuid, "ping",
    some [("tm0", w₀.now), ("tm", w.now)], .ok⟩, ?_, ⟨rfl, rfl, rfl, rfl, rfl, rfl⟩, rfl⟩
  unfold tcClient
  simp only [and_self, if_true]
  rw [new_reply hdst hdstsub hcan]
  rfl

/-- How often a copy was doubled on its way. -/
def dupsOf (p : Port S C) (m : Message) (as : List (Action S C)) : Nat :=
  as.countP fun a => match a with
    | .duplicate q x => (q, x) == (p, m)
    | _ => false

/-- The call is on its way to the callee `b` or was answered there, once for every copy;
each answer is the right one and on its way to the caller `a`. -/
structure Pinged (N : Net S C) (L : S → S → Prop) (a b : C) (na nb : Nat) (m : Message) (s₀ : S)
    (past : List (Action S C)) (σ : State S C) : Prop where
  call : Delivering N L b nb m s₀ σ
  counted : σ.made.countP (fun x => x.2 = m) + σ.flight.count (.tcClient b, m) =
    (σ.log (N.home b)).count (.toClient m.dstsub (.sock nb) m) + dupsOf (.tcClient b) m past
  answered : ∀ r, (r, m) ∈ σ.made →
    RepliesTo ["ping"] r m ∧ Delivering N L a na r (N.home b) σ

section Exchange
variable {a b : C} {na nb : Nat} {w₀ : World} {past : List (Action S C)}
  (hid : Identified N) (ha : Joined N a na) (hb : Joined N b nb)
  (hcall : pingCall (N.myId a) (N.myMessId a) (N.myId b) (N.myMessId b) w₀ = .ok m)
include hcall

omit [DecidableEq S] [DecidableEq C] in
theorem addressedTo_callee : AddressedTo N b m := by
  obtain ⟨rfl, -⟩ := pingCall_spec hcall
  exact ⟨rfl, rfl⟩

omit [DecidableEq S] [DecidableEq C] in
theorem addressedTo_caller {r : Message} (hr : RepliesTo ["ping"] r m) : AddressedTo N a r := by
  obtain ⟨rfl, -⟩ := pingCall_spec hcall
  exact ⟨hr.dst, hr.dstsub⟩

section Caller
include hid ha

/-- What was made already keeps to its way. -/
theorem pinged_old {act : Action S C} (hmesh : Mesh N L σ') (hroute : Routed N a na σ')
    (h : Pinged N L a b na nb m s₀ past σ) (hstep : N.step σ act = some σ') {r : Message}
    (hr : (r, m) ∈ σ.made) :
    RepliesTo ["ping"] r m ∧ Delivering N L a na r (N.home b) σ' := by
  obtain ⟨hright, hway⟩ := h.answered r hr
  exact ⟨hright,
    delivering_step hid ha (addressedTo_caller hcall hright) hmesh hroute hway hstep⟩

end Caller

/-- What the callee takes from its socket, if it is the call, it answers. -/
theorem ask_cases (huuid : m.uuid.length = 36) (h : Pinged N L a b na nb m s₀ past σ)
    {p back : Port S C} {x : Message} {w : World} {q : Answers} (hflight : (p, x) ∈ σ.flight)
    (hq : N.Asks w x p back q) : x ≠ m ∨ (x = m ∧ p = .tcClient b ∧ back = .sock (N.home b) ∧
      ∃ r, q () = ⟨(), [r], none⟩ ∧ RepliesTo ["ping"] r m ∧ r.uuid = w.uuid) := by
  refine Classical.or_iff_not_imp_left.mpr fun hx => ?_
  obtain rfl := not_not.mp hx
  rcases h.call.ports p hflight with hp | rfl
  · rcases hq with ⟨d, rfl, -⟩ | ⟨t, rfl, -⟩ <;> cases hp
  · obtain ⟨d, hd, rfl, rfl⟩ | ⟨t, ht, -⟩ := hq
    · obtain rfl : b = d := by simpa using hd
      exact ⟨rfl, rfl, rfl, tcClient_ping hcall huuid w⟩
    · cases ht

/-- The copy that is answered goes out of the count, and its answer comes in. -/
theorem counted_ask (huuid : m.uuid.length = 36) (h : Pinged N L a b na nb m s₀ past σ)
    {p back : Port S C} {x : Message} {w : World} {q : Answers} (hflight : (p, x) ∈ σ.flight)
    (hq : N.Asks w x p back q) :
    (Net.answer p.node back x q (Net.take σ p x w)).made.countP (fun y => y.2 = m) +
        (Net.answer p.node back x q (Net.take σ p x w)).flight.count (.tcClient b, m) =
      σ.made.countP (fun y => y.2 = m) + σ.flight.count (.tcClient b, m) := by
  have hback : ((q ()).effects.map fun r => (back, r)).count (.tcClient b, m) = 0 := by
    refine List.count_eq_zero.mpr fun hmem => ?_
    obtain ⟨r, -, hsame⟩ := List.mem_map.mp hmem
    have hin := hq.back_entrance
    obtain ⟨rfl, -⟩ := Prod.mk.inj hsame
    cases hin
  simp only [Net.answer, Net.take, List.countP_append, List.count_append, hback]
  rcases ask_cases hcall huuid h hflight hq with hx | ⟨rfl, rfl, -, r, hr, -⟩
  · have hmade : ((q ()).effects.map fun r => (r, x)).countP (fun y => y.2 = m) = 0 := by
      refine List.countP_eq_zero.mpr fun y hy => ?_
      obtain ⟨r, -, rfl⟩ := List.mem_map.mp hy
      simpa using hx
    rw [hmade, List.count_erase_of_ne (by simpa using fun _ => Ne.symm hx)]
    omega
  · have hpos := List.count_pos_iff.mpr hflight
    rw [List.count_erase_self, hr]
    simp only [List.map_cons, List.map_nil, List.countP_cons, List.countP_nil, decide_true, if_true]
    omega

omit hcall [DecidableEq S] [DecidableEq C] in
/-- What a server answers is the message it processes, which is for the server itself. -/
theorem Net.Serves.made {s : S} {w : World} {x : Message} {p : Port S C} {q : Routing}
    (hq : N.Serves s w x p q) {r : RoutingTables} {y : Message × Message}
    (hy : y ∈ (q r).effects.filterMap Net.reply) :
    y.2 = x ∧ ForSelf (N.cfg s).messMyId x := by
  obtain ⟨e, he, hreply⟩ := List.mem_filterMap.mp hy
  obtain rfl := eq_made hreply
  rcases hq with ⟨-, rfl⟩ | ⟨-, rfl⟩
  · rcases mem_fromSock he with h | ⟨reply, -, hself, -, h | h⟩
    · cases h
    · exact ⟨(Effect.made.inj h).2, hself⟩
    · cases h
  · cases mem_fromMQ he

/-- A server's processing makes no answer to the call, and what it puts in flight for the
callee it has logged. -/
theorem counted_serve (hid : Identified N) (hb : Joined N b nb)
    (h : Pinged N L a b na nb m s₀ past σ) {p : Port S C} {x : Message} {w : World} {s : S}
    {q : Routing} (hflight : (p, x) ∈ σ.flight) (hfresh : Net.Fresh w σ.used)
    (hq : N.Serves s w x p q) (hmesh : Mesh N L (N.perform s q (Net.take σ p x w)))
    (hroute : Routed N b nb (N.perform s q (Net.take σ p x w))) :
    (N.perform s q (Net.take σ p x w)).made.countP (fun y => y.2 = m) +
        (N.perform s q (Net.take σ p x w)).flight.count (.tcClient b, m) =
      ((N.perform s q (Net.take σ p x w)).log (N.home b)).count (.toClient m.dstsub (.sock nb) m) +
        dupsOf (.tcClient b) m past := by
  have hm := addressedTo_callee hcall
  have hcounted := h.counted
  have hmade : ((q (σ.table s)).effects.filterMap Net.reply).countP (fun y => y.2 = m) = 0 := by
    refine List.countP_eq_zero.mpr fun y hy hym => ?_
    obtain ⟨hyx, hself⟩ := hq.made hy
    obtain rfl : x = m := hyx.symm.trans (of_decide_eq_true hym)
    exact hb.notSelf (hm.dstsub.symm.trans hself.1)
  have htake : (Net.take σ p x w).flight.count (.tcClient b, m) =
      σ.flight.count (.tcClient b, m) := by
    refine List.count_erase_of_ne ?_
    rintro ⟨rfl, -⟩
    rcases hq with ⟨hp, -⟩ | ⟨hp, -⟩ <;> cases hp
  have hnew := count_serve hid hb hm h.call hflight hfresh hq hmesh hroute
  rw [Net.perform_made, Net.perform_flight, List.countP_append, List.count_append, htake]
  change σ.made.countP _ + ((q (σ.table s)).effects.filterMap Net.reply).countP _ + _ = _
  by_cases hs : s = N.home b
  · subst hs
    rw [Net.perform_log_self, List.count_append]
    rw [if_pos rfl] at hnew
    simp only [Net.take] at hnew hcounted hmade ⊢
    omega
  · rw [Net.perform_log_ne _ _ _ (Ne.symm hs)]
    rw [if_neg hs] at hnew
    simp only [Net.take] at hnew hcounted hmade ⊢
    omega

section Step
variable (hid : Identified N) (ha : Joined N a na) (hb : Joined N b nb)
  (huuid : m.uuid.length = 36) {act : Action S C} (hsound : AllSound σ) (hknown : Known σ)
  (hmesh : Mesh N L σ') (hra : Routed N a na σ') (hrb : Routed N b nb σ')
  (h : Pinged N L a b na nb m s₀ past σ) (hstep : N.step σ act = some σ')
include hid ha hb huuid hsound hknown hmesh hra hrb h hstep

omit hra ha hsound hknown in
/-- Answers made and copies on the last hop add up to what the server sent there and
what was doubled on the way. -/
theorem counted_step : σ'.made.countP (fun x => x.2 = m) + σ'.flight.count (.tcClient b, m) =
    (σ'.log (N.home b)).count (.toClient m.dstsub (.sock nb) m) +
      dupsOf (.tcClient b) m (past ++ [act]) := by
  have hcounted := h.counted
  have hdups : dupsOf (.tcClient b) m (past ++ [act]) =
      dupsOf (.tcClient b) m past + dupsOf (.tcClient b) m [act] := List.countP_append
  rw [hdups]
  cases N.stepped hstep with
  | inject p x hp hnew =>
    have hother : (p, x) ≠ (.tcClient b, m) := by
      rintro ⟨rfl, rfl⟩
      cases hp
    rw [List.count_cons_of_ne hother]
    exact hcounted
  | duplicate p x hflight =>
    rw [List.count_cons]
    simp only [dupsOf, List.countP_cons, List.countP_nil] at hcounted ⊢
    omega
  | register s id sock type =>
    have hnone := lRoute_effects id (.sock sock) type.text (σ.table s)
    rw [Net.perform_quiet_made hnone, Net.perform_quiet_flight hnone, Net.perform_quiet_log hnone]
    exact hcounted
  | ask p x w back q hflight hup hfresh hq =>
    exact (counted_ask hcall huuid h hflight hq).trans hcounted
  | serve p x w s q hflight hup hfresh hq =>
    exact counted_serve hcall hid hb h hflight hfresh hq hmesh hrb

omit hrb in
/-- A new answer is the right one and put in flight at the callee's server. -/
theorem answered_step {r : Message} (hr : (r, m) ∈ σ'.made) :
    RepliesTo ["ping"] r m ∧ Delivering N L a na r (N.home b) σ' := by
  have hold := fun hr => pinged_old hid ha hcall hmesh hra h hstep (r := r) hr
  cases N.stepped hstep with
  | inject p x hp hnew => exact hold hr
  | duplicate p x hflight => exact hold hr
  | register s id sock type =>
    rw [Net.perform_quiet_made (lRoute_effects id (.sock sock) type.text (σ.table s))] at hr
    exact hold hr
  | ask p x w back q hflight hup hfresh hq =>
    rcases List.mem_append.mp hr with hr | hr
    · exact hold hr
    · obtain ⟨y, hy, hsame⟩ := List.mem_map.mp hr
      obtain ⟨rfl, rfl⟩ := Prod.mk.inj hsame
      rcases ask_cases hcall huuid h hflight hq with hx | ⟨-, rfl, rfl, z, hz, hright, hnew⟩
      · exact absurd rfl hx
      · rw [hz] at hy
        obtain rfl := List.mem_singleton.mp hy
        refine ⟨hright, delivering_new hknown hsound (hnew ▸ hfresh.1) ?_ rfl (fun c hc => ?_) ?_⟩
        · exact hnew ▸ List.mem_cons_self ..
        · obtain hc | ⟨e, he, rfl⟩ := Net.mem_answer_flight hc
          · exact .inl (Net.mem_take_flight hc)
          · rw [hz] at he
            exact .inr (by rw [List.mem_singleton.mp he])
        · refine List.mem_append_right _ ?_
          rw [hz]
          exact List.mem_singleton_self _
  | serve p x w s q hflight hup hfresh hq =>
    rw [Net.perform_made] at hr
    rcases List.mem_append.mp hr with hr | hr
    · exact hold hr
    · -- a server answers what is for itself alone
      obtain ⟨rfl, hself⟩ := hq.made hr
      have hm := addressedTo_callee hcall
      exact absurd (hm.dstsub.symm.trans hself.1) hb.notSelf

/-- **Every copy the callee takes from its socket is answered once**, and nothing else is
done about the call. -/
theorem pinged_step : Pinged N L a b na nb m s₀ (past ++ [act]) σ' where
  call := delivering_step hid hb (addressedTo_callee hcall) hmesh hrb h.call hstep
  counted := counted_step hid hb hcall huuid hmesh hrb h hstep
  answered _ hr := answered_step hid ha hb hcall huuid hsound hknown hmesh hra h hstep hr

end Step

end Exchange

/-- What was answered has been created or injected. -/
theorem madeKnown_step {σ σ' : State S C} {act : Action S C} (hknown : Known σ)
    (h : ∀ y ∈ σ.made, y.2.uuid ∈ σ.used) (hstep : N.step σ act = some σ') :
    ∀ y ∈ σ'.made, y.2.uuid ∈ σ'.used := by
  intro y hy
  cases N.stepped hstep with
  | inject p x hp hnew => exact List.mem_cons_of_mem _ (h y hy)
  | duplicate p x hflight => exact h y hy
  | register s id sock type =>
    rw [Net.perform_quiet_made (lRoute_effects id (.sock sock) type.text (σ.table s))] at hy
    exact h y hy
  | ask p x w back q hflight hup hfresh hq =>
    refine List.mem_cons_of_mem _ (List.mem_cons_of_mem _ ?_)
    rcases List.mem_append.mp hy with hy | hy
    · exact h y hy
    · obtain ⟨r, -, rfl⟩ := List.mem_map.mp hy
      exact hknown.flight _ hflight
  | serve p x w s q hflight hup hfresh hq =>
    refine List.mem_cons_of_mem _ (List.mem_cons_of_mem _ ?_)
    rw [Net.perform_made] at hy
    rcases List.mem_append.mp hy with hy | hy
    · exact h y hy
    · rw [(hq.made hy).1]
      exact hknown.flight _ hflight

/-- Before it is injected nothing has been done about a message. -/
theorem pinged_inject {a b : C} {na nb : Nat} {t : S} (hknown : Known σ) (hsound : AllSound σ)
    (hmade : ∀ y ∈ σ.made, y.2.uuid ∈ σ.used)
    (hstep : N.step σ (.inject (.sock t) m) = some σ') : Pinged N L a b na nb m t [] σ' := by
  cases N.stepped hstep with
  | inject p x hp hnew =>
    have hnone : ∀ r, (r, m) ∉ σ.made := fun r hr => hnew (hmade _ hr)
    refine ⟨delivering_new hknown hsound hnew (List.mem_cons_self ..) rfl (fun c hc => ?_)
      (List.mem_cons_self ..), ?_, fun r hr => absurd hr (hnone r)⟩
    · exact (List.mem_cons.mp hc).symm
    · have hcount : σ.made.countP (fun y => y.2 = m) = 0 := by
        refine List.countP_eq_zero.mpr fun y hy hym => hnone y.1 ?_
        rw [← of_decide_eq_true hym]
        exact hy
      have hflight : ((.sock t, m) :: σ.flight).count ((.tcClient b, m) : Port S C × Message) =
          0 := by
        refine List.count_eq_zero.mpr fun hmem => ?_
        rcases List.mem_cons.mp hmem with hsame | hmem
        · cases (Prod.mk.inj hsame).1
        · exact hnew (hknown.flight _ hmem)
      have hlog : (σ.log (N.home b)).count (.toClient m.dstsub (.sock nb) m) = 0 := by
        refine List.count_eq_zero.mpr fun hmem => hnew ?_
        exact hknown.seen _ _ ((hsound (N.home b)).marked _ hmem m.uuid rfl)
      rw [hcount, hflight, hlog]
      rfl

/-- **A `ping` between clients is answered and the answers arrive.** In a network that
stays a mesh of links that connect all servers, with the routes to the two clients in
place, take any state reached after the call of the command `p` entered the caller's
server in which nothing is in flight and no server has died. The callee has answered
once, and once more for every time a copy was doubled between its server and it; every
answer is the RET the caller waits for, and the caller's server has sent it to the
caller exactly once. -/
theorem ping_answered (hid : Identified N) (hconn : ∀ s t, Relation.ReflTransGen L s t)
    {a b : C} {na nb : Nat} (ha : Joined N a na) (hb : Joined N b nb) {w₀ : World}
    (hcall : pingCall (N.myId a) (N.myMessId a) (N.myId b) (N.myMessId b) w₀ = .ok m)
    (huuid : m.uuid.length = 36) {routes : S → Routes} {before after : List (Action S C)}
    {σ₀ : State S C} (hbefore : Runs.run N.step (State.start routes) before = some σ₀)
    (hrun : Runs.run N.step σ₀ (.inject (.sock (N.home a)) m :: after) = some σ)
    (hmesh : Runs.Always N.step (fun σ => Mesh N L σ ∧ Routed N a na σ ∧ Routed N b nb σ) σ₀
      (.inject (.sock (N.home a)) m :: after))
    (halive : ∀ s, σ.alive (.server s) = true) (hquiet : σ.flight = []) :
    σ.made.countP (fun x => x.2 = m) = 1 + dupsOf (.tcClient b) m after ∧
      ∀ r, (r, m) ∈ σ.made → RepliesTo ["ping"] r m ∧
        (σ.log (N.home a)).count (.toClient (N.myId a) (.sock na) r) = 1 := by
  obtain ⟨σ₁, hinject, hafter⟩ := Runs.run_cons hrun
  have hm := addressedTo_callee hcall
  -- up to the injection
  have hkeep₀ : ∀ (σ : State S C) act σ',
      (AllSound σ ∧ Known σ ∧ ∀ y ∈ σ.made, y.2.uuid ∈ σ.used) → N.step σ act = some σ' →
      AllSound σ' ∧ Known σ' ∧ ∀ y ∈ σ'.made, y.2.uuid ∈ σ'.used := fun σ act σ' h hstep =>
    ⟨allSound_step N σ act σ' h.1 hstep, known_step σ act σ' h.2.1 hstep,
      madeKnown_step h.2.1 h.2.2 hstep⟩
  obtain ⟨hsound₀, hknown₀, hmade₀⟩ := Runs.run_invariant hkeep₀
    ⟨fun s => sound_nil (routes s), known_start routes, by simp [State.start]⟩ hbefore
  -- and from there on
  have hkeep : ∀ past (σ : State S C) act σ', (Mesh N L σ' ∧ Routed N a na σ' ∧ Routed N b nb σ') →
      (AllSound σ ∧ Known σ ∧ Pinged N L a b na nb m (N.home a) past σ) →
      N.step σ act = some σ' →
      AllSound σ' ∧ Known σ' ∧ Pinged N L a b na nb m (N.home a) (past ++ [act]) σ' :=
    fun past σ act σ' hP h hstep => ⟨allSound_step N σ act σ' h.1 hstep,
      known_step σ act σ' h.2.1 hstep,
      pinged_step hid ha hb hcall huuid h.1 h.2.1 hP.1 hP.2.1 hP.2.2 h.2.2 hstep⟩
  obtain ⟨hsound, -, hend⟩ := Runs.always_history hkeep ⟨allSound_step N σ₀ _ σ₁ hsound₀ hinject,
    known_step σ₀ _ σ₁ hknown₀ hinject, pinged_inject hknown₀ hsound₀ hmade₀ hinject⟩
    (hmesh.2 σ₁ hinject) hafter
  have hsent := hend.call.arrived hb hm hsound hconn halive hquiet
  have hcounted := hend.counted
  rw [hsent, hquiet, List.nil_append] at hcounted
  refine ⟨by simpa using hcounted, fun r hr => ?_⟩
  obtain ⟨hright, hway⟩ := hend.answered r hr
  have hto := addressedTo_caller hcall hright
  have hback := hway.arrived ha hto hsound hconn halive hquiet
  rw [hto.dstsub] at hback
  exact ⟨hright, hback⟩

end Network

/-! ### Two servers with a client each -/

namespace Sample

/-- `M1` (false) and `M2` (true), linked by socket 1, each with a client at socket 2. -/
def pair : Net Bool Bool where
  cfg s := if s then m2 else m1
  myId c := if c then "L2" else "L1"
  myMessId c := if c then "M2" else "M1"
  home c := c
  wire s n := if n = 1 then .inl !s else .inr s

theorem firstNames_nodup : ["M2", "L1", "S1"].Nodup := by decide

theorem secondNames_nodup : ["M1", "L2", "S2"].Nodup := by decide

def pairRoutes : Bool → Routes
  | false => ⟨[⟨"M2", ⟨.sock 1, .mess⟩⟩, ⟨"L1", ⟨.sock 2, .tcc⟩⟩, ⟨"S1", ⟨.mq, .tcs⟩⟩],
      firstNames_nodup⟩
  | true => ⟨[⟨"M1", ⟨.sock 1, .mess⟩⟩, ⟨"L2", ⟨.sock 2, .tcc⟩⟩, ⟨"S2", ⟨.mq, .tcs⟩⟩],
      secondNames_nodup⟩

/-- The tables are as they were at the start. -/
def PairUnchanged (σ : State Bool Bool) : Prop :=
  ∀ s, (σ.table s).localRoutes.entries = (pairRoutes s).entries

instance (σ : State Bool Bool) : Decidable (PairUnchanged σ) :=
  inferInstanceAs (Decidable (∀ s, (σ.table s).localRoutes.entries = (pairRoutes s).entries))

theorem pair_identified : Identified pair := ⟨by decide, by decide⟩

theorem pair_joined (c : Bool) : Joined pair c 2 := by
  cases c <;> exact ⟨rfl, rfl, by decide⟩

theorem pair_mesh (σ : State Bool Bool) (h : PairUnchanged σ) :
    Mesh pair (· ≠ ·) σ ∧ Routed pair false 2 σ ∧ Routed pair true 2 σ := by
  have htable : ∀ s, (σ.table s).localRoutes = pairRoutes s := fun s => AList.ext (h s)
  have hpeers : ∀ s, ∀ e ∈ (pairRoutes s).entries, e.2.type = .mess → (s ≠ !s) ∧
      e.1 = (pair.cfg !s).messMyId ∧ e.2.sock = .sock 1 ∧ pair.wire s 1 = .inl !s := by decide
  have hlinked : ∀ s t, s ≠ t → (pair.cfg t).messMyId ∈ (pairRoutes s).keys := by decide
  have hothers : ∀ s, ∀ e ∈ (pairRoutes s).entries, e.2.type ≠ .mess →
      ∀ t, e.1 ≠ (pair.cfg t).messMyId := by decide
  refine ⟨⟨fun s => ?_, fun s => ?_, fun s => ?_⟩, ?_, ?_⟩
  · rw [htable]
    exact fun e he htype => ⟨!s, 1, hpeers s e he htype⟩
  · rw [htable]
    exact hlinked s
  · rw [htable]
    exact hothers s
  · show (σ.table false).localRoutes.lookup "L1" = _
    rw [htable]
    rfl
  · show (σ.table true).localRoutes.lookup "L2" = _
    rw [htable]
    rfl

def pingOf : Message :=
  ⟨.call, "M1", "L1", "M2", "L2", "00000000-0000-11e0-0000-000000000021", "", "ping",
    some [("tm", "1300000000.5")], .orig⟩

def pongOf (uuid : String) : Message :=
  ⟨.ret, "M2", "L2", "M1", "L1", uuid, pingOf.uuid, "ping",
    some [("tm0", "1300000000.5"), ("tm", "1300000000.5")], .ok⟩

/-- `L1` pings `L2`; the copy for `L2` comes twice, and both answers go back. -/
def pingingTwice : List (Action Bool Bool) :=
  [.deliver (.sock false) pingOf (world "a" "b"), .deliver (.sock true) pingOf (world "c" "d"),
    .duplicate (.tcClient true) pingOf, .deliver (.tcClient true) pingOf (world "e" "f"),
    .deliver (.tcClient true) pingOf (world "g" "h"),
    .deliver (.sock true) (pongOf "e") (world "i" "j"),
    .deliver (.sock true) (pongOf "g") (world "k" "l"),
    .deliver (.sock false) (pongOf "g") (world "m" "n"),
    .deliver (.sock false) (pongOf "e") (world "o" "p"),
    .deliver (.tcClient false) (pongOf "e") (world "q" "r"),
    .deliver (.tcClient false) (pongOf "g") (world "s" "t")]

end Sample

theorem ping_answered_twice : ∃ σ,
    Runs.run Sample.pair.step (State.start Sample.pairRoutes)
        (.inject (.sock false) Sample.pingOf :: Sample.pingingTwice) = some σ ∧
      σ.made.countP (fun x => x.2 = Sample.pingOf) = 2 ∧
      ∀ r, (r, Sample.pingOf) ∈ σ.made → RepliesTo ["ping"] r Sample.pingOf ∧
        (σ.log false).count (.toClient "L1" (.sock 2) r) = 1 := by
  have hsome : ((Runs.run Sample.pair.step (State.start Sample.pairRoutes)
      (.inject (.sock false) Sample.pingOf :: Sample.pingingTwice)).any
        fun σ => (∀ s, σ.alive (.server s)) ∧ σ.flight = []) = true := by decide
  obtain ⟨σ, hrun, hquiet⟩ := (Option.any_eq_true _ _).mp hsome
  obtain ⟨halive, hflight⟩ := of_decide_eq_true hquiet
  have hsame : Runs.Always Sample.pair.step Sample.PairUnchanged (State.start Sample.pairRoutes)
      (.inject (.sock false) Sample.pingOf :: Sample.pingingTwice) := by decide
  have hcall : pingCall (Sample.pair.myId false) (Sample.pair.myMessId false)
      (Sample.pair.myId true) (Sample.pair.myMessId true)
      (Sample.world Sample.pingOf.uuid "z") = .ok Sample.pingOf := by decide
  have hstart : Runs.run Sample.pair.step (State.start Sample.pairRoutes) [] =
      some (State.start Sample.pairRoutes) := rfl
  exact ⟨σ, hrun, ping_answered Sample.pair_identified Sample.connected (Sample.pair_joined false)
    (Sample.pair_joined true) hcall (by decide) hstart hrun
    (hsame.mono Sample.pair_mesh) halive hflight⟩

end VleoNotebook.Mess
