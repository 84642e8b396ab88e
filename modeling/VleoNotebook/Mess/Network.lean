import Mathlib.Data.Fintype.Basic
import VleoNotebook.Lib.Runs
import VleoNotebook.Mess.Complete
import VleoNotebook.Mess.Ends

/-! Networks of MESS servers with their clients and tc-servers.

The servers `S` and clients `C` run the programs of this repository; a `Net` says
how each is configured and where the sockets of a server lead. Copies of messages
are in flight until they are delivered, in any order, and may be duplicated.
Everything from outside is an injection: a message under a UUID not used before
enters a server by one of its sockets or by its queue, which is also how a message
of the server's own making starts out (`bcastIP_PORT` and the registration at the
tc-server are flooded with a handler that does nothing). The main loop enters newly
accepted connections into the table. A program that dies stays dead. -/
namespace VleoNotebook.Mess

open Proc

/-- The running programs; every server has its tc-server. -/
inductive Node (S C : Type) where
  | server (s : S)
  | tcClient (c : C)
  | tcServer (s : S)
deriving DecidableEq

/-- Where a copy is bound for. -/
inductive Port (S C : Type) where
  /-- A server, by one of its sockets. -/
  | sock (s : S)
  /-- A server, by the queue from its tc-server. -/
  | mq (s : S)
  | tcClient (c : C)
  | tcServer (s : S)
deriving DecidableEq

variable {S C : Type}

def Port.node : Port S C → Node S C
  | .sock s | .mq s => .server s
  | .tcClient c => .tcClient c
  | .tcServer s => .tcServer s

/-- The ports by which a message enters from outside. -/
def Port.entrance : Port S C → Bool
  | .sock _ | .mq _ => true
  | .tcClient _ | .tcServer _ => false

structure Net (S C : Type) where
  cfg : S → Config
  myId : C → String
  myMessId : C → String
  /-- The server a client is connected to. -/
  home : C → S
  /-- The other end of a socket of a server. -/
  wire : S → Nat → S ⊕ C

structure State (S C : Type) where
  table : S → RoutingTables
  alive : Node S C → Bool
  flight : List (Port S C × Message)
  /-- Everything a server did. -/
  log : S → List Effect
  /-- The UUIDs of all messages so far. -/
  used : List String
  /-- Every reply created, with what it answers. -/
  made : List (Message × Message)

inductive Action (S C : Type) where
  | inject (p : Port S C) (m : Message)
  | deliver (p : Port S C) (m : Message) (w : World)
  | duplicate (p : Port S C) (m : Message)
  /-- A connection accepted by the server is entered into its table. -/
  | register (s : S) (id : String) (sock : Nat) (type : RouteType)

/-- All servers are up with their first routes, and nothing has been sent. -/
def State.start (routes : S → Routes) : State S C where
  table s := ⟨[], routes s⟩
  alive _ := true
  flight := []
  log _ := []
  used := []
  made := []

namespace Net
variable (N : Net S C)

/-- What is at the other end of a route of the server. -/
def port (s : S) : Handle → Port S C
  | .sock n => match N.wire s n with
    | .inl t => .sock t
    | .inr c => .tcClient c
  | .mq => .tcServer s

/-- The copy an effect of the server puts in flight. -/
def copy (s : S) : Effect → Option (Port S C × Message)
  | .toClient _ via m | .toPeer _ via m | .forwarded via m => some (N.port s via, m)
  | _ => none

/-- The reply an effect is the creation of. -/
def reply : Effect → Option (Message × Message)
  | .made reply call => some (reply, call)
  | _ => none

variable [DecidableEq S] [DecidableEq C]

/-- A server runs a procedure on its tables. -/
def perform (s : S) (p : Routing) (σ : State S C) : State S C :=
  let a := p (σ.table s)
  {σ with
    table := Function.update σ.table s a.state
    alive := Function.update σ.alive (.server s) a.error.isNone
    flight := σ.flight ++ a.effects.filterMap (N.copy s)
    log := Function.update σ.log s (σ.log s ++ a.effects)
    made := σ.made ++ a.effects.filterMap reply}

/-- A client or a tc-server answers a message back to where it came from. -/
def answer (node : Node S C) (back : Port S C) (call : Message) (p : Answers) (σ : State S C) :
    State S C :=
  let a := p ()
  {σ with
    alive := Function.update σ.alive node a.error.isNone
    flight := σ.flight ++ a.effects.map fun m => (back, m)
    made := σ.made ++ a.effects.map fun m => (m, call)}

/-- A copy taken out of flight arrives. -/
def arrive (p : Port S C) (m : Message) (w : World) : State S C → State S C :=
  match p with
  | .sock s => N.perform s (fromSock (N.cfg s) w m)
  | .mq s => N.perform s (fromMQ (N.cfg s) w m)
  | .tcClient c => answer (.tcClient c) (.sock (N.home c)) m (tcClient (N.myId c) (N.myMessId c) w m)
  | .tcServer s => answer (.tcServer s) (.mq s) m (tcServer (N.cfg s) w m)

/-- `OSSP::uuid` makes UUIDs that no message has. -/
def Fresh (w : World) (used : List String) : Prop :=
  w.uuid ∉ used ∧ w.uuid' ∉ used ∧ w.uuid ≠ w.uuid'

instance (w : World) (used : List String) : Decidable (Fresh w used) :=
  inferInstanceAs (Decidable (_ ∧ _ ∧ _))

def step (σ : State S C) : Action S C → Option (State S C)
  | .inject p m =>
    if p.entrance ∧ m.uuid ∉ σ.used then
      some {σ with flight := (p, m) :: σ.flight, used := m.uuid :: σ.used}
    else none
  | .deliver p m w =>
    if (p, m) ∈ σ.flight ∧ σ.alive p.node ∧ Fresh w σ.used then
      some (N.arrive p m w
        {σ with flight := σ.flight.erase (p, m), used := w.uuid :: w.uuid' :: σ.used})
    else none
  | .duplicate p m =>
    if (p, m) ∈ σ.flight then some {σ with flight := (p, m) :: σ.flight} else none
  | .register s id sock type =>
    if σ.alive (.server s) then some (N.perform s (lRoute id (.sock sock) type.text) σ) else none

/-! ### What a step does -/

section Perform
variable {N} (s : S) (p : Routing) (σ : State S C)

@[simp] theorem perform_table_self : (N.perform s p σ).table s = (p (σ.table s)).state := by
  simp [perform]

theorem perform_table_ne {t : S} (h : t ≠ s) : (N.perform s p σ).table t = σ.table t := by
  simp [perform, h]

@[simp] theorem perform_log_self :
    (N.perform s p σ).log s = σ.log s ++ (p (σ.table s)).effects := by
  simp [perform]

theorem perform_log_ne {t : S} (h : t ≠ s) : (N.perform s p σ).log t = σ.log t := by
  simp [perform, h]

@[simp] theorem perform_alive_self :
    (N.perform s p σ).alive (.server s) = (p (σ.table s)).error.isNone := by
  simp [perform]

theorem perform_alive_ne {t : S} (h : t ≠ s) :
    (N.perform s p σ).alive (.server t) = σ.alive (.server t) := by
  simp [perform, h]

@[simp] theorem perform_flight :
    (N.perform s p σ).flight = σ.flight ++ (p (σ.table s)).effects.filterMap (N.copy s) := rfl

@[simp] theorem perform_made :
    (N.perform s p σ).made = σ.made ++ (p (σ.table s)).effects.filterMap reply := rfl

end Perform

/-- A message given to a server: by a socket, or by its queue. -/
def Serves (s : S) (w : World) (m : Message) (p : Port S C) (q : Routing) : Prop :=
  (p = .sock s ∧ q = fromSock (N.cfg s) w m) ∨ (p = .mq s ∧ q = fromMQ (N.cfg s) w m)

/-- A message given to a client or to a tc-server: to whom, and what comes back where. -/
def Asks (w : World) (m : Message) (p back : Port S C) (q : Answers) : Prop :=
  (∃ c, p = .tcClient c ∧ back = .sock (N.home c) ∧
    q = tcClient (N.myId c) (N.myMessId c) w m) ∨
  (∃ s, p = .tcServer s ∧ back = .mq s ∧ q = tcServer (N.cfg s) w m)

/-- The state with a copy taken out of flight. -/
def take (σ : State S C) (p : Port S C) (m : Message) (w : World) : State S C :=
  {σ with flight := σ.flight.erase (p, m), used := w.uuid :: w.uuid' :: σ.used}

/-- Everything a step can be. -/
inductive Stepped (σ : State S C) : Action S C → State S C → Prop
  | inject (p : Port S C) (m : Message) (hp : p.entrance = true) (hm : m.uuid ∉ σ.used) :
      Stepped σ (.inject p m) {σ with flight := (p, m) :: σ.flight, used := m.uuid :: σ.used}
  | serve (p : Port S C) (m : Message) (w : World) (s : S) (q : Routing)
      (hflight : (p, m) ∈ σ.flight) (halive : σ.alive (.server s) = true)
      (hfresh : Fresh w σ.used) (hq : N.Serves s w m p q) :
      Stepped σ (.deliver p m w) (N.perform s q (take σ p m w))
  | ask (p : Port S C) (m : Message) (w : World) (back : Port S C) (q : Answers)
      (hflight : (p, m) ∈ σ.flight) (halive : σ.alive p.node = true)
      (hfresh : Fresh w σ.used) (hq : N.Asks w m p back q) :
      Stepped σ (.deliver p m w) (answer p.node back m q (take σ p m w))
  | duplicate (p : Port S C) (m : Message) (hflight : (p, m) ∈ σ.flight) :
      Stepped σ (.duplicate p m) {σ with flight := (p, m) :: σ.flight}
  | register (s : S) (id : String) (sock : Nat) (type : RouteType)
      (halive : σ.alive (.server s) = true) :
      Stepped σ (.register s id sock type) (N.perform s (lRoute id (.sock sock) type.text) σ)

theorem stepped {σ σ' : State S C} {a : Action S C} (h : N.step σ a = some σ') :
    N.Stepped σ a σ' := by
  cases a with
  | inject p m =>
    simp only [step, Option.ite_none_right_eq_some, Option.some.injEq] at h
    obtain ⟨⟨hp, hm⟩, rfl⟩ := h
    exact .inject p m hp hm
  | deliver p m w =>
    simp only [step, Option.ite_none_right_eq_some, Option.some.injEq] at h
    obtain ⟨⟨hflight, halive, hfresh⟩, rfl⟩ := h
    cases p with
    | sock s => exact .serve _ m w s _ hflight halive hfresh (.inl ⟨rfl, rfl⟩)
    | mq s => exact .serve _ m w s _ hflight halive hfresh (.inr ⟨rfl, rfl⟩)
    | tcClient c => exact .ask _ m w _ _ hflight halive hfresh (.inl ⟨c, rfl, rfl, rfl⟩)
    | tcServer s => exact .ask _ m w _ _ hflight halive hfresh (.inr ⟨s, rfl, rfl, rfl⟩)
  | duplicate p m =>
    simp only [step, Option.ite_none_right_eq_some, Option.some.injEq] at h
    obtain ⟨hflight, rfl⟩ := h
    exact .duplicate p m hflight
  | register s id sock type =>
    simp only [step, Option.ite_none_right_eq_some, Option.some.injEq] at h
    obtain ⟨halive, rfl⟩ := h
    exact .register s id sock type halive

section Serves
omit [DecidableEq S] [DecidableEq C]
variable {N} {s : S} {w : World} {m : Message} {p : Port S C} {q : Routing}

theorem Serves.tidy (h : N.Serves s w m p q) (r : RoutingTables) : Tidy r (q r) := by
  rcases h with ⟨-, rfl⟩ | ⟨-, rfl⟩
  · exact fromSock_tidy (N.cfg s) w m r
  · exact fromMQ_tidy (N.cfg s) w m r

theorem Serves.complete (h : N.Serves s w m p q) {r : RoutingTables}
    (hok : (q r).error = none) : Complete (N.cfg s).messMyId (q r).state (q r).effects := by
  rcases h with ⟨-, rfl⟩ | ⟨-, rfl⟩
  · exact fromSock_complete hok
  · exact fromMQ_complete hok

theorem Serves.sees (h : N.Serves s w m p q) {r : RoutingTables} (hok : (q r).error = none) :
    m.uuid ∈ (q r).state.seenUUID := by
  rcases h with ⟨-, rfl⟩ | ⟨-, rfl⟩
  · exact fromSock_sees hok
  · exact fromMQ_sees hok

/-- All its effects are about messages with `P`. -/
theorem Serves.about (h : N.Serves s w m p q) {P : Message → Prop} (hm : P m)
    (hreply : ∀ reply, reply.type = .ret → reply.uuid = w.uuid → P reply) {r : RoutingTables}
    {e : Effect} (he : e ∈ (q r).effects) {x : Message} (hx : e.message = some x) : P x := by
  have hown : e.message = some m → P x := by
    intro h
    obtain rfl : m = x := Option.some.inj (h.symm.trans hx)
    exact hm
  rcases h with ⟨-, rfl⟩ | ⟨-, rfl⟩
  · rcases mem_fromSock he with h | ⟨reply, -, -, ⟨-, args, -, hmade⟩, rfl | h⟩
    · exact hown h
    · cases hx
    · obtain rfl : reply = x := Option.some.inj (h.symm.trans hx)
      obtain ⟨⟨htype, -⟩, huuid⟩ := answering_of_new hmade
      exact hreply reply htype huuid
  · exact hown (mem_fromMQ he)

theorem Serves.node (h : N.Serves s w m p q) : p.node = .server s := by
  rcases h with ⟨rfl, -⟩ | ⟨rfl, -⟩ <;> rfl

variable {back : Port S C} {a : Answers}

theorem Asks.answers (h : N.Asks w m p back a) :
    ∃ uuids, uuids ⊆ [w.uuid, w.uuid'] ∧ AnswersOnly m uuids a := by
  rcases h with ⟨c, -, -, rfl⟩ | ⟨s, -, -, rfl⟩
  · exact ⟨[w.uuid], by simp, tcClient_answers _ _ w m⟩
  · exact ⟨[w.uuid, w.uuid'], List.Subset.refl _, tcServer_answers _ w m⟩

theorem Asks.node (h : N.Asks w m p back a) (s : S) : p.node ≠ .server s := by
  rcases h with ⟨c, rfl, -⟩ | ⟨t, rfl, -⟩ <;> simp [Port.node]

theorem copy_message {e : Effect} {q : Port S C} (h : N.copy s e = some (q, m)) :
    e.message = some m := by
  cases e <;> simp_all [copy, Effect.message]

end Serves

section Adds
variable {N} {s t : S} {q : Routing} {σ : State S C} {c : Port S C × Message}

/-- What a server logs is what it does. -/
theorem mem_perform_log {e : Effect} (he : e ∈ (N.perform s q σ).log t) :
    e ∈ σ.log t ∨ e ∈ (q (σ.table s)).effects := by
  by_cases hst : t = s
  · subst hst
    rwa [perform_log_self, List.mem_append] at he
  · rw [perform_log_ne _ _ _ hst] at he
    exact Or.inl he

/-- What it puts in flight is the message of something it does. -/
theorem mem_perform_flight (hc : c ∈ (N.perform s q σ).flight) :
    c ∈ σ.flight ∨ ∃ e ∈ (q (σ.table s)).effects, e.message = some c.2 := by
  rw [perform_flight, List.mem_append] at hc
  refine hc.imp_right fun hc => ?_
  obtain ⟨e, he, hcopy⟩ := List.mem_filterMap.mp hc
  exact ⟨e, he, copy_message hcopy⟩

/-- What a client or a tc-server puts in flight is an answer of it. -/
theorem mem_answer_flight {node : Node S C} {back : Port S C} {call : Message} {a : Answers}
    (hc : c ∈ (answer node back call a σ).flight) :
    c ∈ σ.flight ∨ ∃ r ∈ (a ()).effects, (back, r) = c :=
  (List.mem_append.mp hc).imp_right List.mem_map.mp

theorem mem_take_flight {p : Port S C} {m : Message} {w : World}
    (hc : c ∈ (take σ p m w).flight) : c ∈ σ.flight :=
  List.mem_of_mem_erase hc

variable (hquiet : (q (σ.table s)).effects = [])
include hquiet

theorem perform_quiet_flight : (N.perform s q σ).flight = σ.flight := by
  rw [perform_flight, hquiet, List.filterMap_nil, List.append_nil]

theorem perform_quiet_made : (N.perform s q σ).made = σ.made := by
  rw [perform_made, hquiet, List.filterMap_nil, List.append_nil]

theorem perform_quiet_log : (N.perform s q σ).log = σ.log := by
  funext t
  by_cases hst : t = s
  · subst hst
    rw [perform_log_self, hquiet, List.append_nil]
  · exact perform_log_ne _ _ _ hst

end Adds

end Net

/-! ### A small network -/

namespace Sample

/-- `M1` (false) and `M2` (true), linked to each other by socket 1, and the client `L1`
at socket 2 of `M1`. -/
def net : Net Bool Unit where
  cfg s := if s then m2 else m1
  myId _ := "L1"
  myMessId _ := "M1"
  home _ := false
  wire s n := if n = 1 then .inl !s else .inr ()

def routes : Bool → Routes
  | false => ⟨[⟨"M2", ⟨.sock 1, .mess⟩⟩, ⟨"L1", ⟨.sock 2, .tcc⟩⟩, ⟨"S1", ⟨.mq, .tcs⟩⟩],
      (by decide : ["M2", "L1", "S1"].Nodup)⟩
  | true => ⟨[⟨"M1", ⟨.sock 1, .mess⟩⟩, ⟨"S2", ⟨.mq, .tcs⟩⟩], (by decide : ["M1", "S2"].Nodup)⟩

/-- A `ping` from `M2` to the client `L1` of `M1`. -/
def call : Message :=
  ⟨.call, "M2", subaddrSelf, "M1", "L1", "00000000-0000-11e0-0000-00000000000a", "", "ping",
    some [("tm", "1300000000.25")], .orig⟩

/-- It enters `M2`, goes to `M1`, to the client and is answered. -/
def pinging : List (Action Bool Unit) :=
  [.inject (.sock true) call, .deliver (.sock true) call (world "a" "b"),
    .deliver (.sock false) call (world "c" "d"), .deliver (.tcClient ()) call (world "e" "f")]

end Sample

end VleoNotebook.Mess
