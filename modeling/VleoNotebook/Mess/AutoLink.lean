import VleoNotebook.Lib.WaitFor
import VleoNotebook.Mess.Loop

/-! Servers that link up by themselves.

Every turn of the main loop a server broadcasts where it can be reached
(`bcastLocalIpPort`). A server that receives such a broadcast of one it has no route
to connects to it in the middle of `floodRoute` (`newClient`), and `authenticateClient`
then waits for the challenge, which the other one sends only from its own main loop.
While it waits a server does nothing else, so what is left of its `floodRoute` is run
here when the handshake ends. The socket of such a link is read by the server that
accepted it and not by the one that connected. -/
namespace VleoNotebook.Mess.AutoLink

open Proc
open WaitFor (Free)

variable {ν : Type}

/-- How the servers `ν` are configured, and which of them listens at an address. -/
structure Servers (ν : Type) where
  cfg : ν → LoopConfig
  listens : String → String → Option ν

/-- What a server is doing: its main loop; waiting in `authenticateClient` for the
challenge of another, on the way through a message; nothing any more. -/
inductive Mode (ν : Type) where
  | running
  | blocked (server : ν) (m : Message)
  | died
deriving DecidableEq

/-- Whose challenge a server waits for. -/
def Mode.waitsOn : Mode ν → Option ν
  | .blocked t _ => some t
  | _ => none

structure State (ν : Type) where
  table : ν → RoutingTables
  mode : ν → Mode ν
  /-- Which server reads what is written to a socket. -/
  wire : ν → Nat → Option ν
  /-- The messages on their way to a server that reads them. -/
  flight : List (ν × Message)

/-- The servers are up with their first links, whatever these are. -/
def State.start (table : ν → RoutingTables) (wire : ν → Nat → Option ν) : State ν where
  table := table
  mode _ := .running
  wire := wire
  flight := []

inductive Action (ν : Type) where
  /-- The main loop starts a turn. -/
  | bcastLocalIpPort (s : ν) (w : World)
  /-- A message comes in by a socket. -/
  | receive (s : ν) (m : Message) (w : World)
  /-- `t` accepts the connection of `s`, and the handshake succeeds: the sockets at the
  two ends, and the world in which `s` goes on. -/
  | accept (t s : ν) (accepted connected : Nat) (w : World)
  /-- The handshake of `s` fails. -/
  | refuse (s : ν)

/-- The arguments of the broadcast, where a message leads to a link. -/
def linkWanted (cfg : Config) (m : Message) (r : RoutingTables) : Option Hash :=
  match m.argval with
  | none => none
  | some args =>
    if m.uuid ∉ r.seenUUID ∧ ForSelf cfg.messMyId m ∧ m.method = "bcastIP_PORT" ∧
        cfg.messAutoLinks ∧ args.get "id" ≠ cfg.messMyId ∧ m.src ≠ cfg.messMyId ∧
        args.get "id" ∉ r.localRoutes then
      some args
    else none

/-- The message an effect of the server puts on its way. -/
def copy (wire : Nat → Option ν) : Effect → Option (ν × Message)
  | .toClient _ (.sock n) m | .toPeer _ (.sock n) m => (wire n).map fun t => (t, m)
  | _ => none

variable [DecidableEq ν]

/-- A server runs a procedure on its tables. -/
def perform (s : ν) (p : Routing) (σ : State ν) : State ν :=
  let a := p (σ.table s)
  {σ with
    table := Function.update σ.table s a.state
    mode := Function.update σ.mode s (if a.error.isNone then .running else .died)
    flight := σ.flight ++ a.effects.filterMap (copy (σ.wire s))}

/-- A server waits in `authenticateClient`, with the message it was at. -/
def block (s t : ν) (m : Message) (σ : State ν) : State ν :=
  {σ with mode := Function.update σ.mode s (.blocked t m)}

/-- The sockets of a new link: what the connecting server writes is read at the
accepting one, and not the other way round. -/
def join (t s : ν) (accepted connected : Nat) (σ : State ν) : State ν :=
  let wire := Function.update σ.wire t (Function.update (σ.wire t) accepted none)
  {σ with wire := Function.update wire s (Function.update (wire s) connected (some t))}

namespace Servers
variable (N : Servers ν)

/-- The server of the network that a message makes `s` connect to, unless it is dead. -/
def connects (σ : State ν) (s : ν) (m : Message) : Option ν :=
  ((linkWanted (N.cfg s).toConfig m (σ.table s)).bind fun args =>
    N.listens (args.get "ip") (args.get "port")).filter fun t => σ.mode t ≠ .died

/-- `t` enters the link it has accepted from `s`. -/
def enter (t s : ν) (accepted : Nat) : State ν → State ν :=
  perform t (lRoute (N.cfg s).messMyId (.sock accepted) ((N.cfg t).getType (N.cfg s).messMyId))

def step (σ : State ν) : Action ν → Option (State ν)
  | .bcastLocalIpPort s w =>
    if σ.mode s = .running then some (perform s (Server.bcastLocalIpPort (N.cfg s) w) σ) else none
  | .receive s m w =>
    if (s, m) ∈ σ.flight ∧ σ.mode s = .running then
      let taken := {σ with flight := σ.flight.erase (s, m)}
      match N.connects σ s m with
      | some t => some (block s t m taken)
      | none => some (perform s (fromSock (N.cfg s).toConfig w m) taken)
    else none
  | .accept t s accepted connected w =>
    match σ.mode s with
    | .blocked t' m =>
      if t' = t ∧ σ.mode t = .running ∧ accepted ∉ Server.routeSocks (σ.table t) ∧
          connected ∉ Server.routeSocks (σ.table s) then
        let w := {w with newClient := fun _ _ => .ok connected}
        some (perform s (fromSock (N.cfg s).toConfig w m)
          (N.enter t s accepted (join t s accepted connected σ)))
      else none
    | _ => none
  | .refuse s =>
    match (σ.mode s).waitsOn with
    | some t =>
      if (σ.mode t).waitsOn = none then
        some {σ with mode := Function.update σ.mode s .died}
      else none
    | none => none

end Servers

/-! ### Who waits for whom -/

/-- `s` waits for the challenge of another server. -/
def State.Waits (σ : State ν) (s t : ν) : Prop := (σ.mode s).waitsOn = some t ∧ t ≠ s

/-- No set of servers is blocked each on another of the set. -/
def State.DeadlockFree (σ : State ν) : Prop := Free σ.Waits

/-- A server does not connect to one that waits for it, directly or through others. -/
def Servers.LinksClear (N : Servers ν) (σ : State ν) : Action ν → Prop
  | .receive s m _ =>
    ∀ t, N.connects σ s m = some t → t ≠ s → ¬ Relation.ReflTransGen σ.Waits t s
  | _ => True

omit [DecidableEq ν] in
/-- Where every server waits as before or not at all, there is no new deadlock. -/
theorem State.DeadlockFree.mono {σ σ' : State ν} (h : σ.DeadlockFree)
    (hmode : ∀ s, σ'.mode s = σ.mode s ∨ (σ'.mode s).waitsOn = none) : σ'.DeadlockFree := by
  refine Free.mono h fun s t ⟨hwaits, hne⟩ => ⟨?_, hne⟩
  rcases hmode s with heq | hnone
  · rwa [← heq]
  · rw [hnone] at hwaits
    cases hwaits

theorem perform_mode (s : ν) (p : Routing) (σ : State ν) (x : ν) :
    (perform s p σ).mode x = σ.mode x ∨ ((perform s p σ).mode x).waitsOn = none := by
  by_cases hx : x = s
  · refine .inr ?_
    simp only [perform, hx, Function.update_self]
    split <;> rfl
  · exact .inl (Function.update_of_ne hx _ _)

omit [DecidableEq ν] in
theorem not_waits_of_running {s t : ν} {σ : State ν} (hs : σ.mode s = .running) :
    ¬ σ.Waits s t := by
  rintro ⟨h, -⟩
  rw [hs] at h
  cases h

theorem block_waits {s t : ν} {m : Message} {σ : State ν} (hs : σ.mode s = .running) (a b : ν) :
    (block s t m σ).Waits a b ↔ σ.Waits a b ∨ a = s ∧ b = t ∧ t ≠ s := by
  by_cases ha : a = s
  · subst ha
    have hidle : ¬ σ.Waits a b := fun h => not_waits_of_running hs h
    have hnew : (block a t m σ).Waits a b ↔ t = b ∧ b ≠ a := by
      simp only [State.Waits, block, Function.update_self, Mode.waitsOn, Option.some.injEq]
    rw [hnew, or_iff_right hidle]
    constructor
    · rintro ⟨rfl, hne⟩
      exact ⟨rfl, rfl, hne⟩
    · rintro ⟨-, rfl, hne⟩
      exact ⟨rfl, hne⟩
  · simp only [State.Waits, block, Function.update_of_ne ha, ha, false_and, or_false]

namespace Servers
variable {N : Servers ν}

theorem deadlockFree_block {s t : ν} {m : Message} {σ : State ν} (hs : σ.mode s = .running)
    (hfree : σ.DeadlockFree) :
    (block s t m σ).DeadlockFree ↔ (t ≠ s → ¬ Relation.ReflTransGen σ.Waits t s) := by
  by_cases hts : t = s
  · have hsame (a b : ν) (h : (block s t m σ).Waits a b) : σ.Waits a b :=
      ((block_waits hs a b).mp h).resolve_right fun h => h.2.2 hts
    exact iff_of_true (Free.mono hfree hsame) fun h => absurd hts h
  · have hwaits (a b : ν) : (block s t m σ).Waits a b ↔ σ.Waits a b ∨ a = s ∧ b = t := by
      rw [block_waits hs a b]
      simp only [ne_eq, hts, not_false_eq_true, and_true]
    have hidle (x : ν) : ¬ σ.Waits s x := not_waits_of_running hs
    exact (WaitFor.free_insert hwaits hidle hfree).trans ⟨fun h _ => h, fun h => h hts⟩

theorem deadlockFree_step {σ σ' : State ν} {a : Action ν} (hfree : σ.DeadlockFree)
    (hstep : N.step σ a = some σ') : σ'.DeadlockFree ↔ N.LinksClear σ a := by
  cases a with
  | bcastLocalIpPort s w =>
    simp only [step, Option.ite_none_right_eq_some, Option.some.injEq] at hstep
    obtain ⟨-, rfl⟩ := hstep
    exact iff_of_true (hfree.mono (perform_mode s _ σ)) trivial
  | receive s m w =>
    simp only [step, Option.ite_none_right_eq_some] at hstep
    obtain ⟨⟨-, hs⟩, hstep⟩ := hstep
    cases hconnects : N.connects σ s m with
    | some t =>
      rw [hconnects] at hstep
      obtain rfl := Option.some.inj hstep
      -- taking the message out of flight changes nobody's wait
      have htaken : State.DeadlockFree {σ with flight := σ.flight.erase (s, m)} := hfree
      refine (deadlockFree_block hs htaken).trans ?_
      simp only [LinksClear, hconnects, Option.some.injEq, forall_eq']
    | none =>
      rw [hconnects] at hstep
      obtain rfl := Option.some.inj hstep
      refine iff_of_true (hfree.mono (perform_mode s _ _)) ?_
      simp only [LinksClear, hconnects, reduceCtorEq, false_implies, implies_true]
  | accept t s accepted connected w =>
    cases hs : σ.mode s with
    | blocked t' m =>
      simp only [step, hs, Option.ite_none_right_eq_some, Option.some.injEq] at hstep
      obtain ⟨-, rfl⟩ := hstep
      refine iff_of_true (hfree.mono fun x => ?_) trivial
      rcases perform_mode s _ (N.enter t s accepted (join t s accepted connected σ)) x with h | h
      · rw [h]
        exact perform_mode t _ (join t s accepted connected σ) x
      · exact .inr h
    | _ => simp [step, hs] at hstep
  | refuse s =>
    cases hs : (σ.mode s).waitsOn with
    | some t =>
      simp only [step, hs, Option.ite_none_right_eq_some, Option.some.injEq] at hstep
      obtain ⟨-, rfl⟩ := hstep
      refine iff_of_true (hfree.mono fun x => ?_) trivial
      by_cases hx : x = s
      · refine .inr ?_
        simp only [hx, Function.update_self, Mode.waitsOn]
      · exact .inl (Function.update_of_ne hx _ _)
    | none => simp [step, hs] at hstep

omit [DecidableEq ν] in
theorem deadlockFree_start (table : ν → RoutingTables) (wire : ν → Nat → Option ν) :
    (State.start table wire).DeadlockFree := by
  rintro X ⟨⟨s, hs⟩, hwaits⟩
  obtain ⟨t, -, h, -⟩ := hwaits s hs
  cases h

/-- **Exactly the crossing links deadlock.** Whatever the first links, the broadcasts
and their order, no state of a run holds a set of servers each blocked on another of
the set if and only if no server of the run connected to one that was waiting, directly
or through others, for its own challenge. -/
theorem deadlockFree_iff_linksClear (N : Servers ν) (table : ν → RoutingTables)
    (wire : ν → Nat → Option ν) (actions : List (Action ν)) (σ : State ν)
    (h : Runs.run N.step (.start table wire) actions = some σ) :
    Runs.Always N.step State.DeadlockFree (.start table wire) actions ↔
      Runs.Meets N.step N.LinksClear (.start table wire) actions :=
  Runs.always_iff_meets (I := fun _ => True) (fun _ _ _ _ _ => trivial)
    (fun _ _ _ _ hfree hstep => deadlockFree_step hfree hstep) trivial
    (deadlockFree_start table wire) h

end Servers

/-! ### Two servers behind a hub -/

namespace Sample

open Mess.Sample (world)

/-- `M1` is the primary, which `M2` and `M3` connect to when they start. -/
inductive Name where
  | m1
  | m2
  | m3
deriving DecidableEq

def Name.id : Name → String
  | .m1 => "M1"
  | .m2 => "M2"
  | .m3 => "M3"

def Name.tcServId : Name → String
  | .m1 => "S1"
  | .m2 => "S2"
  | .m3 => "S3"

def Name.port : Name → String
  | .m1 => "6666"
  | .m2 => "6667"
  | .m3 => "6668"

def cfg (s : Name) : LoopConfig where
  messMyId := s.id
  tcServId := s.tcServId
  messAutoLinks := true
  messMyId_truthy := by cases s <;> decide
  tcServId_truthy := by cases s <;> decide
  messPrimary := if s = .m1 then "" else "M1"
  messMyHost := "localhost"
  messMyPort := s.port
  getType id := if id ∈ ["M1", "M2", "M3"] then RouteType.mess.text else ""
  serverSock := 0

def servers : Servers Name where
  cfg := cfg
  listens ip port := if ip = "localhost" then [Name.m1, .m2, .m3].find? (port = ·.port) else none

def routes : Name → Routes
  | .m1 => ⟨[⟨"M2", ⟨.sock 1, .mess⟩⟩, ⟨"M3", ⟨.sock 2, .mess⟩⟩, ⟨"S1", ⟨.mq, .tcs⟩⟩],
      (by decide : ["M2", "M3", "S1"].Nodup)⟩
  | s => ⟨[⟨"M1", ⟨.sock 1, .mess⟩⟩, ⟨s.tcServId, ⟨.mq, .tcs⟩⟩],
      (by cases s <;> decide : ["M1", s.tcServId].Nodup)⟩

def wire : Name → Nat → Option Name
  | .m1, 1 => some .m2
  | .m1, 2 => some .m3
  | .m2, 1 | .m3, 1 => some .m1
  | _, _ => none

def started : State Name := .start (fun s => ⟨[], routes s⟩) wire

/-- The broadcast of a server, under a UUID. -/
def bcast (s : Name) (uuid : String) : Message :=
  ⟨.event, s.id, subaddrSelf, dstBcast, subaddrSelf, uuid, "", "bcastIP_PORT",
    some [("id", s.id), ("ip", "localhost"), ("port", s.port)], .orig⟩

/-- `M3` hears of `M2` and connects to it. -/
def linking : List (Action Name) :=
  [.bcastLocalIpPort .m2 (world "a" ""), .receive .m1 (bcast .m2 "a") (world "" ""),
    .receive .m3 (bcast .m2 "a") (world "" ""), .accept .m2 .m3 7 8 (world "" "")]

/-- The broadcasts of `M2` and `M3` cross at the hub. -/
def crossing : List (Action Name) :=
  [.bcastLocalIpPort .m2 (world "a" ""), .bcastLocalIpPort .m3 (world "b" ""),
    .receive .m1 (bcast .m2 "a") (world "" ""), .receive .m1 (bcast .m3 "b") (world "" ""),
    .receive .m2 (bcast .m3 "b") (world "" ""), .receive .m3 (bcast .m2 "a") (world "" "")]

end Sample

theorem deadlockFree_iff_linking : ∃ σ,
    Runs.run Sample.servers.step Sample.started Sample.linking = some σ ∧
      (Runs.Always Sample.servers.step State.DeadlockFree Sample.started Sample.linking ↔
        Runs.Meets Sample.servers.step Sample.servers.LinksClear Sample.started Sample.linking) := by
  obtain ⟨σ, h⟩ := Option.isSome_iff_exists.mp
    (by decide : (Runs.run Sample.servers.step Sample.started Sample.linking).isSome)
  exact ⟨σ, h, Sample.servers.deadlockFree_iff_linksClear _ Sample.wire Sample.linking σ h⟩

/-- `M2` and `M3` wait for each other's challenge for ever. -/
theorem crossing_deadlocks : ∃ σ,
    Runs.run Sample.servers.step Sample.started Sample.crossing = some σ ∧
      (σ.mode .m2).waitsOn = some .m3 ∧ (σ.mode .m3).waitsOn = some .m2 ∧ ¬ σ.DeadlockFree := by
  obtain ⟨σ, h⟩ := Option.isSome_iff_exists.mp
    (by decide : (Runs.run Sample.servers.step Sample.started Sample.crossing).isSome)
  have hmodes : (Runs.run Sample.servers.step Sample.started Sample.crossing).map
      (fun σ => ((σ.mode .m2).waitsOn, (σ.mode .m3).waitsOn)) = some (some .m3, some .m2) := by
    decide
  rw [h] at hmodes
  obtain ⟨h2, h3⟩ := Prod.mk.inj (Option.some.inj hmodes)
  refine ⟨σ, h, h2, h3, fun hfree => hfree {.m2, .m3} ⟨⟨.m2, .inl rfl⟩, ?_⟩⟩
  rintro s (rfl | rfl)
  · exact ⟨.m3, .inr rfl, h2, by decide⟩
  · exact ⟨.m2, .inl rfl, h3, by decide⟩

end VleoNotebook.Mess.AutoLink
