import Mathlib.Data.List.AList
import VleoNotebook.Lib.Proc
import VleoNotebook.Mess.Message

/-! The routing tables of a MESS server (`RoutingTables`).

`localRoutes` maps the IDs of directly connected peers, clients and the tc-server
to what they are reached by; `seenUUID` remembers the messages routed before.
`floodRoute` drops a message it has seen, does what is addressed to this server,
and sends the message on: to a client of this server, to the one peer it is for,
or to all of them. Sending and everything else a reader outside can see is an
`Effect`; an exception ends the procedure. The log lines are left out. -/
namespace VleoNotebook.Mess

/-- `RT_MESS`, `RT_TCC`, `RT_TCS` -/
inductive RouteType where
  | mess
  | tcc
  | tcs
deriving DecidableEq, Repr

def RouteType.text : RouteType → String
  | .mess => "MESS"
  | .tcc => "TCC"
  | .tcs => "TCS"

def RouteType.ofText (s : String) : Option RouteType :=
  [RouteType.mess, .tcc, .tcs].find? fun t => s = t.text

/-- What a route is reached by: a socket object, or the message queue of the
tc-server. -/
inductive Handle where
  | sock (n : Nat)
  | mq
deriving DecidableEq, Repr

structure Route where
  sock : Handle
  type : RouteType
deriving DecidableEq, Repr

/-- `%localRoutes`, each ID once. -/
abbrev Routes := AList fun _ : String => Route

structure RoutingTables where
  seenUUID : List String
  localRoutes : Routes

inductive Effect where
  /-- The message got past the duplicate filter. -/
  | passed (m : Message)
  /-- The local handler was called. -/
  | handled (m : Message)
  /-- `mqRegister`: the reply of the tc-server was noted. -/
  | registered (m : Message)
  /-- A link to the server `id` was made. -/
  | linked (m : Message) (id : String) (via : Handle)
  /-- Sent to the directly connected client or tc-server `id`. -/
  | toClient (id : String) (via : Handle) (m : Message)
  /-- Sent to the route entry `id`, as the one peer or as one of all. -/
  | toPeer (id : String) (via : Handle) (m : Message)
  /-- Put into the tc-server's queue by the route callback. -/
  | forwarded (via : Handle) (m : Message)
  /-- A reply was created in answer to `call`. -/
  | made (reply call : Message)
deriving DecidableEq, Repr

abbrev Routing := Proc RoutingTables Effect

/-- The configuration of a server: its ID, its tc-server's, `MESS_AUTO_LINKS`. The
server starts by sending `mqRegister` from the one to the other, and dies there
unless both are IDs a message can carry. -/
structure Config where
  messMyId : String
  tcServId : String
  messAutoLinks : Bool
  messMyId_truthy : Truthy messMyId
  tcServId_truthy : Truthy tcServId

/-- What the world answers while one message is processed: the socket of the link
made to an IP address and port, or how `newClient` died; the UUIDs `OSSP::uuid` makes
next, of which no program takes more than two; the time. -/
structure World where
  newClient : String → String → Except String Nat
  uuid : String
  uuid' : String
  now : String

open Proc

/-! ### Tables -/

/-- `lRoute` with a socket and a type. -/
def lRoute (dst : String) (sock : Handle) (type : String) : Routing :=
  if ¬ Truthy dst then die "should specify at least dst to lookup"
  else match RouteType.ofText type with
    | none => die s!"Must specify connection type as MESS, TCC or TCS, got {type}, caller:"
    | some t => update fun r => {r with localRoutes := r.localRoutes.insert dst ⟨sock, t⟩}

/-- Remember the UUID of a routed message. -/
def seen (uuid : String) : Routing :=
  update fun r => {r with seenUUID := uuid :: r.seenUUID}

/-! ### Sending -/

/-- `$msg->sendData($sock)`; a queue is no file handle. -/
def sendData (via : Handle) (e : Effect) : Routing :=
  match via with
  | .sock _ => emit e
  | .mq => die "Not a GLOB reference"

/-- `$mq->sendMsg(...)`; a socket has no such method. -/
def sendMsg (via : Handle) (e : Effect) : Routing :=
  match via with
  | .mq => emit e
  | .sock _ => die "Can't locate object method \"sendMsg\" via package \"AuthenticatedLink\""

/-! ### Flooding -/

/-- The message is addressed to the MESS server itself, by its ID or by broadcast. -/
def ForSelf (localID : String) (m : Message) : Prop :=
  m.dstsub = subaddrSelf ∧ (m.dst = dstBcast ∨ m.dst = localID)

instance (localID : String) (m : Message) : Decidable (ForSelf localID m) :=
  inferInstanceAs (Decidable (_ ∧ _))

/-- `bcastIP_PORT` with `MESS_AUTO_LINKS` set: connect to a server not yet linked. -/
def autoLink (w : World) (localID : String) (m : Message) : Routing := fun r =>
  match m.argval with
  | none => die "Can't use an undefined value as a HASH reference" r
  | some args =>
    if args.get "id" ≠ localID ∧ m.src ≠ localID ∧ args.get "id" ∉ r.localRoutes then
      match w.newClient (args.get "ip") (args.get "port") with
      | .error text => die text r
      | .ok sock =>
        andThen (emit (.linked m (args.get "id") (.sock sock)))
          (lRoute (args.get "id") (.sock sock) RouteType.mess.text) r
    else skip r

/-- What `floodRoute` does with a message addressed to this MESS server. -/
def processLocal (cfg : Config) (w : World) (localID : String) (m : Message)
    (localHandler : String → Message → Routing) : Routing :=
  if ForSelf localID m then
    if m.method = "bcastRTE" then skip -- goes on to ROUTE_NONLOCAL
    else if m.method = "bcastIP_PORT" then
      if cfg.messAutoLinks then autoLink w localID m else skip
    else if m.method = "mqRegister" then emit (.registered m)
    else andThen (emit (.handled m)) (localHandler localID m)
  else skip

/-- The directly connected client or tc-server a message is for. -/
def clientRoute (localID dst dstsub : String) (r : RoutingTables) : Option Route :=
  if dst = localID ∧ dstsub ≠ subaddrSelf then r.localRoutes.lookup dstsub else none

/-- The directly connected destination: the entry of `DST`, of whatever type. -/
def peerRoute (dst : String) (r : RoutingTables) : Option Route :=
  if dst ≠ dstBcast then r.localRoutes.lookup dst else none

/-- One turn of the loop over all entries: only MESS peers get the message. -/
def floodPeer (m : Message) (entry : Sigma fun _ : String => Route) : Routing :=
  if entry.2.type = .mess then sendData entry.2.sock (.toPeer entry.1 entry.2.sock m) else skip

/-- `ROUTE_NONLOCAL` -/
def routeNonlocal (localID : String) (m : Message) : Routing := fun r =>
  match clientRoute localID m.dst m.dstsub r with
  | some route =>
    match route.type with
    | .tcc => sendData route.sock (.toClient m.dstsub route.sock m) r
    | .tcs => sendMsg route.sock (.toClient m.dstsub route.sock m) r
    | .mess =>
      die "message to local destination should be to SELF, BCASE, TCC or TCS, got MESS" r
  | none =>
    match peerRoute m.dst r with
    | some route => sendData route.sock (.toPeer m.dst route.sock m) r
    | none => each (floodPeer m) r.localRoutes.entries r

/-- `floodRoute` -/
def floodRoute (cfg : Config) (w : World) (localID : String) (m : Message)
    (localHandler : String → Message → Routing) : Routing := fun r =>
  if m.uuid ∈ r.seenUUID then skip r
  else andThen (seen m.uuid) (andThen (emit (.passed m))
    (andThen (processLocal cfg w localID m localHandler) (routeNonlocal localID m))) r

end VleoNotebook.Mess
