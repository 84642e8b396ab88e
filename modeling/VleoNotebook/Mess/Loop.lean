import Mathlib.Data.List.AList
import VleoNotebook.Lib.Runs
import VleoNotebook.Mess.Survival

/-! The main loop of a MESS server (`MessSrv.pl`, `AuthenticatedLink.pm`).

A socket is known by its address, the `refaddr` of the object. It is live, and its
address in use, as long as something refers to the object: the select set, the
route table, or the variables of the listener and of the upstream link. Once
nothing does, a later socket may get the same address. `%auth` is kept by address
in another file; nothing is ever removed from it.

An event is what one turn of a loop does: a connection is accepted and runs the
handshake, a message comes in by a socket or by the queue, a socket is closed, or
the server announces itself. -/
namespace VleoNotebook.Mess

open Proc

structure LoopConfig extends Config where
  /-- The ID of the upstream server, empty for the primary. -/
  messPrimary : String
  messMyHost : String
  messMyPort : String
  /-- `GET_TYPE`: the type the authentication data gives an ID. -/
  getType : String → String
  /-- The address of the listening socket. -/
  serverSock : Nat

/-- Where a connection comes from, as `accept` reports it. -/
structure Peer where
  port : Nat
  ip : List Nat
deriving DecidableEq, Repr

/-- How the DIGEST-MD5 handshake with a client ends: code 0 for an ID, another code,
or an exception. -/
inductive Login where
  | ok (id : String)
  | failed
  | dies (text : String)
deriving DecidableEq, Repr

structure Server where
  tables : RoutingTables
  readSet : List Nat
  /-- The sockets not closed. -/
  openSocks : List Nat
  authOK : AList fun _ : Nat => String
  clientSockets : AList fun _ : Nat => Peer
  /-- `%auth`: what the handshake object holds as `{answer}{username}`. -/
  auth : AList fun _ : Nat => Option String
  sockUpPrim : Option Nat
  died : Option String

inductive Event where
  | accept (sock : Nat) (peer : Peer) (login : Login)
  /-- `receiveData` returns a message; `answer` is what the handshake object of a link
  it may lead to holds. -/
  | receive (sock : Nat) (m : Message) (w : World) (answer : Option String)
  | fromMQ (m : Message) (w : World) (answer : Option String)
  /-- The socket is ready and goes to `CLOSE`: not authenticated, or `receiveData`
  returned -1. -/
  | close (sock : Nat)
  | bcastLocalIpPort (w : World)

/-- What the server finds when it starts: the upstream link, with its address and what
its handshake object holds, or how `newClient` died. -/
structure Boot where
  w : World
  upstream : Except String (Nat × Option String)

namespace Server
variable (cfg : LoopConfig)

/-! ### Sockets -/

/-- The sockets the routes name. -/
def routeSocks (r : RoutingTables) : List Nat :=
  r.localRoutes.entries.filterMap fun e => match e.2.sock with
    | .sock n => some n
    | .mq => none

/-- The addresses in use. -/
def live (σ : Server) : List Nat :=
  cfg.serverSock :: (σ.readSet ++ σ.sockUpPrim.toList ++ routeSocks σ.tables)

/-- The link a message leads to: the ID it is for and its socket. -/
def newLink (cfg : Config) (w : World) (m : Message) (r : RoutingTables) : Option (String × Nat) :=
  match m.argval with
  | none => none
  | some args =>
    if m.uuid ∉ r.seenUUID ∧ ForSelf cfg.messMyId m ∧ m.method = "bcastIP_PORT" ∧
        cfg.messAutoLinks ∧ args.get "id" ≠ cfg.messMyId ∧ m.src ≠ cfg.messMyId ∧
        args.get "id" ∉ r.localRoutes then
      match w.newClient (args.get "ip") (args.get "port") with
      | .error _ => none
      | .ok sock => if Truthy (args.get "id") then some (args.get "id", sock) else none
    else none

/-! ### Authentication -/

/-- `authenticateOnServer`: where the code is not 0 it returns before it touches
`%auth`. -/
def authenticateOnServer (sock : Nat) (login : Login) (σ : Server) : Except String Server :=
  match login with
  | .dies text => .error text
  | .failed => .ok σ
  | .ok id => .ok {σ with auth := σ.auth.insert sock (some id)}

/-- `getClientID` -/
def getClientID (sock : Nat) (σ : Server) : Option String := (σ.auth.lookup sock).join

/-! ### The loop -/

/-- A procedure on the tables. -/
def perform (p : Routing) (σ : Server) : Server :=
  {σ with tables := (p σ.tables).state, died := (p σ.tables).error}

/-- A link made by `newClient` on the way. -/
def connect (answer : Option String) (link : Option (String × Nat)) (σ : Server) : Server :=
  match link with
  | none => σ
  | some (_, sock) =>
    {σ with openSocks := sock :: σ.openSocks, auth := σ.auth.insert sock answer}

/-- The accepted socket is selected from now on, and its peer noted. -/
def opened (sock : Nat) (peer : Peer) (σ : Server) : Server :=
  {σ with
    readSet := sock :: σ.readSet
    openSocks := sock :: σ.openSocks
    clientSockets := σ.clientSockets.insert sock peer}

/-- A socket whose client has an ID is entered under it. -/
def identify (sock : Nat) (σ : Server) : Server :=
  match getClientID sock σ with
  | none => σ
  | some clientID =>
    if Truthy clientID then
      perform (lRoute clientID (.sock sock) (cfg.getType clientID))
        {σ with authOK := σ.authOK.insert sock clientID}
    else σ

/-- A new connection. -/
def accept (sock : Nat) (peer : Peer) (login : Login) (σ : Server) : Server :=
  match authenticateOnServer sock login (opened sock peer σ) with
  | .error text => {opened sock peer σ with died := some text}
  | .ok σ => identify cfg sock σ

/-- `CLOSE` -/
def close (sock : Nat) (σ : Server) : Server :=
  {σ with
    clientSockets := σ.clientSockets.erase sock
    readSet := σ.readSet.filter (· ≠ sock)
    authOK := σ.authOK.erase sock
    openSocks := σ.openSocks.filter (· ≠ sock)}

/-- A message of the server's own making is flooded, if it can be made. -/
def originate (cfg : Config) (w : World) (made : Except String Message) : Routing :=
  match made with
  | .error text => die text
  | .ok m => floodRoute cfg w cfg.messMyId m noHandler

/-- `bcastLocalIpPort` passes no handler, and its message is for none. -/
def bcastLocalIpPort (w : World) : Routing :=
  originate cfg.toConfig w (Message.new w.uuid MsgType.event.text subaddrSelf cfg.messMyId
    subaddrSelf dstBcast "bcastIP_PORT"
    (some [("id", cfg.messMyId), ("ip", cfg.messMyHost), ("port", cfg.messMyPort)]) "" "")

/-- A new socket gets an address that is not in use. -/
def Fresh (σ : Server) : Option (String × Nat) → Prop
  | none => True
  | some (_, sock) => sock ∉ live cfg σ

instance (σ : Server) : (link : Option (String × Nat)) → Decidable (Fresh cfg σ link)
  | none => isTrue trivial
  | some _ => inferInstanceAs (Decidable (_ ∉ _))

/-- One event, where it can happen. -/
def step (σ : Server) : Event → Option Server
  | .accept sock peer login =>
    if σ.died = none ∧ sock ∉ live cfg σ then some (accept cfg sock peer login σ) else none
  | .receive sock m w answer =>
    let link := newLink cfg.toConfig w m σ.tables
    if σ.died = none ∧ sock ∈ σ.readSet ∧ sock ≠ cfg.serverSock ∧ sock ∈ σ.authOK ∧
        Fresh cfg σ link then
      some (connect answer link (perform (fromSock cfg.toConfig w m) σ))
    else none
  | .fromMQ m w answer =>
    let link := newLink cfg.toConfig w m σ.tables
    if σ.died = none ∧ Fresh cfg σ link then
      some (connect answer link (perform (fromMQ cfg.toConfig w m) σ))
    else none
  | .close sock =>
    if σ.died = none ∧ sock ∈ σ.readSet ∧ sock ≠ cfg.serverSock then some (close sock σ)
    else none
  | .bcastLocalIpPort w =>
    if σ.died = none then some (perform (bcastLocalIpPort cfg w) σ) else none

/-- The registration at the tc-server. -/
def mqRegister (w : World) : Routing :=
  originate cfg.toConfig w (Message.new w.uuid MsgType.call.text subaddrSelf cfg.messMyId
    cfg.tcServId cfg.messMyId "mqRegister" (some [("messID", cfg.messMyId)]) "" "")

/-- The link to the upstream server, unless this one is the primary. -/
def connectUp (boot : Boot) (σ : Server) : Server :=
  if Truthy cfg.messPrimary then
    match boot.upstream with
    | .error text => {σ with died := some text}
    | .ok (sock, answer) =>
      perform (lRoute cfg.messPrimary (.sock sock) RouteType.mess.text)
        {σ with
          sockUpPrim := some sock
          openSocks := [sock]
          readSet := [sock]
          auth := σ.auth.insert sock answer
          authOK := σ.authOK.insert sock cfg.messPrimary}
  else σ

/-- The listening socket. -/
def listen (σ : Server) : Server :=
  {σ with
    openSocks := cfg.serverSock :: σ.openSocks
    readSet := cfg.serverSock :: σ.readSet}

/-- Everything before the loop; an exception anywhere ends it. -/
def startup (boot : Boot) : Server :=
  let a := andThen (lRoute cfg.tcServId .mq RouteType.tcs.text) (mqRegister cfg boot.w) ⟨[], ∅⟩
  let σ : Server := ⟨a.state, [], [], ∅, ∅, ∅, none, a.error⟩
  if σ.died ≠ none then σ
  else
    let σ := connectUp cfg boot σ
    if σ.died ≠ none then σ else listen cfg σ

end Server

/-! ### The sample server -/

namespace Sample

/-- The primary of `MessConfig.xml`, with the types of `AuthData.xml`. -/
def loop : LoopConfig where
  toConfig := m1
  messPrimary := ""
  messMyHost := "localhost"
  messMyPort := "6666"
  getType id :=
    if id ∈ ["L1", "L2", "L3", "L4"] then RouteType.tcc.text
    else if id ∈ ["M1", "M2", "M3"] then RouteType.mess.text else ""
  serverSock := 0

def boot : Boot := ⟨world "a" "b", .error "Could not create socket: "⟩

def peer : Peer := ⟨40000, [127, 0, 0, 1]⟩

/-- A message to the server itself with a method it does not know. -/
def status : Message :=
  ⟨.call, "M1", "L1", "M1", subaddrSelf, "00000000-0000-11e0-0000-000000000011", "", "status",
    some [], .orig⟩

/-- A message without arguments. -/
def bare : Message :=
  ⟨.call, "M1", "L1", "M2", "L2", "00000000-0000-11e0-0000-000000000012", "", "ping", none, .orig⟩

end Sample

end VleoNotebook.Mess
