import VleoNotebook.Mess.Frame
import VleoNotebook.Mess.Routing

/-! What a MESS server does with one message (`MessSrv.pl`).

A message from a socket is received and thawed, printed and flooded with the route
callback as the local handler; the callback answers `ping`. A message from the tc-server's queue
is flooded with a handler that does nothing, and so are the replies. -/
namespace VleoNotebook.Mess

open Proc

/-- The handler `sub {}`. -/
def noHandler (_ : String) (_ : Message) : Routing := skip

/-- `printMsg`: it walks the arguments, and dies where there are none. -/
def printMsg (m : Message) : Routing :=
  match m.argval with
  | none => die "Can't use an undefined value as a HASH reference"
  | some _ => skip

/-- The reply of the route callback to a `ping`. -/
def pingReply (w : World) (localID : String) (m : Message) (args : Hash) :
    Except String Message :=
  Message.new w.uuid MsgType.ret.text subaddrSelf localID m.srcsub m.src m.method
    (some [("tm0", args.get "tm"), ("tm", w.now)]) Status.ok.text m.uuid

/-- The route callback. -/
def routeCallback (cfg : Config) (w : World) (localID : String) (m : Message) : Routing :=
  if m.method = "ping" then
    if m.dstsub = subaddrSelf then
      match m.argval with
      | none => die "Can't use an undefined value as a HASH reference"
      | some args =>
        match pingReply w localID m args with
        | .error text => die text
        | .ok reply =>
          andThen (emit (.made reply m)) (floodRoute cfg w localID reply noHandler)
    else if m.dstsub = cfg.tcServId then sendMsg .mq (.forwarded .mq m)
    else die "should route to other subaddr even for this MESS_ID in routingTables::"
  else
    -- the reply is never built: its method is read from the bareword `msg`
    die <| "Can't locate object method \"get_METHOD\" via package \"msg\" " ++
      "(perhaps you forgot to load \"msg\"?)"

/-- A message received on an authenticated socket, once it is thawed. -/
def fromSock (cfg : Config) (w : World) (m : Message) : Routing :=
  andThen (printMsg m) (floodRoute cfg w cfg.messMyId m (routeCallback cfg w))

/-- An authenticated socket that holds these bytes: what `receiveData` hands `setFrozen`
is thawed, printed and flooded. `thaw` is the module's, or the text it dies with; what it
gives is taken as the getters read it, an undef field as empty, arguments that are no
hash as none, and a type or status, which is printed only, as any. -/
def fromStream (thaw : MessageTransport.Bytes → Except String Message) (cfg : Config) (w : World)
    (stream : MessageTransport.Bytes) : Routing :=
  match (MessageTransport.receiveData stream).1 with
  | .done (.frozen body) =>
    match thaw body with
    | .error text => die text
    | .ok m => fromSock cfg w m
  -- `goto CLOSE`
  | _ => skip

/-- A message received from the tc-server's queue. -/
def fromMQ (cfg : Config) (w : World) (m : Message) : Routing :=
  andThen (printMsg m) (floodRoute cfg w cfg.messMyId m noHandler)

/-! ### The sample configurations -/

namespace Sample

/-- The server of `MessConfig.xml`. -/
def m1 : Config := ⟨"M1", "S1", true, by decide, by decide⟩

/-- The server of `MessConfig_2.xml`. -/
def m2 : Config := ⟨"M2", "S2", false, by decide, by decide⟩

/-- A world in which nothing can be connected to. -/
def world (uuid uuid' : String) : World :=
  ⟨fun _ _ => .error "Connection refused", uuid, uuid', "1300000000.5"⟩

/-- The tables of `M1` with its tc-server, a client and another server. -/
def routed : RoutingTables :=
  ⟨["00000000-0000-11e0-0000-000000000001"],
    (((∅ : Routes).insert "S1" ⟨.mq, .tcs⟩).insert "L1" ⟨.sock 4, .tcc⟩).insert "M2"
      ⟨.sock 5, .mess⟩⟩

end Sample

end VleoNotebook.Mess
