import AmiPiBorg.Protocol.Packet
import AmiPiBorg.Lib.Runs
import AmiPiBorg.Lib.Keyed

/-!
# Connections and the server (`server/connection.c`, `server/server.c`)

The server takes requests from its clients and packets from the Pi, keeps the connections between them, and watches the
link with a timer. Objects are known by numbers in the order in which they were made or came in, since the source knows
them by their addresses. What a function hands over to others is listed: packets that it sends (`out`), requests that it
passes to `ReplyMsg` (`replied`), packets that it passes to `APB_ReleaseInPacket` (`released`).

* `handleConnectionPacket`, `handleClientRequest`, `checkRequestTimeouts`: one connection.
* `handlePacket`, `receiveRequest`, `handleTimer`: the server.
* `runStep`: an iteration of the loop of `APB_Run`, up to `APB_WaitForMessage`, whose parts are `step`s of their own.

The packet writer is the subject of other modules. Here a packet is sent when it is allocated, and `Env` says which
allocations succeed.
-/

set_option autoImplicit false

namespace AmiPiBorg

open ProgLib

/-! ## Constants -/

/-- `PT_INIT`. -/
def ptInit : UInt8 := 0x00
/-- `PT_HELLO`. -/
def ptHello : UInt8 := 0x01
/-- `PT_SHUTDOWN`. -/
def ptShutdown : UInt8 := 0x02
/-- `PT_GOODBYE`. -/
def ptGoodbye : UInt8 := 0x03
/-- `PT_CONNECT`. -/
def ptConnect : UInt8 := 0x10
/-- `PT_CONNECTED`. -/
def ptConnected : UInt8 := 0x11
/-- `PT_DISCONNECT`. -/
def ptDisconnect : UInt8 := 0x12
/-- `PT_DISCONNECTED`. -/
def ptDisconnected : UInt8 := 0x13
/-- `PT_DATA`. -/
def ptData : UInt8 := 0x20
/-- `PT_RESEND`. -/
def ptResend : UInt8 := 0x22
/-- `PT_PING`. -/
def ptPing : UInt8 := 0x23
/-- `PT_PONG`. -/
def ptPong : UInt8 := 0x24
/-- `PT_ERROR`. -/
def ptError : UInt8 := 0x30
/-- `PT_NO_HANDLER`. -/
def ptNoHandler : UInt8 := 0x31
/-- `PT_NO_CONNECTION`. -/
def ptNoConnection : UInt8 := 0x32

/-- `APB_RT_OPEN`. -/
def rtOpen : UInt16 := 1
/-- `APB_RT_CLOSE`. -/
def rtClose : UInt16 := 2
/-- `APB_RT_READ`. -/
def rtRead : UInt16 := 3
/-- `APB_RT_WRITE`. -/
def rtWrite : UInt16 := 4
/-- `APB_RT_SRV_QUIT`. -/
def rtSrvQuit : UInt16 := 100
/-- `APB_RT_SRV_LOG_LEVEL`. -/
def rtSrvLogLevel : UInt16 := 102

/-- `DEFAULT_CONNECTION`. -/
def defaultConnection : UInt16 := 0
/-- `PING_TICKS`. -/
def pingTicks : Nat := 5
/-- `MAX_MISSED_PINGS`. -/
def maxMissedPings : Nat := 5
/-- `AMIPIBORG_VERSION`. -/
def amipiborgVersion : UInt16 := 1

/-- `enum RequestState`, as far as the server uses it. -/
inductive RequestState where
  | ok
  | failed
  | notConnected
  | noHandler
  | noConnection
  | bufferTooSmall
  | timeout
  deriving DecidableEq

/-- `enum ServerState`. -/
inductive ServerState where
  | starting
  | openingRemote
  | openingClient
  | connecting
  | waitForConnect
  | connected
  | connectionLost
  | connectFailed
  | disconnecting
  | waitForDisconnect
  | disconnected
  | stopping
  | closingClient
  | closingRemote
  | stopped
  deriving DecidableEq

/-- The values of `cnn_State`. It is not set when a connection is made, so it can have any value then. -/
abbrev ConnectionState := UInt16

/-- `CS_CONNECTING`. -/
def csConnecting : ConnectionState := 1
/-- `CS_CONNECTED`. -/
def csConnected : ConnectionState := 2
/-- `CS_DISCONNECTING`. -/
def csDisconnecting : ConnectionState := 3
/-- `CS_DISCONNECTED`. -/
def csDisconnected : ConnectionState := 4
/-- `CS_NO_HANDLER`. -/
def csNoHandler : ConnectionState := 5

/-! ## Data -/

/-- `struct RequestInt`, with its `struct APBRequest`. `data` is what `r_Data` points to. -/
structure Request where
  /-- Its number among the requests that the server took from its port. -/
  num : Nat
  type : UInt16
  connId : UInt16
  handlerId : UInt16
  state : RequestState
  actual : UInt16
  length : UInt16
  timeout : UInt16
  data : List UInt8
  timeoutTicks : UInt16
  deriving DecidableEq

/-- A packet that the server took from the reader. -/
structure InPac where
  /-- Its number among the packets that the server took. -/
  num : Nat
  /-- Ghost: its number among the packets that the Pi sent. -/
  seq : Nat
  pac : Incoming
  deriving DecidableEq

/-- `struct Connection`. -/
structure Connection where
  /-- Its number among the connections that were made. -/
  num : Nat
  id : UInt16
  handlerId : UInt16
  state : ConnectionState
  packetQueue : List InPac
  reqQueue : List Request
  deriving DecidableEq

/-- A packet that was allocated and filled in. -/
structure OutPac where
  /-- Ghost: the connection object that sends it, if one does. -/
  cnn : Option Nat
  connId : UInt16
  type : UInt8
  data : List UInt8
  deriving DecidableEq

/-- Where `APB_WaitForMessage` is. -/
inductive Phase where
  /-- It is not called. -/
  | loop
  | wait
  | timer
  | client
  | remote
  deriving DecidableEq

/-- `struct Server`, with the variables of `APB_Run` and what went in and out. -/
structure Server where
  connections : List Connection
  state : ServerState
  nextConnId : UInt16
  lastInPackId : UInt16
  pingSendTicks : Nat
  missedPingCount : Nat
  pingTimeoutTicks : Nat
  /-- The timer runs. -/
  timerOn : Bool
  /-- There is a client port. -/
  clientOpen : Bool
  retryCount : Nat
  phase : Phase
  /-- The number of calls of `APB_AllocPacket`. -/
  allocs : Nat
  /-- The number of calls of `APB_CreateConnection`. -/
  creations : Nat
  out : List OutPac
  /-- The number of requests that were taken from the client port. -/
  taken : Nat
  replied : List Request
  /-- The number of packets that were taken from the reader. -/
  dequeued : Nat
  released : List InPac
  /-- Ghost: the packets that were put on the queue of a connection object. -/
  handed : List (Nat × InPac)
  /-- Ghost: the packets that were handled, with whether they were sent again. -/
  heard : List (Nat × Bool)
  /-- Ghost: the server was told to quit. -/
  quit : Bool

/-- What the pools answer: whether the call of `APB_AllocPacket` succeeds, and what is left in `cnn_State` of the object
that a call of `APB_CreateConnection` gets, if it gets one. -/
structure Env where
  packet : Nat → Bool
  connection : Nat → Option ConnectionState

namespace Server

/-- The server as `APB_SrvInitServer` makes it, at the start of `APB_Run`. -/
def start : Server :=
  { connections := [], state := .starting, nextConnId := 1, lastInPackId := 0, pingSendTicks := maxMissedPings,
    missedPingCount := 0, pingTimeoutTicks := 0, timerOn := true, clientOpen := false, retryCount := 5, phase := .loop,
    allocs := 0, creations := 0, out := [], taken := 0, replied := [], dequeued := 0, released := [], handed := [],
    heard := [], quit := false }

/-! ## What goes out -/

/-- `APB_AllocPacket` for a packet of this length, and the caller that fills it in. -/
def send (env : Env) (s : Server) (length : Nat) (o : OutPac) : Server × Bool :=
  if sizeofPacket ≤ length ∧ length ≤ bufferSize ∧ env.packet s.allocs = true then
    ({ s with allocs := s.allocs + 1, out := s.out ++ [o] }, true)
  else ({ s with allocs := s.allocs + 1 }, false)

/-- `ReplyMsg`. -/
def reply (s : Server) (r : Request) : Server := { s with replied := s.replied ++ [r] }

/-- `APB_ReleaseInPacket`. -/
def release (s : Server) (ip : InPac) : Server := { s with released := s.released ++ [ip] }

/-- The connection, written back. -/
def put (s : Server) (c : Connection) : Server :=
  { s with connections := Keyed.put Connection.num s.connections c }

/-- `APB_FindConnection`. -/
def findConnection (s : Server) (id : UInt16) : Option Connection := s.connections.find? fun c => c.id = id

/-! ## Connections -/

/-- `APB_CnnConnect`. -/
def cnnConnect (env : Env) (s : Server) (c : Connection) : Server × Connection :=
  let r := s.send env 16 { cnn := some c.num, connId := c.id, type := ptConnect, data := be16 c.handlerId }
  (r.1, if r.2 then { c with state := csConnecting } else c)

/-- `APB_CnnDisconnect`. -/
def cnnDisconnect (env : Env) (s : Server) (c : Connection) : Server × Connection :=
  let r := s.send env sizeofPacket { cnn := some c.num, connId := c.id, type := ptDisconnect, data := [] }
  (r.1, if r.2 then { c with state := csDisconnecting } else c)

/-- `APB_CreateConnection`, at the end of the list. -/
def createConnection (env : Env) (s : Server) (connId : UInt16) : Server × Option Connection :=
  match env.connection s.creations with
  | none => ({ s with creations := s.creations + 1 }, none)
  | some state =>
    let c := { num := s.creations, id := connId, handlerId := 0, state := state, packetQueue := [], reqQueue := [] }
    ({ s with creations := s.creations + 1, connections := s.connections ++ [c] }, some c)

/-- `APB_DestroyConnection`. -/
def destroyConnection (env : Env) (s : Server) (c : Connection) : Server :=
  let r := if c.state < csDisconnecting then s.cnnDisconnect env c else (s, c)
  { r.1 with released := r.1.released ++ r.2.packetQueue,
             connections := Keyed.remove Connection.num r.1.connections r.2.num }

/-- `APB_PushToRemote`. -/
def pushToRemote (env : Env) (s : Server) (c : Connection) (req : Request) : Server × Request :=
  let r := s.send env ((sizeofPacket + req.length.toNat) % 65536)
    { cnn := some c.num, connId := c.id, type := ptData, data := req.data.take req.length.toNat }
  (r.1, if r.2 then { req with state := .ok, actual := req.length } else { req with state := .failed })

/-- What a loop of `APB_PushToClient` does: the requests that it replies to and the packets that it releases, and what
stays on the queues. -/
structure Delivery where
  replied : List Request
  released : List InPac
  packets : List InPac
  requests : List Request

/-- The loop of `APB_PushToClient`. -/
def deliver : List InPac → List Request → Delivery
  | packets, [] => ⟨[], [], packets, []⟩
  | [], requests => ⟨[], [], [], requests⟩
  | ip :: packets, r :: requests =>
    let toCopy := UInt16.ofNat ip.pac.data.length
    if r.length < toCopy then
      let d := deliver (ip :: packets) requests
      { d with replied := { r with actual := toCopy, state := .bufferTooSmall } :: d.replied }
    else
      let d := deliver packets requests
      { d with replied := { r with actual := toCopy, state := .ok, data := ip.pac.data } :: d.replied,
               released := ip :: d.released }

/-- `APB_PushToClient`. -/
def pushToClient (s : Server) (c : Connection) : Server × Connection :=
  if c.state ≠ csConnected then (s, c)
  else
    let d := deliver c.packetQueue c.reqQueue
    ({ s with replied := s.replied ++ d.replied, released := s.released ++ d.released },
      { c with packetQueue := d.packets, reqQueue := d.requests })

/-- The first request of this type, and the others. -/
def takeRequest (type : UInt16) : List Request → Option (Request × List Request)
  | [] => none
  | r :: rs => if r.type = type then some (r, rs) else (takeRequest type rs).map fun q => (q.1, r :: q.2)

/-- Lines 263 to 277 of `APB_HandleConnectionPacket`: the first request of this type is replied to. -/
def replyRequest (s : Server) (c : Connection) (type : UInt16) (state : RequestState) : Server × Connection :=
  match takeRequest type c.reqQueue with
  | none => (s, c)
  | some (r, rs) => (s.reply { r with state := state }, { c with reqQueue := rs })

/-- `APB_HandleConnectionPacket`. -/
def handleConnectionPacket (env : Env) (s : Server) (c : Connection) (ip : InPac) : Server :=
  if ip.pac.type = ptConnected then
    let r := (s.release ip).replyRequest { c with state := csConnected } rtOpen .ok
    r.1.put r.2
  else if ip.pac.type = ptDisconnected then
    (s.release ip).destroyConnection env { c with state := csDisconnected }
  else if ip.pac.type = ptNoHandler then
    -- `releasePacket` stays `FALSE` here
    let r := s.replyRequest { c with state := csNoHandler } rtOpen .noHandler
    r.1.put r.2
  else if csDisconnecting ≤ c.state then s.release ip
  else
    let r := { s with handed := s.handed ++ [(c.num, ip)] }.pushToClient
      { c with packetQueue := c.packetQueue ++ [ip] }
    r.1.put r.2

/-- The loop of `APB_CnnCheckRequestTimeouts`. `ReplyMsg` links the request to the client's port, so the loop comes to the
end of that port's list after the first request that it replies to. -/
def tickRequests : List Request → Option Request × List Request
  | [] => (none, [])
  | r :: rs =>
    if r.timeoutTicks = 1 then (some { r with state := .timeout }, rs)
    else
      let q := tickRequests rs
      (q.1, (if 1 < r.timeoutTicks then { r with timeoutTicks := r.timeoutTicks - 1 } else r) :: q.2)

/-- `APB_CnnCheckRequestTimeouts`. -/
def cnnCheckRequestTimeouts (s : Server) (c : Connection) : Server :=
  let q := tickRequests c.reqQueue
  { s with replied := s.replied ++ q.1.toList }.put { c with reqQueue := q.2 }

/-- `APB_CheckRequestTimeouts`. -/
def checkRequestTimeouts (s : Server) : Server := s.connections.foldl cnnCheckRequestTimeouts s

/-- `APB_HandleClientRequest`. -/
def handleClientRequest (env : Env) (s : Server) (c : Connection) (req : Request) : Server :=
  let req := { req with state := .ok, actual := 0, connId := c.id,
                        timeoutTicks := if 0 < req.timeout then req.timeout else req.timeoutTicks }
  if req.type = rtOpen then
    let r := s.cnnConnect env { c with handlerId := req.handlerId, reqQueue := c.reqQueue ++ [req] }
    r.1.put r.2
  else if req.type = rtClose then
    let r := if c.state < csDisconnecting then s.cnnDisconnect env c else (s, c)
    (r.1.put r.2).reply req
  else if req.type = rtRead then
    if c.state = csDisconnecting ∨ c.state = csDisconnected then s.reply { req with state := .notConnected }
    else if c.state = csNoHandler then s.reply { req with state := .noHandler }
    else
      let r := s.pushToClient { c with reqQueue := c.reqQueue ++ [req] }
      r.1.put r.2
  else if req.type = rtWrite then
    if c.state = csDisconnecting ∨ c.state = csDisconnected then s.reply { req with state := .notConnected }
    else if c.state = csNoHandler then s.reply { req with state := .noHandler }
    else
      let r := s.pushToRemote env c req
      r.1.reply r.2
  else s.reply req

/-! ## The server -/

/-- `APB_SendPing`. -/
def sendPing (env : Env) (s : Server) : Server :=
  let r := s.send env sizeofPacket { cnn := none, connId := defaultConnection, type := ptPing, data := [] }
  if r.2 then { r.1 with pingTimeoutTicks := pingTicks, pingSendTicks := 0 } else r.1

/-- `APB_SendError`. -/
def sendError (env : Env) (s : Server) (connId : UInt16) (errorCode : UInt8) : Server :=
  (s.send env sizeofPacket { cnn := none, connId := connId, type := errorCode, data := [] }).1

/-- The loop of `APB_RequestResend`, for so many packets from `packId` on. -/
def requestResends (env : Env) : Nat → UInt16 → Server → Server
  | 0, _, s => s
  | n + 1, packId, s =>
    let r := s.send env 16 { cnn := none, connId := defaultConnection, type := ptResend, data := be16 packId }
    if r.2 then requestResends env n (packId + 1) r.1 else r.1

/-- `APB_RequestResend`. -/
def requestResend (env : Env) (s : Server) (currPackId : UInt16) : Server :=
  let packId := s.lastInPackId + 1
  requestResends env (currPackId.toNat - packId.toNat) packId s

/-- `APB_HandleControlPacket`. What `APB_ConfigureServer` reads from a hello it only logs, and `APB_ResendPacket` is a
matter of the packet writer. -/
def handleControlPacket (env : Env) (s : Server) (ip : InPac) : Server :=
  let s :=
    if ip.pac.type = ptHello then { s with state := .connected }.sendPing env
    else if ip.pac.type = ptGoodbye then { s with state := .disconnected, quit := true }
    else if ip.pac.type = ptPong then { s with missedPingCount := 0 }
    else s
  s.release ip

/-- The packet was sent again. -/
def Resent (ip : InPac) : Prop := ip.pac.flags &&& resend ≠ 0

instance (ip : InPac) : Decidable (Resent ip) := inferInstanceAs (Decidable (_ ≠ _))

/-- `APB_HandlePacket`. The difference of the packet ids is an `int`. -/
def handlePacket (env : Env) (s : Server) (ip : InPac) : Server :=
  let s := { s with pingSendTicks := pingTicks, pingTimeoutTicks := 0,
                    heard := s.heard ++ [(ip.seq, decide (Resent ip))] }
  let s :=
    if Resent ip then s
    else
      let s := if (s.lastInPackId.toNat : Int) < ip.pac.packId.toNat - 1 then s.requestResend env ip.pac.packId else s
      { s with lastInPackId := ip.pac.packId }
  if ip.pac.connId = defaultConnection then s.handleControlPacket env ip
  else match s.findConnection ip.pac.connId with
    | none => (s.sendError env ip.pac.connId ptNoConnection).release ip
    | some c => s.handleConnectionPacket env c ip

/-- `APB_HandleClientControlMessage`. The source goes on with a null pointer, and so nowhere, if there is no connection
for `APB_RT_OPEN`. -/
def handleClientControlMessage (env : Env) (s : Server) (req : Request) : Option Server :=
  let req := { req with state := .ok }
  if req.type = rtOpen then
    match { s with nextConnId := s.nextConnId + 1 }.createConnection env s.nextConnId with
    | (_, none) => none
    | (s, some c) => some (s.handleClientRequest env c req)
  else if req.type = rtSrvQuit then some ({ s with state := .disconnected, quit := true }.reply req)
  else if req.type = rtSrvLogLevel then some (s.reply req)
  else some (s.reply { req with state := .failed })

/-- The body of the loop of `APB_ReceiveFromClient`, for one request. -/
def receiveRequest (env : Env) (s : Server) (req : Request) : Option Server :=
  if req.connId = defaultConnection then s.handleClientControlMessage env req
  else match s.findConnection req.connId with
    | none => some (s.reply { req with state := .noConnection })
    | some c => some (s.handleClientRequest env c req)

/-- Lines 676 to 686: a ping that is not answered. -/
def checkPing (s : Server) : Server :=
  if s.pingTimeoutTicks = 1 then
    let s := { s with pingTimeoutTicks := 0, missedPingCount := (s.missedPingCount + 1) % 65536 }
    if maxMissedPings < s.missedPingCount then { s with state := .connectionLost } else s
  else if 1 < s.pingTimeoutTicks then { s with pingTimeoutTicks := s.pingTimeoutTicks - 1 }
  else s

/-- Lines 688 to 693: the next ping. -/
def nextPing (env : Env) (s : Server) : Server :=
  if s.pingSendTicks = 1 then s.sendPing env
  else if 1 < s.pingSendTicks then { s with pingSendTicks := s.pingSendTicks - 1 }
  else s

/-- `APB_HandleTimer`. -/
def handleTimer (env : Env) (s : Server) : Server :=
  let s := match s.state with
    | .waitForConnect => { s with state := .connectFailed }
    | .connected => (s.checkPing.nextPing env).checkRequestTimeouts
    | .disconnecting => { s with state := .disconnected }
    | _ => s
  { s with timerOn := decide (s.state ≠ .disconnected) }

/-- `APB_DestroyServer`, as far as the connections go. -/
def destroyServer (env : Env) (s : Server) : Server := s.connections.reverse.foldl (destroyConnection env) s

/-- `APB_SendInit`, with what `APB_Run` does next. -/
def sendInit (env : Env) (s : Server) : Server :=
  let r := s.send env 18 { cnn := none, connId := defaultConnection, type := ptInit,
                           data := be16 amipiborgVersion ++ be16 (UInt16.ofNat bufferSize) }
  if r.2 then { r.1 with state := .waitForConnect, phase := .wait } else { r.1 with state := .stopping }

/-- `APB_SendShutdown`, with what `APB_Run` does next. -/
def sendShutdown (env : Env) (s : Server) : Server :=
  let r := s.send env sizeofPacket { cnn := none, connId := defaultConnection, type := ptShutdown, data := [] }
  if r.2 then { r.1 with phase := .wait } else { r.1 with state := .stopping }

/-- An iteration of the loop of `APB_Run`. `ok` is the result of `REM_OpenRemote` or `APB_OpenClient`. -/
def runStep (env : Env) (s : Server) (ok : Bool) : Server :=
  match s.state with
  | .starting => { s with retryCount := 5, state := .openingRemote }
  | .openingRemote => { s with state := if ok then .openingClient else .stopping }
  | .openingClient => { s with state := if ok then .connecting else .stopping, clientOpen := ok }
  | .connecting => s.sendInit env
  | .waitForConnect => { s with phase := .wait }
  | .connected => { s with phase := .wait }
  | .connectFailed =>
    let s := { s with retryCount := (s.retryCount + 65535) % 65536 }
    { s with state := if s.retryCount = 0 then .stopping else .connecting }
  | .connectionLost => { s with state := .connecting }
  | .disconnecting => s.sendShutdown env
  | .waitForDisconnect => s
  | .disconnected => { s with state := .stopping }
  | .stopping => { s with state := .closingClient }
  | .closingClient => { s with clientOpen := false, state := .closingRemote }
  | .closingRemote => { s with state := .stopped }
  | .stopped => s

/-- What can happen next. The parts of `APB_WaitForMessage` come in the order of the source. -/
inductive Event where
  /-- An iteration of the loop of `APB_Run`. -/
  | run (ok : Bool)
  /-- `Wait` returns, with a break signal or without. -/
  | wake (brk : Bool)
  /-- The timer signal is there, or not. -/
  | timer (fired : Bool)
  /-- A request from the client port. -/
  | request (req : Request)
  /-- There are no more requests. -/
  | requestsDone
  /-- A packet from the reader, with its number among those that the Pi sent. -/
  | packet (seq : Nat) (pac : Incoming)
  /-- There are no more packets. -/
  | packetsDone

/-- The event is one that can happen now. -/
def Enabled (s : Server) : Event → Prop
  | .run _ => s.phase = .loop ∧ s.state ≠ .stopped
  | .wake _ => s.phase = .wait
  | .timer fired => s.phase = .timer ∧ (fired = true → s.timerOn = true)
  | .request _ => s.phase = .client ∧ s.clientOpen = true
  | .requestsDone => s.phase = .client
  | .packet .. => s.phase = .remote
  | .packetsDone => s.phase = .remote

/-- One event. -/
def step (env : Env) (s : Server) : Event → Option Server
  | .run ok => some (s.runStep env ok)
  | .wake brk =>
    some (if brk then { s with phase := .timer, state := .disconnected, quit := true } else { s with phase := .timer })
  | .timer fired => some { (if fired then s.handleTimer env else s) with phase := .client }
  | .request req => { s with taken := s.taken + 1 }.receiveRequest env { req with num := s.taken }
  | .requestsDone => some { s with phase := .remote }
  | .packet seq pac => some ({ s with dequeued := s.dequeued + 1 }.handlePacket env ⟨s.dequeued, seq, pac⟩)
  | .packetsDone => some { s with phase := .loop }

end Server

end AmiPiBorg
