import AmiPiBorg.Server.Defs

/-!
# Opening and closing a connection (`library/connection.c`, `library/request.c`)

`APB_OpenConnection` and `APB_CloseConnection` pass a request to the server, wait for the signal of the reply port or
for Ctrl-C, and free the request. In between the server and the user go on. So a call is two steps here, one up to
`Wait` and one from there on (`wake`), and everything that others do is a step of its own.

Objects are known by their addresses. `held` has the requests that were passed to the server and not replied to.
-/

set_option autoImplicit false

namespace AmiPiBorg.Client

/-- `APB_RS_OK`. -/
def rsOk : UInt16 := 1
/-- `APB_RS_NO_SERVER`. -/
def rsNoServer : UInt16 := 6
/-- `APB_RS_ABORTED`. -/
def rsAborted : UInt16 := 7
/-- `CNN_MSG_TIMEOUT`. -/
def cnnMsgTimeout : UInt16 := 5

/-- `struct Connection`. All connections of the client have its one reply port. -/
structure Connection where
  status : UInt16
  handlerId : UInt16
  connId : UInt16

/-- `struct RequestInt`, without the data of the client. -/
structure Request where
  type : UInt16
  connId : UInt16
  handlerId : UInt16
  state : UInt16
  timeout : UInt16
  /-- `r_Conn`. -/
  conn : Nat

/-- The two calls that wait. -/
inductive Op where
  | open
  | close
  deriving DecidableEq

/-- What `c_ConnId` is set to after `GetMsg`. -/
def Op.connId (op : Op) (req : Request) : UInt16 :=
  match op with
  | .open => req.connId
  | .close => 0

/-- A call that is in `Wait`. -/
structure Waiting where
  op : Op
  conn : Nat
  req : Nat
  deriving DecidableEq

/-- The client, its reply port, and what the server has of it. -/
structure State where
  conns : Nat → Connection
  /-- The memory of the requests. -/
  reqs : Nat → Request
  /-- The objects of type `OT_REQUEST` in use. -/
  allocated : List Nat
  /-- `mp_MsgList` of the reply port. -/
  msgs : List Nat
  /-- The signal `mp_SigBit` of the reply port. -/
  portSig : Bool
  /-- `SIGBREAKF_CTRL_C`. -/
  breakSig : Bool
  /-- Ghost: the requests that the server was given and has not replied to. -/
  held : List Nat
  waiting : Option Waiting

namespace State

def setConn (s : State) (c : Nat) (conn : Connection) : State := { s with conns := Function.update s.conns c conn }

def setReq (s : State) (r : Nat) (req : Request) : State := { s with reqs := Function.update s.reqs r req }

/-- `APB_AllocRequest`. What `APB_AllocObjectInternal` answers is `mem`. -/
def allocRequest (s : State) (c : Nat) (mem : Option Nat) : Option Nat × State :=
  match mem with
  | none => (none, s)
  | some r =>
    (some r, { s with allocated := s.allocated ++ [r] }.setReq r
      { s.reqs r with connId := (s.conns c).connId, conn := c })

/-- `APB_FreeRequest`. -/
def freeRequest (s : State) (r : Nat) : State := { s with allocated := s.allocated.erase r }

/-- `APB_PutMsg`. Whether the port of the server is found is `server`. -/
def putMsg (s : State) (server : Bool) (r : Nat) : Bool × State :=
  (server, if server then { s with held := s.held ++ [r] } else s)

/-- `GetMsg`, whose answer neither call looks at. -/
def getMsg (s : State) : State := { s with msgs := s.msgs.tail }

/-- What both calls do up to `Wait`. -/
def request (s : State) (op : Op) (c : Nat) (mem : Option Nat) (server : Bool) (fill : Request → Request) : State :=
  match s.allocRequest c mem with
  | (none, s) => s
  | (some r, s) =>
    match (s.setReq r (fill (s.reqs r))).putMsg server r with
    | (true, s) => { s with waiting := some ⟨op, c, r⟩ }
    | (false, s) => (s.setConn c { s.conns c with status := rsNoServer }).freeRequest r

/-- `APB_OpenConnection`, up to `Wait`. -/
def openConnection (s : State) (c : Nat) (mem : Option Nat) (server : Bool) : State :=
  s.request .open c mem server fun req =>
    { req with type := rtOpen, handlerId := (s.conns c).handlerId, timeout := cnnMsgTimeout }

/-- `APB_CloseConnection`, up to `Wait`. -/
def closeConnection (s : State) (c : Nat) (mem : Option Nat) (server : Bool) : State :=
  s.request .close c mem server fun req =>
    { req with
      type := rtClose, handlerId := (s.conns c).handlerId, connId := (s.conns c).connId, timeout := cnnMsgTimeout }

/-- Both calls after `Wait`; whether it returned the signal of the port is `sig`. -/
def resume (s : State) (w : Waiting) (sig : Bool) : State :=
  let s := if sig then
      let s := s.getMsg
      s.setConn w.conn
        { s.conns w.conn with status := (s.reqs w.req).state, connId := w.op.connId (s.reqs w.req) }
    else s.setConn w.conn { s.conns w.conn with status := rsAborted }
  { s with waiting := none }.freeRequest w.req

/-- `Wait` returns when one of its signals is set. It clears both. -/
def wake (s : State) : Option State :=
  match s.waiting with
  | none => none
  | some w =>
    if s.portSig || s.breakSig then some ({ s with portSig := false, breakSig := false }.resume w s.portSig) else none

/-- What `APB_OpenConnection` returns. -/
def openResult (s : State) (c : Nat) : Bool := (s.conns c).status == rsOk

/-- `ReplyMsg`, called by the server, which has filled in the state and the connection id. -/
def replyMsg (s : State) (r : Nat) (state connId : UInt16) : State :=
  { s.setReq r { s.reqs r with state := state, connId := connId } with
    held := s.held.erase r, msgs := s.msgs ++ [r], portSig := true }

end State

/-- What happens. -/
inductive Event where
  /-- The client opens or closes a connection. -/
  | call (op : Op) (c : Nat) (mem : Option Nat) (server : Bool)
  | wake
  /-- The client gets a request of its own, for reading and writing. -/
  | alloc (c : Nat) (mem : Option Nat)
  /-- It passes such a request to the server. -/
  | send (r : Nat) (type : UInt16) (server : Bool)
  /-- It takes the next message from its port. -/
  | getMsg
  /-- It waits for its signals by itself. -/
  | clear
  /-- It frees a request of its own. -/
  | free (r : Nat)
  /-- The server replies to a request. -/
  | reply (r : Nat) (state connId : UInt16)
  /-- The signal of the port is set without a message. -/
  | signal
  | ctrlC

/-- One step. The client does nothing while it waits, and wakes up only then. -/
def step (s : State) : Event → Option State
  | .wake => s.wake
  | .reply r state connId => some (s.replyMsg r state connId)
  | .signal => some { s with portSig := true }
  | .ctrlC => some { s with breakSig := true }
  | .call op c mem server =>
    if s.waiting.isSome then none
    else match op with
      | .open => some (s.openConnection c mem server)
      | .close => some (s.closeConnection c mem server)
  | .alloc c mem => if s.waiting.isSome then none else some (s.allocRequest c mem).2
  | .send r type server =>
    if s.waiting.isSome then none else some ((s.setReq r { s.reqs r with type := type }).putMsg server r).2
  | .getMsg => if s.waiting.isSome then none else some s.getMsg
  | .clear => if s.waiting.isSome then none else some { s with portSig := false, breakSig := false }
  | .free r => if s.waiting.isSome then none else some (s.freeRequest r)

/-- What the others may do. New memory is not in use, the server replies to what it has, and the client passes on and
frees only what is in nobody else's hands. -/
def Legal (s : State) : Event → Prop
  | .call _ _ mem _ | .alloc _ mem => ∀ r ∈ mem, r ∉ s.allocated
  | .reply r _ _ => r ∈ s.held
  | .send r _ _ | .free r => r ∈ s.allocated ∧ r ∉ s.held ∧ r ∉ s.msgs
  | .wake | .getMsg | .clear | .signal | .ctrlC => True

instance (s : State) : (e : Event) → Decidable (Legal s e)
  | .wake | .reply .. | .signal | .ctrlC | .call .. | .alloc .. | .send .. | .getMsg | .clear | .free _ => by
    unfold Legal; infer_instance

/-- A client with some connections, before its first request. -/
def start (conns : Nat → Connection) (reqs : Nat → Request) : State where
  conns := conns
  reqs := reqs
  allocated := []
  msgs := []
  portSig := false
  breakSig := false
  held := []
  waiting := none

end AmiPiBorg.Client
