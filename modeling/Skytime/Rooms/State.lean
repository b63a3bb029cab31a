/-
# Skytime.Rooms.State — the whole server: rooms, handshakes, writers, readers and broadcast calls.

`hub_rooms` owns one hub for each room. A connection object lives through three goroutines:
`websocketHandler` registers it (a hand-over to the hub of its room, a counter, a remote call) and
then starts its writer and its reader; the reader's deferred call unregisters it. Any number of
calls of `broadcast`, `broadcast_rooms` and `broadcast_peers` run beside them; each holds the token
of `broadcast_mu` from the moment it takes its message id to the end of its pushes.

Steps are cut where another goroutine can run in between. In particular `broadcast_peers` looks a
connection up in one step and sends to it in another, which may have to wait.
-/
import Skytime.Hub.Entries
import Skytime.Process.Machine
import Skytime.Process.Token

namespace Skytime

open Process

/-! ## Connections -/

/-- Where `websocketHandler` stands with a connection. -/
inductive Handler where
  | fresh
  /-- turned away: all the rooms are full -/
  | refused
  /-- at `hr.rooms[room_id].register <- c` -/
  | registering
  /-- at `hr.stats.total_peer_cnt++` -/
  | counting
  /-- in `callApi` for `client_online` -/
  | posting
  /-- before `go c.writeRTO()` or `go c.writePump()` -/
  | goWriter
  /-- before `go c.checkPongMessage()` -/
  | goReader
  | finished
  deriving DecidableEq, Repr

/-- Where the reader stands. -/
inductive ReaderStage where
  | notStarted
  | reading
  /-- at `hr.rooms[room_id].unregister <- c` -/
  | unregistering
  /-- at `hr.stats.total_peer_cnt--` -/
  | counting
  /-- in `callApi` for `client_offline` -/
  | posting
  | returned
  deriving DecidableEq, Repr

/-- Where the writer stands. -/
inductive WriterStage where
  | notStarted
  | running
  | returned
  deriving DecidableEq, Repr

/-- The goroutines of a connection. -/
structure ConnState where
  handler : Handler
  writer : WriterStage
  reader : ReaderStage
  deriving DecidableEq, Repr

/-- A connection object that does not exist yet. -/
def ConnState.fresh : ConnState := ⟨.fresh, .notStarted, .notStarted⟩

/-- The steps of a connection's goroutines that need no hub. -/
inductive LifeAction where
  /-- the check against `max_conn_limit` -/
  | accept
  | countUp
  /-- `callApi` for `client_online` returns; its error is ignored -/
  | posted
  | goWriter
  | goReader
  /-- a write fails and the writer returns -/
  | writerFails
  /-- `c.send` is closed and empty and the writer returns -/
  | writerEnds
  /-- `ReadMessage` fails and the reader leaves its loop -/
  | readerStops
  | countDown
  | postedOff
  deriving DecidableEq, Repr

/-! ## Calls -/

/-- What a call of `broadcast`, `broadcast_rooms` or `broadcast_peers` is asked to send. -/
inductive Request where
  | all (body : List UInt8)
  | rooms (roomIds : List String) (body : List UInt8)
  | peers (peerIds : List String) (body : List UInt8)
  deriving DecidableEq, Repr

def Request.body : Request → List UInt8
  | .all body | .rooms _ body | .peers _ body => body

/-- Only messages to peers are not `is_br_all`. -/
def Request.isBrAll : Request → Bool
  | .peers _ _ => false
  | _ => true

/-- Where a call stands. -/
inductive Call where
  | idle
  /-- at `<-hr.broadcast_mu` -/
  | waiting (req : Request)
  /-- `broadcast` and `broadcast_rooms`, with the rooms still to be pushed to -/
  | pushing (m : PushMsg) (roomIds : List String)
  /-- `broadcast_peers`, with the peers still to be looked up -/
  | looking (m : PushMsg) (peerIds : List String)
  /-- `broadcast_peers` at `c.send <- push_msg`, with the peers after this one -/
  | sending (m : PushMsg) (c : Connection) (peerIds : List String)
  deriving DecidableEq, Repr

/-- The message of a call that holds the token. -/
def Call.held : Call → Option PushMsg
  | .pushing m _ | .looking m _ | .sending m _ _ => some m
  | _ => none

/-- The call holds the token of `broadcast_mu`. -/
def Call.Holds (call : Call) : Prop := call.held ≠ none

/-! ## State -/

/-- What a server is started with: its rooms, the room of each peer by the consistent hash (which
is a member of a non-empty circle), the limit on connections. -/
structure Deployment where
  roomsIds : List String
  getRoomId : String → String
  getRoomId_mem : ∀ peerId, getRoomId peerId ∈ roomsIds
  maxConnLimit : ℤ

/-- The call after it has taken the token and made its message. -/
def Request.begin (m : PushMsg) (order : List String) : Request → Call
  | .all _ => .pushing m order
  | .rooms roomIds _ => .pushing m roomIds
  | .peers peerIds _ => .looking m peerIds

/-- `order` may be the order in which the request visits the rooms. -/
def Request.VisitOrder (d : Deployment) (order : List String) : Request → Prop
  | .all _ => order.Perm d.roomsIds
  | _ => True

instance (d : Deployment) (order : List String) (req : Request) :
    Decidable (Request.VisitOrder d order req) :=
  match req with
  | .all _ => inferInstanceAs (Decidable (order.Perm d.roomsIds))
  | .rooms _ _ | .peers _ _ => .isTrue trivial

/-- `hub_room_stat_t`, with counters that do not wrap (`int64` in the source). -/
structure HubRoomStat where
  totalMsgCnt : ℕ
  totalMsgSize : ℕ
  totalConsumeTime : ℕ
  totalPeerCnt : ℤ
  deriving DecidableEq, Repr

/-- `msg_stat_t`. -/
structure MsgStat where
  sendMsgCnt : ℕ
  recvAckCnt : ℕ
  deriving DecidableEq, Repr

/-- `hub_rooms`, with the connection objects and the broadcast calls. -/
structure HubRooms where
  rooms : String → Hub
  send : Connection → Chan PushMsg sendCap
  conn : Connection → ConnState
  stats : HubRoomStat
  msgStats : GoMap ℕ MsgStat
  /-- the token is in `broadcast_mu` -/
  broadcastMu : Bool
  calls : ℕ → Call
  panicked : Bool

inductive RoomsAction where
  | life (c : Connection) (a : LifeAction)
  | register (c : Connection)
  | unregister (c : Connection)
  | hub (roomId : String) (a : HubAction)
  /-- the writer of `c` takes a message -/
  | drain (c : Connection)
  | start (i : ℕ) (req : Request)
  /-- the call takes the token and a message id; `order` is the order of `range hr.rooms` -/
  | acquire (i : ℕ) (order : List String)
  | push (i : ℕ)
  | lookup (i : ℕ)
  | sendPeer (i : ℕ)
  /-- the call updates the statistics with its elapsed time and gives the token back -/
  | finish (i : ℕ) (diff : ℕ)
  deriving DecidableEq, Repr

namespace HubRooms

variable (d : Deployment)

/-- What the loop of room `r` works on. -/
def view (s : HubRooms) (r : String) : HubView := ⟨s.rooms r, s.send, s.panicked⟩

/-- The server after room `r` has worked on its view. -/
def putView (s : HubRooms) (r : String) (v : HubView) : HubRooms :=
  { s with rooms := Function.update s.rooms r v.hub, send := v.send, panicked := v.panicked }

def setConn (s : HubRooms) (c : Connection) (x : ConnState) : HubRooms :=
  { s with conn := Function.update s.conn c x }

def setCall (s : HubRooms) (i : ℕ) (call : Call) : HubRooms :=
  { s with calls := Function.update s.calls i call }

def addPeers (s : HubRooms) (n : ℤ) : HubRooms :=
  { s with stats := { s.stats with totalPeerCnt := s.stats.totalPeerCnt + n } }

/-! ## Connections -/

/-- One step of a goroutine of `c`. -/
def lifeStep (s : HubRooms) (c : Connection) : LifeAction → Option HubRooms
  | .accept =>
    if (s.conn c).handler = .fresh then
      -- `>`, so one connection more than the limit is let in
      if s.stats.totalPeerCnt > d.maxConnLimit then
        some (s.setConn c { s.conn c with handler := .refused })
      else some (s.setConn c { s.conn c with handler := .registering })
    else none
  | .countUp =>
    if (s.conn c).handler = .counting then
      some ((s.addPeers 1).setConn c { s.conn c with handler := .posting })
    else none
  | .posted =>
    if (s.conn c).handler = .posting then
      some (s.setConn c { s.conn c with handler := .goWriter })
    else none
  | .goWriter =>
    if (s.conn c).handler = .goWriter then
      some (s.setConn c { s.conn c with handler := .goReader, writer := .running })
    else none
  | .goReader =>
    if (s.conn c).handler = .goReader then
      some (s.setConn c { s.conn c with handler := .finished, reader := .reading })
    else none
  | .writerFails =>
    if (s.conn c).writer = .running then
      some (s.setConn c { s.conn c with writer := .returned })
    else none
  | .writerEnds =>
    match (s.conn c).writer, (s.send c).recv with
    | .running, .eof => some (s.setConn c { s.conn c with writer := .returned })
    | _, _ => none
  | .readerStops =>
    if (s.conn c).reader = .reading then
      some (s.setConn c { s.conn c with reader := .unregistering })
    else none
  | .countDown =>
    if (s.conn c).reader = .counting then
      some ((s.addPeers (-1)).setConn c { s.conn c with reader := .posting })
    else none
  | .postedOff =>
    if (s.conn c).reader = .posting then
      some (s.setConn c { s.conn c with reader := .returned })
    else none

/-! ## Calls -/

/-- The message that a call makes of its request. -/
def nextMsg (s : HubRooms) (req : Request) : PushMsg :=
  ⟨s.stats.totalMsgCnt + 1, req.body, req.isBrAll⟩

/-- From `<-hr.broadcast_mu` to the first push. -/
def acquire (s : HubRooms) (i : ℕ) (order : List String) : Option HubRooms :=
  match s.calls i with
  | .waiting req =>
    if s.broadcastMu ∧ req.VisitOrder d order then
      some ({ s with
        broadcastMu := false
        stats := { s.stats with totalMsgCnt := s.stats.totalMsgCnt + 1 }
        msgStats := s.msgStats.insert (s.stats.totalMsgCnt + 1) ⟨0, 0⟩ }.setCall i
          (req.begin (s.nextMsg req) order))
    else none
  | _ => none

/-- One round of the loop over the rooms. -/
def push (s : HubRooms) (i : ℕ) : Option HubRooms :=
  match s.calls i with
  | .pushing m (r :: roomIds) =>
    if r ∈ d.roomsIds then
      match (s.rooms r).broadcast.send m with
      | .sent ch =>
        some ({ s with
          rooms := Function.update s.rooms r { s.rooms r with broadcast := ch } }.setCall i
            (.pushing m roomIds))
      | _ => none
    -- an id that names no room is skipped
    else some (s.setCall i (.pushing m roomIds))
  | _ => none

/-- `c := hr.rooms[room_id].connections[peer_id]`: no caller passes a connection as `sc`. -/
def lookup (s : HubRooms) (i : ℕ) : Option HubRooms :=
  match s.calls i with
  | .looking m (peerId :: peerIds) =>
    match (s.rooms (d.getRoomId peerId)).connections.lookup peerId with
    -- the peer is not connected
    | none => some (s.setCall i (.looking m peerIds))
    | some c => some (s.setCall i (.sending m c peerIds))
  | _ => none

/-- `c.send <- push_msg`. -/
def sendPeer (s : HubRooms) (i : ℕ) : Option (HubRooms × List Event) :=
  match s.calls i with
  | .sending m c peerIds =>
    match (s.send c).send m with
    | .panic => some ({ s with panicked := true }, [])
    -- the call waits, with the token
    | .blocked => none
    | .sent ch =>
      some ({ s with send := Function.update s.send c ch }.setCall i (.looking m peerIds),
        [.direct c m])
  | _ => none

/-- The statistics of a finished call, and the token back. -/
def finish (s : HubRooms) (i : ℕ) (diff : ℕ) : Option HubRooms :=
  match s.calls i with
  | .pushing m [] | .looking m [] =>
    some ({ s with
      broadcastMu := true
      stats := { s.stats with
        totalMsgSize := s.stats.totalMsgSize + m.msgBody.length
        totalConsumeTime := s.stats.totalConsumeTime + diff } }.setCall i .idle)
  | _ => none

/-! ## The machine -/

/-- A running process takes a step. -/
def stepRunning (s : HubRooms) : RoomsAction → Option (HubRooms × List Event)
  | .life c a => (s.lifeStep d c a).map (·, [])
  | .register c =>
    let r := d.getRoomId c.peerId
    if (s.conn c).handler = .registering ∧ (s.rooms r).loop = .select then
      some ((s.putView r ((s.view r).register c).1).setConn c
        { s.conn c with handler := .counting }, ((s.view r).register c).2)
    else none
  | .unregister c =>
    let r := d.getRoomId c.peerId
    if (s.conn c).reader = .unregistering ∧ (s.rooms r).loop = .select then
      some ((s.putView r ((s.view r).unregister c).1).setConn c
        { s.conn c with reader := .counting }, ((s.view r).unregister c).2)
    else none
  | .hub r a =>
    if r ∈ d.roomsIds then
      match (s.view r).act a with
      | none => none
      | some (v, o) => some (s.putView r v, o)
    else none
  | .drain c =>
    match (s.conn c).writer, (s.send c).recv with
    | .running, .got m ch =>
      some ({ s with send := Function.update s.send c ch }, [.drained c m])
    | _, _ => none
  | .start i req => if s.calls i = .idle then some (s.setCall i (.waiting req), []) else none
  | .acquire i order => (s.acquire d i order).map (·, [])
  | .push i => (s.push d i).map (·, [])
  | .lookup i => (s.lookup d i).map (·, [])
  | .sendPeer i => s.sendPeer i
  | .finish i diff => (s.finish i diff).map (·, [])

/-- A panic ends the process: nothing is enabled after it. -/
def step (s : HubRooms) (a : RoomsAction) : Option (HubRooms × List Event) :=
  if s.panicked then none else s.stepRunning d a

end HubRooms

/-- The server after `hub_rooms.run`, with no connection and no call. -/
def hubRooms (d : Deployment) : Machine HubRooms RoomsAction Event where
  init :=
    { rooms := fun _ => newHub
      send := fun _ => Chan.make
      conn := fun _ => .fresh
      stats := ⟨0, 0, 0, 0⟩
      msgStats := ∅
      broadcastMu := true
      calls := fun _ => .idle
      panicked := false }
  step := HubRooms.step d

/-! ## A small server for runs -/

/-- One room, and every peer in it. -/
def oneRoom : Deployment := ⟨["room_0"], fun _ => "room_0", fun _ => by simp, 100000⟩

/-- A peer connects. -/
def connect (c : Connection) : List RoomsAction :=
  [.life c .accept, .register c, .life c .countUp, .life c .posted, .life c .goWriter,
    .life c .goReader]

end Skytime
