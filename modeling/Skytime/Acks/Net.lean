/-
# Skytime.Acks.Net — servers, links and clients of the ack protocol with `enable_ack_rto = 1`.

Any number of connections share `msg_ack_stat` and `processNotifyMessage`. The writer of a
connection is cut finer here than in `Skytime.Conn.Endpoint`: a tick visits the entries of
`write_msg_Q` one by one, and every frame and every report is a step, so other goroutines run in
between. `recv_ack_seq`, `recv_ack_ch` and `send_msg_ch` have no buffer; a hand-over is one step of
both sides, and `msg_ack_stat` counts in it what it receives.

A client is an automaton with an account of the acks it may still send. Links keep the order; with
`faults` they lose frames, writes fail and connections are torn down.
-/
import Skytime.Acks.Answer
import Skytime.Conn.Endpoint

namespace Skytime

open Process

/-! ## Frames as the other side sees them -/

/-- The sequence number of a push frame of type 1. -/
def pushSeq? (frame : List UInt8) : Option ℕ :=
  match readHeader ⟨frame, []⟩ with
  | .ok h => if h.msgType = 1 then some h.ackSeq else none
  | .error _ => none

/-- The sequence number of an ack. -/
def ackSeq? (mt : MessageType) (message : Slice UInt8) : Option ℕ :=
  match mt, readHeader message with
  | .text, .ok h => if h.msgType = 3 then some h.ackSeq else none
  | _, _ => none

theorem pushSeq?_pushFrame (msgId : ℕ) (payload : List UInt8) (isBrAll : Bool) :
    pushSeq? (pushFrame msgId payload isBrAll) =
      if isBrAll then none else some (msgId % 2 ^ 32) := by
  rw [pushSeq?, pushFrame_eq, readHeader_frame]
  cases isBrAll <;> rfl

theorem pushSeq?_ackToPeer (ackSeq : ℕ) : pushSeq? (ackToPeer ackSeq) = none := by
  rw [pushSeq?, ackToPeer, readHeader_frame]
  rfl

/-- What the reader hands over for acks, once to the writer and once to `msg_ack_stat`. -/
theorem handleMessage_count {verbose : ℤ} {mt : MessageType} {message : Slice UInt8}
    {todo : List HandOver} (h : handleMessage verbose mt message = .ok todo) (n : ℕ) :
    todo.count (.recvAckSeq n) = (if ackSeq? mt message = some n then 1 else 0) ∧
      todo.count (.recvAckCh n) = if ackSeq? mt message = some n then 1 else 0 := by
  cases mt with
  | binary =>
      obtain rfl := Except.ok.inj h
      exact ⟨rfl, rfl⟩
  | text =>
      cases hh : readHeader message with
      | error e => simp [handleMessage, hh, bind, Except.bind] at h
      | ok header =>
          rw [handleMessage_eq verbose hh] at h
          by_cases hthree : header.msgType = 3
          · rw [if_pos hthree] at h
            obtain rfl := Except.ok.inj h
            have hseq : ackSeq? .text message = some header.ackSeq := by
              simp only [ackSeq?, hh, if_pos hthree]
            rw [hseq]
            by_cases hn : header.ackSeq = n <;> simp [hn]
          · have hseq : ackSeq? .text message = none := by
              simp only [ackSeq?, hh, if_neg hthree]
            rw [if_neg hthree] at h
            rw [hseq]
            split at h
            · obtain rfl := handleNotify_cases h
              exact ⟨rfl, rfl⟩
            · obtain rfl := Except.ok.inj h
              exact ⟨rfl, rfl⟩

/-! ## Clients -/

/-- What a client does by itself. -/
inductive ClientAct where
  | send (mt : MessageType) (message : Slice UInt8)
  | internal
  deriving DecidableEq, Repr

/-- A client that sends at most one ack for each push frame of type 1 it receives, with the sequence
number of the frame: `owed x n` is the number of acks of `n` it may still send. -/
structure Client where
  State : Type
  start : State
  /-- `none`: the client is not reading -/
  read : State → List UInt8 → Option State
  act : State → ClientAct → Option State
  owed : State → ℕ → ℕ
  owed_start : ∀ n, owed start n = 0
  owed_read : ∀ {x y frame}, read x frame = some y →
    ∀ n, owed y n ≤ owed x n + if pushSeq? frame = some n then 1 else 0
  owed_send : ∀ {x y mt message}, act x (.send mt message) = some y →
    ∀ n, (owed y n + if ackSeq? mt message = some n then 1 else 0) ≤ owed x n
  owed_internal : ∀ {x y}, act x .internal = some y → ∀ n, owed y n ≤ owed x n

/-! ## One connection -/

structure NetConfig where
  rto : RtoConfig
  enableVerboseLog : ℤ
  /-- frames are lost, writes fail, connections are torn down -/
  faults : Bool
  /-- the longest payload that is broadcast; any length without it -/
  maxPayload : Option ℕ
  deriving DecidableEq, Repr

/-- The goroutines of a connection, its two links and its client. -/
structure AckConn (σ : Type) where
  send : Chan PushMsg sendCap
  writer : Writer
  /-- the entries that the tick has still to visit -/
  walk : List ℕ
  /-- what the writer sends before it goes on -/
  pending : List WriterOut
  reader : Reader
  down : List (List UInt8)
  up : List (MessageType × Slice UInt8)
  client : σ

inductive ConnAction where
  /-- a hub or `broadcast_peers` puts a message on `c.send` -/
  | putMessage (m : PushMsg)
  | takeMessage
  /-- the writer finds `c.send` closed or cannot write a ping -/
  | writerReturns
  /-- the `rto_ticker` fires; the order of `range c.write_msg_Q` -/
  | tick (order : List ℕ)
  /-- the tick handles the next entry -/
  | visit
  /-- the writer sends the next frame or report; whether a frame can be written -/
  | emit (ok : Bool)
  | readMessage
  | readError
  /-- `recv_ack_seq` passes an ack to the writer -/
  | handAck
  /-- `recv_ack_ch` passes an ack to `msg_ack_stat` -/
  | countAck
  | clientRead
  | clientAct (a : ClientAct)
  | loseDown
  | loseUp
  deriving DecidableEq, Repr

/-- What a step of a connection shows. -/
inductive ConnEvent where
  /-- `send_push_msg_to_peer` has handed the frame to the websocket -/
  | issued (msgId : ℕ) (frame : List UInt8)
  /-- `msg_ack_stat` has received a report -/
  | reported (msgId : ℕ)
  /-- the writer has received an ack -/
  | passed (ackSeq : ℕ)
  /-- `msg_ack_stat` has received an ack -/
  | counted (ackSeq : ℕ)
  deriving DecidableEq, Repr

namespace AckConn

variable {σ : Type}

/-- The writer is at its `select`. -/
def AtSelect (x : AckConn σ) : Prop :=
  x.writer.status = .running ∧ x.walk = [] ∧ x.pending = []

instance (x : AckConn σ) : Decidable x.AtSelect := inferInstanceAs (Decidable (_ ∧ _ ∧ _))

/-- The writer with its queue and its pending outputs after it has handled an event. -/
def setQueue (x : AckConn σ) (q : WriteMsgQ) (outs : List WriterOut) : AckConn σ :=
  { x with writer := { x.writer with queue := q }, pending := outs }

/-- One step of a connection; an error ends the process. -/
def step (cfg : NetConfig) (cl : Client) (x : AckConn cl.State) :
    ConnAction → Option (Except RuntimeError (AckConn cl.State × List ConnEvent))
  | .putMessage m =>
    match x.send.send m with
    | .sent ch => some (.ok ({ x with send := ch }, []))
    | _ => none
  | .takeMessage =>
    if x.AtSelect then
      match x.send.recv with
      | .got m ch =>
        some (.ok ({ x with send := ch }.setQueue (handleSend cfg.rto x.writer.queue m).1
          (handleSend cfg.rto x.writer.queue m).2, []))
      | _ => none
    else none
  | .writerReturns =>
    if cfg.faults = true ∧ x.AtSelect then
      some (.ok ({ x with writer := { x.writer with status := .returned } }, []))
    else none
  | .tick order =>
    if x.AtSelect ∧ x.writer.queue.Range order then some (.ok ({ x with walk := order }, []))
    else none
  | .visit =>
    if x.writer.status = .running ∧ x.pending = [] then
      match x.walk with
      | [] => none
      | msgId :: rest =>
        match x.writer.queue.lookup msgId with
        | none => some (.ok ({ x with walk := rest }, []))
        | some msg =>
          match rtoEntry cfg.rto msg with
          | .error e => some (.error e)
          | .ok r =>
            some (.ok ({ x with walk := rest }.setQueue (r.store msgId x.writer.queue)
              (r.outs msgId), []))
    else none
  | .emit ok =>
    match x.pending with
    | .push msgId frame :: rest =>
      if ok = true then
        some (.ok ({ x with pending := rest, down := x.down ++ [frame] }, [.issued msgId frame]))
      else if cfg.faults then
        -- the error of the write is not looked at
        some (.ok ({ x with pending := rest }, [.issued msgId frame]))
      else none
    | .report msgId :: rest => some (.ok ({ x with pending := rest }, [.reported msgId]))
    | _ => none
  | .readMessage =>
    match x.reader, x.up with
    | .reading, (mt, message) :: rest =>
      match handleMessage cfg.enableVerboseLog mt message with
      | .error e => some (.error e)
      | .ok todo => some (.ok ({ x with reader := .resume todo, up := rest }, []))
    | _, _ => none
  | .readError =>
    if cfg.faults = true ∧ x.reader = .reading then
      some (.ok ({ x with reader := .leaving }, []))
    else none
  | .handAck =>
    match x.reader with
    | .handing (.recvAckSeq ackSeq :: rest) =>
      if x.AtSelect then
        some (.ok ({ x with reader := .resume rest }.setQueue
          (handleAck x.writer.queue ackSeq) [], [.passed ackSeq]))
      else none
    | _ => none
  | .countAck =>
    match x.reader with
    | .handing (.recvAckCh ackSeq :: rest) =>
      some (.ok ({ x with reader := .resume rest }, [.counted ackSeq]))
    | _ => none
  | .clientRead =>
    match x.down with
    | [] => none
    | frame :: rest =>
      match cl.read x.client frame with
      | none => none
      | some y => some (.ok ({ x with down := rest, client := y }, []))
  | .clientAct a =>
    match cl.act x.client a with
    | none => none
    | some y =>
      match a with
      | .send mt message =>
        some (.ok ({ x with client := y, up := x.up ++ [(mt, message)] }, []))
      | .internal => some (.ok ({ x with client := y }, []))
  | .loseDown =>
    if cfg.faults then
      match x.down with
      | [] => none
      | _ :: rest => some (.ok ({ x with down := rest }, []))
    else none
  | .loseUp =>
    if cfg.faults then
      match x.up with
      | [] => none
      | _ :: rest => some (.ok ({ x with up := rest }, []))
    else none

/-- Everything a step of a connection can do to it. -/
inductive Step (cfg : NetConfig) (cl : Client) (x : AckConn cl.State) :
    ConnAction → AckConn cl.State → List ConnEvent → Prop
  | putMessage {m : PushMsg} {ch : Chan PushMsg sendCap} (hbuf : ch.buf = x.send.buf ++ [m]) :
      Step cfg cl x (.putMessage m) { x with send := ch } []
  | takeMessage {m : PushMsg} {ch : Chan PushMsg sendCap} (hsel : x.AtSelect)
      (hbuf : x.send.buf = m :: ch.buf) :
      Step cfg cl x .takeMessage
        ({ x with send := ch }.setQueue (handleSend cfg.rto x.writer.queue m).1
          (handleSend cfg.rto x.writer.queue m).2) []
  | writerReturns (hfaults : cfg.faults = true) (hsel : x.AtSelect) :
      Step cfg cl x .writerReturns
        { x with writer := { x.writer with status := .returned } } []
  | tick {order : List ℕ} (hsel : x.AtSelect) (horder : x.writer.queue.Range order) :
      Step cfg cl x (.tick order) { x with walk := order } []
  | visitGone {msgId : ℕ} {rest : List ℕ} (hpending : x.pending = [])
      (hwalk : x.walk = msgId :: rest) : Step cfg cl x .visit { x with walk := rest } []
  | visit {msgId : ℕ} {rest : List ℕ} {msg : WriteMsg} {r : RtoRound} (hpending : x.pending = [])
      (hwalk : x.walk = msgId :: rest) (hmsg : x.writer.queue.lookup msgId = some msg)
      (hr : rtoEntry cfg.rto msg = .ok r) :
      Step cfg cl x .visit
        ({ x with walk := rest }.setQueue (r.store msgId x.writer.queue) (r.outs msgId)) []
  | issue {msgId : ℕ} {frame : List UInt8} {rest : List WriterOut}
      (hpending : x.pending = .push msgId frame :: rest) :
      Step cfg cl x (.emit true) { x with pending := rest, down := x.down ++ [frame] }
        [.issued msgId frame]
  | issueLost {msgId : ℕ} {frame : List UInt8} {rest : List WriterOut}
      (hpending : x.pending = .push msgId frame :: rest) (hfaults : cfg.faults = true) :
      Step cfg cl x (.emit false) { x with pending := rest } [.issued msgId frame]
  | report {ok : Bool} {msgId : ℕ} {rest : List WriterOut}
      (hpending : x.pending = .report msgId :: rest) :
      Step cfg cl x (.emit ok) { x with pending := rest } [.reported msgId]
  | readMessage {mt : MessageType} {message : Slice UInt8}
      {rest : List (MessageType × Slice UInt8)} {todo : List HandOver}
      (hreader : x.reader = .reading) (hup : x.up = (mt, message) :: rest)
      (hok : handleMessage cfg.enableVerboseLog mt message = .ok todo) :
      Step cfg cl x .readMessage { x with reader := .resume todo, up := rest } []
  | readError (hfaults : cfg.faults = true) (hreader : x.reader = .reading) :
      Step cfg cl x .readError { x with reader := .leaving } []
  | handAck {ackSeq : ℕ} {rest : List HandOver} (hsel : x.AtSelect)
      (hreader : x.reader = .handing (.recvAckSeq ackSeq :: rest)) :
      Step cfg cl x .handAck
        ({ x with reader := .resume rest }.setQueue (handleAck x.writer.queue ackSeq) [])
        [.passed ackSeq]
  | countAck {ackSeq : ℕ} {rest : List HandOver}
      (hreader : x.reader = .handing (.recvAckCh ackSeq :: rest)) :
      Step cfg cl x .countAck { x with reader := .resume rest } [.counted ackSeq]
  | clientRead {frame : List UInt8} {rest : List (List UInt8)} {y : cl.State}
      (hdown : x.down = frame :: rest) (hy : cl.read x.client frame = some y) :
      Step cfg cl x .clientRead { x with down := rest, client := y } []
  | clientSend {mt : MessageType} {message : Slice UInt8} {y : cl.State}
      (hy : cl.act x.client (.send mt message) = some y) :
      Step cfg cl x (.clientAct (.send mt message))
        { x with client := y, up := x.up ++ [(mt, message)] } []
  | clientInternal {y : cl.State} (hy : cl.act x.client .internal = some y) :
      Step cfg cl x (.clientAct .internal) { x with client := y } []
  | loseDown {frame : List UInt8} {rest : List (List UInt8)} (hfaults : cfg.faults = true)
      (hdown : x.down = frame :: rest) : Step cfg cl x .loseDown { x with down := rest } []
  | loseUp {message : MessageType × Slice UInt8} {rest : List (MessageType × Slice UInt8)}
      (hfaults : cfg.faults = true) (hup : x.up = message :: rest) :
      Step cfg cl x .loseUp { x with up := rest } []

/-- A step that does not end the process is one of the listed ones. -/
theorem step_cases {cfg : NetConfig} {cl : Client} {x y : AckConn cl.State} {a : ConnAction}
    {o : List ConnEvent} (h : x.step cfg cl a = some (.ok (y, o))) : x.Step cfg cl a y o := by
  cases a with
  | putMessage m =>
      simp only [step] at h
      split at h
      · rename_i ch hsend
        obtain ⟨rfl, rfl⟩ := Prod.mk.inj (Except.ok.inj (Option.some.inj h))
        exact .putMessage (Chan.send_eq_sent_iff.mp hsend).2.2.1
      · exact absurd h (by simp)
  | takeMessage =>
      obtain ⟨hsel, h⟩ := Option.ite_none_right_eq_some.mp h
      split at h
      · rename_i m ch hrecv
        obtain ⟨rfl, rfl⟩ := Prod.mk.inj (Except.ok.inj (Option.some.inj h))
        exact .takeMessage hsel (Chan.recv_eq_got_iff.mp hrecv).1
      · exact absurd h (by simp)
  | writerReturns =>
      obtain ⟨⟨hfaults, hsel⟩, h⟩ := Machine.guard_eq_some_iff.mp h
      obtain ⟨rfl, rfl⟩ := Prod.mk.inj (Except.ok.inj h)
      exact .writerReturns hfaults hsel
  | tick order =>
      obtain ⟨⟨hsel, horder⟩, h⟩ := Machine.guard_eq_some_iff.mp h
      obtain ⟨rfl, rfl⟩ := Prod.mk.inj (Except.ok.inj h)
      exact .tick hsel horder
  | visit =>
      obtain ⟨⟨_, hpending⟩, h⟩ := Option.ite_none_right_eq_some.mp h
      split at h
      · exact absurd h (by simp)
      · rename_i msgId rest hwalk
        split at h
        · obtain ⟨rfl, rfl⟩ := Prod.mk.inj (Except.ok.inj (Option.some.inj h))
          exact .visitGone hpending hwalk
        · rename_i msg hmsg
          split at h
          · exact absurd h (by simp)
          · rename_i r hr
            obtain ⟨rfl, rfl⟩ := Prod.mk.inj (Except.ok.inj (Option.some.inj h))
            exact .visit hpending hwalk hmsg hr
  | emit ok =>
      simp only [step] at h
      split at h
      · rename_i msgId frame rest hpending
        split at h
        · rename_i hok
          obtain ⟨rfl, rfl⟩ := Prod.mk.inj (Except.ok.inj (Option.some.inj h))
          rw [hok]
          exact .issue hpending
        · rename_i hok
          obtain ⟨hfaults, h⟩ := Machine.guard_eq_some_iff.mp h
          obtain ⟨rfl, rfl⟩ := Prod.mk.inj (Except.ok.inj h)
          rw [Bool.eq_false_iff.mpr hok]
          exact .issueLost hpending hfaults
      · rename_i msgId rest hpending
        obtain ⟨rfl, rfl⟩ := Prod.mk.inj (Except.ok.inj (Option.some.inj h))
        exact .report hpending
      · exact absurd h (by simp)
  | readMessage =>
      simp only [step] at h
      split at h
      · rename_i mt message rest hreader hup
        split at h
        · exact absurd h (by simp)
        · rename_i todo hok
          obtain ⟨rfl, rfl⟩ := Prod.mk.inj (Except.ok.inj (Option.some.inj h))
          exact .readMessage hreader hup hok
      · exact absurd h (by simp)
  | readError =>
      obtain ⟨⟨hfaults, hreader⟩, h⟩ := Machine.guard_eq_some_iff.mp h
      obtain ⟨rfl, rfl⟩ := Prod.mk.inj (Except.ok.inj h)
      exact .readError hfaults hreader
  | handAck =>
      simp only [step] at h
      split at h
      · rename_i ackSeq rest hreader
        obtain ⟨hsel, h⟩ := Machine.guard_eq_some_iff.mp h
        obtain ⟨rfl, rfl⟩ := Prod.mk.inj (Except.ok.inj h)
        exact .handAck hsel hreader
      · exact absurd h (by simp)
  | countAck =>
      simp only [step] at h
      split at h
      · rename_i ackSeq rest hreader
        obtain ⟨rfl, rfl⟩ := Prod.mk.inj (Except.ok.inj (Option.some.inj h))
        exact .countAck hreader
      · exact absurd h (by simp)
  | clientRead =>
      simp only [step] at h
      split at h
      · exact absurd h (by simp)
      · rename_i frame rest hdown
        split at h
        · exact absurd h (by simp)
        · rename_i z hz
          obtain ⟨rfl, rfl⟩ := Prod.mk.inj (Except.ok.inj (Option.some.inj h))
          exact .clientRead hdown hz
  | clientAct a =>
      simp only [step] at h
      split at h
      · exact absurd h (by simp)
      · rename_i z hz
        cases a with
        | send mt message =>
            obtain ⟨rfl, rfl⟩ := Prod.mk.inj (Except.ok.inj (Option.some.inj h))
            exact .clientSend hz
        | internal =>
            obtain ⟨rfl, rfl⟩ := Prod.mk.inj (Except.ok.inj (Option.some.inj h))
            exact .clientInternal hz
  | loseDown =>
      obtain ⟨hfaults, h⟩ := Option.ite_none_right_eq_some.mp h
      split at h
      · exact absurd h (by simp)
      · rename_i frame rest hdown
        obtain ⟨rfl, rfl⟩ := Prod.mk.inj (Except.ok.inj (Option.some.inj h))
        exact .loseDown hfaults hdown
  | loseUp =>
      obtain ⟨hfaults, h⟩ := Option.ite_none_right_eq_some.mp h
      split at h
      · exact absurd h (by simp)
      · rename_i message rest hup
        obtain ⟨rfl, rfl⟩ := Prod.mk.inj (Except.ok.inj (Option.some.inj h))
        exact .loseUp hfaults hup

end AckConn

/-! ## The server and its connections -/

structure AckNet (clients : Connection → Client) where
  conns : (c : Connection) → AckConn (clients c).State
  /-- the messages that have an id, in the order of their ids -/
  assigned : List PushMsg
  msgStats : GoMap ℕ MsgStat
  notifyAckQ : Chan (Connection × ℕ) notifyCap
  panicked : Bool

inductive NetAction where
  /-- a broadcast call takes an id and makes its entry in `msg_stats` -/
  | assign (body : List UInt8) (isBrAll : Bool)
  | conn (c : Connection) (a : ConnAction)
  /-- the reader of `c` puts a notify on `notify_ack_Q` -/
  | handNotify (c : Connection)
  /-- `processNotifyMessage` acknowledges a notify; whether the ack can be written -/
  | sendNotifyAck (ok : Bool)
  deriving DecidableEq, Repr

/-- What `msg_ack_stat` does with what it receives. -/
def ConnEvent.count (msgStats : GoMap ℕ MsgStat) : ConnEvent → GoMap ℕ MsgStat
  | .reported msgId => countSend msgStats msgId
  | .counted ackSeq => countAck msgStats ackSeq
  | _ => msgStats

/-- Only a message with an id can be put on a send queue. -/
def ConnAction.Allowed (assigned : List PushMsg) : ConnAction → Prop
  | .putMessage m => m ∈ assigned
  | _ => True

instance (assigned : List PushMsg) (a : ConnAction) : Decidable (a.Allowed assigned) :=
  match a with
  | .putMessage m => inferInstanceAs (Decidable (m ∈ assigned))
  | .takeMessage | .writerReturns | .tick _ | .visit | .emit _ | .readMessage | .readError
  | .handAck | .countAck | .clientRead | .clientAct _ | .loseDown | .loseUp => .isTrue trivial

namespace AckNet

variable {clients : Connection → Client}

/-- The message that the next call makes. -/
def nextMsg (s : AckNet clients) (body : List UInt8) (isBrAll : Bool) : PushMsg :=
  ⟨s.assigned.length + 1, body, isBrAll⟩

def setConn (s : AckNet clients) (c : Connection) (x : AckConn (clients c).State) :
    AckNet clients :=
  { s with conns := Function.update s.conns c x }

/-- What holds of every connection after one of them has changed. -/
theorem forall_setConn {s : AckNet clients} {c : Connection} {x : AckConn (clients c).State}
    {P : (c' : Connection) → AckConn (clients c').State → Prop} :
    (∀ c', P c' ((s.setConn c x).conns c')) ↔ P c x ∧ ∀ c', c' ≠ c → P c' (s.conns c') :=
  Function.forall_update_iff s.conns P

def stepRunning (cfg : NetConfig) (s : AckNet clients) :
    NetAction → Option (AckNet clients × List (Connection × ConnEvent))
  | .assign body isBrAll =>
    -- ids stay below `2 ^ 32`
    if s.assigned.length + 1 < 2 ^ 32 ∧ ∀ k ∈ cfg.maxPayload, body.length ≤ k then
      some ({ s with
        assigned := s.assigned ++ [s.nextMsg body isBrAll]
        msgStats := s.msgStats.insert (s.assigned.length + 1) ⟨0, 0⟩ }, [])
    else none
  | .conn c a =>
    if a.Allowed s.assigned then
      match (s.conns c).step cfg (clients c) a with
      | none => none
      | some (.error _) => some ({ s with panicked := true }, [])
      | some (.ok (x, o)) =>
        some ({ s.setConn c x with msgStats := o.foldl ConnEvent.count s.msgStats },
          o.map (Prod.mk c))
    else none
  | .handNotify c =>
    match (s.conns c).reader with
    | .handing (.notifyAckQ ackSeq :: rest) =>
      match s.notifyAckQ.send (c, ackSeq) with
      | .sent ch =>
        some ({ s.setConn c { s.conns c with reader := .resume rest } with notifyAckQ := ch }, [])
      | _ => none
    | _ => none
  | .sendNotifyAck ok =>
    match s.notifyAckQ.recv with
    | .got (c, ackSeq) ch =>
      if ok = true then
        some ({ s.setConn c { s.conns c with down := (s.conns c).down ++ [ackToPeer ackSeq] } with
          notifyAckQ := ch }, [])
      else if cfg.faults then some ({ s with notifyAckQ := ch }, [])
      else none
    | _ => none

/-- A panic ends the process: nothing is enabled after it. -/
def step (cfg : NetConfig) (s : AckNet clients) (a : NetAction) :
    Option (AckNet clients × List (Connection × ConnEvent)) :=
  if s.panicked then none else s.stepRunning cfg a

/-- A connection with its goroutines started and nothing sent. -/
def freshConn (cl : Client) : AckConn cl.State :=
  ⟨Chan.make, ⟨∅, .running⟩, [], [], .reading, [], [], cl.start⟩

end AckNet

/-- The server with `enable_ack_rto = 1`, before the first message. -/
def ackNet (cfg : NetConfig) (clients : Connection → Client) :
    Machine (AckNet clients) NetAction (Connection × ConnEvent) where
  init := ⟨fun c => AckNet.freshConn (clients c), [], ∅, Chan.make, false⟩
  step := AckNet.step cfg

/-- Everything one step of the server and its connections can do. -/
inductive AckNet.Step (cfg : NetConfig) {clients : Connection → Client} (s : AckNet clients) :
    NetAction → AckNet clients → List (Connection × ConnEvent) → Prop
  | assign {body : List UInt8} {isBrAll : Bool} (hid : s.assigned.length + 1 < 2 ^ 32)
      (hlen : ∀ k ∈ cfg.maxPayload, body.length ≤ k) :
      Step cfg s (.assign body isBrAll)
        { s with
          assigned := s.assigned ++ [s.nextMsg body isBrAll]
          msgStats := s.msgStats.insert (s.assigned.length + 1) ⟨0, 0⟩ } []
  | conn {c : Connection} {a : ConnAction} {x : AckConn (clients c).State} {o : List ConnEvent}
      (hallowed : a.Allowed s.assigned) (hx : (s.conns c).Step cfg (clients c) a x o) :
      Step cfg s (.conn c a)
        { s.setConn c x with msgStats := o.foldl ConnEvent.count s.msgStats } (o.map (Prod.mk c))
  | panic {c : Connection} {a : ConnAction} : Step cfg s (.conn c a) { s with panicked := true } []
  | handNotify {c : Connection} {ackSeq : ℕ} {rest : List HandOver}
      {ch : Chan (Connection × ℕ) notifyCap}
      (hreader : (s.conns c).reader = .handing (.notifyAckQ ackSeq :: rest)) :
      Step cfg s (.handNotify c)
        { s.setConn c { s.conns c with reader := .resume rest } with notifyAckQ := ch } []
  | sendNotifyAck {c : Connection} {ackSeq : ℕ} {ch : Chan (Connection × ℕ) notifyCap} :
      Step cfg s (.sendNotifyAck true)
        { s.setConn c { s.conns c with down := (s.conns c).down ++ [ackToPeer ackSeq] } with
          notifyAckQ := ch } []
  | loseNotifyAck {ch : Chan (Connection × ℕ) notifyCap} (hfaults : cfg.faults = true) :
      Step cfg s (.sendNotifyAck false) { s with notifyAckQ := ch } []

/-- A step starts from a process that has not panicked and is one of the listed ones. -/
theorem AckNet.step_cases {cfg : NetConfig} {clients : Connection → Client}
    {s t : AckNet clients} {a : NetAction} {o : List (Connection × ConnEvent)}
    (h : (ackNet cfg clients).step s a = some (t, o)) : s.panicked = false ∧ s.Step cfg a t o := by
  simp only [ackNet, AckNet.step] at h
  split at h
  · exact absurd h (by simp)
  · rename_i hp
    refine ⟨by simpa using hp, ?_⟩
    cases a with
    | assign body isBrAll =>
        obtain ⟨⟨hid, hlen⟩, h⟩ := Machine.guard_eq_some_iff.mp h
        obtain ⟨rfl, rfl⟩ := Prod.mk.inj h
        exact .assign hid hlen
    | conn c a =>
        obtain ⟨hallowed, h⟩ := Option.ite_none_right_eq_some.mp h
        split at h
        · exact absurd h (by simp)
        · obtain ⟨rfl, rfl⟩ := Prod.mk.inj (Option.some.inj h)
          exact .panic
        · rename_i x o' hx
          obtain ⟨rfl, rfl⟩ := Prod.mk.inj (Option.some.inj h)
          exact .conn hallowed (AckConn.step_cases hx)
    | handNotify c =>
        simp only [stepRunning] at h
        split at h
        · rename_i ackSeq rest hreader
          split at h
          · obtain ⟨rfl, rfl⟩ := Prod.mk.inj (Option.some.inj h)
            exact .handNotify hreader
          · exact absurd h (by simp)
        · exact absurd h (by simp)
    | sendNotifyAck ok =>
        simp only [stepRunning] at h
        split at h
        · split at h
          · rename_i hok
            obtain ⟨rfl, rfl⟩ := Prod.mk.inj (Option.some.inj h)
            rw [hok]
            exact .sendNotifyAck
          · rename_i hok
            obtain ⟨hfaults, h⟩ := Machine.guard_eq_some_iff.mp h
            obtain ⟨rfl, rfl⟩ := Prod.mk.inj h
            rw [Bool.eq_false_iff.mpr hok]
            exact .loseNotifyAck hfaults
        · exact absurd h (by simp)

end Skytime
