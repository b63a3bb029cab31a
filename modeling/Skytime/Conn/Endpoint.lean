/-
# Skytime.Conn.Endpoint — the goroutines of one connection.

`websocketHandler` starts a writer, `writeRTO` or `writePump` by the configured `enable_ack_rto`,
and after it the reader `checkPongMessage`. The machine `endpoint` runs the two with everything
around them: other goroutines put messages on `c.send` and close it, the peer sends frames, writes
fail, tickers fire. A case of the writer's `select` first fixes the queue and then sends its frames
and reports one by one (`pending`). `recv_ack_seq` has no buffer, so handing over an ack is one step
of reader and writer together; the goroutines that serve `recv_ack_ch`, `send_msg_ch` and
`notify_ack_Q` are started by `main` when `enable_ack_rto` is positive.
-/
import Skytime.Conn.Writer

namespace Skytime

open Process

/-! ## State -/

/-- The configured values that the goroutines of a connection read. -/
structure EndpointConfig where
  enableAckRto : ℤ
  enableVerboseLog : ℤ
  rto : RtoConfig
  deriving DecidableEq, Repr

/-- Capacity of `hub_rooms.notify_ack_Q`. -/
def notifyCap : ℕ := 8192

/-- Where the reader stands. -/
inductive Reader where
  | notStarted
  /-- in `ReadMessage` -/
  | reading
  /-- about to hand over the first of these values -/
  | handing (todo : List HandOver)
  /-- out of the loop, before the deferred `unregister` -/
  | leaving
  | returned
  deriving DecidableEq, Repr

/-- The reader after a hand-over. -/
def Reader.resume : List HandOver → Reader
  | [] => .reading
  | todo => .handing todo

structure Endpoint where
  send : Chan PushMsg sendCap
  notifyAckQ : Chan ℕ notifyCap
  started : Bool
  writer : Writer
  pending : List WriterOut
  reader : Reader
  panicked : Bool

inductive EndpointAction where
  /-- `go c.writeRTO()` or `go c.writePump()` -/
  | goWriter
  /-- `go c.checkPongMessage()` -/
  | goReader
  /-- a hub or `broadcast_peers` puts a message on `c.send` -/
  | putMessage (m : PushMsg)
  /-- a hub closes `c.send` -/
  | closeSend
  /-- the writer takes a message; whether `writePump` can write it -/
  | takeMessage (ok : Bool)
  /-- the writer finds `c.send` closed and empty -/
  | takeEnd
  | ping (ok : Bool)
  | tick (order : List ℕ)
  /-- the writer sends the next of its pending frames and reports -/
  | emit
  | readMessage (mt : MessageType) (message : Slice UInt8)
  | readError
  /-- `c.recv_ack_seq` passes an ack from the reader to the writer -/
  | handAck
  /-- `hrooms.recv_ack_ch` passes an ack from the reader to `msg_ack_stat` -/
  | countAck
  | handNotify
  /-- the reader of another connection puts a notify on `notify_ack_Q` -/
  | otherNotify (ackSeq : ℕ)
  /-- `processNotifyMessage` takes a notify -/
  | takeNotify
  /-- the deferred `hrooms.unregister(c)` and `c.ws.Close()` -/
  | unregister
  deriving DecidableEq, Repr

/-! ## Steps -/

namespace Endpoint

/-- One round of the writer that the configuration selects. -/
def round (cfg : EndpointConfig) (s : Endpoint) (ok : Bool) (e : WriterEvent) : Option Endpoint :=
  if s.started ∧ s.pending = [] then
    match if cfg.enableAckRto > 0 then s.writer.rtoStep cfg.rto e else s.writer.pumpStep ok e with
    | none => none
    | some (w, outs) =>
      some { s with writer := w, pending := outs, panicked := w.status = .panicked }
  else none

/-- Whether a pending output can be sent: `msg_ack_stat` must be there to take a report. -/
def canEmit (cfg : EndpointConfig) : WriterOut → Bool
  | .report _ => cfg.enableAckRto > 0
  | _ => true

def stepRunning (cfg : EndpointConfig) (s : Endpoint) :
    EndpointAction → Option (Endpoint × List WriterOut)
  | .goWriter => if s.started then none else some ({ s with started := true }, [])
  | .goReader =>
    if s.started ∧ s.reader = .notStarted then some ({ s with reader := .reading }, []) else none
  | .putMessage m =>
    match s.send.send m with
    | .sent ch => some ({ s with send := ch }, [])
    | _ => none
  | .closeSend =>
    -- a second close ends the process, so no step follows it
    match s.send.close with
    | some ch => some ({ s with send := ch }, [])
    | none => none
  | .takeMessage ok =>
    match s.send.recv with
    | .got m ch => (round cfg { s with send := ch } ok (.message m)).map (·, [])
    | _ => none
  | .takeEnd =>
    match s.send.recv with
    | .eof => (round cfg s true .closed).map (·, [])
    | _ => none
  | .ping ok => (round cfg s true (.ping ok)).map (·, [])
  | .tick order => (round cfg s true (.tick order)).map (·, [])
  | .emit =>
    match s.pending with
    | [] => none
    | o :: rest => if canEmit cfg o then some ({ s with pending := rest }, [o]) else none
  | .readMessage mt message =>
    if s.reader = .reading then
      match handleMessage cfg.enableVerboseLog mt message with
      | .error _ => some ({ s with panicked := true }, [])
      | .ok todo => some ({ s with reader := .resume todo }, [])
    else none
  | .readError =>
    if s.reader = .reading then some ({ s with reader := .leaving }, []) else none
  | .handAck =>
    -- without a buffer the reader waits until `writeRTO` is at its `select`
    match s.reader with
    | .handing (.recvAckSeq ackSeq :: rest) =>
      (round cfg { s with reader := .resume rest } true (.ack ackSeq)).map (·, [])
    | _ => none
  | .countAck =>
    -- `msg_ack_stat` runs only with `enable_ack_rto`
    match s.reader with
    | .handing (.recvAckCh _ :: rest) =>
      if cfg.enableAckRto > 0 then some ({ s with reader := .resume rest }, []) else none
    | _ => none
  | .handNotify =>
    match s.reader with
    | .handing (.notifyAckQ ackSeq :: rest) =>
      match s.notifyAckQ.send ackSeq with
      | .sent ch => some ({ s with notifyAckQ := ch, reader := .resume rest }, [])
      | _ => none
    | _ => none
  | .otherNotify ackSeq =>
    match s.notifyAckQ.send ackSeq with
    | .sent ch => some ({ s with notifyAckQ := ch }, [])
    | _ => none
  | .takeNotify =>
    match s.notifyAckQ.recv with
    | .got _ ch => if cfg.enableAckRto > 0 then some ({ s with notifyAckQ := ch }, []) else none
    | _ => none
  | .unregister =>
    if s.reader = .leaving then some ({ s with reader := .returned }, []) else none

/-- A panic ends the process: nothing is enabled after it. -/
def step (cfg : EndpointConfig) (s : Endpoint) (a : EndpointAction) :
    Option (Endpoint × List WriterOut) :=
  if s.panicked then none else s.stepRunning cfg a

end Endpoint

/-- A connection that has been registered and whose goroutines are about to be started. -/
def endpoint (cfg : EndpointConfig) : Machine Endpoint EndpointAction WriterOut where
  init := ⟨Chan.make, Chan.make, false, ⟨∅, .running⟩, [], .notStarted, false⟩
  step := Endpoint.step cfg

/-! ## What the steps can do -/

/-- The actions in which the writer handles an event by itself. -/
inductive EndpointAction.IsRound : EndpointAction → WriterEvent → Prop
  | takeMessage (ok : Bool) (m : PushMsg) : IsRound (.takeMessage ok) (.message m)
  | takeEnd : IsRound .takeEnd .closed
  | ping (ok : Bool) : IsRound (.ping ok) (.ping ok)
  | tick (order : List ℕ) : IsRound (.tick order) (.tick order)

/-- The actions that touch neither the writer's loop nor the reader. -/
def EndpointAction.IsQuiet : EndpointAction → Prop
  | .putMessage _ | .closeSend | .emit | .otherNotify _ | .takeNotify => True
  | _ => False

/-- Everything one step of a connection can do. -/
inductive Endpoint.Step (cfg : EndpointConfig) (s : Endpoint) : EndpointAction → Endpoint → Prop
  | goWriter (hnot : s.started = false) : Step cfg s .goWriter { s with started := true }
  | goReader (hstarted : s.started = true) (hreader : s.reader = .notStarted) :
      Step cfg s .goReader { s with reader := .reading }
  | quiet {a : EndpointAction} (ha : a.IsQuiet) (ch : Chan PushMsg sendCap)
      (q : Chan ℕ notifyCap) (outs : List WriterOut) :
      Step cfg s a { s with send := ch, notifyAckQ := q, pending := outs }
  | round {a : EndpointAction} {e : WriterEvent} {ok : Bool} {t : Endpoint}
      (ch : Chan PushMsg sendCap) (ha : a.IsRound e)
      (hround : round cfg { s with send := ch } ok e = some t) : Step cfg s a t
  | readMessage {mt : MessageType} {message : Slice UInt8} {todo : List HandOver}
      (hreader : s.reader = .reading)
      (hok : handleMessage cfg.enableVerboseLog mt message = .ok todo) :
      Step cfg s (.readMessage mt message) { s with reader := .resume todo }
  | readPanic {mt : MessageType} {message : Slice UInt8} {e : RuntimeError}
      (hreader : s.reader = .reading)
      (herr : handleMessage cfg.enableVerboseLog mt message = .error e) :
      Step cfg s (.readMessage mt message) { s with panicked := true }
  | readError (hreader : s.reader = .reading) :
      Step cfg s .readError { s with reader := .leaving }
  | handAck {ackSeq : ℕ} {rest : List HandOver} {t : Endpoint}
      (hreader : s.reader = .handing (.recvAckSeq ackSeq :: rest))
      (hround : round cfg { s with reader := .resume rest } true (.ack ackSeq) = some t) :
      Step cfg s .handAck t
  | countAck {ackSeq : ℕ} {rest : List HandOver}
      (hreader : s.reader = .handing (.recvAckCh ackSeq :: rest)) :
      Step cfg s .countAck { s with reader := .resume rest }
  | handNotify {ackSeq : ℕ} {rest : List HandOver} (q : Chan ℕ notifyCap)
      (hreader : s.reader = .handing (.notifyAckQ ackSeq :: rest)) :
      Step cfg s .handNotify { s with notifyAckQ := q, reader := .resume rest }
  | unregister (hreader : s.reader = .leaving) :
      Step cfg s .unregister { s with reader := .returned }

/-- A round is taken by a started writer in its loop, and changes the writer only. -/
theorem Endpoint.round_cases {cfg : EndpointConfig} {s t : Endpoint} {ok : Bool}
    {e : WriterEvent} (h : round cfg s ok e = some t) :
    s.started = true ∧ s.writer.status = .running ∧
      ∃ w outs, t = { s with writer := w, pending := outs, panicked := w.status = .panicked } ∧
        (0 < cfg.enableAckRto → s.writer.RtoStep cfg.rto e w outs) ∧
        (¬ 0 < cfg.enableAckRto → w.status ≠ .panicked) := by
  unfold round at h
  split at h
  · rename_i hs
    split at h
    · exact absurd h (by simp)
    · rename_i w outs hw
      obtain rfl := Option.some.inj h
      by_cases hrto : cfg.enableAckRto > 0
      · rw [if_pos hrto] at hw
        obtain ⟨hrun, hstep⟩ := Writer.rtoStep_cases hw
        exact ⟨hs.1, hrun, w, outs, rfl, fun _ => hstep, fun hneg => absurd hrto hneg⟩
      · rw [if_neg hrto] at hw
        obtain ⟨hrun, hstatus⟩ := Writer.pumpStep_status hw
        exact ⟨hs.1, hrun, w, outs, rfl, fun hpos => absurd hpos hrto, fun _ => hstatus⟩
  · exact absurd h (by simp)

/-- A step starts from a process that has not panicked and is one of the listed ones. -/
theorem Endpoint.step_cases {cfg : EndpointConfig} {s t : Endpoint} {a : EndpointAction}
    {o : List WriterOut} (h : (endpoint cfg).step s a = some (t, o)) :
    s.panicked = false ∧ s.Step cfg a t := by
  simp only [endpoint, Endpoint.step] at h
  split at h
  · exact absurd h (by simp)
  · rename_i hp
    refine ⟨by simpa using hp, ?_⟩
    cases a with
    | goWriter =>
        simp only [stepRunning] at h
        split at h
        · exact absurd h (by simp)
        · rename_i hnot
          obtain ⟨rfl, rfl⟩ := Prod.mk.inj (Option.some.inj h)
          exact .goWriter (by simpa using hnot)
    | goReader =>
        obtain ⟨⟨hstarted, hreader⟩, h⟩ := Machine.guard_eq_some_iff.mp h
        obtain ⟨rfl, rfl⟩ := Prod.mk.inj h
        exact .goReader hstarted hreader
    | putMessage m =>
        simp only [stepRunning] at h
        split at h
        · rename_i ch hsend
          obtain ⟨rfl, rfl⟩ := Prod.mk.inj (Option.some.inj h)
          exact .quiet (by trivial) ch s.notifyAckQ s.pending
        · exact absurd h (by simp)
    | closeSend =>
        simp only [stepRunning] at h
        split at h
        · rename_i ch hclose
          obtain ⟨rfl, rfl⟩ := Prod.mk.inj (Option.some.inj h)
          exact .quiet (by trivial) ch s.notifyAckQ s.pending
        · exact absurd h (by simp)
    | takeMessage ok =>
        simp only [stepRunning] at h
        split at h
        · rename_i m ch hrecv
          obtain ⟨hround, rfl⟩ := Machine.silent_eq_some_iff.mp h
          exact .round ch (.takeMessage ok m) hround
        · exact absurd h (by simp)
    | takeEnd =>
        simp only [stepRunning] at h
        split at h
        · obtain ⟨hround, rfl⟩ := Machine.silent_eq_some_iff.mp h
          exact .round s.send .takeEnd hround
        · exact absurd h (by simp)
    | ping ok =>
        obtain ⟨hround, rfl⟩ := Machine.silent_eq_some_iff.mp h
        exact .round s.send (.ping ok) hround
    | tick order =>
        obtain ⟨hround, rfl⟩ := Machine.silent_eq_some_iff.mp h
        exact .round s.send (.tick order) hround
    | emit =>
        simp only [stepRunning] at h
        split at h
        · exact absurd h (by simp)
        · rename_i out rest hpending
          obtain ⟨_, h⟩ := Machine.guard_eq_some_iff.mp h
          obtain ⟨rfl, rfl⟩ := Prod.mk.inj h
          exact .quiet (by trivial) s.send s.notifyAckQ rest
    | readMessage mt message =>
        obtain ⟨hreader, h⟩ := Option.ite_none_right_eq_some.mp h
        split at h
        · rename_i e herr
          obtain ⟨rfl, rfl⟩ := Prod.mk.inj (Option.some.inj h)
          exact .readPanic hreader herr
        · rename_i todo hok
          obtain ⟨rfl, rfl⟩ := Prod.mk.inj (Option.some.inj h)
          exact .readMessage hreader hok
    | readError =>
        obtain ⟨hreader, h⟩ := Machine.guard_eq_some_iff.mp h
        obtain ⟨rfl, rfl⟩ := Prod.mk.inj h
        exact .readError hreader
    | handAck =>
        simp only [stepRunning] at h
        split at h
        · rename_i ackSeq rest hreader
          obtain ⟨hround, rfl⟩ := Machine.silent_eq_some_iff.mp h
          exact .handAck hreader hround
        · exact absurd h (by simp)
    | countAck =>
        simp only [stepRunning] at h
        split at h
        · rename_i ackSeq rest hreader
          obtain ⟨_, h⟩ := Machine.guard_eq_some_iff.mp h
          obtain ⟨rfl, rfl⟩ := Prod.mk.inj h
          exact .countAck hreader
        · exact absurd h (by simp)
    | handNotify =>
        simp only [stepRunning] at h
        split at h
        · rename_i ackSeq rest hreader
          split at h
          · rename_i ch hsend
            obtain ⟨rfl, rfl⟩ := Prod.mk.inj (Option.some.inj h)
            exact .handNotify ch hreader
          · exact absurd h (by simp)
        · exact absurd h (by simp)
    | otherNotify ackSeq =>
        simp only [stepRunning] at h
        split at h
        · rename_i ch hsend
          obtain ⟨rfl, rfl⟩ := Prod.mk.inj (Option.some.inj h)
          exact .quiet (by trivial) s.send ch s.pending
        · exact absurd h (by simp)
    | takeNotify =>
        simp only [stepRunning] at h
        split at h
        · rename_i n ch hrecv
          obtain ⟨_, h⟩ := Machine.guard_eq_some_iff.mp h
          obtain ⟨rfl, rfl⟩ := Prod.mk.inj h
          exact .quiet (by trivial) s.send ch s.pending
        · exact absurd h (by simp)
    | unregister =>
        obtain ⟨hreader, h⟩ := Machine.guard_eq_some_iff.mp h
        obtain ⟨rfl, rfl⟩ := Prod.mk.inj h
        exact .unregister hreader

end Skytime
