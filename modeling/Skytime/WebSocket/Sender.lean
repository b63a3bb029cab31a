/-
# Skytime.WebSocket.Sender — the write side of a websocket connection.

One goroutine at a time is in `WriteMessage`; it fills the write buffer and flushes it frame by
frame, except that a server does not buffer a large message. `WriteControl` may be called by any
goroutine at any time, also between two frames of a message. The machine `sender` interleaves them:
what happens under the lock `c.mu`, from taking it to giving it back, is one step, and so is what a
call does before it first takes the lock. How many bytes the network takes of a write is up to the
network; an incomplete write is an error. Timeouts of `WriteControl` before it has the lock leave no
trace and are not steps.
-/
import Skytime.WebSocket.Messages

namespace Skytime.WebSocket

open Process

/-! ## State -/

/-- What `newConn` fixes: the role, and the size of the write buffer without room for a header. -/
structure WriteConfig where
  isServer : Bool
  size : ℕ
  size_pos : 0 < size

/-- `len(c.writeBuf)`. -/
def WriteConfig.bufLen (cfg : WriteConfig) : ℕ := cfg.size + maxFrameHeaderSize

/-- The errors of the write side. -/
inductive WriteErr where
  /-- `ErrCloseSent` -/
  | closeSent
  /-- `errBadWriteOpCode` -/
  | badOpCode
  /-- `errInvalidControlFrame` -/
  | invalidControlFrame
  /-- extra bytes to flush on a client, which masks in the buffer -/
  | extraInClientMode
  /-- an error of the network connection -/
  | network
  deriving DecidableEq, Repr

/-- A call of `WriteMessage` with its message writer. -/
structure Call where
  messageType : FrameType
  data : List UInt8
  seq : ℕ
  deriving DecidableEq, Repr

/-- Where the goroutine in `WriteMessage` stands; in each case but the first it is about to flush a
frame. -/
inductive Stage where
  | idle
  /-- `NextWriter` closes the previous writer -/
  | previous (c : Call)
  /-- `write` does not buffer a large message -/
  | whole (c : Call)
  /-- the buffer is full, and these bytes are still to be copied -/
  | copying (c : Call) (rest : List UInt8)
  /-- everything is in the buffer -/
  | last (c : Call)
  deriving DecidableEq, Repr

/-- The write fields of `Conn`. The payload in the buffer is `buf`; `noFrame` is `none`. -/
structure WriteSide where
  buf : List UInt8
  writeFrameType : Option FrameType
  writeSeq : ℕ
  writeErr : Option WriteErr
  closeSent : Bool
  /-- the network connection has been closed -/
  netClosed : Bool
  stage : Stage

/-- The write fields that `newConn` sets. -/
def newWriteSide : WriteSide := ⟨[], none, 0, none, false, false, .idle⟩

inductive WriteAction where
  /-- a call of `WriteMessage`, up to its first frame -/
  | writeMessage (t : FrameType) (data : List UInt8)
  /-- the next frame of the call; the key that `newMaskKey` draws, and how many bytes the network
  takes -/
  | flush (key : MaskKey) (room : ℕ)
  /-- a call of `WriteControl` that gets the lock -/
  | writeControl (t : FrameType) (data : List UInt8) (key : MaskKey) (room : ℕ)
  /-- `c.Close()` -/
  | closeConn

inductive WriteEvent where
  /-- bytes that the network took -/
  | bytes (b : List UInt8)
  /-- `WriteMessage` returns `nil` -/
  | returned (t : FrameType) (data : List UInt8)
  /-- `WriteMessage` returns an error -/
  | failed (t : FrameType) (data : List UInt8) (e : WriteErr)
  /-- `WriteControl` returns -/
  | controlled (t : FrameType) (data : List UInt8) (e : Option WriteErr)

/-! ## Under the lock -/

/-- `for _, buf := range bufs { … c.conn.Write(buf) … }`: whether the connection is closed
afterwards, whether there was no error, and the bytes that the network took. -/
def writeBufs : List (List UInt8) → ℕ → Bool → Bool × Bool × List UInt8
  | [], _, closed => (closed, true, [])
  | b :: bs, room, closed =>
    if b = [] then writeBufs bs room closed
    else if closed then (true, false, [])
    else if b.length ≤ room then
      let r := writeBufs bs (room - b.length) closed
      (r.1, r.2.1, b ++ r.2.2)
    else (true, false, b.take room)

/-- `write`: the new state, the error and the bytes that the network took. -/
def WriteSide.write (s : WriteSide) (t : FrameType) (bufs : List (List UInt8)) (room : ℕ) :
    WriteSide × Option WriteErr × List UInt8 :=
  if s.closeSent then (s, some .closeSent, [])
  else
    let r := writeBufs bufs room s.netClosed
    ({ s with closeSent := t = .close, netClosed := r.1 },
      if r.2.1 then none else some .network, r.2.2)

/-- The header that `flushFrame` puts in front of the payload: `framePos` is such that the two are
next to each other in the buffer. -/
def flushHeader (isServer final : Bool) (t : FrameType) (key : MaskKey) (length : ℕ) : List UInt8 :=
  let b0 := firstByte t final
  let b1 : UInt8 := if isServer then 0 else maskBit
  (if length ≥ 65536 then [b0, b1 ||| 127] ++ putBigEndian 8 length
    else if length > 125 then [b0, b1 ||| 126] ++ putBigEndian 2 length
    else [b0, b1 ||| UInt8.ofNat length]) ++ if isServer then [] else key.bytes

/-- `flushFrame`, with the lock taken and given back in `write`. -/
def WriteSide.flushFrame (cfg : WriteConfig) (s : WriteSide) (final : Bool) (extra : List UInt8)
    (key : MaskKey) (room : ℕ) : WriteSide × Option WriteErr × List UInt8 :=
  match s.writeFrameType with
  -- there is always a frame: a message writer comes from `NextWriter`
  | none => (s, none, [])
  | some t =>
    let length := s.buf.length + extra.length
    if isControl t ∧ (final = false ∨ length > maxControlFramePayloadSize) then
      ({ s with writeSeq := s.writeSeq + 1, writeFrameType := none, buf := [] },
        some .invalidControlFrame, [])
    else if cfg.isServer = false ∧ extra ≠ [] then
      ({ s with writeErr := some .extraInClientMode }, some .extraInClientMode, [])
    else
      let payload := if cfg.isServer then s.buf else (maskBytes key 0 s.buf).1
      let r := s.write t [flushHeader cfg.isServer final t key length ++ payload, extra] room
      ({ r.1 with
          writeErr := r.2.1
          buf := []
          writeFrameType := if final then none else some .continuation
          writeSeq := if final then s.writeSeq + 1 else s.writeSeq },
        r.2.1, r.2.2)

/-- The frame that `WriteControl` builds. -/
def controlBytes (isServer : Bool) (t : FrameType) (data : List UInt8) (key : MaskKey) :
    List UInt8 :=
  let b0 := t.opcode ||| finalBit
  if isServer then [b0, UInt8.ofNat data.length] ++ data
  else [b0, UInt8.ofNat data.length ||| maskBit] ++ key.bytes ++ (maskBytes key 0 data).1

/-- `WriteControl`: unlike `write` it leaves the connection open if nothing was written. -/
def WriteSide.writeControl (cfg : WriteConfig) (s : WriteSide) (t : FrameType) (data : List UInt8)
    (key : MaskKey) (room : ℕ) : WriteSide × Option WriteErr × List UInt8 :=
  if isControl t = false then (s, some .badOpCode, [])
  else if data.length > maxControlFramePayloadSize then (s, some .invalidControlFrame, [])
  else if s.closeSent then (s, some .closeSent, [])
  else
    let buf := controlBytes cfg.isServer t data key
    let s := { s with closeSent := t = .close }
    if s.netClosed then (s, some .network, [])
    else if buf.length ≤ room then (s, none, buf)
    else if room = 0 then (s, some .network, [])
    else ({ s with netClosed := true }, some .network, buf.take room)

/-! ## WriteMessage -/

/-- The loop of `messageWriter.write`, up to the next flush. After a round of it either everything
is copied or the buffer is full. -/
def WriteSide.copy (cfg : WriteConfig) (s : WriteSide) (c : Call) (rest : List UInt8) : WriteSide :=
  let n := cfg.size - s.buf.length
  if rest = [] then { s with stage := .last c }
  else if n = 0 then { s with stage := .copying c rest }
  else if rest.length ≤ n then { s with buf := s.buf ++ rest, stage := .last c }
  else { s with buf := s.buf ++ rest.take n, stage := .copying c (rest.drop n) }

/-- `NextWriter` behind the flush of the previous message, and `write` up to the first flush. -/
def WriteSide.begin (cfg : WriteConfig) (s : WriteSide) (t : FrameType) (data : List UInt8) :
    WriteSide × List WriteEvent :=
  if isControl t = false ∧ isData t = false then
    ({ s with stage := .idle }, [.failed t data .badOpCode])
  else
    let c : Call := ⟨t, data, s.writeSeq⟩
    let s := { s with writeFrameType := some t }
    if data.length > 2 * cfg.bufLen ∧ cfg.isServer then ({ s with stage := .whole c }, [])
    else (s.copy cfg c data, [])

/-- The call returns. -/
def WriteSide.leave (s : WriteSide) (c : Call) : Option WriteErr → WriteSide × List WriteEvent
  | none => ({ s with stage := .idle }, [.returned c.messageType c.data])
  | some e => ({ s with stage := .idle }, [.failed c.messageType c.data e])

/-- What follows a frame of the call. -/
def WriteSide.proceed (cfg : WriteConfig) (s : WriteSide) : Stage → WriteSide × List WriteEvent
  | .idle => (s, [])
  | .previous c => s.begin cfg c.messageType c.data
  -- `if c.writeSeq == w.seq`: a final frame has ended the message
  | .whole c => if s.writeSeq = c.seq then ({ s with stage := .last c }, []) else s.leave c none
  | .copying c rest => (s.copy cfg c rest, [])
  | .last c => s.leave c none

/-- The frame that a stage is about to flush: whether it is the last one, and what is written from
outside the buffer. -/
def Stage.frame : Stage → Option (Call × Bool × List UInt8)
  | .idle => none
  | .previous c => some (c, true, [])
  | .whole c => some (c, true, c.data)
  | .copying c _ => some (c, false, [])
  | .last c => some (c, true, [])

/-- The write side of a connection. -/
def sender (cfg : WriteConfig) : Machine WriteSide WriteAction WriteEvent where
  init := newWriteSide
  step s
    | .writeMessage t data =>
      if s.stage = .idle then
        match s.writeErr with
        | some e => some (s, [.failed t data e])
        | none =>
          if s.writeFrameType = none then some (s.begin cfg t data)
          else some ({ s with stage := .previous ⟨t, data, s.writeSeq⟩ }, [])
      else none
    | .flush key room =>
      match s.stage.frame with
      | none => none
      | some (c, final, extra) =>
        let r := s.flushFrame cfg final extra key room
        let next := match r.2.1 with
          | none => r.1.proceed cfg s.stage
          | some e => r.1.leave c (some e)
        some (next.1, .bytes r.2.2 :: next.2)
    | .writeControl t data key room =>
      let r := s.writeControl cfg t data key room
      some (r.1, [.bytes r.2.2, .controlled t data r.2.1])
    | .closeConn => some ({ s with netClosed := true }, [])

/-! ## What a run shows -/

/-- The bytes on the wire. -/
def wireOf (l : List WriteEvent) : List UInt8 :=
  l.flatMap fun
    | .bytes b => b
    | _ => []

/-- The type of the message that begins with a frame of this type. -/
def dataType : FrameType → Option MessageType
  | .text => some .text
  | .binary => some .binary
  | _ => none

/-- The data messages for which `WriteMessage` returned `nil`. -/
def sentOf (l : List WriteEvent) : List Message :=
  l.filterMap fun
    | .returned t data => (dataType t).map fun t => (t, data)
    | _ => none

end Skytime.WebSocket
