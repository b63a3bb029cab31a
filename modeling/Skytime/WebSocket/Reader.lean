/-
# Skytime.WebSocket.Reader — the read side of a websocket connection.

The bytes of the connection come in pieces: a `Read` gives at least one byte and at most what it was
asked for, and how many is up to the network (`chunk`). `advanceFrame` reads a header and, of a
control frame, the payload; `messageReader.Read` gives the payload of data frames piece by piece and
goes on to the next frame of the message. The read side answers some frames with a control message;
those calls are recorded in order. The deadlines are the caller's, an error that a passed deadline
causes is one of the ways in which the bytes can end.
-/
import Skytime.Conn.Frame
import Skytime.WebSocket.Frame

namespace Skytime.WebSocket

open Process

/-! ## State -/

/-- The errors of the read side. -/
inductive ReadErr where
  /-- `io.EOF` -/
  | eof
  /-- `errUnexpectedEOF` -/
  | unexpectedEOF
  /-- any other error of the network connection -/
  | network
  /-- the `CloseError` for a close frame of the peer -/
  | close (code : ℕ) (text : List UInt8)
  /-- `ErrReadLimit` -/
  | readLimit
  /-- an error with this text -/
  | failed (message : String)
  /-- an error that a control handler returned -/
  | handler
  /-- the panic on repeated reads of a failed connection -/
  | panicked
  deriving DecidableEq, Repr

/-- How the bytes of the connection end. -/
inductive StreamEnd where
  | eof
  | failed
  deriving DecidableEq, Repr

/-- The error of a `Read` behind the last byte. -/
def StreamEnd.err : StreamEnd → ReadErr
  | .eof => .eof
  | .failed => .network

/-- What the read side calls for a control frame or an error: a handler, or `WriteControl`. -/
inductive ControlCall where
  | handlePing (data : List UInt8)
  | handlePong (data : List UInt8)
  | writeClose (data : List UInt8)
  deriving DecidableEq, Repr

/-- What does not change while messages are read. The network and the handlers may act differently
at every call; the number of bytes still to come tells the calls apart. -/
structure ReadEnv where
  isServer : Bool
  readLimit : ℤ
  /-- how many bytes the network gives when so many are still to come -/
  chunk : ℕ → ℕ
  ends : StreamEnd
  /-- whether the handler returns no error -/
  pingOk : ℕ → List UInt8 → Bool
  pongOk : ℕ → List UInt8 → Bool

/-- The read fields of `Conn`, with the bytes still to come. -/
structure ReadSide where
  input : List UInt8
  readErr : Option ReadErr
  readRemaining : ℤ
  readFinal : Bool
  readSeq : ℕ
  readLength : ℤ
  readMaskPos : ℕ
  readMaskKey : MaskKey
  readErrCount : ℕ
  calls : List ControlCall

/-- The read fields that `newConn` sets. -/
def newReadSide (input : List UInt8) : ReadSide :=
  ⟨input, none, 0, true, 0, 0, 0, fun _ => 0, 0, []⟩

/-- A computation on the read side. -/
abbrev ReadM := EStateM ReadErr ReadSide

/-- What a computation gives. -/
abbrev ReadResult := EStateM.Result ReadErr ReadSide

/-! ## Reading bytes -/

/-- `c.br.Read(p)` for `len(p) = k`: the bytes read and those still to come. -/
def ReadEnv.brRead (env : ReadEnv) (k : ℕ) (input : List UInt8) :
    Option (List UInt8 × List UInt8) :=
  if input = [] then none
  else
    let n := min k (max 1 (env.chunk input.length))
    some (input.take n, input.drop n)

theorem ReadEnv.brRead_eq_some {env : ReadEnv} {k : ℕ} {input b rest : List UInt8} (hk : 0 < k)
    (h : env.brRead k input = some (b, rest)) :
    input = b ++ rest ∧ 0 < b.length ∧ b.length ≤ k := by
  simp only [brRead] at h
  split at h
  · exact absurd h (by simp)
  · rename_i hne
    have hpos : 0 < input.length := List.length_pos_iff.mpr hne
    obtain ⟨rfl, rfl⟩ := Prod.mk.inj (Option.some.inj h)
    rw [List.take_append_drop, List.length_take]
    exact ⟨rfl, by omega, by omega⟩

/-- The loop of `readFull`: the bytes that are still needed, as far as they come. -/
def ReadEnv.readFullLoop (env : ReadEnv) (need : ℕ) (got input : List UInt8) :
    Option (List UInt8) × List UInt8 :=
  if _hneed : need = 0 then (some got, input)
  else
    match _hread : env.brRead need input with
    | none => (none, input)
    | some (b, rest) => env.readFullLoop (need - b.length) (got ++ b) rest
termination_by need
decreasing_by
  have := (ReadEnv.brRead_eq_some (Nat.pos_of_ne_zero _hneed) _hread).2.1
  omega

/-- However the bytes come, the loop gives the first ones, if there are enough. -/
theorem ReadEnv.readFullLoop_eq (env : ReadEnv) (need : ℕ) (got input : List UInt8) :
    env.readFullLoop need got input =
      if need ≤ input.length then (some (got ++ input.take need), input.drop need)
      else (none, []) := by
  induction need, got, input using ReadEnv.readFullLoop.induct env with
  | case1 got input => simp [readFullLoop]
  | case2 need got input hneed hread =>
      have hnil : input = [] := by
        by_contra hne
        simp [brRead, hne] at hread
      unfold readFullLoop
      rw [dif_neg hneed]
      split
      · rw [hnil, if_neg (by simpa using hneed)]
      · simp_all
  | case3 need got input hneed b rest hread ih =>
      obtain ⟨rfl, hpos, hle⟩ := brRead_eq_some (Nat.pos_of_ne_zero hneed) hread
      unfold readFullLoop
      rw [dif_neg hneed]
      split
      · simp_all
      · rename_i b' rest' hread'
        obtain ⟨rfl, rfl⟩ := Prod.mk.inj (Option.some.inj (hread.symm.trans hread'))
        rw [ih]
        by_cases hlen : need ≤ (b ++ rest).length
        · rw [if_pos hlen, if_pos (by rw [List.length_append] at hlen; omega)]
          rw [List.take_append, List.drop_append, List.take_of_length_le hle,
            List.drop_of_length_le hle, List.append_assoc, List.nil_append]
        · rw [if_neg hlen, if_neg (by rw [List.length_append] at hlen; omega)]

/-- `readFull`: the next `k` bytes, or `errUnexpectedEOF` where `io.ReadFull` returns `io.EOF`. -/
def readFull (env : ReadEnv) (k : ℕ) : ReadM (List UInt8) := fun s =>
  match env.readFullLoop k [] s.input with
  | (some b, rest) => .ok b { s with input := rest }
  | (none, rest) =>
    .error (if env.ends.err = .eof then .unexpectedEOF else env.ends.err) { s with input := rest }

/-- `io.CopyN(ioutil.Discard, c.br, k)`. -/
def discard (env : ReadEnv) (k : ℕ) : ReadM Unit := fun s =>
  match env.readFullLoop k [] s.input with
  | (some _, rest) => .ok () { s with input := rest }
  | (none, rest) => .error env.ends.err { s with input := rest }

/-! ## The next frame -/

/-- `FormatCloseMessage`. -/
def formatCloseMessage (closeCode : ℕ) (text : String) : List UInt8 :=
  putBigEndian 2 closeCode ++ text.toUTF8.toList

/-- `CloseProtocolError`, `CloseMessageTooBig` and `CloseNoStatusReceived`. -/
def closeProtocolError : ℕ := 1002

def closeMessageTooBig : ℕ := 1009

def closeNoStatusReceived : ℕ := 1005

/-- A handler or `WriteControl` is called. -/
def call (c : ControlCall) : ReadM Unit := modify fun s => { s with calls := s.calls ++ [c] }

/-- `handleProtocolError`. -/
def handleProtocolError (message : String) : ReadM Unit := do
  call (.writeClose (formatCloseMessage closeProtocolError message))
  throw (.failed ("websocket: " ++ message))

/-- `if bad { return noFrame, c.handleProtocolError(message) }`. -/
def refuseIf (bad : Bool) (message : String) : ReadM Unit :=
  if bad then handleProtocolError message else pure ()

/-- Step 1: what is left of the frame before. -/
def skipFrame (env : ReadEnv) : ReadM Unit := do
  let s ← get
  if 0 < s.readRemaining then discard env s.readRemaining.toNat else pure ()

/-- The `switch frameType` of step 2. -/
def checkType (opcode : UInt8) (final : Bool) : ReadM FrameType := do
  let s ← get
  match FrameType.ofOpcode opcode with
  | some .close => control s .close
  | some .ping => control s .ping
  | some .pong => control s .pong
  | some .text => data s .text
  | some .binary => data s .binary
  | some .continuation => do
    refuseIf s.readFinal "continuation after final message frame"
    modify fun s => { s with readFinal := final }
    return .continuation
  | none => do
    handleProtocolError ("unknown opcode " ++ toString opcode.toNat)
    return .continuation
where
  control (s : ReadSide) (t : FrameType) : ReadM FrameType := do
    refuseIf (maxControlFramePayloadSize < s.readRemaining) "control frame length > 125"
    refuseIf (!final) "control frame not final"
    return t
  data (s : ReadSide) (t : FrameType) : ReadM FrameType := do
    refuseIf (!s.readFinal) "message start before final message frame"
    modify fun s => { s with readFinal := final }
    return t

/-- Step 3: the length behind the second byte. -/
def readFrameLength (env : ReadEnv) : ReadM Unit := do
  let s ← get
  if s.readRemaining = 126 then do
    let b ← readFull env 2
    modify fun s => { s with readRemaining := bigEndian b }
  else if s.readRemaining = 127 then do
    let b ← readFull env 8
    modify fun s => { s with readRemaining := int64 (bigEndian b) }
  else pure ()

/-- Step 4: only the frames of a client are masked. -/
def readMask (env : ReadEnv) (mask : Bool) : ReadM Unit := do
  refuseIf (mask != env.isServer) "incorrect mask flag"
  if mask then do
    modify fun s => { s with readMaskPos := 0 }
    let b ← readFull env 4
    modify fun s => { s with readMaskKey := .ofBytes b }
  else pure ()

/-- Step 5: the limit for the whole message. -/
def enforceLimit (env : ReadEnv) : ReadM Unit := do
  modify fun s => { s with readLength := int64 (s.readLength + s.readRemaining) }
  let s ← get
  if 0 < env.readLimit ∧ env.readLimit < s.readLength then do
    call (.writeClose (formatCloseMessage closeMessageTooBig ""))
    throw .readLimit
  else pure ()

/-- Step 6: the payload of a control frame. -/
def readPayload (env : ReadEnv) : ReadM (List UInt8) := do
  let s ← get
  if 0 < s.readRemaining then do
    modify fun s => { s with readRemaining := 0 }
    let payload ← readFull env s.readRemaining.toNat
    return if env.isServer then (maskBytes s.readMaskKey 0 payload).1 else payload
  else return []

/-- Step 7: the control frame is handled. -/
def handleControl (env : ReadEnv) (t : FrameType) (payload : List UInt8) : ReadM Unit := do
  let left := (← get).input.length
  match t with
  | .pong => do
    call (.handlePong payload)
    if env.pongOk left payload then pure () else throw .handler
  | .ping => do
    call (.handlePing payload)
    if env.pingOk left payload then pure () else throw .handler
  | .close => do
    call (.writeClose (if 2 ≤ payload.length then payload.take 2 else []))
    throw (if 2 ≤ payload.length then .close (bigEndian (payload.take 2)) (payload.drop 2)
      else .close closeNoStatusReceived [])
  | _ => pure ()

/-- Steps 2 to 4: the header. -/
def parseHeader (env : ReadEnv) : ReadM FrameType := do
  let b ← readFull env 2
  let b0 := b.getD 0 0
  let b1 := b.getD 1 0
  modify fun s => { s with readRemaining := (b1 &&& 0x7f).toNat }
  refuseIf ((b0 >>> 4) &&& 0x7 != 0)
    ("unexpected reserved bits " ++ toString ((b0 >>> 4) &&& 0x7).toNat)
  let t ← checkType (b0 &&& 0xf) (b0 &&& finalBit != 0)
  readFrameLength env
  readMask env (b1 &&& maskBit != 0)
  return t

/-- Steps 2 to 7: the frame as far as `advanceFrame` reads it. -/
def parseFrame (env : ReadEnv) : ReadM FrameType := do
  let t ← parseHeader env
  if isControl t then do
    let payload ← readPayload env
    handleControl env t payload
    return t
  else do
    enforceLimit env
    return t

/-- `advanceFrame`. -/
def advanceFrame (env : ReadEnv) : ReadM FrameType := do
  skipFrame env
  parseFrame env

/-! ## What a computation gives when it succeeds -/

section Ok

variable {α β : Type} {s t u : ReadSide}

theorem bind_eq_ok {x : ReadM α} {f : α → ReadM β} {b : β} :
    (x >>= f) s = .ok b u ↔ ∃ a t, x s = .ok a t ∧ f a t = .ok b u := by
  simp only [bind, EStateM.bind]
  cases x s with
  | ok a t =>
      simp only [EStateM.Result.ok.injEq]
      constructor
      · exact fun h => ⟨a, t, ⟨rfl, rfl⟩, h⟩
      · rintro ⟨_, _, ⟨rfl, rfl⟩, h⟩
        exact h
  | error e t => simp

theorem pure_eq_ok {a b : α} : (pure a : ReadM α) s = .ok b u ↔ b = a ∧ u = s := by
  show EStateM.Result.ok a s = _ ↔ _
  rw [EStateM.Result.ok.injEq, eq_comm (a := a), eq_comm (a := s)]

theorem get_eq_ok : (get : ReadM ReadSide) s = .ok t u ↔ t = s ∧ u = s := by
  show EStateM.Result.ok s s = _ ↔ _
  rw [EStateM.Result.ok.injEq, eq_comm (a := s), eq_comm (a := s) (b := u)]

theorem modify_eq_ok {f : ReadSide → ReadSide} {x : PUnit} :
    (modify f : ReadM PUnit) s = .ok x u ↔ u = f s := by
  show EStateM.Result.ok PUnit.unit (f s) = _ ↔ _
  rw [EStateM.Result.ok.injEq, eq_comm (a := f s)]
  exact and_iff_right rfl

theorem throw_ne_ok {e : ReadErr} {a : α} : (throw e : ReadM α) s ≠ .ok a u := by
  show EStateM.Result.error e s ≠ _
  simp

theorem refuseIf_eq_ok {bad : Bool} {message : String} {x : Unit} :
    refuseIf bad message s = .ok x u ↔ bad = false ∧ u = s := by
  cases bad with
  | true =>
      constructor
      · intro h
        obtain ⟨_, t, _, hthrow⟩ := bind_eq_ok.mp h
        exact absurd hthrow throw_ne_ok
      · exact fun h => absurd h.1 (by simp)
  | false =>
      show (pure () : ReadM Unit) s = _ ↔ _
      rw [pure_eq_ok]
      exact ⟨fun h => ⟨rfl, h.2⟩, fun h => ⟨rfl, h.2⟩⟩

theorem readFull_eq_ok {env : ReadEnv} {k : ℕ} {b : List UInt8} :
    readFull env k s = .ok b u ↔
      b.length = k ∧ ∃ rest, s.input = b ++ rest ∧ u = { s with input := rest } := by
  simp only [readFull, ReadEnv.readFullLoop_eq, List.nil_append]
  by_cases hk : k ≤ s.input.length
  · simp only [if_pos hk, EStateM.Result.ok.injEq]
    constructor
    · rintro ⟨rfl, rfl⟩
      exact ⟨List.length_take_of_le hk, s.input.drop k, (List.take_append_drop k _).symm, rfl⟩
    · rintro ⟨rfl, rest, hinput, rfl⟩
      rw [hinput, List.take_left, List.drop_left]
      exact ⟨rfl, rfl⟩
  · simp only [if_neg hk]
    constructor
    · exact fun h => absurd h (by simp)
    · rintro ⟨rfl, rest, hinput, -⟩
      rw [hinput, List.length_append] at hk
      omega

end Ok

end Skytime.WebSocket
