/-
# Skytime.WebSocket.Messages — messages read from the bytes of a connection.

`ReadMessage` is `NextReader` and `ioutil.ReadAll`; an application calls it until it returns an
error (`readMessages`).
-/
import Skytime.Process.Machine
import Skytime.WebSocket.Advance

namespace Skytime.WebSocket

open Process

/-! ## NextReader, Read, ReadAll, ReadMessage -/

/-- The loop of `NextReader`. -/
def nextFrame (env : ReadEnv) (s : ReadSide) : ReadResult MessageType :=
  match s.readErr with
  | some e => .error e s
  | none =>
    match _h : advanceFrame env s with
    | .error e u => .error e { u with readErr := some e }
    | .ok t u =>
      if t = .text then .ok .text u
      else if t = .binary then .ok .binary u
      else nextFrame env u
termination_by s.input.length
decreasing_by exact advanceFrame_lt _h

/-- `NextReader`: it counts its failures, and panics at the thousandth. -/
def nextReader (env : ReadEnv) : ReadM MessageType := fun s =>
  match nextFrame env { s with readSeq := s.readSeq + 1, readLength := 0 } with
  | .ok t u => .ok t u
  | .error e u =>
    .error (if 1000 ≤ u.readErrCount + 1 then .panicked else e)
      { u with readErrCount := u.readErrCount + 1 }

/-- The end of `messageReader.Read`, with an error in `c.readErr`. -/
def readFailed (seq : ℕ) (e : ReadErr) (s : ReadSide) : ReadResult (List UInt8) :=
  .error (if e = .eof ∧ seq = s.readSeq then .unexpectedEOF else e) { s with readErr := some e }

/-- The text of the error for a message that starts within a message. -/
def internalError : ReadErr :=
  .failed "websocket: internal error, unexpected text or binary in Reader"

/-- The loop of `messageReader.Read`. -/
def readLoop (env : ReadEnv) (seq : ℕ) (s : ReadSide) : ReadResult (List UInt8) :=
  match s.readErr with
  | some e => readFailed seq e s
  | none =>
    if 0 < s.readRemaining then
      match env.brRead s.readRemaining.toNat s.input with
      | some (b, rest) =>
        let r := maskBytes s.readMaskKey s.readMaskPos b
        .ok (if env.isServer then r.1 else b)
          { s with
            input := rest
            readMaskPos := if env.isServer then r.2 else s.readMaskPos
            readRemaining := s.readRemaining - b.length }
      | none =>
        -- returned as it is, also if it is `io.EOF`
        .error env.ends.err
          { s with
            readErr := some env.ends.err
            readMaskPos := if env.isServer then s.readMaskPos &&& 3 else s.readMaskPos }
    else if s.readFinal then .error .eof { s with readSeq := s.readSeq + 1 }
    else
      match _h : advanceFrame env s with
      | .error e u => readFailed seq e u
      | .ok t u => if isData t then readFailed seq internalError u else readLoop env seq u
termination_by s.input.length
decreasing_by exact advanceFrame_lt _h

/-- `messageReader.Read`. -/
def read (env : ReadEnv) (seq : ℕ) : ReadM (List UInt8) := fun s =>
  if seq ≠ s.readSeq then .error .eof s else readLoop env seq s

theorem nextFrame_eq {env : ReadEnv} {s : ReadSide} (he : s.readErr = none) :
    nextFrame env s =
      match advanceFrame env s with
      | .error e u => .error e { u with readErr := some e }
      | .ok t u =>
        if t = .text then .ok .text u
        else if t = .binary then .ok .binary u
        else nextFrame env u := by
  rw [nextFrame, he]
  simp only
  split <;> simp_all

theorem readLoop_eq {env : ReadEnv} {seq : ℕ} {s : ReadSide} (he : s.readErr = none)
    (hrem : s.readRemaining ≤ 0) : readLoop env seq s =
      if s.readFinal then .error .eof { s with readSeq := s.readSeq + 1 }
      else
        match advanceFrame env s with
        | .error e u => readFailed seq e u
        | .ok t u => if isData t then readFailed seq internalError u else readLoop env seq u := by
  rw [readLoop, he]
  simp only [if_neg (Int.not_lt.mpr hrem)]
  congr 1
  split <;> simp_all

theorem nextFrame_lt {env : ReadEnv} {s u : ReadSide} {t : MessageType}
    (h : nextFrame env s = .ok t u) : u.input.length < s.input.length := by
  induction s using nextFrame.induct env with
  | case1 s e he => simp [nextFrame, he] at h
  | case2 s he e v hadv => simp [nextFrame_eq he, hadv] at h
  | case3 s he v hadv | case4 s he v hadv =>
      simp only [nextFrame_eq he, hadv] at h
      obtain ⟨-, rfl⟩ := EStateM.Result.ok.inj h
      exact advanceFrame_lt hadv
  | case5 s he t' v hadv ht hb ih =>
      simp only [nextFrame_eq he, hadv, if_neg ht, if_neg hb] at h
      exact (ih h).trans (advanceFrame_lt hadv)

theorem readLoop_lt {env : ReadEnv} {seq : ℕ} {s u : ReadSide} {b : List UInt8}
    (h : readLoop env seq s = .ok b u) : u.input.length < s.input.length := by
  induction s using readLoop.induct env with
  | case1 s e he => simp [readLoop, he, readFailed] at h
  | case2 s he hrem b' rest hread =>
      obtain ⟨hinput, hpos, -⟩ := ReadEnv.brRead_eq_some (by omega) hread
      rw [readLoop, he] at h
      simp only [if_pos hrem, hread, EStateM.Result.ok.injEq] at h
      rw [← h.2, hinput]
      simp only [List.length_append]
      omega
  | case3 s he hrem hread =>
      rw [readLoop, he] at h
      simp [hrem, hread] at h
  | case4 s he hrem hfin => simp [readLoop_eq he (Int.not_lt.mp hrem), hfin] at h
  | case5 s he hrem hfin e v hadv =>
      simp [readLoop_eq he (Int.not_lt.mp hrem), hfin, hadv, readFailed] at h
  | case6 s he hrem hfin t v hadv hdata =>
      simp [readLoop_eq he (Int.not_lt.mp hrem), hfin, hadv, hdata, readFailed] at h
  | case7 s he hrem hfin t v hadv hdata ih =>
      simp only [readLoop_eq he (Int.not_lt.mp hrem), if_neg hfin, hadv, if_neg hdata] at h
      exact (ih h).trans (advanceFrame_lt hadv)

/-- Nothing is given back, also where the loop fails. -/
theorem readLoop_input_le (env : ReadEnv) (seq : ℕ) (s : ReadSide) :
    (stateAfter (readLoop env seq s)).input.length ≤ s.input.length := by
  induction s using readLoop.induct env with
  | case1 s e he => simp [readLoop, he, readFailed, stateAfter]
  | case2 s he hrem b' rest hread =>
      obtain ⟨hinput, -, -⟩ := ReadEnv.brRead_eq_some (by omega) hread
      rw [readLoop, he]
      simp only [if_pos hrem, hread, stateAfter]
      rw [hinput, List.length_append]
      omega
  | case3 s he hrem hread =>
      rw [readLoop, he]
      simp [hrem, hread, stateAfter]
  | case4 s he hrem hfin => simp [readLoop_eq he (Int.not_lt.mp hrem), hfin, stateAfter]
  | case5 s he hrem hfin e v hadv =>
      have hsteady := (IsSteady.advanceFrame env s).input_le
      rw [hadv] at hsteady
      simpa [readLoop_eq he (Int.not_lt.mp hrem), hfin, hadv, readFailed, stateAfter]
        using hsteady
  | case6 s he hrem hfin t v hadv hdata =>
      have hlt := advanceFrame_lt hadv
      simpa [readLoop_eq he (Int.not_lt.mp hrem), hfin, hadv, hdata, readFailed, stateAfter]
        using hlt.le
  | case7 s he hrem hfin t v hadv hdata ih =>
      have hlt := advanceFrame_lt hadv
      simp only [readLoop_eq he (Int.not_lt.mp hrem), if_neg hfin, hadv, if_neg hdata]
      exact ih.trans hlt.le

theorem read_lt {env : ReadEnv} {seq : ℕ} {s u : ReadSide} {b : List UInt8}
    (h : read env seq s = .ok b u) : u.input.length < s.input.length := by
  simp only [read] at h
  split at h
  · exact absurd h (by simp)
  · exact readLoop_lt h

/-- `ioutil.ReadAll`, with `acc` read so far: `io.EOF` ends it without an error. -/
def readAll (env : ReadEnv) (seq : ℕ) (s : ReadSide) (acc : List UInt8) :
    ReadResult (List UInt8) :=
  match _h : read env seq s with
  | .ok b u => readAll env seq u (acc ++ b)
  | .error e u => if e = .eof then .ok acc u else .error e u
termination_by s.input.length
decreasing_by exact read_lt _h

abbrev Message := MessageType × List UInt8

/-- `ReadMessage`. -/
def readMessage (env : ReadEnv) : ReadM Message := fun s =>
  match nextReader env s with
  | .error e u => .error e u
  | .ok t u =>
    match readAll env u.readSeq u [] with
    | .error e v => .error e v
    | .ok p v => .ok (t, p) v

theorem readAll_eq (env : ReadEnv) (seq : ℕ) (s : ReadSide) (acc : List UInt8) :
    readAll env seq s acc =
      match read env seq s with
      | .ok b u => readAll env seq u (acc ++ b)
      | .error e u => if e = .eof then .ok acc u else .error e u := by
  rw [readAll]
  split <;> simp_all

theorem readAll_le {env : ReadEnv} {seq : ℕ} {s u : ReadSide} {acc p : List UInt8}
    (h : readAll env seq s acc = .ok p u) : u.input.length ≤ s.input.length := by
  have hread : ∀ v : ReadSide, (stateAfter (read env seq v)).input.length ≤ v.input.length := by
    intro v
    simp only [read]
    split
    · exact Nat.le_refl _
    · exact readLoop_input_le env seq v
  induction s, acc using readAll.induct env seq with
  | case1 s acc b v hok ih =>
      rw [readAll_eq, hok] at h
      exact (ih h).trans (read_lt hok).le
  | case2 s acc v herr =>
      have hle := hread s
      rw [readAll_eq, herr] at h
      rw [herr] at hle
      obtain ⟨-, rfl⟩ := EStateM.Result.ok.inj h
      exact hle
  | case3 s acc e v herr heof =>
      rw [readAll_eq, herr] at h
      simp only [if_neg heof] at h
      exact absurd h (by simp)

theorem readMessage_lt {env : ReadEnv} {s u : ReadSide} {m : Message}
    (h : readMessage env s = .ok m u) : u.input.length < s.input.length := by
  simp only [readMessage] at h
  split at h
  · exact absurd h (by simp)
  · rename_i t v hnext
    split at h
    · exact absurd h (by simp)
    · rename_i p w hall
      obtain ⟨-, rfl⟩ := EStateM.Result.ok.inj h
      refine Nat.lt_of_le_of_lt (readAll_le hall) ?_
      simp only [nextReader] at hnext
      split at hnext
      · rename_i hframe
        obtain ⟨-, rfl⟩ := EStateM.Result.ok.inj hnext
        have hlt := nextFrame_lt hframe
        exact hlt
      · exact absurd hnext (by simp)

/-- What an application sees that reads until an error: the messages, the error, and the read side
at the end. -/
structure Reading where
  messages : List Message
  err : ReadErr
  last : ReadSide

/-- The reading that begins with these messages. -/
def Reading.after (ms : List Message) (r : Reading) : Reading :=
  { r with messages := ms ++ r.messages }

/-- `for { … c.ReadMessage() … if err != nil { break } }`. -/
def readMessages (env : ReadEnv) (s : ReadSide) : Reading :=
  match _h : readMessage env s with
  | .error e u => ⟨[], e, u⟩
  | .ok m u => (readMessages env u).after [m]
termination_by s.input.length
decreasing_by exact readMessage_lt _h

theorem readMessages_of_ok {env : ReadEnv} {s u : ReadSide} {m : Message}
    (h : readMessage env s = .ok m u) : readMessages env s = (readMessages env u).after [m] := by
  rw [readMessages]
  split <;> simp_all

theorem readMessages_of_error {env : ReadEnv} {s u : ReadSide} {e : ReadErr}
    (h : readMessage env s = .error e u) : readMessages env s = ⟨[], e, u⟩ := by
  rw [readMessages]
  split <;> simp_all

end Skytime.WebSocket
