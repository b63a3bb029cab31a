/-
# Skytime.WebSocket.Receiver — reading messages is receiving frames.

The machine `receiver` says what the read side does frame by frame: it knows the message under way
with its length so far, checks where a frame may stand and the limit, and gives a message with its
last frame. `Stands` ties a read side between two frames to a state of the machine. A frame that the
machine takes is read from the wire as one step of it (`resume_step`); where no such frame comes,
reading ends, and gives at most one more message, cut off, if the bytes of the connection ended
within the payload of a data frame (`resume_stuck`).
-/
import Skytime.WebSocket.Messages

namespace Skytime.WebSocket

open Process

/-! ## The machine -/

instance (env : ReadEnv) (readFinal : Bool) (h : FrameHeader) (t : FrameType) :
    Decidable (Admits env readFinal h t) :=
  decidable_of_iff (h.frameType? = some t ∧ h.reserved = 0 ∧ h.mask.isSome = env.isServer ∧
      MayStand readFinal h t)
    ⟨fun ⟨htype, hres, hmask, hplace⟩ => ⟨htype, hres, hmask, hplace⟩,
      fun h => ⟨h.type_eq, h.reserved, h.mask, h.place⟩⟩

instance (env : ReadEnv) (readLength : ℤ) : Decidable (WithinLimit env readLength) :=
  inferInstanceAs (Decidable (_ ∨ _))

/-- The message under way, and its length as the limit counts it. -/
structure Receiving where
  opened : Option Message
  readLength : ℤ

/-- Nothing is under way. -/
def Receiving.idle : Receiving := ⟨none, 0⟩

/-- The message that a frame of this type goes on with. -/
def Receiving.base (r : Receiving) : FrameType → Option Message
  | .text => some (.text, [])
  | .binary => some (.binary, [])
  | .continuation => r.opened
  | _ => none

/-- The message with the payload of a data frame. -/
def Receiving.join (r : Receiving) (f : Frame) : Option Message :=
  (r.base f.frameType).map fun m => (m.1, m.2 ++ f.payload)

/-- The frame was the last of the message, or the message goes on. -/
def Receiving.extend (m : Message) (readLength : ℤ) (final : Bool) : Receiving × List Message :=
  if final then (.idle, [m]) else (⟨some m, readLength⟩, [])

/-- The read side, frame by frame. A close frame ends it. -/
def receiver (env : ReadEnv) : Machine Receiving Frame Message where
  init := .idle
  step r f :=
    if Admits env r.opened.isNone f.header f.frameType then
      match r.join f with
      | some m =>
        let len := int64 (r.readLength + int64 f.header.length)
        if WithinLimit env len then some (Receiving.extend m len f.final) else none
      | none => if f.frameType = .close then none else some (r, [])
    else none

/-- The control frames that the handlers see. -/
def controlsOf (f : Frame) : List ControlCall :=
  if isControl f.frameType then [controlCall f.payload f.frameType] else []

/-! ## Where reading goes on -/

/-- What is left of `ReadMessage` and of the loop when the payload has been read. -/
def finish (env : ReadEnv) (t : MessageType) : ReadResult (List UInt8) → Reading
  | .ok p u => (readMessages env u).after [(t, p)]
  | .error e u => ⟨[], e, u⟩

/-- Reading goes on behind a frame, in `NextReader` or within a message. -/
def resume (env : ReadEnv) (s : ReadSide) : Option Message → Reading
  | none =>
    match nextFrame env s with
    | .ok t u => finish env t (readAll env u.readSeq u [])
    | .error e u =>
      ⟨[], if 1000 ≤ u.readErrCount + 1 then .panicked else e,
        { u with readErrCount := u.readErrCount + 1 }⟩
  | some (t, p) => finish env t (readAll env s.readSeq s p)

theorem readMessages_eq (env : ReadEnv) (s : ReadSide) :
    readMessages env s = resume env { s with readSeq := s.readSeq + 1, readLength := 0 } none := by
  rw [resume]
  cases hnext : nextFrame env { s with readSeq := s.readSeq + 1, readLength := 0 } with
  | error e u =>
      refine readMessages_of_error ?_
      simp only [readMessage, nextReader, hnext]
  | ok t u =>
      cases hall : readAll env u.readSeq u [] with
      | error e v =>
          show _ = finish env t (readAll env u.readSeq u [])
          rw [hall]
          refine readMessages_of_error ?_
          simp only [readMessage, nextReader, hnext, hall]
      | ok p v =>
          show _ = finish env t (readAll env u.readSeq u [])
          rw [hall]
          refine readMessages_of_ok ?_
          simp only [readMessage, nextReader, hnext, hall]

/-! ## Reading a payload -/

/-- What the reader makes of bytes of the payload. -/
def ReadSide.clear (env : ReadEnv) (s : ReadSide) (b : List UInt8) : List UInt8 :=
  if env.isServer then (maskBytes s.readMaskKey s.readMaskPos b).1 else b

section Payload

variable {env : ReadEnv}

theorem read_of_remaining {s : ReadSide} (he : s.readErr = none) (hrem : 0 < s.readRemaining)
    {b rest : List UInt8} (hread : env.brRead s.readRemaining.toNat s.input = some (b, rest)) :
    read env s.readSeq s = .ok (s.clear env b)
      { s with
        input := rest
        readMaskPos :=
          if env.isServer then (maskBytes s.readMaskKey s.readMaskPos b).2 else s.readMaskPos
        readRemaining := s.readRemaining - b.length } := by
  have hseq : ¬ s.readSeq ≠ s.readSeq := fun h => h rfl
  rw [read, if_neg hseq, readLoop, he]
  simp only [if_pos hrem, hread]
  rfl

/-- The rest of a payload that is all there, whatever the pieces. -/
theorem readAll_payload (env : ReadEnv) (s : ReadSide) (acc : List UInt8) (he : s.readErr = none)
    (hlen : s.readRemaining.toNat ≤ s.input.length) :
    ∃ rem pos, rem ≤ 0 ∧ readAll env s.readSeq s acc =
      readAll env s.readSeq
        { s with
          input := s.input.drop s.readRemaining.toNat
          readRemaining := rem
          readMaskPos := pos }
        (acc ++ s.clear env (s.input.take s.readRemaining.toNat)) := by
  -- induction on how much of the payload is left
  induction hn : s.readRemaining.toNat using Nat.strong_induction_on generalizing s acc with
  | _ n ih =>
      by_cases hrem : 0 < s.readRemaining
      · have hne : s.input ≠ [] := by
          rintro hnil
          rw [hnil, List.length_nil] at hlen
          omega
        obtain ⟨⟨b, rest⟩, hread⟩ : ∃ p, env.brRead s.readRemaining.toNat s.input = some p := by
          simp only [ReadEnv.brRead, if_neg hne]
          exact ⟨_, rfl⟩
        obtain ⟨hinput, hpos, hle⟩ := ReadEnv.brRead_eq_some (by omega) hread
        rw [readAll_eq, read_of_remaining he hrem hread]
        simp only
        have hlen' : (s.readRemaining - b.length).toNat ≤ rest.length := by
          rw [hinput, List.length_append] at hlen
          omega
        obtain ⟨rem, pos, hrem', hgo⟩ := ih (s.readRemaining - b.length).toNat (by omega)
          { s with
            input := rest
            readMaskPos :=
              if env.isServer then (maskBytes s.readMaskKey s.readMaskPos b).2 else s.readMaskPos
            readRemaining := s.readRemaining - b.length } (acc ++ s.clear env b) he hlen' rfl
        refine ⟨rem, pos, hrem', hgo.trans ?_⟩
        have hdrop : s.input.drop n = rest.drop (s.readRemaining - b.length).toNat := by
          rw [hinput, List.drop_append, List.drop_of_length_le (by omega), List.nil_append]
          congr 1
          omega
        have htake : s.input.take n = b ++ rest.take (s.readRemaining - b.length).toNat := by
          rw [hinput, List.take_append, List.take_of_length_le (by omega)]
          congr 2
          omega
        rw [hdrop, htake, List.append_assoc]
        congr 2
        simp only [ReadSide.clear]
        cases env.isServer with
        | false => rfl
        | true => simp only [if_true, maskBytes_append]
      · have hzero : n = 0 := by omega
        subst hzero
        refine ⟨s.readRemaining, s.readMaskPos, by omega, ?_⟩
        have hclear : s.clear env [] = [] := by
          simp only [ReadSide.clear]
          cases env.isServer <;> rfl
        rw [List.drop_zero, List.take_zero, hclear, List.append_nil]

/-- The rest of a payload that is not all there: the bytes that are, as if they were all, if the
connection was closed; the error of the network else. -/
theorem readAll_short (env : ReadEnv) (s : ReadSide) (acc : List UInt8) (he : s.readErr = none)
    (hlen : s.input.length < s.readRemaining.toNat) :
    ∃ u : ReadSide, u.readErr = some env.ends.err ∧ u.calls = s.calls ∧
      readAll env s.readSeq s acc =
        if env.ends = .eof then .ok (acc ++ s.clear env s.input) u else .error .network u := by
  induction hn : s.input.length using Nat.strong_induction_on generalizing s acc with
  | _ n ih =>
      have hrem : 0 < s.readRemaining := by omega
      by_cases hnil : s.input = []
      · have hread : env.brRead s.readRemaining.toNat s.input = none := by
          simp only [ReadEnv.brRead, if_pos hnil]
        have hclear : s.clear env [] = [] := by
          simp only [ReadSide.clear]
          cases env.isServer <;> rfl
        have hseq : ¬ s.readSeq ≠ s.readSeq := fun h => h rfl
        refine ⟨{ s with
          readErr := some env.ends.err
          readMaskPos := if env.isServer then s.readMaskPos &&& 3 else s.readMaskPos },
          rfl, rfl, ?_⟩
        rw [readAll_eq, read, if_neg hseq, readLoop, he]
        simp only [if_pos hrem, hread]
        rw [hnil, hclear, List.append_nil]
        cases env.ends <;> rfl
      · obtain ⟨⟨b, rest⟩, hread⟩ : ∃ p, env.brRead s.readRemaining.toNat s.input = some p := by
          simp only [ReadEnv.brRead, if_neg hnil]
          exact ⟨_, rfl⟩
        obtain ⟨hinput, hpos, hle⟩ := ReadEnv.brRead_eq_some (by omega) hread
        rw [readAll_eq, read_of_remaining he hrem hread]
        have hrest : s.input.length = b.length + rest.length := by rw [hinput, List.length_append]
        obtain ⟨u, hu, hcalls, hgo⟩ := ih rest.length (by omega)
          { s with
            input := rest
            readMaskPos :=
              if env.isServer then (maskBytes s.readMaskKey s.readMaskPos b).2 else s.readMaskPos
            readRemaining := s.readRemaining - b.length } (acc ++ s.clear env b) he
          (show rest.length < (s.readRemaining - b.length).toNat by omega) rfl
        refine ⟨u, hu, hcalls, hgo.trans ?_⟩
        rw [List.append_assoc, hinput]
        congr 3
        simp only [ReadSide.clear]
        cases env.isServer with
        | false => rfl
        | true => simp only [if_true, maskBytes_append]

end Payload

/-! ## One frame -/

/-- A read side between two frames, as the machine sees it. -/
structure Stands (s : ReadSide) (r : Receiving) : Prop where
  readErr : s.readErr = none
  readRemaining : s.readRemaining ≤ 0
  readFinal : s.readFinal = r.opened.isNone
  readLength : s.readLength = r.readLength

section Step

variable {env : ReadEnv} {s : ReadSide} {r r' : Receiving} {f : Frame} {ms : List Message}

theorem receiver_step_iff :
    (receiver env).step r f = some (r', ms) ↔ Admits env r.opened.isNone f.header f.frameType ∧
      ((isControl f.frameType = true ∧ f.frameType ≠ .close ∧ r' = r ∧ ms = []) ∨
        isControl f.frameType = false ∧ ∃ m, r.join f = some m ∧
          WithinLimit env (int64 (r.readLength + int64 f.header.length)) ∧
            (r', ms) =
              Receiving.extend m (int64 (r.readLength + int64 f.header.length)) f.final) := by
  simp only [receiver]
  by_cases hadm : Admits env r.opened.isNone f.header f.frameType
  · rw [if_pos hadm]
    cases ht : isControl f.frameType with
    | true =>
        have hjoin : r.join f = none := by
          rw [Receiving.join]
          cases htype : f.frameType <;> simp_all [isControl, Receiving.base]
        simp only [hjoin]
        by_cases hclose : f.frameType = .close
        · simp [hclose]
        · simp [hclose, hadm, eq_comm]
    | false =>
        cases hjoin : r.join f with
        | none =>
            -- a continuation frame is only admitted within a message
            exfalso
            have hplace := hadm.place
            rw [Receiving.join, Option.map_eq_none_iff] at hjoin
            cases htype : f.frameType <;>
              simp_all [isControl, Receiving.base, MayStand]
        | some m =>
            by_cases hlimit : WithinLimit env (int64 (r.readLength + int64 f.header.length))
            · simp [hlimit, hadm, eq_comm]
            · simp [hlimit]
  · simp [hadm]

/-- Behind the header of a data frame the payload is read. -/
theorem resume_data (hst : Stands s r) {h : FrameHeader} {t : FrameType} {rest : List UInt8}
    {m : Message} (hinput : s.input = h.bytes ++ rest) (hadm : Admits env r.opened.isNone h t)
    (ht : isControl t = false) (hlimit : WithinLimit env (int64 (r.readLength + int64 h.length)))
    (hbase : r.base t = some m) :
    resume env s r.opened = finish env m.1 (readAll env s.readSeq (s.beginData h t rest) m.2) := by
  have hadv : advanceFrame env s = .ok t (s.beginData h t rest) := by
    rw [advanceFrame_of_le hst.readRemaining, parseFrame_data_iff ht]
    refine ⟨h, rest, hinput, ?_, ?_, rfl⟩
    · rwa [hst.readFinal]
    · rwa [hst.readLength]
  have hseq : (s.beginData h t rest).readSeq = s.readSeq := s.withMask_readSeq h.mask
  cases hopened : r.opened with
  | none =>
      rw [resume, nextFrame_eq hst.readErr, hadv]
      have hplace := hadm.place
      rw [hopened] at hplace
      cases t with
      | text | binary =>
          obtain rfl := Option.some.inj hbase
          simp only [reduceCtorEq, if_true, if_false, hseq]
      | continuation => exact absurd hplace (by simp [MayStand])
      | close | ping | pong => exact absurd ht (by simp [isControl])
  | some m' =>
      have hplace := hadm.place
      rw [hopened] at hplace
      cases t with
      | text | binary => exact absurd hplace (by simp [MayStand])
      | close | ping | pong => exact absurd ht (by simp [isControl])
      | continuation =>
          obtain rfl : m' = m := Option.some.inj (hopened.symm.trans hbase)
          have hfinal : s.readFinal = false := by rw [hst.readFinal, hopened]; rfl
          have hread : read env s.readSeq s =
              read env s.readSeq (s.beginData h .continuation rest) := by
            rw [read, read, hseq, if_neg (fun h => h rfl), if_neg (fun h => h rfl),
              readLoop_eq hst.readErr hst.readRemaining, hfinal, hadv]
            rfl
          rw [resume, readAll_eq, hread, ← readAll_eq]

/-- A control frame that its handler lets pass changes nothing about the message under way. -/
theorem resume_control (hst : Stands s r) {rest : List UInt8} (hinput : s.input = f.bytes ++ rest)
    (hadm : Admits env r.opened.isNone f.header f.frameType) (ht : isControl f.frameType = true)
    (hok : ControlOk env rest.length f.payload f.frameType) :
    resume env s r.opened = resume env (s.passControl f rest) r.opened := by
  have hadv : advanceFrame env s = .ok f.frameType (s.passControl f rest) := by
    rw [advanceFrame_of_le hst.readRemaining, parseFrame_control_iff ht]
    refine ⟨f, rest, hinput, rfl, ?_, hok, rfl⟩
    rwa [hst.readFinal]
  have hseq : (s.passControl f rest).readSeq = s.readSeq := s.withMask_readSeq f.header.mask
  have hdata : f.frameType ≠ .text ∧ f.frameType ≠ .binary ∧ isData f.frameType = false := by
    cases htype : f.frameType <;> simp_all [isControl, isData]
  cases hopened : r.opened with
  | none =>
      rw [resume, resume, nextFrame_eq hst.readErr, hadv]
      simp only [if_neg hdata.1, if_neg hdata.2.1]
  | some m =>
      have hfinal : s.readFinal = false := by rw [hst.readFinal, hopened]; rfl
      have hread : read env s.readSeq s = read env s.readSeq (s.passControl f rest) := by
        rw [read, read, hseq, if_neg (fun h => h rfl), if_neg (fun h => h rfl),
          readLoop_eq hst.readErr hst.readRemaining, hfinal, hadv]
        simp only [hdata.2.2, Bool.false_eq_true, if_false]
      rw [resume, resume, hseq, readAll_eq, hread, ← readAll_eq]

/-- The payload of a data frame, read to its end. -/
theorem readAll_data (hst : Stands s r) {h : FrameHeader} (t : FrameType) {payload : List UInt8}
    (rest : List UInt8) (hmask : h.mask.isSome = env.isServer)
    (hlen : payload.length = (int64 h.length).toNat)
    (acc : List UInt8) :
    ∃ rem pos, rem ≤ 0 ∧
      readAll env s.readSeq (s.beginData h t (maskedWith h.mask payload ++ rest)) acc =
        readAll env s.readSeq
          { s.beginData h t rest with readRemaining := rem, readMaskPos := pos }
          (acc ++ payload) := by
  have hseq : ∀ b, (s.beginData h t b).readSeq = s.readSeq ∧
      (s.beginData h t b).readErr = s.readErr :=
    fun _ => ⟨s.withMask_readSeq h.mask, s.withMask_readErr h.mask⟩
  have hclear : ∀ b c, (s.beginData h t b).clear env c = maskedWith h.mask c := by
    intro b c
    rcases h with ⟨b0, mask, form, n, hfits⟩
    cases mask with
    | none => rw [ReadSide.clear, ← hmask]; rfl
    | some key => rw [ReadSide.clear, ← hmask]; rfl
  have hrem : ∀ b, (s.beginData h t b).readRemaining = int64 h.length := fun _ => rfl
  have hinput : ∀ b, (s.beginData h t b).input = b := fun _ => rfl
  have hmasked : (maskedWith h.mask payload).length = (int64 h.length).toNat := by
    rw [maskedWith_length, hlen]
  obtain ⟨rem, pos, hle, hgo⟩ := readAll_payload env
    (s.beginData h t (maskedWith h.mask payload ++ rest)) acc ((hseq _).2.trans hst.readErr)
    (by rw [hrem, hinput, List.length_append, hmasked]; omega)
  refine ⟨rem, pos, hle, ?_⟩
  rw [(hseq _).1, hclear, hrem, hinput, ← hmasked, List.take_left, List.drop_left,
    maskedWith_maskedWith] at hgo
  refine hgo.trans ?_
  rcases h with ⟨b0, mask, form, n, hfits⟩
  cases mask <;> rfl

/-- A frame that the machine takes is read as one step of it. -/
theorem resume_step (hst : Stands s r) (hstep : (receiver env).step r f = some (r', ms))
    {rest : List UInt8} (hinput : s.input = f.bytes ++ rest)
    (hok : isControl f.frameType = true → ControlOk env rest.length f.payload f.frameType) :
    ∃ s', Stands s' r' ∧ s'.input = rest ∧ s'.calls = s.calls ++ controlsOf f ∧
      resume env s r.opened = (resume env s' r'.opened).after ms := by
  obtain ⟨hadm, ⟨ht, -, rfl, rfl⟩ | ⟨ht, m, hjoin, hlimit, hext⟩⟩ := receiver_step_iff.mp hstep
  · refine ⟨s.passControl f rest, ⟨?_, Int.le_refl 0, ?_, ?_⟩, rfl, ?_,
      resume_control hst hinput hadm ht (hok ht)⟩
    · rw [← hst.readErr]
      exact s.withMask_readErr f.header.mask
    · rw [← hst.readFinal]
      show (if isControl f.frameType then s.readFinal else _) = _
      rw [if_pos ht]
    · rw [← hst.readLength]
      exact s.withMask_readLength f.header.mask
    · rw [controlsOf, if_pos ht]
      rfl
  · rw [Receiving.join, Option.map_eq_some_iff] at hjoin
    obtain ⟨base, hbase, rfl⟩ := hjoin
    rw [Frame.bytes, List.append_assoc] at hinput
    obtain ⟨rem, pos, hrem, hread⟩ := readAll_data hst f.frameType rest hadm.mask
      f.payload_length base.2
    have hdata := resume_data hst hinput hadm ht hlimit hbase
    rw [hread] at hdata
    have hkeep : (s.beginData f.header f.frameType rest).readErr = none ∧
        (s.beginData f.header f.frameType rest).readSeq = s.readSeq ∧
        (s.beginData f.header f.frameType rest).readFinal = f.final ∧
        (s.beginData f.header f.frameType rest).readLength =
          int64 (r.readLength + int64 f.header.length) ∧
        (s.beginData f.header f.frameType rest).calls = s.calls ∧
        (s.beginData f.header f.frameType rest).input = rest := by
      rw [← hst.readLength, ← hst.readErr]
      have hfinal : f.header.final = (if isControl f.frameType then s.readFinal else f.final) := by
        rw [ht]
        rfl
      exact ⟨s.withMask_readErr f.header.mask, s.withMask_readSeq f.header.mask, hfinal.symm, rfl,
        s.withMask_calls f.header.mask, rfl⟩
    obtain ⟨herr, hseq, hfinal, hlength, hcalls, hrest⟩ := hkeep
    have hcontrols : controlsOf f = [] := by rw [controlsOf, ht]; rfl
    rw [hcontrols, List.append_nil, ← hcalls]
    rw [← hseq] at hdata
    generalize s.beginData f.header f.frameType rest = v at *
    cases hlast : f.final with
    | true =>
        -- the next `Read` ends the message, and the next message is begun
        simp only [Receiving.extend, hlast, if_true, Prod.mk.injEq] at hext
        obtain ⟨rfl, rfl⟩ := hext
        refine ⟨{ v with
          readRemaining := rem
          readMaskPos := pos
          readSeq := v.readSeq + 1 + 1
          readLength := 0 }, ⟨herr, hrem, hfinal.trans hlast, rfl⟩, hrest, rfl, ?_⟩
        have hend : readAll env v.readSeq { v with readRemaining := rem, readMaskPos := pos }
            (base.2 ++ f.payload) = .ok (base.2 ++ f.payload)
              { v with readRemaining := rem, readMaskPos := pos, readSeq := v.readSeq + 1 } := by
          have hself : ¬ v.readSeq ≠ v.readSeq := fun h => h rfl
          have hlast' : v.readFinal = true := hfinal.trans hlast
          rw [readAll_eq, read, if_neg hself,
            readLoop_eq (s := { v with readRemaining := rem, readMaskPos := pos }) herr hrem]
          simp only [hlast', if_true]
        rw [hdata, hend, finish, readMessages_eq]
        rfl
    | false =>
        simp only [Receiving.extend, hlast, Bool.false_eq_true, if_false, Prod.mk.injEq] at hext
        obtain ⟨rfl, rfl⟩ := hext
        exact ⟨{ v with readRemaining := rem, readMaskPos := pos },
          ⟨herr, hrem, hfinal.trans hlast, hlength⟩, hrest, rfl, hdata⟩

/-! ## Where no frame comes -/

/-- The bytes end within the payload of a data frame that may stand there: the message `m`, with
the part of the payload that came. -/
def CutOff (env : ReadEnv) (r : Receiving) (input : List UInt8) (m : Message) : Prop :=
  ∃ h t base cut, input = h.bytes ++ maskedWith h.mask cut ∧
    cut.length < (int64 h.length).toNat ∧ Admits env r.opened.isNone h t ∧ isControl t = false ∧
      WithinLimit env (int64 (r.readLength + int64 h.length)) ∧ r.base t = some base ∧
        m = (base.1, base.2 ++ cut)

/-- No frame that the machine takes, and no control frame whose handler returns no error. -/
def Stuck (env : ReadEnv) (r : Receiving) (input : List UInt8) : Prop :=
  ∀ (f : Frame) (rest : List UInt8) (r' : Receiving) (ms : List Message), input = f.bytes ++ rest →
    (receiver env).step r f = some (r', ms) →
      isControl f.frameType = true ∧ ¬ ControlOk env rest.length f.payload f.frameType

/-- A failed connection gives no more messages. -/
theorem readMessages_of_readErr {u : ReadSide} {e : ReadErr} (he : u.readErr = some e) :
    (readMessages env u).messages = [] := by
  rw [readMessages_eq, resume]
  have hrun : nextFrame env { u with readSeq := u.readSeq + 1, readLength := 0 } =
      .error e { u with readSeq := u.readSeq + 1, readLength := 0 } := by
    rw [nextFrame, he]
  rw [hrun]

/-- Bytes that end within a payload: the message is cut off, or the error of the network comes. -/
theorem resume_cutOff (hst : Stands s r) {m : Message} (hcut : CutOff env r s.input m) :
    (resume env s r.opened).messages = if env.ends = .eof then [m] else [] := by
  obtain ⟨h, t, base, cut, hinput, hlen, hadm, ht, hlimit, hbase, rfl⟩ := hcut
  rw [resume_data hst hinput hadm ht hlimit hbase]
  have hkeep : (s.beginData h t (maskedWith h.mask cut)).readErr = none ∧
      (s.beginData h t (maskedWith h.mask cut)).readSeq = s.readSeq ∧
      (s.beginData h t (maskedWith h.mask cut)).clear env (maskedWith h.mask cut) = cut := by
    have hmask := hadm.mask
    rw [ReadSide.clear, ← hst.readErr, ← hmask]
    refine ⟨s.withMask_readErr h.mask, s.withMask_readSeq h.mask, ?_⟩
    · have hback := maskedWith_maskedWith h.mask cut
      rcases h with ⟨b0, mask, form, n, hfits⟩
      cases mask with
      | none => rfl
      | some key => exact hback
  obtain ⟨herr, hseq, hclear⟩ := hkeep
  have hshort : (s.beginData h t (maskedWith h.mask cut)).input.length <
      (s.beginData h t (maskedWith h.mask cut)).readRemaining.toNat := by
    show (maskedWith h.mask cut).length < (int64 h.length).toNat
    rwa [maskedWith_length]
  obtain ⟨u, hu, -, hgo⟩ := readAll_short env _ base.2 herr hshort
  have hrest : (s.beginData h t (maskedWith h.mask cut)).input = maskedWith h.mask cut := rfl
  rw [hseq, hrest, hclear] at hgo
  rw [hgo]
  split_ifs with heof
  · rw [finish]
    show [(base.1, base.2 ++ cut)] ++ (readMessages env u).messages = _
    rw [readMessages_of_readErr hu]
    rfl
  · rfl

/-- Where `advanceFrame` fails, reading ends without a message. -/
theorem resume_of_error (hst : Stands s r) {e : ReadErr} {u : ReadSide}
    (hadv : advanceFrame env s = .error e u) : (resume env s r.opened).messages = [] := by
  cases hopened : r.opened with
  | none => rw [resume, nextFrame_eq hst.readErr, hadv]
  | some m =>
      have hfinal : s.readFinal = false := by rw [hst.readFinal, hopened]; rfl
      have hsteady := (IsSteady.advanceFrame env s).readSeq
      rw [hadv] at hsteady
      have hseq : s.readSeq = u.readSeq := hsteady.symm
      have hself : ¬ s.readSeq ≠ s.readSeq := fun h => h rfl
      rw [resume, readAll_eq, read, if_neg hself, readLoop_eq hst.readErr hst.readRemaining,
        hfinal, hadv]
      -- `io.EOF` becomes `errUnexpectedEOF` here, which is not the end of the message
      simp only [Bool.false_eq_true, if_false, readFailed, hseq, and_true]
      by_cases he : e = .eof
      · simp only [he, if_true, reduceCtorEq, if_false, finish]
      · simp only [he, if_false, finish]

/-- A data frame that may stand here, within the limit, is taken. -/
theorem exists_step {base : Message} (hadm : Admits env r.opened.isNone f.header f.frameType)
    (ht : isControl f.frameType = false)
    (hlimit : WithinLimit env (int64 (r.readLength + int64 f.header.length)))
    (hbase : r.base f.frameType = some base) :
    ∃ r' ms, (receiver env).step r f = some (r', ms) := by
  have hjoin : r.join f = some (base.1, base.2 ++ f.payload) := by
    rw [Receiving.join, hbase]
    rfl
  exact ⟨_, _, receiver_step_iff.mpr ⟨hadm, .inr ⟨ht, _, hjoin, hlimit, rfl⟩⟩⟩

/-- Where reading cannot go on with a frame it ends. If the connection was closed within the payload
of a data frame, the message comes out as if it were whole. -/
theorem resume_stuck (hst : Stands s r) (hstuck : Stuck env r s.input) :
    ((resume env s r.opened).messages = [] ∧ ¬ (env.ends = .eof ∧ ∃ m, CutOff env r s.input m)) ∨
      ∃ m, env.ends = .eof ∧ CutOff env r s.input m ∧ (resume env s r.opened).messages = [m] := by
  by_cases hcut : ∃ m, CutOff env r s.input m
  · obtain ⟨m, hm⟩ := hcut
    have hmessages := resume_cutOff hst hm
    by_cases heof : env.ends = .eof
    · rw [if_pos heof] at hmessages
      exact .inr ⟨m, heof, hm, hmessages⟩
    · rw [if_neg heof] at hmessages
      exact .inl ⟨hmessages, fun h => heof h.1⟩
  · refine .inl ⟨?_, fun h => hcut h.2⟩
    cases hadv : advanceFrame env s with
    | error e u => exact resume_of_error hst hadv
    | ok t u =>
        exfalso
        rw [advanceFrame_of_le hst.readRemaining] at hadv
        cases ht : isControl t with
        | true =>
            obtain ⟨f, rest, hinput, rfl, hadm, hok, -⟩ := (parseFrame_control_iff ht).mp hadv
            rw [hst.readFinal] at hadm
            have hclose : f.frameType ≠ .close := by
              intro hclose
              rw [hclose] at hok
              exact hok
            have hstep : (receiver env).step r f = some (r, []) :=
              receiver_step_iff.mpr ⟨hadm, .inl ⟨ht, hclose, rfl, rfl⟩⟩
            exact (hstuck f rest r [] hinput hstep).2 hok
        | false =>
            obtain ⟨h, rest, hinput, hadm, hlimit, -⟩ := (parseFrame_data_iff ht).mp hadv
            rw [hst.readFinal] at hadm
            rw [hst.readLength] at hlimit
            obtain ⟨base, hbase⟩ : ∃ base, r.base t = some base := by
              have hplace := hadm.place
              cases t with
              | text | binary => exact ⟨_, rfl⟩
              | close | ping | pong => exact absurd ht (by simp [isControl])
              | continuation =>
                  cases hopened : r.opened with
                  | none =>
                      rw [hopened] at hplace
                      exact absurd hplace (by simp [MayStand])
                  | some m => exact ⟨m, hopened⟩
            by_cases hlen : (int64 h.length).toNat ≤ rest.length
            · -- the payload is all there, so there is a frame
              have hpayload : (maskedWith h.mask (rest.take (int64 h.length).toNat)).length =
                  (int64 h.length).toNat := by
                rw [maskedWith_length, List.length_take_of_le hlen]
              obtain ⟨f, rfl, rfl, hf⟩ : ∃ f : Frame, f.header = h ∧ f.frameType = t ∧
                  f.payload = maskedWith h.mask (rest.take (int64 h.length).toNat) :=
                ⟨⟨h, t, _, hadm.type_eq, hpayload⟩, rfl, rfl, rfl⟩
              have hbytes : s.input = f.bytes ++ rest.drop (int64 f.header.length).toNat := by
                rw [Frame.bytes, hf, maskedWith_maskedWith, List.append_assoc,
                  List.take_append_drop]
                exact hinput
              obtain ⟨r', ms, hstep⟩ := exists_step hadm ht hlimit hbase
              have hcontrol := (hstuck _ _ _ _ hbytes hstep).1
              exact absurd (ht.symm.trans hcontrol) (by simp)
            · refine hcut
                ⟨_, h, t, base, maskedWith h.mask rest, ?_, ?_, hadm, ht, hlimit, hbase, rfl⟩
              · rw [maskedWith_maskedWith]
                exact hinput
              · rw [maskedWith_length]
                omega

end Step

end Skytime.WebSocket
