/-
# Skytime.WebSocket.Link — what the write side puts on the wire.

Every flush puts one whole frame on the wire, or a part of one, and after a part or a close frame
nothing more is put there. The frames are such that the receiver of the other side takes them, and
gives the messages for which `WriteMessage` returned `nil`. This is the invariant `Inv`, kept by
every step of `sender`.
-/
import Skytime.WebSocket.Calls
import Skytime.WebSocket.Reading

namespace Skytime.WebSocket

open Process

/-! ## Frames as they are built -/

/-- The key on a frame: only a client masks. -/
def maskOf (isServer : Bool) (key : MaskKey) : Option MaskKey :=
  if isServer then none else some key

theorem maskOf_isSome (isServer : Bool) (key : MaskKey) :
    (maskOf isServer key).isSome = !isServer := by
  cases isServer <;> rfl

/-- The header of `flushFrame` is the header of the frame. -/
theorem flushHeader_eq (isServer final : Bool) (t : FrameType) (key : MaskKey)
    {payload : List UInt8} (hlt : payload.length < 2 ^ 63) :
    flushHeader isServer final t key payload.length =
      (Frame.written final t (maskOf isServer key) payload hlt).header.bytes := by
  cases isServer <;>
    simp only [flushHeader, Frame.written, FrameHeader.bytes, FrameHeader.b1, maskOf,
      LengthForm.shortest, Option.isSome, if_true, if_false, Bool.false_eq_true, keyBytes] <;>
    split_ifs <;> rfl

theorem controlBytes_eq (isServer : Bool) (t : FrameType) (key : MaskKey) {data : List UInt8}
    (hshort : data.length ≤ 125) (hlt : data.length < 2 ^ 63) :
    controlBytes isServer t data key =
      (Frame.written true t (maskOf isServer key) data hlt).bytes := by
  have hform : LengthForm.shortest data.length = .byte := by
    rw [LengthForm.shortest, if_neg (by omega), if_neg (by omega)]
  have hb : ∀ b : UInt8, 0 ||| b = b := fun b => UInt8.zero_or
  cases isServer with
  | true =>
      simp [controlBytes, Frame.bytes, Frame.written, FrameHeader.bytes, FrameHeader.b1, maskOf,
        hform, LengthForm.lowBits, LengthForm.extra, keyBytes, maskedWith, firstByte]
  | false =>
      simp [controlBytes, Frame.bytes, Frame.written, FrameHeader.bytes, FrameHeader.b1, maskOf,
        hform, LengthForm.lowBits, LengthForm.extra, keyBytes, maskedWith, firstByte,
        UInt8.or_comm]

/-! ## What a write can do -/

/-- The network takes everything and there is no error, or it takes less and the connection is
closed; a closed connection takes nothing. -/
theorem writeBufs_cases (bufs : List (List UInt8)) (room : ℕ) (closed : Bool) :
    ((writeBufs bufs room closed).2.1 = true ∧ (writeBufs bufs room closed).1 = closed ∧
        (writeBufs bufs room closed).2.2 = bufs.flatten ∧
        (bufs.flatten ≠ [] → closed = false)) ∨
      (writeBufs bufs room closed).2.1 = false ∧ (writeBufs bufs room closed).1 = true ∧
        (closed = true → (writeBufs bufs room closed).2.2 = []) ∧
        ∃ x, x ≠ [] ∧ (writeBufs bufs room closed).2.2 ++ x = bufs.flatten := by
  induction bufs generalizing room with
  | nil => exact .inl ⟨rfl, rfl, rfl, fun h => absurd rfl h⟩
  | cons b bs ih =>
      by_cases hb : b = []
      · have hrun : writeBufs (b :: bs) room closed = writeBufs bs room closed := by
          rw [writeBufs, if_pos hb]
        rw [hrun, hb]
        exact ih room
      · cases hclosed : closed with
        | true =>
            have hrun : writeBufs (b :: bs) room true = (true, false, []) := by
              rw [writeBufs, if_neg hb, if_pos rfl]
            rw [hrun]
            exact .inr ⟨rfl, rfl, fun _ => rfl, (b :: bs).flatten, by simp [hb], rfl⟩
        | false =>
            by_cases hroom : b.length ≤ room
            · have hrun : writeBufs (b :: bs) room false =
                  ((writeBufs bs (room - b.length) false).1,
                    (writeBufs bs (room - b.length) false).2.1,
                    b ++ (writeBufs bs (room - b.length) false).2.2) := by
                rw [writeBufs, if_neg hb, if_neg (by simp), if_pos hroom]
              have hrest := ih (room - b.length)
              rw [hclosed] at hrest
              rw [hrun]
              rcases hrest with ⟨hok, hsame, hbytes, -⟩ | ⟨hbad, hclose, -, x, hx, hbytes⟩
              · exact .inl ⟨hok, hsame, by rw [hbytes, List.flatten_cons], fun _ => rfl⟩
              · refine .inr ⟨hbad, hclose, fun h => absurd h (by simp), x, hx, ?_⟩
                rw [List.append_assoc, hbytes, List.flatten_cons]
            · have hrun : writeBufs (b :: bs) room false = (true, false, b.take room) := by
                rw [writeBufs, if_neg hb, if_neg (by simp), if_neg hroom]
              rw [hrun]
              refine .inr ⟨rfl, rfl, fun h => absurd h (by simp), b.drop room ++ bs.flatten, ?_, ?_⟩
              · intro hnil
                have hlen := congrArg List.length hnil
                simp only [List.length_append, List.length_drop, List.length_nil] at hlen
                omega
              · rw [← List.append_assoc, List.take_append_drop, List.flatten_cons]

/-- The write side behind a flush. -/
def WriteSide.flushed (s : WriteSide) (final : Bool) (closeSent netClosed : Bool)
    (e : Option WriteErr) : WriteSide :=
  { s with
    closeSent := closeSent
    netClosed := netClosed
    writeErr := e
    buf := []
    writeFrameType := if final then none else some .continuation
    writeSeq := if final then s.writeSeq + 1 else s.writeSeq }

/-- What `flushFrame` can do: refuse a control frame that is too long or not final; fail because a
close frame was sent; write the frame; or write less of it and close the connection. -/
theorem flushFrame_cases (cfg : WriteConfig) {s : WriteSide} {t : FrameType} (final : Bool)
    {extra : List UInt8} (key : MaskKey) (room : ℕ) (ht : s.writeFrameType = some t)
    (hextra : cfg.isServer = false → extra = []) (hlt : (s.buf ++ extra).length < 2 ^ 63) :
    (isControl t = true ∧ s.flushFrame cfg final extra key room =
        ({ s with writeSeq := s.writeSeq + 1, writeFrameType := none, buf := [] },
          some .invalidControlFrame, [])) ∨
      (s.closeSent = true ∧ s.flushFrame cfg final extra key room =
        (s.flushed final true s.netClosed (some .closeSent), some .closeSent, [])) ∨
      (isControl t = true → final = true ∧ (s.buf ++ extra).length ≤ 125) ∧ s.closeSent = false ∧
        ((s.netClosed = false ∧ s.flushFrame cfg final extra key room =
          (s.flushed final (t = .close) false none, none,
            (Frame.written final t (maskOf cfg.isServer key) (s.buf ++ extra) hlt).bytes)) ∨
        ∃ b x, x ≠ [] ∧
          b ++ x = (Frame.written final t (maskOf cfg.isServer key) (s.buf ++ extra) hlt).bytes ∧
          (s.netClosed = true → b = []) ∧ s.flushFrame cfg final extra key room =
            (s.flushed final (t = .close) true (some .network), some .network, b)) := by
  by_cases hinvalid : isControl t ∧
      (final = false ∨ s.buf.length + extra.length > maxControlFramePayloadSize)
  · left
    refine ⟨hinvalid.1, ?_⟩
    simp only [WriteSide.flushFrame, ht, if_pos hinvalid]
  · right
    have hclient : ¬ (cfg.isServer = false ∧ extra ≠ []) := fun h => h.2 (hextra h.1)
    have hcontrol : isControl t = true → final = true ∧ (s.buf ++ extra).length ≤ 125 := by
      intro hc
      simp only [hc, true_and, not_or, maxControlFramePayloadSize] at hinvalid
      rw [List.length_append]
      exact ⟨by simpa using hinvalid.1, by omega⟩
    cases hclose : s.closeSent with
    | true =>
        left
        refine ⟨rfl, ?_⟩
        simp only [WriteSide.flushFrame, ht, if_neg hinvalid, if_neg hclient, WriteSide.write,
          hclose, if_true, WriteSide.flushed]
    | false =>
        right
        refine ⟨hcontrol, rfl, ?_⟩
        set bufs : List (List UInt8) :=
          [flushHeader cfg.isServer final t key (s.buf.length + extra.length) ++
            (if cfg.isServer then s.buf else (maskBytes key 0 s.buf).1), extra] with hbufs
        have hflat : bufs.flatten =
            (Frame.written final t (maskOf cfg.isServer key) (s.buf ++ extra) hlt).bytes := by
          have hheader := flushHeader_eq cfg.isServer final t key hlt
          rw [List.length_append] at hheader
          rw [hbufs, hheader, Frame.bytes]
          cases hserver : cfg.isServer with
          | true => simp [Frame.written, maskOf, maskedWith]
          | false => simp [hextra hserver, Frame.written, maskOf, maskedWith]
        have hne : bufs.flatten ≠ [] := by
          rw [hflat]
          simp [Frame.bytes, FrameHeader.bytes]
        rcases writeBufs_cases bufs room s.netClosed with
          ⟨hok, hsame, hbytes, hopen⟩ | ⟨hbad, hclosed, hnone, x, hx, hbytes⟩
        · left
          refine ⟨hopen hne, ?_⟩
          rw [hopen hne] at hok hsame hbytes
          simp only [WriteSide.flushFrame, ht, if_neg hinvalid, if_neg hclient, WriteSide.write,
            hclose, Bool.false_eq_true, if_false, hopen hne, ← hbufs, hok, hsame, hbytes, hflat,
            if_true, WriteSide.flushed]
        · right
          refine ⟨_, x, hx, hbytes.trans hflat, hnone, ?_⟩
          simp only [WriteSide.flushFrame, ht, if_neg hinvalid, if_neg hclient, WriteSide.write,
            hclose, Bool.false_eq_true, if_false, ← hbufs, hbad, hclosed, WriteSide.flushed]

/-- Nothing goes on the wire any more. -/
def WriteSide.Quiet (s : WriteSide) : Prop := s.netClosed = true ∨ s.closeSent = true

/-- A flush fails then, and writes nothing. -/
theorem flushFrame_quiet (cfg : WriteConfig) {s : WriteSide} {t : FrameType} (hquiet : s.Quiet)
    (final : Bool) (extra : List UInt8) (key : MaskKey) (room : ℕ)
    (ht : s.writeFrameType = some t) :
    ∃ u e, s.flushFrame cfg final extra key room = (u, some e, []) ∧ u.Quiet := by
  by_cases hinvalid : isControl t ∧
      (final = false ∨ s.buf.length + extra.length > maxControlFramePayloadSize)
  · exact ⟨{ s with writeSeq := s.writeSeq + 1, writeFrameType := none, buf := [] },
      .invalidControlFrame, by simp only [WriteSide.flushFrame, ht, if_pos hinvalid], hquiet⟩
  · by_cases hclient : cfg.isServer = false ∧ extra ≠ []
    · exact ⟨{ s with writeErr := some .extraInClientMode }, .extraInClientMode,
        by simp only [WriteSide.flushFrame, ht, if_neg hinvalid, if_pos hclient], hquiet⟩
    · cases hclose : s.closeSent with
      | true =>
          refine ⟨s.flushed final true s.netClosed (some .closeSent), .closeSent, ?_, .inr rfl⟩
          simp only [WriteSide.flushFrame, ht, if_neg hinvalid, if_neg hclient, WriteSide.write,
            hclose, if_true, WriteSide.flushed]
      | false =>
          have hclosed : s.netClosed = true := hquiet.resolve_right (by simp [hclose])
          -- the header is not empty, so the first write already fails
          have hne : flushHeader cfg.isServer final t key (s.buf.length + extra.length) ++
              (if cfg.isServer then s.buf else (maskBytes key 0 s.buf).1) ≠ [] := by
            simp only [flushHeader]
            split_ifs <;> simp
          refine ⟨s.flushed final (t = .close) true (some .network), .network, ?_, .inl rfl⟩
          simp only [WriteSide.flushFrame, ht, if_neg hinvalid, if_neg hclient, WriteSide.write,
            hclose, Bool.false_eq_true, if_false, hclosed, writeBufs, if_neg hne, if_true,
            WriteSide.flushed]

/-- What `WriteControl` can do: refuse the call; fail where nothing can be written; write the frame;
write nothing and leave the connection open; or write a part of the frame and close it. -/
theorem writeControl_cases (cfg : WriteConfig) (s : WriteSide) (t : FrameType) (data : List UInt8)
    (key : MaskKey) (room : ℕ) :
    (∃ e, s.writeControl cfg t data key room = (s, some e, [])) ∨
      isControl t = true ∧ s.closeSent = false ∧ ∃ hshort : data.length ≤ 125,
        let f := Frame.written true t (maskOf cfg.isServer key) data (by omega)
        (s.netClosed = false ∧ s.writeControl cfg t data key room =
          ({ s with closeSent := t = .close }, none, f.bytes)) ∨
        s.writeControl cfg t data key room =
          ({ s with closeSent := t = .close }, some .network, []) ∨
        ∃ b x, x ≠ [] ∧ b ++ x = f.bytes ∧ s.netClosed = false ∧
          s.writeControl cfg t data key room =
            ({ s with closeSent := t = .close, netClosed := true }, some .network, b) := by
  simp only [WriteSide.writeControl]
  by_cases hcontrol : isControl t = false
  · exact .inl ⟨_, if_pos hcontrol⟩
  by_cases hlong : data.length > maxControlFramePayloadSize
  · exact .inl ⟨_, by rw [if_neg hcontrol, if_pos hlong]⟩
  by_cases hclose : s.closeSent = true
  · exact .inl ⟨_, by rw [if_neg hcontrol, if_neg hlong, if_pos hclose]⟩
  right
  have hshort : data.length ≤ 125 := by
    simpa only [maxControlFramePayloadSize, not_lt] using hlong
  refine ⟨by simpa using hcontrol, by simpa using hclose, hshort, ?_⟩
  rw [if_neg hcontrol, if_neg hlong, if_neg hclose]
  simp only [← controlBytes_eq cfg.isServer t key hshort]
  cases hclosed : s.netClosed with
  | true => exact .inr (.inl rfl)
  | false =>
      by_cases hroom : (controlBytes cfg.isServer t data key).length ≤ room
      · simp only [Bool.false_eq_true, if_false, if_pos hroom]
        exact .inl ⟨trivial, trivial⟩
      · by_cases hzero : room = 0
        · simp only [Bool.false_eq_true, if_false, if_neg hroom, if_pos hzero]
          exact .inr (.inl trivial)
        · simp only [Bool.false_eq_true, if_false, if_neg hroom, if_neg hzero]
          refine .inr (.inr ⟨_, (controlBytes cfg.isServer t data key).drop room, ?_,
            List.take_append_drop room _, trivial, rfl⟩)
          intro hnil
          have hlen := congrArg List.length hnil
          rw [List.length_drop, List.length_nil] at hlen
          omega

/-! ## Frames at the receiver -/

section Taken

variable {env : ReadEnv} {r : Receiving} {mask : Option MaskKey}

/-- A control frame may stand anywhere. -/
theorem step_control (hmask : mask.isSome = env.isServer) {t : FrameType} (ht : isControl t = true)
    (hclose : t ≠ .close) {data : List UInt8} (hshort : data.length ≤ 125)
    (hlt : data.length < 2 ^ 63) :
    (receiver env).step r (Frame.written true t mask data hlt) = some (r, []) := by
  have hform : (Frame.written true t mask data hlt).header.form = .byte := by
    show LengthForm.shortest data.length = _
    rw [LengthForm.shortest, if_neg (by omega), if_neg (by omega)]
  refine receiver_step_iff.mpr ⟨⟨firstByte_type t true, firstByte_reserved t true, hmask, ?_⟩,
    .inl ⟨ht, hclose, rfl, rfl⟩⟩
  cases t with
  | close | ping | pong => exact ⟨hform, Frame.written_final⟩
  | continuation | text | binary => exact absurd ht (by simp [isControl])

/-- A data frame goes on with what the receiver has. -/
theorem step_data (hmask : mask.isSome = env.isServer) {t : FrameType} {m : Message}
    (ht : isControl t = false) (hbase : r.base t = some m) (hlen : r.readLength = m.2.length)
    (hplace : ∀ h, MayStand r.opened.isNone h t) (final : Bool) {payload : List UInt8}
    (hlt : payload.length < 2 ^ 63) (hsum : (m.2 ++ payload).length < 2 ^ 63)
    (hlimit : WithinLimit env (m.2 ++ payload).length) :
    (receiver env).step r (Frame.written final t mask payload hlt) =
      some (Receiving.extend (m.1, m.2 ++ payload) (m.2 ++ payload).length final) := by
  have hcount : int64 (r.readLength + int64 payload.length) = (m.2 ++ payload).length := by
    rw [int64_of_lt hlt, hlen, ← int64_of_lt hsum, List.length_append, Nat.cast_add]
  refine receiver_step_iff.mpr ⟨⟨firstByte_type t final, firstByte_reserved t final, hmask,
    hplace _⟩, .inr ⟨ht, (m.1, m.2 ++ payload), ?_, ?_, ?_⟩⟩
  · show (r.base t).map _ = _
    rw [hbase]
    rfl
  · show WithinLimit env (int64 (r.readLength + int64 payload.length))
    rwa [hcount]
  · rw [Frame.written_final]
    show _ = Receiving.extend _ (int64 (r.readLength + int64 payload.length)) final
    rw [hcount]
    rfl

end Taken

/-! ## The invariant -/

/-- The other side takes a message of this length. -/
structure Fits (env : ReadEnv) (data : List UInt8) : Prop where
  lt : data.length < 2 ^ 63
  within : WithinLimit env data.length

/-- A shorter message fits as well. -/
theorem Fits.of_le {env : ReadEnv} {data b : List UInt8} (h : Fits env data)
    (hle : b.length ≤ data.length) : Fits env b :=
  ⟨by have := h.lt; omega, h.within.imp_right fun hw => by omega⟩

/-- A call under way: the receiver has the bytes `q` of its message, then come those in the buffer
and those that are still to be copied. -/
structure Sending (env : ReadEnv) (s : WriteSide) (r : Receiving) (c : Call) (left : List UInt8) :
    Prop where
  fits : Fits env c.data
  typeOk : isControl c.messageType = true ∨ isData c.messageType = true
  data_eq : ∃ q, q ++ (s.buf ++ left) = c.data ∧ r.readLength = q.length ∧
    ((q = [] ∧ r.opened = none ∧ s.writeFrameType = some c.messageType) ∨
      s.writeFrameType = some .continuation ∧
        ∃ t, dataType c.messageType = some t ∧ r.opened = some (t, q))

/-- What holds before each flush of a call, as long as all went well. -/
def StageOk (cfg : WriteConfig) (env : ReadEnv) (r : Receiving) (s : WriteSide) : Stage → Prop
  | .idle => s.writeFrameType = none ∧ s.buf = [] ∧ r = .idle
  | .previous _ => False
  | .whole c => s.buf = [] ∧ c.seq = s.writeSeq ∧ cfg.isServer = true ∧ Sending env s r c c.data
  | .copying c rest => Sending env s r c rest
  | .last c => Sending env s r c []

/-- The bytes behind the last frame that the receiver takes: a close frame, or a part of a control
frame, or a part of a frame of the first message that is not sent. -/
def Torn (sent calls : List Message) (r : Receiving) (tail : List UInt8) : Prop :=
  ∃ f : Frame, (f.frameType = .close ∧ tail = f.bytes) ∨
    ∃ x, x ≠ [] ∧ tail ++ x = f.bytes ∧ (isControl f.frameType = true ∨
      ∃ t data q, sent ++ [(t, data)] <+: calls ∧ r.base f.frameType = some (t, q) ∧
        q ++ f.payload <+: data)

/-- What the receiver has of a message that is not complete is the front of the first message that
is not sent. -/
def PartNext (sent calls : List Message) (r : Receiving) : Prop :=
  ∀ t q, r.opened = some (t, q) → ∃ data, sent ++ [(t, data)] <+: calls ∧ q <+: data

/-- All went well so far. -/
structure Live (cfg : WriteConfig) (env : ReadEnv) (r : Receiving) (s : WriteSide) : Prop where
  writeErr : s.writeErr = none
  closeSent : s.closeSent = false
  stage : StageOk cfg env r s s.stage

/-- Nothing more goes on the wire. A call under way finds this out with its next flush. -/
structure Ended (sent calls : List Message) (r : Receiving) (tail : List UInt8) (s : WriteSide) :
    Prop where
  quiet : s.Quiet
  framed : s.stage ≠ .idle → s.writeFrameType ≠ none
  torn : Torn sent calls r tail
  opened : PartNext sent calls r

/-- The frames on the wire are taken by the receiver, and give what was sent; something else may be
behind them when the writing has ended. -/
def Inv (cfg : WriteConfig) (env : ReadEnv) (calls : List Message) (s : WriteSide)
    (l : List WriteEvent) : Prop :=
  ∃ gs tail r, wireOf l = wireBytes gs ++ tail ∧ (receiver env).exec gs = some (r, sentOf l) ∧
    ((tail = [] ∧ Live cfg env r s) ∨ Ended (sentOf l) calls r tail s)

section Live

variable {cfg : WriteConfig} {env : ReadEnv} {s : WriteSide} {r : Receiving} {c : Call}
  {left : List UInt8}

/-- The frame that comes next: a control frame on its own, or one that goes on with the message. -/
theorem Sending.frame (h : Sending env s r c left) : ∃ t, s.writeFrameType = some t ∧
    ((isControl t = true ∧ dataType c.messageType = none ∧ r = .idle ∧ t = c.messageType) ∨
      isControl t = false ∧ ∃ t' q, dataType c.messageType = some t' ∧ r.base t = some (t', q) ∧
        r.readLength = q.length ∧ q ++ (s.buf ++ left) = c.data ∧
        ∀ h, MayStand r.opened.isNone h t) := by
  obtain ⟨q, hdata, hlen, ⟨rfl, hnone, hframe⟩ | ⟨hframe, t, ht, hsome⟩⟩ := h.data_eq
  · have hidle : r = .idle := by
      rcases r with ⟨opened, len⟩
      simp only at hnone hlen
      rw [hnone, hlen]
      rfl
    refine ⟨c.messageType, hframe, ?_⟩
    have htype := h.typeOk
    cases hmt : c.messageType with
    | close | ping | pong => exact .inl ⟨rfl, rfl, hidle, rfl⟩
    | text | binary => exact .inr ⟨rfl, _, [], rfl, rfl, hlen, hdata, fun _ => by rw [hnone]; rfl⟩
    | continuation =>
        rw [hmt] at htype
        exact absurd htype (by simp [isControl, isData])
  · exact ⟨_, hframe, .inr ⟨rfl, t, q, ht, hsome, hlen, hdata, fun _ => by rw [hsome]; rfl⟩⟩

/-- What the receiver has of the message. -/
theorem Sending.opened (h : Sending env s r c left) {t : MessageType} {q : List UInt8}
    (hopened : r.opened = some (t, q)) : dataType c.messageType = some t ∧ q <+: c.data := by
  obtain ⟨q', hdata, -, ⟨-, hnone, -⟩ | ⟨-, t', ht, hsome⟩⟩ := h.data_eq
  · exact absurd (hopened.symm.trans hnone) (by simp)
  · obtain ⟨rfl, rfl⟩ := Prod.mk.inj (Option.some.inj (hopened.symm.trans hsome))
    exact ⟨ht, _, hdata⟩

/-- A round of the copy loop. -/
theorem Sending.copy (cfg : WriteConfig) (h : Sending env s r c left) :
    StageOk cfg env r (s.copy cfg c left) (s.copy cfg c left).stage ∧
      (s.copy cfg c left).writeErr = s.writeErr ∧
        (s.copy cfg c left).closeSent = s.closeSent := by
  obtain ⟨hfits, htype, q, hdata, hlen, hframe⟩ := h
  simp only [WriteSide.copy]
  by_cases hnil : left = []
  · rw [if_pos hnil]
    rw [hnil] at hdata
    exact ⟨⟨hfits, htype, q, hdata, hlen, hframe⟩, rfl, rfl⟩
  · rw [if_neg hnil]
    by_cases hfull : cfg.size - s.buf.length = 0
    · rw [if_pos hfull]
      exact ⟨⟨hfits, htype, q, hdata, hlen, hframe⟩, rfl, rfl⟩
    · rw [if_neg hfull]
      by_cases hle : left.length ≤ cfg.size - s.buf.length
      · rw [if_pos hle]
        refine ⟨⟨hfits, htype, q, ?_, hlen, hframe⟩, rfl, rfl⟩
        simpa only [List.append_nil] using hdata
      · rw [if_neg hle]
        refine ⟨⟨hfits, htype, q, ?_, hlen, hframe⟩, rfl, rfl⟩
        show q ++ ((s.buf ++ left.take _) ++ left.drop _) = c.data
        rwa [List.append_assoc, List.take_append_drop]

/-- What a flush can come to while all goes well. -/
inductive Flushed (env : ReadEnv) (s : WriteSide) (r : Receiving) (c : Call) (left : List UInt8)
    (final : Bool) : WriteSide × Option WriteErr × List UInt8 → Prop where
  /-- a control frame that must not be sent -/
  | refused (hr : r = .idle) : Flushed env s r c left final
      ({ s with writeSeq := s.writeSeq + 1, writeFrameType := none, buf := [] },
        some .invalidControlFrame, [])
  /-- a close frame -/
  | closing (f : Frame) (hf : f.frameType = .close) (hfinal : final = true) (hr : r = .idle)
      (hc : dataType c.messageType = none) : Flushed env s r c left final
      (s.flushed final true false none, none, f.bytes)
  /-- the last frame of the message -/
  | message (f : Frame) (hfinal : final = true) (hstep : (receiver env).step r f =
        some (.idle, ((dataType c.messageType).map (·, c.data)).toList)) :
      Flushed env s r c left final (s.flushed final false false none, none, f.bytes)
  /-- another frame of the message -/
  | part (f : Frame) (hfinal : final = false) (r' : Receiving)
      (hstep : (receiver env).step r f = some (r', []))
      (hsending : Sending env (s.flushed final false false none) r' c left) :
      Flushed env s r c left final (s.flushed final false false none, none, f.bytes)
  /-- a part of a frame -/
  | torn (f : Frame) (b x : List UInt8) (closing : Bool) (hx : x ≠ []) (hb : b ++ x = f.bytes)
      (hf : isControl f.frameType = true ∨ ∃ t q, dataType c.messageType = some t ∧
        r.base f.frameType = some (t, q) ∧ q ++ f.payload <+: c.data) :
      Flushed env s r c left final
        (s.flushed final closing true (some .network), some .network, b)

theorem Sending.flush {extra : List UInt8} {final : Bool}
    (hpeer : env.isServer = !cfg.isServer) (h : Sending env s r c (extra ++ left))
    (hopen : s.closeSent = false) (hextra : cfg.isServer = false → extra = [])
    (hfinal : final = true → left = []) (key : MaskKey) (room : ℕ) :
    Flushed env s r c left final (s.flushFrame cfg final extra key room) := by
  have hmask : (maskOf cfg.isServer key).isSome = env.isServer := by rw [maskOf_isSome, hpeer]
  obtain ⟨t, ht, hnext⟩ := h.frame
  have hle : (s.buf ++ extra).length ≤ c.data.length := by
    obtain ⟨q, hdata, -⟩ := h.data_eq
    have hlen := congrArg List.length hdata
    simp only [List.length_append] at hlen ⊢
    omega
  have hlt : (s.buf ++ extra).length < 2 ^ 63 := (h.fits.of_le hle).lt
  rcases flushFrame_cases cfg final key room ht hextra hlt with
    ⟨hcontrol, hrun⟩ | ⟨hclosed, -⟩ | ⟨hcontrol, -, ⟨-, hrun⟩ | ⟨b, x, hx, hb, -, hrun⟩⟩
  · rw [hrun]
    rcases hnext with ⟨-, -, hidle, -⟩ | ⟨hdata, -⟩
    · exact .refused hidle
    · exact absurd (hcontrol.symm.trans hdata) (by simp)
  · exact absurd (hopen.symm.trans hclosed) (by simp)
  · rw [hrun]
    rcases hnext with ⟨ht', hdata, rfl, -⟩ | ⟨ht', t', q, hdata, hbase, hlen, hsum, hplace⟩
    · obtain ⟨rfl, hshort⟩ := hcontrol ht'
      by_cases hclose : t = .close
      · subst hclose
        exact .closing _ rfl rfl rfl hdata
      · simp only [hclose, decide_false]
        refine .message _ rfl ?_
        rw [step_control hmask ht' hclose hshort hlt, hdata]
        rfl
    · have hclose : t ≠ .close := fun hclose => by rw [hclose] at ht'; exact absurd ht' (by decide)
      simp only [hclose, decide_false]
      have hpart : (q ++ (s.buf ++ extra)).length ≤ c.data.length := by
        have := congrArg List.length hsum
        simp only [List.length_append] at this ⊢
        omega
      have hfit := h.fits.of_le hpart
      have hstep := step_data hmask ht' hbase hlen hplace final hlt hfit.lt hfit.within
      cases final with
      | true =>
          refine .message _ rfl ?_
          rw [hstep, hdata]
          rw [hfinal rfl, List.append_nil] at hsum
          rw [Receiving.extend, if_pos rfl, hsum]
          rfl
      | false =>
          refine .part _ rfl ⟨some (t', q ++ (s.buf ++ extra)), (q ++ (s.buf ++ extra)).length⟩
            hstep ⟨h.fits, h.typeOk, q ++ (s.buf ++ extra), ?_, rfl, .inr ⟨rfl, t', hdata, rfl⟩⟩
          show q ++ (s.buf ++ extra) ++ ([] ++ left) = c.data
          rw [← hsum]
          simp only [List.append_assoc, List.nil_append]
  · rw [hrun]
    refine .torn _ b x _ hx hb ?_
    rcases hnext with ⟨ht', -⟩ | ⟨ht', t', q, hdata, hbase, hlen, hsum, hplace⟩
    · exact .inl ht'
    · refine .inr ⟨t', q, hdata, hbase, left, ?_⟩
      rw [← hsum]
      simp only [Frame.written, List.append_assoc]

/-- Where a message begins. -/
theorem StageOk.begin {t : FrameType} {data : List UInt8} (hfits : Fits env data)
    (h : StageOk cfg env r s .idle) :
    (s.begin cfg t data).1.writeErr = s.writeErr ∧
      (s.begin cfg t data).1.closeSent = s.closeSent ∧
      StageOk cfg env r (s.begin cfg t data).1 (s.begin cfg t data).1.stage := by
  obtain ⟨hframe, hbuf, rfl⟩ := h
  simp only [WriteSide.begin]
  by_cases hbad : isControl t = false ∧ isData t = false
  · rw [if_pos hbad]
    exact ⟨rfl, rfl, hframe, hbuf, rfl⟩
  · rw [if_neg hbad]
    have htype : isControl t = true ∨ isData t = true := by
      cases hc : isControl t with
      | true => exact .inl rfl
      | false => exact .inr (by simpa [hc] using hbad)
    have hsending :
        Sending env { s with writeFrameType := some t } .idle ⟨t, data, s.writeSeq⟩ data :=
      ⟨hfits, htype, [], by rw [hbuf]; rfl, rfl, .inl ⟨rfl, rfl, rfl⟩⟩
    by_cases hlarge : data.length > 2 * cfg.bufLen ∧ cfg.isServer
    · rw [if_pos hlarge]
      exact ⟨rfl, rfl, hbuf, rfl, hlarge.2,
        ⟨hfits, htype, [], by rw [hbuf]; rfl, rfl, .inl ⟨rfl, rfl, rfl⟩⟩⟩
    · rw [if_neg hlarge]
      obtain ⟨hok, herr, hclose⟩ := hsending.copy cfg
      exact ⟨herr, hclose, hok⟩

end Live

section Steps

variable {cfg : WriteConfig} {env : ReadEnv} {s t : WriteSide} {l o : List WriteEvent}
  {calls calls' : List Message}

@[simp] theorem wireOf_append (l k : List WriteEvent) : wireOf (l ++ k) = wireOf l ++ wireOf k :=
  List.flatMap_append

theorem PartNext.mono {sent calls calls' : List Message} {r : Receiving}
    (h : PartNext sent calls r) (hcalls : calls <+: calls') : PartNext sent calls' r := by
  intro mt q hopened
  obtain ⟨data, hnext, hpre⟩ := h mt q hopened
  exact ⟨data, hnext.trans hcalls, hpre⟩

theorem Torn.mono {sent calls calls' : List Message} {r : Receiving} {tail : List UInt8}
    (h : Torn sent calls r tail) (hcalls : calls <+: calls') : Torn sent calls' r tail := by
  obtain ⟨f, hclose | ⟨x, hx, htail, hcontrol | ⟨t, data, q, hnext, hdata⟩⟩⟩ := h
  · exact ⟨f, .inl hclose⟩
  · exact ⟨f, .inr ⟨x, hx, htail, .inl hcontrol⟩⟩
  · exact ⟨f, .inr ⟨x, hx, htail, .inr ⟨t, data, q, hnext.trans hcalls, hdata⟩⟩⟩

/-- The message of the call under way is the first that is not sent. -/
theorem CallsOk.next {c : Call} {final : Bool} {extra : List UInt8} {mt : MessageType}
    (h : CallsOk s (sentOf l) calls) (hframe : s.stage.frame = some (c, final, extra))
    (hc : dataType c.messageType = some mt) : sentOf l ++ [(mt, c.data)] <+: calls := by
  cases h with
  | running _ _ hcalls =>
      rw [underway_of_frame hframe, Call.message, hc] at hcalls
      exact hcalls ▸ List.prefix_refl _
  | failed hidle =>
      rw [hidle] at hframe
      exact absurd hframe (by simp [Stage.frame])

/-- The receiver takes one more frame. -/
theorem exec_snoc {gs : List Frame} {f : Frame} {r r' : Receiving} {ms ns : List Message}
    (hexec : (receiver env).exec gs = some (r, ms))
    (hstep : (receiver env).step r f = some (r', ns)) :
    (receiver env).exec (gs ++ [f]) = some (r', ms ++ ns) :=
  (receiver env).exec_concat_iff.mpr ⟨r, ms, ns, hexec, hstep, rfl⟩

theorem wireBytes_snoc (gs : List Frame) (f : Frame) :
    wireBytes (gs ++ [f]) = wireBytes gs ++ f.bytes := by
  rw [wireBytes_append, wireBytes_cons, wireBytes_nil, List.append_nil]

/-- What the other side takes. -/
def WriteAction.Ok (env : ReadEnv) : WriteAction → Prop
  | .writeMessage _ data => Fits env data
  | _ => True

/-- Steps that put nothing on the wire and end no message. -/
theorem Inv.silent (h : Inv cfg env calls s l) (hcalls : calls <+: calls') (hwire : wireOf o = [])
    (hsent : sentOf o = [])
    (hlive : ∀ r, Live cfg env r s → Live cfg env r t ∨ Ended (sentOf l) calls' r [] t)
    (hended : s.Quiet → (s.stage ≠ .idle → s.writeFrameType ≠ none) →
      t.Quiet ∧ (t.stage ≠ .idle → t.writeFrameType ≠ none)) : Inv cfg env calls' t (l ++ o) := by
  obtain ⟨gs, tail, r, hbytes, hexec, h⟩ := h
  have hsame : sentOf (l ++ o) = sentOf l := by rw [sentOf_append, hsent, List.append_nil]
  refine ⟨gs, tail, r, by rw [wireOf_append, hwire, List.append_nil, hbytes], by rw [hsame, hexec],
    ?_⟩
  rw [hsame]
  rcases h with ⟨rfl, h⟩ | ⟨hquiet, hframed, htorn, hopened⟩
  · rcases hlive r h with h | h
    · exact .inl ⟨rfl, h⟩
    · exact .inr h
  · obtain ⟨hquiet, hframed⟩ := hended hquiet hframed
    exact .inr ⟨hquiet, hframed, htorn.mono hcalls, hopened.mono hcalls⟩

/-- Where a message begins it has a frame. -/
theorem begin_framed (cfg : WriteConfig) (s : WriteSide) (ft : FrameType) (data : List UInt8) :
    ((s.begin cfg ft data).1.Quiet ↔ s.Quiet) ∧ ((s.begin cfg ft data).1.stage ≠ .idle →
      (s.begin cfg ft data).1.writeFrameType ≠ none) := by
  simp only [WriteSide.begin, WriteSide.copy, WriteSide.Quiet]
  split_ifs <;> simp

theorem begin_events (cfg : WriteConfig) (s : WriteSide) (ft : FrameType) (data : List UInt8) :
    wireOf (s.begin cfg ft data).2 = [] ∧ sentOf (s.begin cfg ft data).2 = [] := by
  simp only [WriteSide.begin]
  split_ifs <;> exact ⟨rfl, rfl⟩

theorem Inv.writeMessage {ft : FrameType} {data : List UInt8} (hfits : Fits env data)
    (h : Inv cfg env calls s l) (hcalls : calls <+: calls')
    (hstep : (sender cfg).step s (.writeMessage ft data) = some (t, o)) :
    Inv cfg env calls' t (l ++ o) := by
  have hidle : s.stage = .idle := by
    by_contra hbusy
    simp only [sender, if_neg hbusy, reduceCtorEq] at hstep
  simp only [sender, if_pos hidle] at hstep
  cases herr : s.writeErr with
  | some e =>
      simp only [herr] at hstep
      obtain ⟨rfl, rfl⟩ := Prod.mk.inj (Option.some.inj hstep)
      exact h.silent hcalls rfl rfl (fun _ h => .inl h)
        fun hquiet hframed => ⟨hquiet, hframed⟩
  | none =>
      simp only [herr] at hstep
      by_cases hframe : s.writeFrameType = none
      · rw [if_pos hframe, Option.some.injEq] at hstep
        obtain ⟨hwire, hsent⟩ := begin_events cfg s ft data
        obtain ⟨hquiet, hframed⟩ := begin_framed cfg s ft data
        rw [hstep] at hwire hsent hquiet hframed
        refine h.silent hcalls hwire hsent (fun r hlive => ?_)
          fun hq _ => ⟨hquiet.mpr hq, hframed⟩
        obtain ⟨herr', hopen, hstage⟩ := hlive
        rw [hidle] at hstage
        have hbegin := hstage.begin (t := ft) hfits
        rw [hstep] at hbegin
        exact .inl ⟨hbegin.1.trans herr, hbegin.2.1.trans hopen, hbegin.2.2⟩
      · rw [if_neg hframe] at hstep
        obtain ⟨rfl, rfl⟩ := Prod.mk.inj (Option.some.inj hstep)
        refine h.silent hcalls rfl rfl (fun r hlive => ?_)
          fun hquiet _ => ⟨hquiet, fun _ => hframe⟩
        have hstage := hlive.stage
        rw [hidle] at hstage
        exact absurd hstage.1 hframe

theorem sentOf_failed (b : List UInt8) (ft : FrameType) (data : List UInt8) (e : WriteErr) :
    sentOf (l ++ [.bytes b, .failed ft data e]) = sentOf l := by
  rw [sentOf_append]
  exact List.append_nil _

/-- The call that a stage stands for, with what is still to be copied. -/
theorem StageOk.sending {r : Receiving} {st : Stage} {c : Call} {final : Bool}
    {extra : List UInt8} (h : StageOk cfg env r s st) (hframe : st.frame = some (c, final, extra)) :
    ∃ left, Sending env s r c (extra ++ left) ∧ (cfg.isServer = false → extra = []) ∧
      (final = true → left = [] ∧ (st = .last c ∨ st = .whole c ∧ c.seq = s.writeSeq)) ∧
      (final = false → st = .copying c left) := by
  cases st with
  | idle => exact absurd hframe (by simp [Stage.frame])
  | previous c' => exact h.elim
  | whole c' =>
      obtain ⟨rfl, rfl, rfl⟩ : c' = c ∧ true = final ∧ c'.data = extra := by
        simpa [Stage.frame] using hframe
      obtain ⟨-, hseq, hserver, hsending⟩ := h
      exact ⟨[], by rwa [List.append_nil], by simp [hserver], fun _ => ⟨rfl, .inr ⟨rfl, hseq⟩⟩,
        by simp⟩
  | copying c' rest =>
      obtain ⟨rfl, rfl, rfl⟩ : c' = c ∧ false = final ∧ [] = extra := by
        simpa [Stage.frame] using hframe
      exact ⟨rest, h, fun _ => rfl, by simp, fun _ => rfl⟩
  | last c' =>
      obtain ⟨rfl, rfl, rfl⟩ : c' = c ∧ true = final ∧ [] = extra := by
        simpa [Stage.frame] using hframe
      exact ⟨[], h, fun _ => rfl, fun _ => ⟨rfl, .inl rfl⟩, by simp⟩

theorem Inv.flush {key : MaskKey} {room : ℕ} (hpeer : env.isServer = !cfg.isServer)
    (h : Inv cfg env calls s l) (hcalls : CallsOk s (sentOf l) calls)
    (hstep : (sender cfg).step s (.flush key room) = some (t, o)) :
    Inv cfg env calls t (l ++ o) := by
  simp only [sender] at hstep
  cases hframe : s.stage.frame with
  | none => simp only [hframe, reduceCtorEq] at hstep
  | some p =>
      obtain ⟨c, final, extra⟩ := p
      simp only [hframe, Option.some.injEq] at hstep
      have hbusy : s.stage ≠ .idle := by
        intro hidle
        rw [hidle] at hframe
        exact absurd hframe (by simp [Stage.frame])
      obtain ⟨gs, tail, r, hwire, hexec, ⟨rfl, herr, hopen, hstage⟩ | hend⟩ := h
      · obtain ⟨left, hsending, hextra, hlast, hcopying⟩ := hstage.sending hframe
        have hflushed := hsending.flush hpeer hopen hextra (fun hf => (hlast hf).1) key room
        rw [List.append_nil] at hwire
        generalize hrun : s.flushFrame cfg final extra key room = run at hflushed hstep
        cases hflushed with
        | refused hr =>
            obtain ⟨rfl, rfl⟩ := Prod.mk.inj hstep
            exact ⟨gs, [], r, by rw [wireOf_append, hwire]; rfl,
              by rw [sentOf_append, hexec]; exact congrArg _ (congrArg _ (List.append_nil _).symm),
              .inl ⟨rfl, herr, hopen, rfl, rfl, hr⟩⟩
        | closing f hf hfinal hr hc =>
            subst hfinal hr
            have hnext := proceed_final cfg (s := s)
              (u := s.flushed true true false none) (hlast rfl).2 rfl
            simp only [hnext] at hstep
            obtain ⟨rfl, rfl⟩ := Prod.mk.inj hstep
            refine ⟨gs, f.bytes, .idle, by rw [wireOf_append, hwire]; simp [wireOf], ?_,
              .inr ⟨.inr rfl, fun h => absurd rfl h, ⟨f, .inl ⟨hf, rfl⟩⟩,
                fun _ _ h => absurd h (by simp [Receiving.idle])⟩⟩
            rw [sentOf_append, hexec]
            simp [sentOf, hc]
        | message f hfinal hmessage =>
            subst hfinal
            have hnext := proceed_final cfg (s := s)
              (u := s.flushed true false false none) (hlast rfl).2 rfl
            simp only [hnext] at hstep
            obtain ⟨rfl, rfl⟩ := Prod.mk.inj hstep
            refine ⟨gs ++ [f], [], .idle, ?_, ?_, .inl ⟨rfl, rfl, rfl, rfl, rfl, rfl⟩⟩
            · rw [wireOf_append, hwire, wireBytes_snoc]
              simp [wireOf]
            · rw [exec_snoc hexec hmessage, sentOf_append]
              cases hc : dataType c.messageType <;> simp [sentOf, hc]
        | part f hfinal r' hpart hsending' =>
            subst hfinal
            simp only [hcopying rfl, WriteSide.proceed] at hstep
            obtain ⟨rfl, rfl⟩ := Prod.mk.inj hstep
            obtain ⟨hok, herr', hopen'⟩ := hsending'.copy cfg
            refine ⟨gs ++ [f], [], r', ?_, ?_, .inl ⟨rfl, herr', hopen', hok⟩⟩
            · rw [wireOf_append, hwire, wireBytes_snoc]
              simp [wireOf]
            · rw [exec_snoc hexec hpart, sentOf_append]
              rfl
        | torn f b x closing hx hb hf =>
            simp only [WriteSide.leave, Prod.mk.injEq] at hstep
            obtain ⟨rfl, rfl⟩ := hstep
            refine ⟨gs, b, r, by rw [wireOf_append, hwire]; simp [wireOf],
              by rw [sentOf_failed, hexec], ?_⟩
            rw [sentOf_failed]
            refine .inr ⟨.inl rfl, fun h => absurd rfl h, ⟨f, .inr ⟨x, hx, hb, ?_⟩⟩, ?_⟩
            · refine hf.imp_right ?_
              rintro ⟨t', q, hc, hbase, hpre⟩
              exact ⟨t', c.data, q, hcalls.next hframe hc, hbase, hpre⟩
            · intro t' q hopened
              obtain ⟨hc, hpre⟩ := hsending.opened hopened
              exact ⟨c.data, hcalls.next hframe hc, hpre⟩
      · obtain ⟨ft, hft⟩ := Option.ne_none_iff_exists'.mp (hend.framed hbusy)
        obtain ⟨u, e, hrun, hquiet⟩ := flushFrame_quiet cfg hend.quiet final extra key room hft
        rw [hrun] at hstep
        simp only [WriteSide.leave, Prod.mk.injEq] at hstep
        obtain ⟨rfl, rfl⟩ := hstep
        refine ⟨gs, tail, r, by rw [wireOf_append, hwire]; exact List.append_nil _,
          by rw [sentOf_failed, hexec], ?_⟩
        rw [sentOf_failed]
        exact .inr ⟨hquiet, fun h => absurd rfl h, hend.torn, hend.opened⟩

/-- What a stage says is about the buffer and the message under way alone. -/
theorem StageOk.of_fields {r : Receiving} {st : Stage} {u : WriteSide}
    (h : StageOk cfg env r s st) (hbuf : u.buf = s.buf)
    (hframe : u.writeFrameType = s.writeFrameType) (hseq : u.writeSeq = s.writeSeq) :
    StageOk cfg env r u st := by
  have hsending : ∀ {c left}, Sending env s r c left → Sending env u r c left := by
    rintro c left ⟨hfits, htype, q, hdata⟩
    rw [← hbuf, ← hframe] at hdata
    exact ⟨hfits, htype, q, hdata⟩
  cases st with
  | idle => exact ⟨hframe.trans h.1, hbuf.trans h.2.1, h.2.2⟩
  | previous c => exact h
  | whole c => exact ⟨hbuf.trans h.1, h.2.1.trans hseq.symm, h.2.2.1, hsending h.2.2.2⟩
  | copying c rest => exact hsending h
  | last c => exact hsending h

theorem not_quiet (hnet : s.netClosed = false) (hclose : s.closeSent = false) : ¬ s.Quiet := by
  simp [WriteSide.Quiet, hnet, hclose]

/-- Before a flush there is a frame. -/
theorem StageOk.framed {r : Receiving} (h : StageOk cfg env r s s.stage) :
    s.stage ≠ .idle → s.writeFrameType ≠ none := by
  intro hbusy
  obtain ⟨c, final, extra, hframe⟩ : ∃ c final extra, s.stage.frame = some (c, final, extra) := by
    cases hst : s.stage with
    | idle => exact absurd hst hbusy
    | previous c | whole c | copying c rest | last c => exact ⟨_, _, _, rfl⟩
  obtain ⟨left, hsending, -⟩ := h.sending hframe
  obtain ⟨ft, hft, -⟩ := hsending.frame
  simp [hft]

/-- All that the receiver has of a message belongs to the call under way. -/
theorem StageOk.partNext {r : Receiving} (h : StageOk cfg env r s s.stage)
    (hcalls : CallsOk s (sentOf l) calls) : PartNext (sentOf l) calls r := by
  intro mt q hopened
  cases hframe : s.stage.frame with
  | none =>
      cases hst : s.stage with
      | idle =>
          rw [hst] at h
          rw [h.2.2] at hopened
          exact absurd hopened (by simp [Receiving.idle])
      | previous c | whole c | copying c rest | last c =>
          rw [hst] at hframe
          exact absurd hframe (by simp [Stage.frame])
  | some p =>
      obtain ⟨c, final, extra⟩ := p
      obtain ⟨left, hsending, -⟩ := h.sending hframe
      obtain ⟨hc, hpre⟩ := hsending.opened hopened
      exact ⟨c.data, hcalls.next hframe hc, hpre⟩

theorem sentOf_controlled (b : List UInt8) (ft : FrameType) (data : List UInt8)
    (e : Option WriteErr) : sentOf (l ++ [.bytes b, .controlled ft data e]) = sentOf l := by
  rw [sentOf_append]
  exact List.append_nil _

theorem Inv.writeControl {ft : FrameType} {data : List UInt8} {key : MaskKey} {room : ℕ}
    (hpeer : env.isServer = !cfg.isServer) (h : Inv cfg env calls s l)
    (hcalls : CallsOk s (sentOf l) calls)
    (hstep : (sender cfg).step s (.writeControl ft data key room) = some (t, o)) :
    Inv cfg env calls t (l ++ o) := by
  have hmask : (maskOf cfg.isServer key).isSome = env.isServer := by rw [maskOf_isSome, hpeer]
  simp only [sender, Option.some.injEq] at hstep
  rcases writeControl_cases cfg s ft data key room with
    ⟨e, hrun⟩ | ⟨hcontrol, hclose, hshort, hcases⟩
  · rw [hrun] at hstep
    obtain ⟨rfl, rfl⟩ := Prod.mk.inj hstep
    exact h.silent (List.prefix_refl _) rfl rfl (fun _ h => .inl h)
      fun hquiet hframed => ⟨hquiet, hframed⟩
  · generalize hf : Frame.written true ft (maskOf cfg.isServer key) data (by omega) = f at hcases
    have hft : f.frameType = ft := by rw [← hf]; rfl
    rcases hcases with ⟨hnet, hrun⟩ | hrun | ⟨b, x, hx, hb, hnet, hrun⟩
    · rw [hrun] at hstep
      obtain ⟨rfl, rfl⟩ := Prod.mk.inj hstep
      obtain ⟨gs, tail, r, hwire, hexec, ⟨rfl, hlive⟩ | hend⟩ := h
      · rw [List.append_nil] at hwire
        by_cases hclosing : ft = .close
        · refine ⟨gs, f.bytes, r, by rw [wireOf_append, hwire]; simp [wireOf],
            by rw [sentOf_controlled, hexec], ?_⟩
          rw [sentOf_controlled]
          exact .inr ⟨.inr (by simp [hclosing]), hlive.stage.framed,
            ⟨f, .inl ⟨hft.trans hclosing, rfl⟩⟩, hlive.stage.partNext hcalls⟩
        · have htaken : (receiver env).step r f = some (r, []) := by
            rw [← hf]
            exact step_control hmask hcontrol hclosing hshort _
          refine ⟨gs ++ [f], [], r, ?_, ?_, .inl ⟨rfl, hlive.writeErr, by simp [hclosing], ?_⟩⟩
          · rw [wireOf_append, hwire, wireBytes_snoc]
            simp [wireOf]
          · rw [exec_snoc hexec htaken, sentOf_append]
            rfl
          · exact hlive.stage.of_fields rfl rfl rfl
      · exact absurd hend.quiet (not_quiet hnet hclose)
    · rw [hrun] at hstep
      obtain ⟨rfl, rfl⟩ := Prod.mk.inj hstep
      refine h.silent (List.prefix_refl _) rfl rfl (fun r hlive => ?_)
        fun hquiet hframed => ⟨?_, hframed⟩
      · by_cases hclosing : ft = .close
        · exact .inr ⟨.inr (by simp [hclosing]), hlive.stage.framed,
            ⟨f, .inr ⟨f.bytes, f.bytes_ne_nil, rfl, .inl (hft ▸ hcontrol)⟩⟩,
            hlive.stage.partNext hcalls⟩
        · exact .inl ⟨hlive.writeErr, by simp [hclosing], hlive.stage.of_fields rfl rfl rfl⟩
      · exact hquiet.imp_right fun hq => absurd (hclose.symm.trans hq) (by simp)
    · rw [hrun] at hstep
      obtain ⟨rfl, rfl⟩ := Prod.mk.inj hstep
      obtain ⟨gs, tail, r, hwire, hexec, ⟨rfl, hlive⟩ | hend⟩ := h
      · rw [List.append_nil] at hwire
        refine ⟨gs, b, r, by rw [wireOf_append, hwire]; simp [wireOf],
          by rw [sentOf_controlled, hexec], ?_⟩
        rw [sentOf_controlled]
        exact .inr ⟨.inl rfl, hlive.stage.framed, ⟨f, .inr ⟨x, hx, hb, .inl (hft ▸ hcontrol)⟩⟩,
          hlive.stage.partNext hcalls⟩
      · exact absurd hend.quiet (not_quiet hnet hclose)

theorem inv_init (cfg : WriteConfig) (env : ReadEnv) : Inv cfg env [] (sender cfg).init [] :=
  ⟨[], [], .idle, rfl, rfl, .inl ⟨rfl, rfl, rfl, rfl, rfl, rfl⟩⟩

theorem Inv.step (hpeer : env.isServer = !cfg.isServer) (h : Inv cfg env calls s l)
    (hcalls : CallsOk s (sentOf l) calls) {a : WriteAction} (hok : a.Ok env)
    (hstep : (sender cfg).step s a = some (t, o)) :
    Inv cfg env (calls ++ dataCalls [a]) t (l ++ o) := by
  cases a with
  | writeMessage ft data => exact h.writeMessage hok (List.prefix_append _ _) hstep
  | flush key room =>
      rw [show dataCalls [.flush key room] = [] from rfl, List.append_nil]
      exact h.flush hpeer hcalls hstep
  | writeControl ft data key room =>
      rw [show dataCalls [.writeControl ft data key room] = [] from rfl, List.append_nil]
      exact h.writeControl hpeer hcalls hstep
  | closeConn =>
      obtain ⟨rfl, rfl⟩ := Prod.mk.inj (Option.some.inj hstep)
      exact h.silent (List.prefix_append _ _) rfl rfl
        (fun r hlive => .inl ⟨hlive.writeErr, hlive.closeSent, hlive.stage.of_fields rfl rfl rfl⟩)
        fun hquiet hframed => ⟨.inl rfl, hframed⟩

theorem inv_exec (hpeer : env.isServer = !cfg.isServer) {as : List WriteAction}
    (hok : ∀ a ∈ as, a.Ok env) (hexec : (sender cfg).exec as = some (s, l)) :
    Inv cfg env (dataCalls as) s l := by
  induction as using List.reverseRecOn generalizing s l with
  | nil =>
      obtain ⟨rfl, rfl⟩ := Prod.mk.inj (Option.some.inj hexec)
      exact inv_init cfg env
  | append_singleton as a ih =>
      obtain ⟨u, k, o, hprev, hstep, rfl⟩ := (sender cfg).exec_concat_iff.mp hexec
      rw [dataCalls_append]
      exact (ih (fun b hb => hok b (by simp [hb])) hprev).step hpeer (callsOk_exec hprev)
        (hok a (by simp)) hstep

end Steps

end Skytime.WebSocket
