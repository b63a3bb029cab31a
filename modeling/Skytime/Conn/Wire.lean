/-
# Skytime.Conn.Wire — both ends of the wire: every frame, and what the other side reads from it.

Server and client pack and unpack frames by hand, each with code of its own. The server sends push
frames and acks of notifies, the benchmark client sends acks of pushes and notifies. The decoders
are shown on a frame that lies in a buffer with any spare room behind it, so also with none: there
an offset beyond the end of the frame would panic.
-/
import Skytime.Conn.Frame

namespace Skytime

open Process

/-! ## Encoding -/

/-- `byte(0x1 << 4 | 0x3 << 1 | 0x1)`: version 1, type 3, from the server. -/
def svrAckByte : UInt8 := (0x1 : UInt8) <<< 4 ||| (0x3 : UInt8) <<< 1 ||| 0x1

/-- `byte(0x1 << 4 | 0x3 << 1 | 0x0)`: version 1, type 3, from the client. -/
def ackByte : UInt8 := (0x1 : UInt8) <<< 4 ||| (0x3 : UInt8) <<< 1 ||| 0x0

/-- `byte(0x1 << 4 | 0x2 << 1 | 0x0)`: version 1, type 2, from the client. -/
def notifyByte : UInt8 := (0x1 : UInt8) <<< 4 ||| (0x2 : UInt8) <<< 1 ||| 0x0

/-- The frame that the server's `send_ack_msg_to_peer` writes. -/
def ackToPeer (ackSeq : ℕ) : List UInt8 := putUint32 ackSeq ++ [svrAckByte]

/-- The frame that the client's `send_ack_msg_to_server` writes. -/
def ackToServer (ackSeq : ℕ) : List UInt8 := putUint32 ackSeq ++ [ackByte]

/-- `"Hello SkyTime"`. -/
def helloSkyTime : List UInt8 :=
  [0x48, 0x65, 0x6c, 0x6c, 0x6f, 0x20, 0x53, 0x6b, 0x79, 0x54, 0x69, 0x6d, 0x65]

/-- The frame that the client's `send_notify_msg_to_server` writes. -/
def notifyToServer (ackSeq : ℕ) : List UInt8 :=
  putUint32 ackSeq ++ [notifyByte] ++ putUint32 helloSkyTime.length ++ helloSkyTime

/-! ## The client's decoder -/

/-- What the benchmark client, started with `-rto`, reads from a text message. -/
inductive ClientRead where
  /-- an ack of the server, which is only printed -/
  | ack (h : Header)
  /-- any other frame: the body length, and the body where the source looks at it -/
  | push (h : Header) (bodyLen : ℕ) (body : Option (List UInt8))
  deriving DecidableEq, Repr

/-- One round of the reader in `benchmark` with `-rto`, for a text message. -/
def clientRead (message : Slice UInt8) : Except RuntimeError ClientRead := do
  let h ← readHeader message
  if h.msgType = 3 then
    return .ack h
  else
    let bodyLen ← getUint32 (← message.slice 5 9)
    -- only a message of type 1 is logged and acknowledged
    if h.msgType = 1 then
      let body ← message.sliceFrom 9
      return .push h bodyLen (some body.data)
    else
      return .push h bodyLen none

/-! ## The server's decoder -/

/-- The body length of a notify, and its body where the log shows it. -/
def notifyFields (verbose : ℤ) (message : Slice UInt8) :
    Except RuntimeError (ℕ × Option (List UInt8)) := do
  let bodyLen ← getUint32 (← message.slice 5 9)
  if verbose > 0 then
    let body ← message.sliceFrom 9
    return (bodyLen, some body.data)
  else
    return (bodyLen, none)

/-- The notify branch reads these fields and hands the notify over. -/
theorem handleNotify_eq_map (verbose : ℤ) (message : Slice UInt8) (h : Header) :
    handleNotify verbose message h =
      (notifyFields verbose message).map (fun _ => [.notifyAckQ h.ackSeq]) := by
  simp only [handleNotify, notifyFields, bind, Except.bind, pure, Except.pure]
  cases message.slice 5 9 with
  | error e => rfl
  | ok b =>
      simp only
      cases getUint32 b with
      | error e => rfl
      | ok bodyLen =>
          by_cases hverbose : verbose > 0
          · simp only [if_pos hverbose]
            cases message.sliceFrom 9 with
            | error e => rfl
            | ok body => rfl
          · simp only [if_neg hverbose]
            rfl

/-! ## Reading what was packed -/

/-- Four bytes hold a number up to its residue modulo `2 ^ 32`. -/
theorem getUint32_putUint32 (v : ℕ) (spare : List UInt8) :
    getUint32 ⟨putUint32 v, spare⟩ = .ok (v % 2 ^ 32) := by
  have hread : getUint32 ⟨putUint32 v, spare⟩ =
      .ok ((UInt8.ofNat (v / 2 ^ 24)).toNat * 2 ^ 24 + (UInt8.ofNat (v / 2 ^ 16)).toNat * 2 ^ 16 +
        (UInt8.ofNat (v / 2 ^ 8)).toNat * 2 ^ 8 + (UInt8.ofNat v).toNat) := rfl
  rw [hread]
  simp only [UInt8.toNat_ofNat']
  congr 1
  omega

/-- Four bytes hold no more. -/
theorem getUint32_lt {b : Slice UInt8} {v : ℕ} (h : getUint32 b = .ok v) : v < 2 ^ 32 := by
  obtain ⟨b3, -, h⟩ := exists_of_bind h
  obtain ⟨b2, -, h⟩ := exists_of_bind h
  obtain ⟨b1, -, h⟩ := exists_of_bind h
  obtain ⟨b0, -, h⟩ := exists_of_bind h
  obtain rfl := Except.ok.inj h
  have hb3 := b3.toNat_lt
  have hb2 := b2.toNat_lt
  have hb1 := b1.toNat_lt
  have hb0 := b0.toNat_lt
  omega

/-- Whatever a header says, its sequence number has 32 bits. -/
theorem readHeader_ackSeq_lt {message : Slice UInt8} {h : Header}
    (hh : readHeader message = .ok h) : h.ackSeq < 2 ^ 32 := by
  obtain ⟨b, -, hh⟩ := exists_of_bind hh
  obtain ⟨seq, hseq, hh⟩ := exists_of_bind hh
  obtain ⟨b4, -, hh⟩ := exists_of_bind hh
  obtain rfl := Except.ok.inj hh
  exact getUint32_lt hseq

/-- The header of a frame, whatever follows it. -/
theorem readHeader_frame (ackSeq : ℕ) (b4 : UInt8) (rest spare : List UInt8) :
    readHeader ⟨putUint32 ackSeq ++ b4 :: rest, spare⟩ =
      .ok ⟨ackSeq % 2 ^ 32, b4 >>> 4, msgTypeOf b4, b4 &&& 0x1⟩ := by
  have hseq : (⟨putUint32 ackSeq ++ b4 :: rest, spare⟩ : Slice UInt8).slice 0 4 =
      .ok ⟨putUint32 ackSeq, b4 :: rest ++ spare⟩ :=
    Slice.slice_append [] (putUint32 ackSeq) (b4 :: rest) spare
  have hb4 : (⟨putUint32 ackSeq ++ b4 :: rest, spare⟩ : Slice UInt8).index 4 = .ok b4 :=
    Slice.index_append (putUint32 ackSeq) b4 rest spare
  simp only [readHeader, hseq, hb4, getUint32_putUint32, bind, Except.bind, pure, Except.pure]

/-- The body length of a frame with a body. -/
theorem slice_bodyLen (ackSeq n : ℕ) (b4 : UInt8) (body spare : List UInt8) :
    (⟨putUint32 ackSeq ++ b4 :: (putUint32 n ++ body), spare⟩ : Slice UInt8).slice 5 9 =
      .ok ⟨putUint32 n, body ++ spare⟩ :=
  Slice.slice_append (putUint32 ackSeq ++ [b4]) (putUint32 n) body spare

/-- The body of a frame with a body. -/
theorem sliceFrom_body (ackSeq n : ℕ) (b4 : UInt8) (body spare : List UInt8) :
    (⟨putUint32 ackSeq ++ b4 :: (putUint32 n ++ body), spare⟩ : Slice UInt8).sliceFrom 9 =
      .ok ⟨body, spare⟩ :=
  Slice.sliceFrom_append (putUint32 ackSeq ++ b4 :: putUint32 n) body spare

theorem pushFrame_eq (ackSeq : ℕ) (payload : List UInt8) (isBrAll : Bool) :
    pushFrame ackSeq payload isBrAll = putUint32 ackSeq ++
      (if isBrAll then brAllByte else pushByte) :: (putUint32 payload.length ++ payload) := by
  simp only [pushFrame, List.append_assoc, List.cons_append, List.nil_append]

theorem notifyToServer_eq (ackSeq : ℕ) :
    notifyToServer ackSeq = putUint32 ackSeq ++
      notifyByte :: (putUint32 helloSkyTime.length ++ helloSkyTime) := by
  simp only [notifyToServer, List.append_assoc, List.cons_append, List.nil_append]

/-! ## What the client has read -/

/-- What a reader that does not panic has found. -/
theorem clientRead_cases {message : Slice UInt8} {r : ClientRead}
    (h : clientRead message = .ok r) : ∃ hd, readHeader message = .ok hd ∧
      (hd.msgType = 3 ∧ r = .ack hd ∨ hd.msgType ≠ 3 ∧ ∃ b n, message.slice 5 9 = .ok b ∧
        getUint32 b = .ok n ∧
          (hd.msgType = 1 ∧ (∃ body, message.sliceFrom 9 = .ok body ∧
              r = .push hd n (some body.data)) ∨
            hd.msgType ≠ 1 ∧ r = .push hd n none)) := by
  obtain ⟨hd, hhd, h⟩ := exists_of_bind h
  refine ⟨hd, hhd, ?_⟩
  split at h
  · rename_i hthree
    exact .inl ⟨hthree, (Except.ok.inj h).symm⟩
  · rename_i hthree
    obtain ⟨b, hb, h⟩ := exists_of_bind h
    obtain ⟨n, hn, h⟩ := exists_of_bind h
    refine .inr ⟨hthree, b, n, hb, hn, ?_⟩
    split at h
    · rename_i hone
      obtain ⟨body, hbody, h⟩ := exists_of_bind h
      exact .inl ⟨hone, body, hbody, (Except.ok.inj h).symm⟩
    · rename_i hone
      exact .inr ⟨hone, (Except.ok.inj h).symm⟩

/-- A reader that needs nothing behind the message reads the same whatever is there. -/
theorem clientRead_spare {data : List UInt8} {r : ClientRead}
    (h : clientRead ⟨data, []⟩ = .ok r) (spare : List UInt8) :
    clientRead ⟨data, spare⟩ = .ok r := by
  have hheader : ∀ hd, readHeader ⟨data, []⟩ = .ok hd → readHeader ⟨data, spare⟩ = .ok hd := by
    intro hd hhd
    obtain ⟨b, hb, hhd⟩ := exists_of_bind hhd
    have hb' := Slice.slice_spare hb spare
    show (((⟨data, spare⟩ : Slice UInt8).slice 0 4) >>= _) = _
    rw [hb']
    exact hhd
  obtain ⟨hd, hhd, ⟨hthree, rfl⟩ | ⟨hthree, b, n, hb, hn, hbody⟩⟩ := clientRead_cases h
  · simp only [clientRead, hheader hd hhd, bind, Except.bind, pure, Except.pure, hthree, if_true]
  · have hb' := Slice.slice_spare hb spare
    have hn' : getUint32 ⟨b.data, b.spare ++ spare⟩ = .ok n := hn
    obtain ⟨hone, body, hbody, rfl⟩ | ⟨hone, rfl⟩ := hbody
    · have hbody' : (⟨data, spare⟩ : Slice UInt8).sliceFrom 9 = _ := Slice.slice_spare hbody spare
      simp only [clientRead, hheader hd hhd, hb', hn', hbody', bind, Except.bind, pure,
        Except.pure, if_neg hthree, if_pos hone]
    · simp only [clientRead, hheader hd hhd, hb', hn', bind, Except.bind, pure,
        Except.pure, if_neg hthree, if_neg hone]

/-! ## The client reads what the server sends -/

/-- The client on a push frame, for any sequence number and payload. -/
theorem clientRead_pushFrame (ackSeq : ℕ) (payload : List UInt8) (isBrAll : Bool)
    (spare : List UInt8) :
    clientRead ⟨pushFrame ackSeq payload isBrAll, spare⟩ =
      .ok (.push ⟨ackSeq % 2 ^ 32, 1, if isBrAll then 0 else 1, 1⟩ (payload.length % 2 ^ 32)
        (if isBrAll then none else some payload)) := by
  rw [pushFrame_eq]
  cases isBrAll with
  | false =>
      have htype : msgTypeOf pushByte = 1 := by decide
      simp only [clientRead, readHeader_frame, slice_bodyLen, sliceFrom_body, getUint32_putUint32,
        bind, Except.bind, pure, Except.pure, Bool.false_eq_true, if_false, htype]
      rfl
  | true =>
      have htype : msgTypeOf brAllByte = 0 := by decide
      simp only [clientRead, readHeader_frame, slice_bodyLen, getUint32_putUint32, bind,
        Except.bind, pure, Except.pure, if_true, htype]
      rfl

theorem sliceFrom_pushFrame (ackSeq : ℕ) (payload : List UInt8) (isBrAll : Bool)
    (spare : List UInt8) :
    (⟨pushFrame ackSeq payload isBrAll, spare⟩ : Slice UInt8).sliceFrom 9 =
      .ok ⟨payload, spare⟩ := by
  rw [pushFrame_eq]
  exact sliceFrom_body ackSeq payload.length _ payload spare

theorem clientRead_ackToPeer (ackSeq : ℕ) (spare : List UInt8) :
    clientRead ⟨ackToPeer ackSeq, spare⟩ = .ok (.ack ⟨ackSeq % 2 ^ 32, 1, 3, 1⟩) := by
  have hh := readHeader_frame ackSeq svrAckByte [] spare
  simp only [clientRead, ackToPeer, hh, bind, Except.bind, pure, Except.pure]
  rfl

/-! ## The server reads what the client sends -/

theorem readHeader_ackToServer (ackSeq : ℕ) (spare : List UInt8) :
    readHeader ⟨ackToServer ackSeq, spare⟩ = .ok ⟨ackSeq % 2 ^ 32, 1, 3, 0⟩ :=
  readHeader_frame ackSeq ackByte [] spare

/-- The server on an ack of the client. -/
theorem handleMessage_ackToServer (verbose : ℤ) (ackSeq : ℕ) (spare : List UInt8) :
    handleMessage verbose .text ⟨ackToServer ackSeq, spare⟩ =
      .ok [.recvAckSeq (ackSeq % 2 ^ 32), .recvAckCh (ackSeq % 2 ^ 32)] :=
  handleMessage_eq verbose (readHeader_ackToServer ackSeq spare)

theorem readHeader_notifyToServer (ackSeq : ℕ) (spare : List UInt8) :
    readHeader ⟨notifyToServer ackSeq, spare⟩ = .ok ⟨ackSeq % 2 ^ 32, 1, 2, 0⟩ := by
  rw [notifyToServer_eq]
  exact readHeader_frame ackSeq notifyByte _ spare

theorem notifyFields_notifyToServer (verbose : ℤ) (ackSeq : ℕ) (spare : List UInt8) :
    notifyFields verbose ⟨notifyToServer ackSeq, spare⟩ =
      .ok (helloSkyTime.length, if verbose > 0 then some helloSkyTime else none) := by
  rw [notifyToServer_eq]
  simp only [notifyFields, slice_bodyLen, sliceFrom_body, getUint32_putUint32, bind, Except.bind,
    pure, Except.pure]
  split
  · rfl
  · rfl

theorem sliceFrom_notifyToServer (ackSeq : ℕ) (spare : List UInt8) :
    (⟨notifyToServer ackSeq, spare⟩ : Slice UInt8).sliceFrom 9 = .ok ⟨helloSkyTime, spare⟩ := by
  rw [notifyToServer_eq]
  exact sliceFrom_body ackSeq helloSkyTime.length notifyByte helloSkyTime spare

/-- The server on a notify of the client. -/
theorem handleMessage_notifyToServer (verbose : ℤ) (ackSeq : ℕ) (spare : List UInt8) :
    handleMessage verbose .text ⟨notifyToServer ackSeq, spare⟩ =
      .ok [.notifyAckQ (ackSeq % 2 ^ 32)] := by
  rw [handleMessage_eq verbose (readHeader_notifyToServer ackSeq spare), handleNotify_eq_map,
    notifyFields_notifyToServer]
  rfl

/-! ## All the frames -/

/-- A payload whose length fits the four bytes of its field. -/
abbrev Payload := {payload : List UInt8 // payload.length < 2 ^ 32}

/-- The frames of the protocol, by the function that writes them. -/
inductive WireFrame where
  /-- `send_push_msg_to_peer` -/
  | push (ackSeq : UInt32) (payload : Payload) (isBrAll : Bool)
  /-- `send_ack_msg_to_peer` -/
  | ackToPeer (ackSeq : UInt32)
  /-- `send_ack_msg_to_server` -/
  | ackToServer (ackSeq : UInt32)
  /-- `send_notify_msg_to_server` -/
  | notifyToServer (ackSeq : UInt32)
  deriving DecidableEq

namespace WireFrame

/-- The bytes of a frame. -/
def bytes : WireFrame → List UInt8
  | push ackSeq payload isBrAll => pushFrame ackSeq.toNat payload.val isBrAll
  | ackToPeer ackSeq => Skytime.ackToPeer ackSeq.toNat
  | ackToServer ackSeq => Skytime.ackToServer ackSeq.toNat
  | notifyToServer ackSeq => Skytime.notifyToServer ackSeq.toNat

/-- The header of a frame: sequence number, version, type, sender. -/
def header : WireFrame → Header
  | push ackSeq _ isBrAll => ⟨ackSeq.toNat, 1, if isBrAll then 0 else 1, 1⟩
  | ackToPeer ackSeq => ⟨ackSeq.toNat, 1, 3, 1⟩
  | ackToServer ackSeq => ⟨ackSeq.toNat, 1, 3, 0⟩
  | notifyToServer ackSeq => ⟨ackSeq.toNat, 1, 2, 0⟩

/-- A sequence number of 32 bits is its own residue. -/
theorem ackSeq_mod (ackSeq : UInt32) : ackSeq.toNat % 2 ^ 32 = ackSeq.toNat :=
  Nat.mod_eq_of_lt ackSeq.toNat_lt

theorem readHeader_bytes (f : WireFrame) (spare : List UInt8) :
    readHeader ⟨f.bytes, spare⟩ = .ok f.header := by
  cases f with
  | push ackSeq payload isBrAll =>
      show readHeader ⟨pushFrame ackSeq.toNat payload.val isBrAll, spare⟩ = _
      rw [pushFrame_eq, readHeader_frame, ackSeq_mod]
      cases isBrAll <;> rfl
  | ackToPeer ackSeq =>
      show readHeader ⟨putUint32 ackSeq.toNat ++ [svrAckByte], spare⟩ = _
      rw [readHeader_frame, ackSeq_mod]
      rfl
  | ackToServer ackSeq =>
      show readHeader ⟨Skytime.ackToServer ackSeq.toNat, spare⟩ = _
      rw [readHeader_ackToServer, ackSeq_mod]
      rfl
  | notifyToServer ackSeq =>
      show readHeader ⟨Skytime.notifyToServer ackSeq.toNat, spare⟩ = _
      rw [readHeader_notifyToServer, ackSeq_mod]
      rfl

theorem header_eq_of_bytes_eq {f g : WireFrame} (h : f.bytes = g.bytes) : f.header = g.header := by
  have hf := readHeader_bytes f []
  rw [h, readHeader_bytes g []] at hf
  exact (Except.ok.inj hf).symm

/-- Equal bytes come from one function with one content. -/
theorem bytes_injective : Function.Injective bytes := by
  intro f g h
  have hheader := header_eq_of_bytes_eq h
  cases f with
  | push ackSeq payload isBrAll =>
      cases g with
      | push ackSeq' payload' isBrAll' =>
          have hseq : ackSeq = ackSeq' := UInt32.toNat_inj.mp (congrArg Header.ackSeq hheader)
          have htype : (if isBrAll then (0 : UInt8) else 1) = if isBrAll' then 0 else 1 :=
            congrArg Header.msgType hheader
          have hbr : isBrAll = isBrAll' := by
            cases isBrAll <;> cases isBrAll' <;> simp_all
          have hbody := sliceFrom_pushFrame ackSeq.toNat payload.val isBrAll []
          have hbody' := sliceFrom_pushFrame ackSeq'.toNat payload'.val isBrAll' []
          simp only [bytes] at h
          rw [h, hbody'] at hbody
          have hpayload : payload = payload' :=
            Subtype.ext (congrArg Slice.data (Except.ok.inj hbody)).symm
          rw [hseq, hpayload, hbr]
      | ackToPeer =>
          have htype := congrArg Header.msgType hheader
          cases isBrAll <;> exact absurd htype (by simp [header])
      | ackToServer | notifyToServer =>
          exact absurd (congrArg Header.svrFlag hheader) (by simp [header])
  | ackToPeer ackSeq =>
      cases g with
      | push ackSeq' payload' isBrAll' =>
          have htype := congrArg Header.msgType hheader
          cases isBrAll' <;> exact absurd htype (by simp [header])
      | ackToPeer => rw [UInt32.toNat_inj.mp (congrArg Header.ackSeq hheader)]
      | ackToServer | notifyToServer =>
          exact absurd (congrArg Header.svrFlag hheader) (by simp [header])
  | ackToServer ackSeq =>
      cases g with
      | push | ackToPeer => exact absurd (congrArg Header.svrFlag hheader) (by simp [header])
      | ackToServer => rw [UInt32.toNat_inj.mp (congrArg Header.ackSeq hheader)]
      | notifyToServer => exact absurd (congrArg Header.msgType hheader) (by simp [header])
  | notifyToServer ackSeq =>
      cases g with
      | push | ackToPeer => exact absurd (congrArg Header.svrFlag hheader) (by simp [header])
      | ackToServer => exact absurd (congrArg Header.msgType hheader) (by simp [header])
      | notifyToServer => rw [UInt32.toNat_inj.mp (congrArg Header.ackSeq hheader)]

end WireFrame

/-- **What either side packs into a frame, the other side reads out of it, without looking beyond
the end of the frame; and no two frames have the same bytes.** -/
theorem wire_roundTrip :
    (∀ (ackSeq : UInt32) (payload : Payload) (isBrAll : Bool) (spare : List UInt8),
      clientRead ⟨(WireFrame.push ackSeq payload isBrAll).bytes, spare⟩ =
          .ok (.push ⟨ackSeq.toNat, 1, if isBrAll then 0 else 1, 1⟩ payload.val.length
            (if isBrAll then none else some payload.val)) ∧
        Slice.sliceFrom ⟨(WireFrame.push ackSeq payload isBrAll).bytes, spare⟩ 9 =
          .ok ⟨payload.val, spare⟩) ∧
    (∀ (ackSeq : UInt32) (spare : List UInt8),
      clientRead ⟨(WireFrame.ackToPeer ackSeq).bytes, spare⟩ =
        .ok (.ack ⟨ackSeq.toNat, 1, 3, 1⟩)) ∧
    (∀ (ackSeq : UInt32) (verbose : ℤ) (spare : List UInt8),
      readHeader ⟨(WireFrame.ackToServer ackSeq).bytes, spare⟩ =
          .ok ⟨ackSeq.toNat, 1, 3, 0⟩ ∧
        handleMessage verbose .text ⟨(WireFrame.ackToServer ackSeq).bytes, spare⟩ =
          .ok [.recvAckSeq ackSeq.toNat, .recvAckCh ackSeq.toNat]) ∧
    (∀ (ackSeq : UInt32) (verbose : ℤ) (spare : List UInt8),
      readHeader ⟨(WireFrame.notifyToServer ackSeq).bytes, spare⟩ =
          .ok ⟨ackSeq.toNat, 1, 2, 0⟩ ∧
        notifyFields verbose ⟨(WireFrame.notifyToServer ackSeq).bytes, spare⟩ =
          .ok (helloSkyTime.length, if verbose > 0 then some helloSkyTime else none) ∧
        Slice.sliceFrom ⟨(WireFrame.notifyToServer ackSeq).bytes, spare⟩ 9 =
          .ok ⟨helloSkyTime, spare⟩ ∧
        handleMessage verbose .text ⟨(WireFrame.notifyToServer ackSeq).bytes, spare⟩ =
          .ok [.notifyAckQ ackSeq.toNat]) ∧
    Function.Injective WireFrame.bytes := by
  refine ⟨?_, ?_, ?_, ?_, WireFrame.bytes_injective⟩
  · intro ackSeq payload isBrAll spare
    refine ⟨?_, sliceFrom_pushFrame ackSeq.toNat payload.val isBrAll spare⟩
    have h := clientRead_pushFrame ackSeq.toNat payload.val isBrAll spare
    rwa [WireFrame.ackSeq_mod, Nat.mod_eq_of_lt payload.property] at h
  · intro ackSeq spare
    have h := clientRead_ackToPeer ackSeq.toNat spare
    rwa [WireFrame.ackSeq_mod] at h
  · intro ackSeq verbose spare
    have h := handleMessage_ackToServer verbose ackSeq.toNat spare
    rw [WireFrame.ackSeq_mod] at h
    exact ⟨WireFrame.readHeader_bytes (.ackToServer ackSeq) spare, h⟩
  · intro ackSeq verbose spare
    have h := handleMessage_notifyToServer verbose ackSeq.toNat spare
    rw [WireFrame.ackSeq_mod] at h
    exact ⟨WireFrame.readHeader_bytes (.notifyToServer ackSeq) spare,
      notifyFields_notifyToServer verbose ackSeq.toNat spare,
      sliceFrom_notifyToServer ackSeq.toNat spare, h⟩

end Skytime
