/-
# Skytime.Conn.Frame — the frames of the ack protocol and the server's decoder.

A frame starts with a four byte sequence number and a byte that packs version, type and sender; a
frame with a body goes on with four bytes of body length and the body. `handleMessage` is what one
round of the loop in `checkPongMessage` does with a message that `ReadMessage` returns: it runs the
checked slice and index operations of the source and says which values the round hands over to
which channel.
-/
import Mathlib.Algebra.Group.Nat.Defs
import Mathlib.Data.Int.Notation
import Skytime.Process.Slice

namespace Skytime

open Process

/-! ## Encoding -/

/-- `binary.BigEndian.PutUint32` of `uint32(v)`. -/
def putUint32 (v : ℕ) : List UInt8 :=
  [UInt8.ofNat (v / 2 ^ 24), UInt8.ofNat (v / 2 ^ 16), UInt8.ofNat (v / 2 ^ 8), UInt8.ofNat v]

/-- `byte(0x1 << 4 | 0x1 << 1 | 0x1)`: version 1, type 1, from the server. -/
def pushByte : UInt8 := (0x1 : UInt8) <<< 4 ||| (0x1 : UInt8) <<< 1 ||| 0x1

/-- `byte(0x1 << 4 | 0x0 << 3 | 0x1)`: version 1, type 0, from the server. -/
def brAllByte : UInt8 := (0x1 : UInt8) <<< 4 ||| (0x0 : UInt8) <<< 3 ||| 0x1

/-- The frame that `send_push_msg_to_peer` writes. -/
def pushFrame (ackSeq : ℕ) (payload : List UInt8) (isBrAll : Bool) : List UInt8 :=
  putUint32 ackSeq ++ [if isBrAll then brAllByte else pushByte] ++ putUint32 payload.length ++
    payload

/-! ## Decoding -/

/-- `binary.BigEndian.Uint32`. -/
def getUint32 (b : Slice UInt8) : Except RuntimeError ℕ := do
  let b3 ← b.index 3
  let b2 ← b.index 2
  let b1 ← b.index 1
  let b0 ← b.index 0
  return b0.toNat * 2 ^ 24 + b1.toNat * 2 ^ 16 + b2.toNat * 2 ^ 8 + b3.toNat

/-- The fields of the first five bytes of a frame. -/
structure Header where
  ackSeq : ℕ
  msgVer : UInt8
  msgType : UInt8
  svrFlag : UInt8
  deriving DecidableEq, Repr

/-- `message[4] & 0xf >> 1`, where both operators have one precedence and group to the left. -/
def msgTypeOf (b4 : UInt8) : UInt8 := (b4 &&& 0xf) >>> 1

/-- The header fields, read in the order of the source. -/
def readHeader (message : Slice UInt8) : Except RuntimeError Header := do
  let ackSeq ← getUint32 (← message.slice 0 4)
  let b4 ← message.index 4
  return ⟨ackSeq, b4 >>> 4, msgTypeOf b4, b4 &&& 0x1⟩

/-- The message types of the websocket package that carry data. -/
inductive MessageType where
  | text
  | binary
  deriving DecidableEq, Repr

/-- A value the reader hands over to another goroutine. -/
inductive HandOver where
  /-- `c.recv_ack_seq <- int(ack_seq)` -/
  | recvAckSeq (ackSeq : ℕ)
  /-- `hrooms.recv_ack_ch <- int(ack_seq)` -/
  | recvAckCh (ackSeq : ℕ)
  /-- `hrooms.notify_ack_Q <- notify_ack_msg` -/
  | notifyAckQ (ackSeq : ℕ)
  deriving DecidableEq, Repr

/-- The notify branch: the body length, the body for the log, the hand-over. -/
def handleNotify (verbose : ℤ) (message : Slice UInt8) (h : Header) :
    Except RuntimeError (List HandOver) := do
  -- checked against the capacity, so the four bytes may lie behind the message
  let _bodyLen ← getUint32 (← message.slice 5 9)
  if verbose > 0 then
    let _body ← message.sliceFrom 9
    return [.notifyAckQ h.ackSeq]
  else
    return [.notifyAckQ h.ackSeq]

/-- One round of `checkPongMessage`, for a message of any type. -/
def handleMessage (verbose : ℤ) (mt : MessageType) (message : Slice UInt8) :
    Except RuntimeError (List HandOver) :=
  match mt with
  | .binary => .ok []
  | .text => do
    let h ← readHeader message
    if h.msgType = 3 then
      return [.recvAckSeq h.ackSeq, .recvAckCh h.ackSeq]
    else if h.msgType = 2 then
      handleNotify verbose message h
    else
      -- the source has no branch for the other types
      return []

/-- A text message with a type byte of type 3: an ack. -/
def IsAck (mt : MessageType) (message : Slice UInt8) : Prop :=
  mt = .text ∧ ∃ b4, message.data[4]? = some b4 ∧ msgTypeOf b4 = 3

/-! ## Which messages are long enough -/

/-- The length of the header that the type byte announces; without a type byte, the length that
would hold one. -/
def announcedLen (data : List UInt8) : ℕ :=
  match data[4]? with
  | none => 5
  | some b4 => if msgTypeOf b4 = 2 then 9 else 5

/-- The message ends within the header its type byte announces. -/
def TooShort (message : Slice UInt8) : Prop := message.len < announcedLen message.data

instance (message : Slice UInt8) : Decidable (TooShort message) :=
  inferInstanceAs (Decidable (_ < _))

/-- A text message is read without a panic, and nothing of it is handed over if it is too short. -/
def ReadSafely (verbose : ℤ) (message : Slice UInt8) : Prop :=
  ∃ out, handleMessage verbose .text message = .ok out ∧ (TooShort message → out = [])

/-! ## The checks of the decoder -/

theorem exists_getUint32 {b : Slice UInt8} (h : b.len = 4) : ∃ v, getUint32 b = .ok v := by
  obtain ⟨b3, h3⟩ := Slice.exists_index (s := b) (i := 3) (by omega)
  obtain ⟨b2, h2⟩ := Slice.exists_index (s := b) (i := 2) (by omega)
  obtain ⟨b1, h1⟩ := Slice.exists_index (s := b) (i := 1) (by omega)
  obtain ⟨b0, h0⟩ := Slice.exists_index (s := b) (i := 0) (by omega)
  exact ⟨_, by simp only [getUint32, h3, h2, h1, h0]; rfl⟩

/-- Five bytes are enough for the header. -/
theorem exists_readHeader {message : Slice UInt8} (h : 5 ≤ message.len) :
    ∃ (seq : ℕ) (b4 : UInt8), message.data[4]? = some b4 ∧
      readHeader message = .ok ⟨seq, b4 >>> 4, msgTypeOf b4, b4 &&& 0x1⟩ := by
  have hcap : 4 ≤ message.cap := by
    have := message.len_le_cap
    omega
  obtain ⟨b, hb, hlen⟩ := Slice.exists_slice (Nat.zero_le 4) hcap
  obtain ⟨seq, hseq⟩ := exists_getUint32 hlen
  obtain ⟨b4, hb4⟩ := Slice.exists_index (s := message) (i := 4) (by omega)
  refine ⟨seq, b4, Slice.index_eq_ok_iff.mp hb4, ?_⟩
  simp only [readHeader, hb, hseq, hb4, bind, Except.bind, pure, Except.pure]

/-- Fewer than five bytes make the header panic, at the slice or at the type byte. -/
theorem exists_readHeader_error {message : Slice UInt8} (h : message.len < 5) :
    ∃ e, readHeader message = .error e := by
  have hb4 : message.index 4 = .error .indexOutOfRange :=
    Slice.index_eq_error_iff.mpr ⟨by omega, rfl⟩
  by_cases hcap : 4 ≤ message.cap
  · obtain ⟨b, hb, hlen⟩ := Slice.exists_slice (Nat.zero_le 4) hcap
    obtain ⟨seq, hseq⟩ := exists_getUint32 hlen
    refine ⟨.indexOutOfRange, ?_⟩
    simp only [readHeader, hb, hseq, hb4, bind, Except.bind]
  · have hb : message.slice 0 4 = .error .sliceOutOfRange :=
      Slice.slice_eq_error_iff.mpr ⟨fun hle => hcap hle.2, rfl⟩
    refine ⟨.sliceOutOfRange, ?_⟩
    simp only [readHeader, hb, bind, Except.bind]

/-- A text message of fewer than five bytes panics, whatever the log level. -/
theorem exists_handleMessage_error (verbose : ℤ) {message : Slice UInt8} (h : message.len < 5) :
    ∃ e, handleMessage verbose .text message = .error e := by
  obtain ⟨e, he⟩ := exists_readHeader_error h
  exact ⟨e, by simp only [handleMessage, he, bind, Except.bind]⟩

theorem not_readSafely_of_lt_five {verbose : ℤ} {message : Slice UInt8} (h : message.len < 5) :
    ¬ ReadSafely verbose message := by
  rintro ⟨out, hout, -⟩
  obtain ⟨e, he⟩ := exists_handleMessage_error verbose h
  exact absurd (he.symm.trans hout) (by simp)

/-- Nine bytes are enough for the notify branch. -/
theorem handleNotify_eq_ok {verbose : ℤ} {message : Slice UInt8} (h : Header)
    (hlen : 9 ≤ message.len) : handleNotify verbose message h = .ok [.notifyAckQ h.ackSeq] := by
  have hcap : message.len ≤ message.cap := message.len_le_cap
  obtain ⟨b, hb, hblen⟩ : ∃ b, message.slice 5 9 = .ok b ∧ b.len = 9 - 5 :=
    Slice.exists_slice (by omega) (by omega)
  obtain ⟨v, hv⟩ := exists_getUint32 hblen
  obtain ⟨body, hbody, _⟩ := Slice.exists_slice hlen hcap
  simp only [handleNotify, Slice.sliceFrom, hb, hv, hbody, bind, Except.bind, pure, Except.pure,
    ite_self]

/-- The notify branch never ends without a hand-over: it panics, or it accepts the message. -/
theorem handleNotify_cases {verbose : ℤ} {message : Slice UInt8} {h : Header}
    {todo : List HandOver} (hok : handleNotify verbose message h = .ok todo) :
    todo = [.notifyAckQ h.ackSeq] := by
  obtain ⟨b, -, hok⟩ := exists_of_bind hok
  obtain ⟨bodyLen, -, hok⟩ := exists_of_bind hok
  split at hok
  · obtain ⟨body, -, hok⟩ := exists_of_bind hok
    exact (Except.ok.inj hok).symm
  · exact (Except.ok.inj hok).symm

/-- With five bytes the round is decided by the type nibble. -/
theorem handleMessage_eq (verbose : ℤ) {message : Slice UInt8} {h : Header}
    (hh : readHeader message = .ok h) :
    handleMessage verbose .text message =
      if h.msgType = 3 then .ok [.recvAckSeq h.ackSeq, .recvAckCh h.ackSeq]
      else if h.msgType = 2 then handleNotify verbose message h else .ok [] := by
  simp only [handleMessage, hh, bind, Except.bind, pure, Except.pure]

/-- A round that does not panic hands over an ack to both its channels, a notify, or nothing. -/
theorem handleMessage_shape {verbose : ℤ} {mt : MessageType} {message : Slice UInt8}
    {todo : List HandOver} (h : handleMessage verbose mt message = .ok todo) :
    (IsAck mt message ∧ ∃ seq, todo = [.recvAckSeq seq, .recvAckCh seq]) ∨
      (¬ IsAck mt message ∧ (todo = [] ∨ ∃ seq, todo = [.notifyAckQ seq])) := by
  cases mt with
  | binary =>
      obtain rfl := Except.ok.inj h
      exact .inr ⟨fun hack => absurd hack.1 (by simp), .inl rfl⟩
  | text =>
      by_cases hfive : message.len < 5
      · obtain ⟨e, he⟩ := exists_handleMessage_error verbose hfive
        exact absurd (he.symm.trans h) (by simp)
      · obtain ⟨seq, b4, hb4, hh⟩ := exists_readHeader (Nat.le_of_not_lt hfive)
        have hack : IsAck .text message ↔ msgTypeOf b4 = 3 := by
          simp [IsAck, hb4]
        rw [handleMessage_eq verbose hh] at h
        split at h
        · rename_i hthree
          exact .inl ⟨hack.mpr hthree, seq, (Except.ok.inj h).symm⟩
        · rename_i hthree
          refine .inr ⟨fun hthree' => hthree (hack.mp hthree'), ?_⟩
          split at h
          · exact .inr ⟨seq, handleNotify_cases h⟩
          · exact .inl (Except.ok.inj h).symm

/-- An ack does not panic. -/
theorem handleMessage_of_isAck {verbose : ℤ} {mt : MessageType} {message : Slice UInt8}
    (h : IsAck mt message) : ∃ todo, handleMessage verbose mt message = .ok todo := by
  obtain ⟨rfl, b4, hb4, hthree⟩ := h
  have hfive : 5 ≤ message.len := (List.getElem?_eq_some_iff.mp hb4).1
  obtain ⟨seq, b4', hb4', hh⟩ := exists_readHeader hfive
  obtain rfl := Option.some.inj (hb4.symm.trans hb4')
  exact ⟨_, by rw [handleMessage_eq verbose hh, if_pos hthree]⟩

/-! ## Safety of the decoder -/

/-- **A text message is read safely exactly when it is as long as the header its type byte
announces.** -/
theorem readSafely_iff (verbose : ℤ) (message : Slice UInt8) :
    ReadSafely verbose message ↔ ¬ TooShort message := by
  by_cases hfive : 5 ≤ message.len
  · obtain ⟨seq, b4, hb4, hh⟩ := exists_readHeader hfive
    have hround := handleMessage_eq verbose hh
    by_cases htwo : msgTypeOf b4 = 2
    · have hthree : msgTypeOf b4 ≠ 3 := by
        rw [htwo]
        decide
      have hshort : TooShort message ↔ message.len < 9 := by
        simp only [TooShort, announcedLen, hb4, htwo, if_true]
      rw [if_neg hthree, if_pos htwo] at hround
      constructor
      · rintro ⟨out, hout, hnil⟩ hts
        rw [hround, hnil hts] at hout
        exact absurd (handleNotify_cases hout) (by simp)
      · intro hlong
        have hnine : 9 ≤ message.len := by
          rw [hshort] at hlong
          omega
        exact ⟨_, hround.trans (handleNotify_eq_ok _ hnine), fun hts => absurd hts hlong⟩
    · have hlong : ¬ TooShort message := by
        simp only [TooShort, announcedLen, hb4, if_neg htwo]
        omega
      simp only [if_neg htwo] at hround
      refine ⟨fun _ => hlong, fun _ => ?_⟩
      split at hround
      · exact ⟨_, hround, fun hts => absurd hts hlong⟩
      · exact ⟨_, hround, fun hts => absurd hts hlong⟩
  · have hshort : TooShort message := by
      have hnone : message.data[4]? = none := by
        rw [List.getElem?_eq_none_iff]
        exact Nat.lt_succ_iff.mp (Nat.lt_of_not_le hfive)
      simp only [TooShort, announcedLen, hnone]
      omega
    exact iff_of_false (not_readSafely_of_lt_five (Nat.lt_of_not_le hfive)) (not_not_intro hshort)

/-- An empty text message in a buffer of 512 bytes panics. -/
theorem emptyMessage_panics :
    (∃ e, handleMessage 0 .text ⟨[], List.replicate 512 0⟩ = .error e) ∧
      ¬ ReadSafely 0 ⟨[], List.replicate 512 0⟩ :=
  ⟨exists_handleMessage_error 0 (by decide), not_readSafely_of_lt_five (by decide)⟩

/-- A notify frame of eight bytes is accepted when the buffer is longer. -/
example : handleMessage 0 .text ⟨[0, 0, 0, 7, 0x14, 0, 0, 0], [0]⟩ = .ok [.notifyAckQ 7] := by rfl

end Skytime
