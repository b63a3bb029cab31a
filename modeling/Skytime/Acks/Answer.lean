/-
# Skytime.Acks.Answer — the statistics of the ack protocol, and the way of one ack.

`msg_ack_stat` counts the frames a writer reports and the acks a reader hands over, by message id.
An id is an `int` for the queue of the writer and for the statistics, but the frame carries only the
lower 32 bits of it, and these are what a client acknowledges.
-/
import Skytime.Conn.Wire
import Skytime.Conn.Writer
import Skytime.Rooms.State

namespace Skytime

open Process

/-! ## `msg_ack_stat` -/

/-- `if v, ok := hr.msg_stats[ msg_id ]; ok { … }`, where the body changes the counters. -/
def updateStat (f : MsgStat → MsgStat) (msgStats : GoMap ℕ MsgStat) (msgId : ℕ) :
    GoMap ℕ MsgStat :=
  match msgStats.lookup msgId with
  | none => msgStats
  | some v => msgStats.insert msgId (f v)

/-- `case send_msg_seq := <-hr.send_msg_ch`. -/
def countSend : GoMap ℕ MsgStat → ℕ → GoMap ℕ MsgStat :=
  updateStat fun v => { v with sendMsgCnt := v.sendMsgCnt + 1 }

/-- `case recv_ack_seq := <-hr.recv_ack_ch`. -/
def countAck : GoMap ℕ MsgStat → ℕ → GoMap ℕ MsgStat :=
  updateStat fun v => { v with recvAckCnt := v.recvAckCnt + 1 }

/-- An update changes the entry of its id, where there is one, and no other. -/
theorem updateStat_lookup (f : MsgStat → MsgStat) (msgStats : GoMap ℕ MsgStat) (msgId k : ℕ) :
    (updateStat f msgStats msgId).lookup k =
      if k = msgId then (msgStats.lookup k).map f else msgStats.lookup k := by
  unfold updateStat
  split
  · rename_i habs
    split
    · rename_i hk
      rw [hk, habs]
      rfl
    · rfl
  · rename_i v hv
    show (Finmap.insert msgId (f v) msgStats).lookup k = _
    rw [GoMap.lookup_insert]
    split
    · rename_i hk
      rw [hk, hv]
      rfl
    · rfl

theorem countSend_lookup (msgStats : GoMap ℕ MsgStat) (msgId k : ℕ) :
    (countSend msgStats msgId).lookup k =
      if k = msgId then
        (msgStats.lookup k).map (fun v => { v with sendMsgCnt := v.sendMsgCnt + 1 })
      else msgStats.lookup k :=
  updateStat_lookup _ msgStats msgId k

theorem countAck_lookup (msgStats : GoMap ℕ MsgStat) (msgId k : ℕ) :
    (countAck msgStats msgId).lookup k =
      if k = msgId then
        (msgStats.lookup k).map (fun v => { v with recvAckCnt := v.recvAckCnt + 1 })
      else msgStats.lookup k :=
  updateStat_lookup _ msgStats msgId k

/-! ## The way of an ack -/

/-- What an ack can change: the queue of its connection and the statistics. -/
structure AckState where
  writeMsgQ : WriteMsgQ
  msgStats : GoMap ℕ MsgStat

/-- A value of the reader arrives. -/
def AckState.take (s : AckState) : HandOver → AckState
  | .recvAckSeq ackSeq => { s with writeMsgQ := handleAck s.writeMsgQ ackSeq }
  | .recvAckCh ackSeq => { s with msgStats := countAck s.msgStats ackSeq }
  | .notifyAckQ _ => s

/-- The header the client has read. -/
def ClientRead.header : ClientRead → Header
  | .ack h => h
  | .push h _ _ => h

theorem readHeader_of_clientRead {message : Slice UInt8} {r : ClientRead}
    (h : clientRead message = .ok r) : readHeader message = .ok r.header := by
  obtain ⟨hd, hhd, ⟨-, rfl⟩ | ⟨-, b, n, -, -, ⟨-, body, -, rfl⟩ | ⟨-, rfl⟩⟩⟩ := clientRead_cases h
  · exact hhd
  · exact hhd
  · exact hhd

/-- The client reads a push frame and acknowledges the sequence number it has seen, and the server
processes the ack. -/
def answerPush (verbose : ℤ) (s : AckState) (frame : List UInt8) :
    Except RuntimeError AckState := do
  let seen ← clientRead ⟨frame, []⟩
  let todo ← handleMessage verbose .text ⟨ackToServer seen.header.ackSeq, []⟩
  return todo.foldl AckState.take s

/-- What arrives is the residue of the id modulo `2 ^ 32`. -/
theorem answerPush_eq (verbose : ℤ) (s : AckState) (msgId : ℕ) (payload : List UInt8)
    (isBrAll : Bool) :
    answerPush verbose s (pushFrame msgId payload isBrAll) =
      .ok ⟨handleAck s.writeMsgQ (msgId % 2 ^ 32), countAck s.msgStats (msgId % 2 ^ 32)⟩ := by
  simp only [answerPush, clientRead_pushFrame, ClientRead.header, handleMessage_ackToServer,
    Nat.mod_mod, bind, Except.bind, pure, Except.pure]
  rfl

/-! ## Which ids are matched -/

/-- The answer to the push frame of `msgId` removes the entry of `msgId` and counts an ack for
`msgId`, and touches no other entry and no other counter. -/
def AnswerMatches (verbose : ℤ) (s : AckState) (msgId : ℕ) (payload : List UInt8)
    (isBrAll : Bool) : Prop :=
  ∃ t, answerPush verbose s (pushFrame msgId payload isBrAll) = .ok t ∧
    (∀ k, t.writeMsgQ.lookup k = if k = msgId then none else s.writeMsgQ.lookup k) ∧
    ∀ k, t.msgStats.lookup k =
      if k = msgId then
        (s.msgStats.lookup k).map (fun v => { v with recvAckCnt := v.recvAckCnt + 1 })
      else s.msgStats.lookup k

/-- What the answer leaves in the queue. -/
theorem answerPush_queue {verbose : ℤ} {s t : AckState} {msgId : ℕ} {payload : List UInt8}
    {isBrAll : Bool} (h : answerPush verbose s (pushFrame msgId payload isBrAll) = .ok t) (k : ℕ) :
    t.writeMsgQ.lookup k = if k = msgId % 2 ^ 32 then none else s.writeMsgQ.lookup k := by
  rw [answerPush_eq] at h
  obtain rfl := Except.ok.inj h
  exact handleAck_lookup s.writeMsgQ _ k

/-- What the answer leaves in the statistics. -/
theorem answerPush_stats {verbose : ℤ} {s t : AckState} {msgId : ℕ} {payload : List UInt8}
    {isBrAll : Bool} (h : answerPush verbose s (pushFrame msgId payload isBrAll) = .ok t) (k : ℕ) :
    t.msgStats.lookup k =
      if k = msgId % 2 ^ 32 then
        (s.msgStats.lookup k).map (fun v => { v with recvAckCnt := v.recvAckCnt + 1 })
      else s.msgStats.lookup k := by
  rw [answerPush_eq] at h
  obtain rfl := Except.ok.inj h
  exact countAck_lookup s.msgStats _ k

/-- An id beyond 32 bits gets no ack counted, although it has counters. -/
theorem answerPush_stats_of_ge {verbose : ℤ} {s t : AckState} {msgId : ℕ} {payload : List UInt8}
    {isBrAll : Bool} (h : answerPush verbose s (pushFrame msgId payload isBrAll) = .ok t)
    (hbig : 2 ^ 32 ≤ msgId) : t.msgStats.lookup msgId = s.msgStats.lookup msgId := by
  have hne : msgId ≠ msgId % 2 ^ 32 := by
    have hlt := Nat.mod_lt msgId (y := 2 ^ 32) (by decide)
    omega
  rw [answerPush_stats h, if_neg hne]

/-- **The answer to a push frame matches the message of its id exactly when the id fits into the 32
bits of the sequence number.** -/
theorem answerMatches_iff {verbose : ℤ} {s : AckState} {msgId : ℕ} {payload : List UInt8}
    {isBrAll : Bool} (hstat : msgId ∈ s.msgStats) :
    AnswerMatches verbose s msgId payload isBrAll ↔ msgId < 2 ^ 32 := by
  constructor
  · rintro ⟨t, ht, _, hcount⟩
    by_contra hbig
    obtain ⟨v, hv⟩ := Finmap.mem_iff.mp hstat
    have hsame := answerPush_stats_of_ge ht (Nat.le_of_not_lt hbig)
    rw [hcount msgId, if_pos rfl, hv] at hsame
    -- the counter would have to equal its successor
    have hcnt := congrArg MsgStat.recvAckCnt (Option.some.inj hsame)
    exact absurd hcnt (Nat.succ_ne_self v.recvAckCnt)
  · intro hlt
    have hmod : msgId % 2 ^ 32 = msgId := Nat.mod_eq_of_lt hlt
    have hans := answerPush_eq verbose s msgId payload isBrAll
    refine ⟨_, hans, fun k => ?_, fun k => ?_⟩
    · rw [answerPush_queue hans, hmod]
    · rw [answerPush_stats hans, hmod]

/-! ## Two ids with one sequence number -/

/-- The messages `5` and `2 ^ 32 + 5` are queued for one peer and have been sent once each. -/
def wrappedState : AckState where
  writeMsgQ := Finmap.insert (2 ^ 32 + 5) ⟨[2], 8, 64⟩ (Finmap.insert 5 ⟨[1], 8, 64⟩ ∅)
  msgStats := Finmap.insert (2 ^ 32 + 5) ⟨1, 0⟩ (Finmap.insert 5 ⟨1, 0⟩ ∅)

/-- The answer to message `5` matches it. -/
theorem answerMatches_five : AnswerMatches 0 wrappedState 5 [1] false :=
  (answerMatches_iff (Finmap.mem_insert.mpr (.inr (Finmap.mem_insert.mpr (.inl rfl))))).mpr
    (by decide)

/-- The answer to message `2 ^ 32 + 5` removes message `5` and counts for it; its own entry stays
and is sent again until it times out. -/
theorem answer_wraps :
    ¬ AnswerMatches 0 wrappedState (2 ^ 32 + 5) [2] false ∧
      ∃ t, answerPush 0 wrappedState (pushFrame (2 ^ 32 + 5) [2] false) = .ok t ∧
        t.writeMsgQ.lookup 5 = none ∧
        t.writeMsgQ.lookup (2 ^ 32 + 5) = wrappedState.writeMsgQ.lookup (2 ^ 32 + 5) ∧
        t.msgStats.lookup 5 = some ⟨1, 1⟩ ∧ t.msgStats.lookup (2 ^ 32 + 5) = some ⟨1, 0⟩ := by
  have hans := answerPush_eq 0 wrappedState (2 ^ 32 + 5) [2] false
  have hfive : wrappedState.msgStats.lookup 5 = some ⟨1, 0⟩ := by
    show (Finmap.insert (2 ^ 32 + 5) _ _).lookup 5 = _
    rw [GoMap.lookup_insert, if_neg (by decide), GoMap.lookup_insert, if_pos rfl]
  have hbig : wrappedState.msgStats.lookup (2 ^ 32 + 5) = some ⟨1, 0⟩ := Finmap.lookup_insert _
  have hmod : (2 ^ 32 + 5) % 2 ^ 32 = 5 := by decide
  constructor
  · rintro ⟨t, ht, _, hcount⟩
    have hsame := answerPush_stats_of_ge ht (Nat.le_add_right _ 5)
    rw [hcount, if_pos rfl, hbig] at hsame
    exact absurd hsame (by decide)
  · refine ⟨_, hans, ?_, ?_, ?_, ?_⟩
    · rw [answerPush_queue hans, if_pos hmod.symm]
    · rw [answerPush_queue hans, if_neg (by decide)]
    · rw [answerPush_stats hans, if_pos hmod.symm, hfive]
      rfl
    · rw [answerPush_stats hans, if_neg (by decide), hbig]

end Skytime
