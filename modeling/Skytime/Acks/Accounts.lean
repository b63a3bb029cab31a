/-
# Skytime.Acks.Accounts — acks counted, frames reported and frames issued.

An ack can reach the server before the writer has reported the frame it answers. The counters stay
in order because the reader hands an ack to the writer before it hands it to `msg_ack_stat`, and the
writer takes it at its `select`, where every frame it has issued is reported.

The account is kept for each connection and message id: what a step adds to one side it takes from
the other.
-/
import Skytime.Acks.Net
import Skytime.Conn.AckHandover
import Skytime.Process.Ledger

namespace Skytime

open Process

namespace AckConn

/-! ## The messages of a connection -/

/-- `body` belongs to a message with the id `msgId`. -/
def Known (assigned : List PushMsg) (msgId : ℕ) (body : List UInt8) : Prop :=
  ∃ isBrAll, (⟨msgId, body, isBrAll⟩ : PushMsg) ∈ assigned

/-- Every entry of the queue belongs to a message. -/
def KnownQueue (assigned : List PushMsg) (q : WriteMsgQ) : Prop :=
  ∀ msgId msg, q.lookup msgId = some msg → Known assigned msgId msg.msgBody

/-- What a writer can be about to send. -/
inductive Sending (assigned : List PushMsg) : List WriterOut → Prop
  | nothing : Sending assigned []
  | brAll {msgId : ℕ} {body : List UInt8} (h : Known assigned msgId body) :
      Sending assigned [.push msgId (pushFrame msgId body true)]
  | push {msgId : ℕ} {body : List UInt8} (h : Known assigned msgId body) :
      Sending assigned [.push msgId (pushFrame msgId body false), .report msgId]
  | report {msgId : ℕ} {body : List UInt8} (h : Known assigned msgId body) :
      Sending assigned [.report msgId]

/-- Whatever a connection sends or keeps belongs to a message that has an id. -/
structure Traced {σ : Type} (assigned : List PushMsg) (x : AckConn σ) : Prop where
  send : ∀ m ∈ x.send.buf, m ∈ assigned
  queue : KnownQueue assigned x.writer.queue
  pending : Sending assigned x.pending

section Messages

variable {assigned assigned' : List PushMsg}

theorem Traced.sending {σ : Type} {x : AckConn σ} (hx : x.Traced assigned) {outs : List WriterOut}
    (hpending : x.pending = outs) : Sending assigned outs := by
  rw [← hpending]
  exact hx.pending

theorem Known.mono (hsub : assigned ⊆ assigned') {msgId : ℕ} {body : List UInt8}
    (h : Known assigned msgId body) : Known assigned' msgId body := by
  obtain ⟨isBrAll, hm⟩ := h
  exact ⟨isBrAll, hsub hm⟩

theorem Sending.mono (hsub : assigned ⊆ assigned') {outs : List WriterOut}
    (h : Sending assigned outs) : Sending assigned' outs := by
  cases h with
  | nothing => exact .nothing
  | brAll h => exact .brAll (h.mono hsub)
  | push h => exact .push (h.mono hsub)
  | report h => exact .report (h.mono hsub)

theorem Traced.mono {σ : Type} {x : AckConn σ} (hsub : assigned ⊆ assigned')
    (h : x.Traced assigned) : x.Traced assigned' :=
  ⟨fun m hm => hsub (h.send m hm), fun msgId msg hmsg => (h.queue msgId msg hmsg).mono hsub,
    h.pending.mono hsub⟩

/-- After a frame at most its report is left. -/
theorem Sending.tail {o : WriterOut} {rest : List WriterOut} (h : Sending assigned (o :: rest)) :
    Sending assigned rest := by
  cases h with
  | brAll | report => exact .nothing
  | push h => exact .report h

/-- A new message is sent and, if it is not a broadcast, reported. -/
theorem Sending.handleSend {cfg : RtoConfig} {q : WriteMsgQ} {m : PushMsg} (h : m ∈ assigned) :
    Sending assigned (handleSend cfg q m).2 := by
  have hm : Known assigned m.msgId m.msgBody := ⟨m.isBrAll, h⟩
  unfold Skytime.handleSend
  split
  · rename_i hbr
    rw [hbr]
    exact .brAll hm
  · rename_i hbr
    rw [Bool.eq_false_iff.mpr hbr]
    exact .push hm

/-- A retransmission is sent and reported. -/
theorem Sending.outs {r : RtoRound} {msgId : ℕ} (h : Known assigned msgId r.msg.msgBody) :
    Sending assigned (r.outs msgId) := by
  unfold RtoRound.outs
  split
  · exact .push h
  · exact .nothing

/-- The counters of an entry change and its body does not. -/
theorem rtoEntry_msgBody {cfg : RtoConfig} {msg : WriteMsg} {r : RtoRound}
    (h : rtoEntry cfg msg = .ok r) : r.msg.msgBody = msg.msgBody := by
  simp only [rtoEntry] at h
  split at h
  · exact absurd h (by simp)
  · split at h
    · obtain rfl := Except.ok.inj h
      rfl
    · obtain rfl := Except.ok.inj h
      rfl

/-- A new entry is that of the message. -/
theorem KnownQueue.handleSend {cfg : RtoConfig} {q : WriteMsgQ} {m : PushMsg}
    (hq : KnownQueue assigned q) (hm : m ∈ assigned) :
    KnownQueue assigned (handleSend cfg q m).1 := by
  intro msgId msg hmsg
  unfold Skytime.handleSend at hmsg
  split at hmsg
  · exact hq msgId msg hmsg
  · rw [GoMap.lookup_insert] at hmsg
    split at hmsg
    · rename_i hid
      obtain rfl := Option.some.inj hmsg
      rw [hid]
      exact ⟨m.isBrAll, hm⟩
    · exact hq msgId msg hmsg

/-- A tick keeps the body of an entry. -/
theorem KnownQueue.store {q : WriteMsgQ} {r : RtoRound} {msgId : ℕ} (hq : KnownQueue assigned q)
    (h : Known assigned msgId r.msg.msgBody) : KnownQueue assigned (r.store msgId q) := by
  intro k msg hmsg
  rw [RtoRound.store_lookup] at hmsg
  split at hmsg
  · rename_i hk
    split at hmsg
    · exact absurd hmsg (by simp)
    · obtain rfl := Option.some.inj hmsg
      rw [hk]
      exact h
  · exact hq k msg hmsg

theorem KnownQueue.handleAck {q : WriteMsgQ} (hq : KnownQueue assigned q) (ackSeq : ℕ) :
    KnownQueue assigned (handleAck q ackSeq) := by
  intro k msg hmsg
  rw [handleAck_lookup] at hmsg
  split at hmsg
  · exact absurd hmsg (by simp)
  · exact hq k msg hmsg

theorem Traced.step {cfg : NetConfig} {cl : Client} {x y : AckConn cl.State} {a : ConnAction}
    {o : List ConnEvent} (hx : x.Traced assigned) (hallowed : a.Allowed assigned)
    (h : x.Step cfg cl a y o) : y.Traced assigned := by
  cases h with
  | @putMessage m ch hbuf =>
      refine ⟨fun m' hm' => ?_, hx.queue, hx.pending⟩
      rw [hbuf] at hm'
      rcases List.mem_append.mp hm' with hold | hnew
      · exact hx.send m' hold
      · rw [List.mem_singleton.mp hnew]
        exact hallowed
  | @takeMessage m ch hsel hbuf =>
      have hm : ∀ m', m' = m ∨ m' ∈ ch.buf → m' ∈ assigned := by
        intro m' hm'
        apply hx.send
        rw [hbuf]
        exact List.mem_cons.mpr hm'
      have hnew := hm m (.inl rfl)
      exact ⟨fun m' hm' => hm m' (.inr hm'), hx.queue.handleSend hnew, .handleSend hnew⟩
  | @visit msgId rest msg r hpending hwalk hmsg hr =>
      have hknown : Known assigned msgId r.msg.msgBody := by
        rw [rtoEntry_msgBody hr]
        exact hx.queue msgId msg hmsg
      exact ⟨hx.send, hx.queue.store hknown, .outs hknown⟩
  | @handAck ackSeq rest hsel hreader =>
      exact ⟨hx.send, hx.queue.handleAck ackSeq, .nothing⟩
  | issue hpending | issueLost hpending | report hpending =>
      exact ⟨hx.send, hx.queue, (hx.sending hpending).tail⟩
  | writerReturns | tick | visitGone | readMessage | readError | countAck | clientRead | clientSend
  | clientInternal | loseDown | loseUp => exact ⟨hx.send, hx.queue, hx.pending⟩

end Messages

/-! ## What is still to be acknowledged -/

end AckConn

/-- The event is the issue of a push frame of type 1 for the message `n`. -/
def ConnEvent.issues (n : ℕ) : ConnEvent → Bool
  | .issued msgId frame => msgId == n && (pushSeq? frame).isSome
  | _ => false

/-- The output is a push frame of type 1 for the message `n`. -/
def WriterOut.pushes (n : ℕ) : WriterOut → Bool
  | .push msgId frame => msgId == n && (pushSeq? frame).isSome
  | _ => false

/-- The values the reader has still to hand over. -/
def Reader.todo : Reader → List HandOver
  | .handing todo => todo
  | _ => []

@[simp] theorem Reader.todo_reading : Reader.reading.todo = [] := rfl

@[simp] theorem Reader.todo_leaving : Reader.leaving.todo = [] := rfl

@[simp] theorem Reader.todo_handing (todo : List HandOver) : (Reader.handing todo).todo = todo :=
  rfl

@[simp] theorem Reader.todo_resume (todo : List HandOver) : (Reader.resume todo).todo = todo := by
  cases todo <;> rfl

/-- After a hand-over at most the count of an ack is left. -/
theorem Endpoint.Todo.tail {a : HandOver} {rest : List HandOver} (h : Endpoint.Todo (a :: rest))
    (hrest : Reader.resume rest = .handing rest) : Endpoint.Todo rest := by
  cases h with
  | ack ackSeq => exact .count ackSeq
  | count | notify => exact absurd hrest (by simp [Reader.resume])

/-- A client that answers each of the frames with `accepts`. -/
structure Client.Exact (cl : Client) (accepts : List UInt8 → Prop) : Prop where
  read : ∀ {x y frame}, accepts frame → cl.read x frame = some y →
    ∀ n, cl.owed y n = cl.owed x n + if pushSeq? frame = some n then 1 else 0
  send : ∀ {x y mt message}, cl.act x (.send mt message) = some y →
    ∀ n, (cl.owed y n + if ackSeq? mt message = some n then 1 else 0) = cl.owed x n
  internal : ∀ {x y}, cl.act x .internal = some y → ∀ n, cl.owed y n = cl.owed x n

namespace AckConn

/-- How many acks of `n` the writer may still receive: the reader holds them, they are on their way,
the client owes them, or the frame they answer is on its way. -/
def unanswered (cl : Client) (x : AckConn cl.State) (n : ℕ) : ℕ :=
  x.reader.todo.count (.recvAckSeq n) +
    (x.up.countP (fun e => ackSeq? e.1 e.2 = some n) + cl.owed x.client n +
      x.down.countP fun frame => pushSeq? frame = some n)

theorem unanswered_handNotify {cl : Client} {x : AckConn cl.State} {ackSeq n : ℕ}
    {rest : List HandOver} (hreader : x.reader = .handing (.notifyAckQ ackSeq :: rest)) :
    ({ x with reader := .resume rest } : AckConn cl.State).unanswered cl n =
      x.unanswered cl n := by
  simp only [unanswered, Reader.todo_resume, hreader, Reader.todo_handing]
  rw [List.count_cons_of_ne (by simp)]

theorem unanswered_ackToPeer {cl : Client} {x : AckConn cl.State} {ackSeq n : ℕ} :
    ({ x with down := x.down ++ [ackToPeer ackSeq] } : AckConn cl.State).unanswered cl n =
      x.unanswered cl n := by
  simp [unanswered, pushSeq?_ackToPeer]

section Counts

variable {assigned : List PushMsg} {cfg : NetConfig} {cl : Client} {x y : AckConn cl.State}
  {a : ConnAction} {o : List ConnEvent}

/-- The frame of a known message carries the id of the message. -/
theorem Sending.pushSeq? (hid : ∀ m ∈ assigned, m.msgId < 2 ^ 32) {msgId : ℕ}
    {frame : List UInt8} {rest : List WriterOut} (h : Sending assigned (.push msgId frame :: rest))
    (n : ℕ) :
    decide (Skytime.pushSeq? frame = some n) = ConnEvent.issues n (.issued msgId frame) := by
  cases h with
  | brAll _ =>
      simp [ConnEvent.issues, pushSeq?_pushFrame]
  | push h =>
      obtain ⟨isBrAll, hm⟩ := h
      have hmod : msgId % 2 ^ 32 = msgId := Nat.mod_eq_of_lt (hid _ hm)
      simp only [ConnEvent.issues, pushSeq?_pushFrame, hmod, Bool.false_eq_true, if_false,
        Option.some.injEq, Option.isSome_some, Bool.and_true]
      rfl

/-- **An ack that reaches the writer has been one of the unanswered frames, and a frame that is
issued becomes one; only faults and clients that do not answer lose one.** -/
theorem Step.unanswered (hx : x.Traced assigned) (hid : ∀ m ∈ assigned, m.msgId < 2 ^ 32)
    (h : x.Step cfg cl a y o) (accepts : List UInt8 → Prop)
    (n : ℕ) :
    ∃ lost, o.count (.passed n) + y.unanswered cl n + lost =
        x.unanswered cl n + o.countP (ConnEvent.issues n) ∧
      (cfg.faults = false → cl.Exact accepts → (∀ frame ∈ x.down, accepts frame) → lost = 0) := by
  cases h with
  | putMessage | takeMessage | writerReturns | tick | visitGone | visit | report =>
      refine ⟨0, ?_, fun _ _ _ => rfl⟩
      simp [AckConn.unanswered, setQueue, ConnEvent.issues]
  | @issue msgId frame rest hpending =>
      refine ⟨0, ?_, fun _ _ _ => rfl⟩
      have hseq := (hx.sending hpending).pushSeq? hid n
      simp only [AckConn.unanswered, List.countP_append, List.countP_singleton, hseq,
        List.count_singleton, reduceCtorEq, beq_iff_eq, if_false]
      omega
  | @issueLost msgId frame rest hpending hfaults =>
      refine ⟨[ConnEvent.issued msgId frame].countP (ConnEvent.issues n), ?_, fun hno => ?_⟩
      · simp [AckConn.unanswered]
      · exact absurd (hfaults.symm.trans hno) (by simp)
  | @readMessage mt message rest todo hreader hup hok =>
      refine ⟨0, ?_, fun _ _ _ => rfl⟩
      have hcount := (handleMessage_count hok n).1
      simp only [AckConn.unanswered, Reader.todo_resume, hcount, hreader, Reader.todo_reading, hup,
        List.countP_cons, decide_eq_true_eq, List.count_nil, List.countP_nil]
      omega
  | readError hfaults hreader =>
      refine ⟨0, ?_, fun _ _ _ => rfl⟩
      simp [AckConn.unanswered, hreader]
  | @handAck ackSeq rest hsel hreader =>
      refine ⟨0, ?_, fun _ _ _ => rfl⟩
      simp only [AckConn.unanswered, setQueue, Reader.todo_resume, hreader, Reader.todo_handing,
        List.count_cons, List.count_nil, List.countP_singleton, ConnEvent.issues, beq_iff_eq,
        HandOver.recvAckSeq.injEq, ConnEvent.passed.injEq, Bool.false_eq_true, if_false]
      omega
  | @countAck ackSeq rest hreader =>
      refine ⟨0, ?_, fun _ _ _ => rfl⟩
      simp [AckConn.unanswered, hreader, ConnEvent.issues]
  | @clientRead frame rest z hdown hz =>
      have hle := cl.owed_read hz n
      refine ⟨cl.owed x.client n + (if Skytime.pushSeq? frame = some n then 1 else 0) -
        cl.owed z n, ?_, fun _ hexact haccepts => ?_⟩
      · simp only [AckConn.unanswered, hdown, List.countP_cons, decide_eq_true_eq, List.count_nil,
          List.countP_nil]
        omega
      · rw [hexact.read (haccepts frame (by rw [hdown]; exact List.mem_cons_self)) hz n]
        omega
  | @clientSend mt message z hz =>
      have hle := cl.owed_send hz n
      refine ⟨cl.owed x.client n - (cl.owed z n + if ackSeq? mt message = some n then 1 else 0),
        ?_, fun _ hexact _ => ?_⟩
      · simp only [AckConn.unanswered, List.countP_append, List.countP_singleton,
          decide_eq_true_eq, List.count_nil, List.countP_nil]
        omega
      · rw [hexact.send hz n]
        omega
  | @clientInternal z hz =>
      have hle := cl.owed_internal hz n
      refine ⟨cl.owed x.client n - cl.owed z n, ?_, fun _ hexact _ => ?_⟩
      · simp only [AckConn.unanswered, List.count_nil, List.countP_nil]
        omega
      · rw [hexact.internal hz n]
        omega
  | @loseDown frame rest hfaults hdown =>
      refine ⟨if Skytime.pushSeq? frame = some n then 1 else 0, ?_, fun hno => ?_⟩
      · simp only [AckConn.unanswered, hdown, List.countP_cons, decide_eq_true_eq, List.count_nil,
          List.countP_nil]
        omega
      · exact absurd (hfaults.symm.trans hno) (by simp)
  | @loseUp message rest hfaults hup =>
      refine ⟨if ackSeq? message.1 message.2 = some n then 1 else 0, ?_, fun hno => ?_⟩
      · simp only [AckConn.unanswered, hup, List.countP_cons, decide_eq_true_eq, List.count_nil,
          List.countP_nil]
        omega
      · exact absurd (hfaults.symm.trans hno) (by simp)

/-- A frame that is issued belongs to a message with its id. -/
theorem Step.known_of_issued (hx : x.Traced assigned) (h : x.Step cfg cl a y o) {n : ℕ}
    (hn : 0 < o.countP (ConnEvent.issues n)) : ∃ body, Known assigned n body := by
  cases h with
  | @issue msgId frame rest hpending | @issueLost msgId frame rest hpending _ =>
      have hissues := List.countP_pos_iff.mp hn
      simp only [List.mem_singleton, exists_eq_left, ConnEvent.issues, Bool.and_eq_true,
        beq_iff_eq] at hissues
      rw [← hissues.1]
      cases hx.sending hpending with
      | brAll h | push h => exact ⟨_, h⟩
  | putMessage | takeMessage | writerReturns | tick | visitGone | visit | report | readMessage
  | readError | handAck | countAck | clientRead | clientSend | clientInternal | loseDown
  | loseUp => simp [ConnEvent.issues] at hn

/-! ## Frames and their reports -/

/-- A frame with its report. -/
theorem push_reports (msgId n : ℕ) (body : List UInt8) :
    [WriterOut.push msgId (pushFrame msgId body false), .report msgId].countP
        (WriterOut.pushes n) =
      [WriterOut.push msgId (pushFrame msgId body false), .report msgId].count (.report n) := by
  simp [WriterOut.pushes, pushSeq?_pushFrame, List.countP_cons, List.count_cons]

/-- A new message is to be reported as often as it is to be pushed. -/
theorem handleSend_reports (rto : RtoConfig) (q : WriteMsgQ) (m : PushMsg) (n : ℕ) :
    (handleSend rto q m).2.countP (WriterOut.pushes n) =
      (handleSend rto q m).2.count (.report n) := by
  unfold Skytime.handleSend
  split
  · rename_i hbr
    simp [WriterOut.pushes, pushSeq?_pushFrame, hbr]
  · rename_i hbr
    rw [Bool.eq_false_iff.mpr hbr]
    exact push_reports m.msgId n m.msgBody

/-- So is a retransmission. -/
theorem outs_reports (r : RtoRound) (msgId n : ℕ) :
    (r.outs msgId).countP (WriterOut.pushes n) = (r.outs msgId).count (.report n) := by
  unfold RtoRound.outs
  split
  · exact push_reports msgId n r.msg.msgBody
  · rfl

/-- The issue of a frame is counted as its push was. -/
theorem countP_push (n msgId : ℕ) (frame : List UInt8) (rest : List WriterOut) :
    (WriterOut.push msgId frame :: rest).countP (WriterOut.pushes n) =
      [ConnEvent.issued msgId frame].countP (ConnEvent.issues n) +
        rest.countP (WriterOut.pushes n) := by
  rw [List.countP_cons, Nat.add_comm, List.countP_singleton]
  rfl

/-- A frame that is issued waits for its report, and a report is made for a frame that waits. -/
theorem Step.reports (h : x.Step cfg cl a y o) (n : ℕ) :
    o.countP (ConnEvent.issues n) +
        (y.pending.countP (WriterOut.pushes n) + x.pending.count (.report n)) =
      o.count (.reported n) +
        (y.pending.count (.report n) + x.pending.countP (WriterOut.pushes n)) := by
  cases h with
  | @takeMessage m ch hsel hbuf =>
      have hout := handleSend_reports cfg.rto x.writer.queue m n
      simp only [setQueue, hsel.2.2, List.count_nil, List.countP_nil, hout]
  | @visit msgId rest msg r hpending hwalk hmsg hr =>
      have hout := outs_reports r msgId n
      simp only [setQueue, hpending, List.count_nil, List.countP_nil, hout]
  | @handAck ackSeq rest hsel hreader =>
      simp only [setQueue, hsel.2.2]
      simp [ConnEvent.issues]
  | @issue msgId frame rest hpending | @issueLost msgId frame rest hpending _ =>
      simp only [hpending, countP_push, List.count_cons, List.count_nil, beq_iff_eq, reduceCtorEq,
        if_false]
      omega
  | @report ok msgId rest hpending =>
      simp only [hpending, List.countP_cons, List.count_cons, List.countP_nil, List.count_nil,
        ConnEvent.issues, WriterOut.pushes, beq_iff_eq, WriterOut.report.injEq,
        ConnEvent.reported.injEq, Bool.false_eq_true, if_false]
      omega
  | putMessage | writerReturns | tick | visitGone | readMessage | readError | clientRead
  | clientSend | clientInternal | loseDown | loseUp =>
      simp only [List.count_nil, List.countP_nil]
      omega
  | countAck =>
      simp [ConnEvent.issues]
      omega

/-! ## The two hand-overs of an ack -/

/-- The reader hands an ack to the writer first and to `msg_ack_stat` next. -/
theorem Step.handed (h : x.Step cfg cl a y o) (n : ℕ) :
    o.count (.counted n) +
        (y.reader.todo.count (.recvAckCh n) + x.reader.todo.count (.recvAckSeq n)) =
      o.count (.passed n) +
        (y.reader.todo.count (.recvAckSeq n) + x.reader.todo.count (.recvAckCh n)) := by
  cases h with
  | @readMessage mt message rest todo hreader hup hok =>
      obtain ⟨hseq, hch⟩ := handleMessage_count hok n
      simp only [Reader.todo_resume, hseq, hch, hreader, Reader.todo_reading, List.count_nil]
  | readError hfaults hreader => simp [hreader]
  | @handAck ackSeq rest hsel hreader =>
      simp only [setQueue, Reader.todo_resume, hreader, Reader.todo_handing, List.count_cons,
        List.count_nil, beq_iff_eq, HandOver.recvAckSeq.injEq, ConnEvent.passed.injEq,
        reduceCtorEq, if_false]
      omega
  | @countAck ackSeq rest hreader =>
      simp only [Reader.todo_resume, hreader, Reader.todo_handing, List.count_cons,
        List.count_nil, beq_iff_eq, HandOver.recvAckCh.injEq, ConnEvent.counted.injEq,
        reduceCtorEq, if_false]
      omega
  | putMessage | takeMessage | writerReturns | tick | visitGone | visit | clientRead | clientSend
  | clientInternal | loseDown | loseUp =>
      simp only [setQueue, List.count_nil]
      omega
  | issue | issueLost | report =>
      simp
      omega

/-- After an ack has reached the writer, the writer has nothing pending. -/
theorem Step.pending_of_passed (h : x.Step cfg cl a y o) {n : ℕ} (hn : 0 < o.count (.passed n)) :
    y.pending = [] := by
  cases h with
  | handAck => rfl
  | putMessage | takeMessage | writerReturns | tick | visitGone | visit | issue | issueLost
  | report | readMessage | readError | countAck | clientRead | clientSend | clientInternal
  | loseDown | loseUp => simp at hn

/-- What the reader has to hand over keeps its shape. -/
theorem Step.todo (hx : ∀ todo, x.reader = .handing todo → Endpoint.Todo todo)
    (h : x.Step cfg cl a y o) : ∀ todo, y.reader = .handing todo → Endpoint.Todo todo := by
  cases h with
  | @readMessage mt message rest todo hreader hup hok =>
      intro todo' hhand
      obtain rfl := Endpoint.resume_eq_handing hhand
      rcases handleMessage_shape hok with ⟨_, seq, rfl⟩ | ⟨_, rfl | ⟨seq, rfl⟩⟩
      · exact .ack seq
      · exact absurd hhand (by simp [Reader.resume])
      · exact .notify seq
  | readError => exact fun _ hhand => absurd hhand (by simp)
  | handAck hsel hreader =>
      intro todo hhand
      obtain rfl := Endpoint.resume_eq_handing hhand
      exact (hx _ hreader).tail hhand
  | countAck hreader =>
      intro todo hhand
      obtain rfl := Endpoint.resume_eq_handing hhand
      exact (hx _ hreader).tail hhand
  | putMessage | takeMessage | writerReturns | tick | visitGone | visit | issue | issueLost
  | report | clientRead | clientSend | clientInternal | loseDown | loseUp => exact hx

end Counts

/-! ## The books of a connection -/

/-- The books of a connection that has shown `k`. -/
structure Accounts (cl : Client) (assigned : List PushMsg) (x : AckConn cl.State)
    (k : List ConnEvent) : Prop where
  answered : ∀ n, k.count (.passed n) + x.unanswered cl n ≤ k.countP (ConnEvent.issues n)
  reports : ∀ n, k.countP (ConnEvent.issues n) + x.pending.countP (WriterOut.pushes n) =
    k.count (.reported n) + x.pending.count (.report n)
  handed : ∀ n, k.count (.counted n) + x.reader.todo.count (.recvAckCh n) =
    k.count (.passed n) + x.reader.todo.count (.recvAckSeq n)
  todo : ∀ todo, x.reader = .handing todo → Endpoint.Todo todo
  passed_le : ∀ n, k.count (.passed n) ≤ k.count (.reported n)
  known : ∀ n, 0 < k.countP (ConnEvent.issues n) → ∃ body, Known assigned n body

section Books

variable {assigned : List PushMsg} {cfg : NetConfig} {cl : Client} {x y : AckConn cl.State}
  {a : ConnAction} {o k : List ConnEvent}

theorem Accounts.mono {assigned' : List PushMsg} (hsub : assigned ⊆ assigned')
    (hb : x.Accounts cl assigned k) : x.Accounts cl assigned' k where
  answered := hb.answered
  reports := hb.reports
  handed := hb.handed
  todo := hb.todo
  passed_le := hb.passed_le
  known n hn := by
    obtain ⟨body, hbody⟩ := hb.known n hn
    exact ⟨body, hbody.mono hsub⟩

theorem Accounts.step (hb : x.Accounts cl assigned k) (hx : x.Traced assigned)
    (hid : ∀ m ∈ assigned, m.msgId < 2 ^ 32) (h : x.Step cfg cl a y o) :
    y.Accounts cl assigned (k ++ o) := by
  have hanswered : ∀ n, (k ++ o).count (.passed n) + y.unanswered cl n ≤
      (k ++ o).countP (ConnEvent.issues n) := by
    intro n
    obtain ⟨lost, hlost, -⟩ := h.unanswered hx hid (fun _ => True) n
    have hold := hb.answered n
    rw [List.count_append, List.countP_append]
    omega
  have hreports : ∀ n, (k ++ o).countP (ConnEvent.issues n) +
      y.pending.countP (WriterOut.pushes n) =
        (k ++ o).count (.reported n) + y.pending.count (.report n) := by
    intro n
    have hnew := h.reports n
    have hold := hb.reports n
    rw [List.count_append, List.countP_append]
    omega
  refine ⟨hanswered, hreports, fun n => ?_, h.todo hb.todo, fun n => ?_, fun n hn => ?_⟩
  · have hnew := h.handed n
    have hold := hb.handed n
    rw [List.count_append, List.count_append]
    omega
  · rcases Nat.eq_zero_or_pos (o.count (.passed n)) with hzero | hpos
    · have hold := hb.passed_le n
      rw [List.count_append, List.count_append]
      omega
    · -- the writer was at its `select`, so it has reported all that it has issued
      have hpassed := hanswered n
      have hall := hreports n
      rw [h.pending_of_passed hpos, List.countP_nil, List.count_nil] at hall
      omega
  · rw [List.countP_append] at hn
    rcases Nat.eq_zero_or_pos (o.countP (ConnEvent.issues n)) with hzero | hpos
    · exact hb.known n (by omega)
    · exact h.known_of_issued hx hpos

/-- Handing over a notify is no entry. -/
theorem Accounts.handNotify {ackSeq : ℕ} {rest : List HandOver} (hb : x.Accounts cl assigned k)
    (hreader : x.reader = .handing (.notifyAckQ ackSeq :: rest)) :
    ({ x with reader := .resume rest } : AckConn cl.State).Accounts cl assigned k := by
  refine ⟨fun n => ?_, hb.reports, fun n => ?_, ?_, hb.passed_le, hb.known⟩
  · rw [unanswered_handNotify hreader]
    exact hb.answered n
  · have hold := hb.handed n
    rw [hreader, Reader.todo_handing, List.count_cons_of_ne (by simp),
      List.count_cons_of_ne (by simp)] at hold
    rwa [Reader.todo_resume]
  · intro todo hhand
    obtain rfl := Endpoint.resume_eq_handing hhand
    exact (hb.todo _ hreader).tail hhand

/-- Nor is the ack of a notify. -/
theorem Accounts.ackToPeer (hb : x.Accounts cl assigned k) (ackSeq : ℕ) :
    ({ x with down := x.down ++ [Skytime.ackToPeer ackSeq] } : AckConn cl.State).Accounts cl
      assigned k := by
  refine ⟨fun n => ?_, hb.reports, hb.handed, hb.todo, hb.passed_le, hb.known⟩
  rw [unanswered_ackToPeer]
  exact hb.answered n

/-- The writer is between issuing a frame and reporting it. -/
def Reporting {σ : Type} (x : AckConn σ) : Prop :=
  ∃ msgId rest, x.pending = .report msgId :: rest

/-- At most the report that follows a frame is due. -/
theorem Sending.pushes_le {outs : List WriterOut} (h : Sending assigned outs) (n : ℕ) :
    outs.countP (WriterOut.pushes n) ≤ outs.count (.report n) := by
  cases h with
  | nothing => exact Nat.le_refl 0
  | brAll => simp [WriterOut.pushes, pushSeq?_pushFrame]
  | @push msgId body _ => exact Nat.le_of_eq (push_reports msgId n body)
  | report => simp [WriterOut.pushes]

theorem Sending.pushes_eq {x : AckConn cl.State} (h : Sending assigned x.pending)
    (hrep : ¬ x.Reporting) (n : ℕ) :
    x.pending.countP (WriterOut.pushes n) = x.pending.count (.report n) := by
  generalize hp : x.pending = outs at h ⊢
  cases h with
  | nothing => rfl
  | brAll => simp [WriterOut.pushes, pushSeq?_pushFrame]
  | @push msgId body _ => exact push_reports msgId n body
  | @report msgId _ _ => exact absurd ⟨msgId, [], hp⟩ hrep

/-- An ack is counted after the writer has received it. -/
theorem Accounts.counted_le (hb : x.Accounts cl assigned k) (n : ℕ) :
    k.count (.counted n) ≤ k.count (.reported n) := by
  have hhanded := hb.handed n
  have hpassed := hb.passed_le n
  have hheld : x.reader.todo.count (.recvAckSeq n) ≤ x.reader.todo.count (.recvAckCh n) := by
    cases hr : x.reader with
    | handing todo =>
        cases hb.todo todo hr with
        | ack ackSeq => simp [List.count_cons]
        | count | notify => simp
    | notStarted | reading | leaving | returned => exact Nat.le_refl 0
  omega

/-- A frame is reported after it has been issued. -/
theorem Accounts.reported_le (hb : x.Accounts cl assigned k) (hx : x.Traced assigned) (n : ℕ) :
    k.count (.reported n) ≤ k.countP (ConnEvent.issues n) := by
  have hreports := hb.reports n
  have hdue := hx.pending.pushes_le n
  omega

/-- Unless a report is due, every frame is reported. -/
theorem Accounts.reported_eq (hb : x.Accounts cl assigned k) (hx : x.Traced assigned)
    (hrep : ¬ x.Reporting) (n : ℕ) :
    k.count (.reported n) = k.countP (ConnEvent.issues n) := by
  have hreports := hb.reports n
  have hdue := hx.pending.pushes_eq hrep n
  omega

/-- Nothing is shown for an id that no message has. -/
theorem Accounts.eq_zero (hb : x.Accounts cl assigned k) (hx : x.Traced assigned) {n : ℕ}
    (hn : ∀ body, ¬ Known assigned n body) :
    k.count (.reported n) = 0 ∧ k.count (.counted n) = 0 := by
  have hissued : k.countP (ConnEvent.issues n) = 0 := by
    by_contra hpos
    obtain ⟨body, hbody⟩ := hb.known n (Nat.pos_of_ne_zero hpos)
    exact hn body hbody
  have hreported := hb.reported_le hx n
  have hcounted := hb.counted_le n
  omega

end Books

end AckConn

/-! ## The statistics -/

/-- What `msg_ack_stat` makes of one entry. -/
theorem ConnEvent.count_lookup (e : ConnEvent) (msgStats : GoMap ℕ MsgStat) (n : ℕ) :
    (e.count msgStats).lookup n = (msgStats.lookup n).map fun v =>
      ⟨v.sendMsgCnt + [e].count (.reported n), v.recvAckCnt + [e].count (.counted n)⟩ := by
  cases e with
  | reported msgId =>
      rw [ConnEvent.count, countSend_lookup]
      split
      · rename_i hn
        rw [hn]
        simp
      · rename_i hn
        simp [Ne.symm hn]
  | counted ackSeq =>
      rw [ConnEvent.count, countAck_lookup]
      split
      · rename_i hn
        rw [hn]
        simp
      · rename_i hn
        simp [Ne.symm hn]
  | issued | passed => simp [ConnEvent.count]

/-- What it makes of one entry over several events. -/
theorem ConnEvent.foldl_count_lookup (o : List ConnEvent) (msgStats : GoMap ℕ MsgStat) (n : ℕ) :
    (o.foldl ConnEvent.count msgStats).lookup n = (msgStats.lookup n).map fun v =>
      ⟨v.sendMsgCnt + o.count (.reported n), v.recvAckCnt + o.count (.counted n)⟩ := by
  induction o generalizing msgStats with
  | nil => simp
  | cons e o ih =>
      have hsplit : ∀ e', (e :: o).count e' = [e].count e' + o.count e' :=
        fun e' => (List.count_append : ([e] ++ o).count e' = _)
      rw [List.foldl_cons, ih, ConnEvent.count_lookup, Option.map_map]
      congr 1
      funext v
      simp only [Function.comp_apply, hsplit, Nat.add_assoc]

namespace AckNet

variable {clients : Connection → Client}

/-- `msg_stats[ msgId ]`, with zeros for an id without an entry. -/
def stat (s : AckNet clients) (msgId : ℕ) : MsgStat := (s.msgStats.lookup msgId).getD ⟨0, 0⟩

/-- How many push frames of type 1 have been issued for the message `msgId`. -/
def issued (msgId : ℕ) (l : List (Connection × ConnEvent)) : ℕ :=
  l.countP fun e => e.2.issues msgId

/-- The statistics that the events say. -/
def tally (msgId : ℕ) (l : List (Connection × ConnEvent)) : MsgStat :=
  ⟨l.countP fun e => e.2 == .reported msgId, l.countP fun e => e.2 == .counted msgId⟩

/-- The books of all connections. -/
structure Books (s : AckNet clients) (l : List (Connection × ConnEvent)) : Prop where
  ids : ∀ m ∈ s.assigned, m.msgId < 2 ^ 32 ∧ m.msgId ∈ s.msgStats
  entries : ∀ n ∈ s.msgStats, n ≤ s.assigned.length
  traced : ∀ c, (s.conns c).Traced s.assigned
  accounts : ∀ c, (s.conns c).Accounts (clients c) s.assigned (eventsOf c l)
  stat : ∀ n, s.stat n = tally n l

section Net

variable {cfg : NetConfig} {s t : AckNet clients} {a : NetAction}
  {l o : List (Connection × ConnEvent)}

theorem tally_append (n : ℕ) (l o : List (Connection × ConnEvent)) :
    tally n (l ++ o) =
      ⟨(tally n l).sendMsgCnt + (tally n o).sendMsgCnt,
        (tally n l).recvAckCnt + (tally n o).recvAckCnt⟩ := by
  simp only [tally, List.countP_append]

theorem tally_map (n : ℕ) (c : Connection) (o : List ConnEvent) :
    tally n (o.map (Prod.mk c)) = ⟨o.count (.reported n), o.count (.counted n)⟩ := by
  simp only [tally, List.countP_map, List.count_eq_countP]
  rfl

/-- What each connection has not shown has not been shown. -/
theorem tally_eq_zero {n : ℕ} (h : ∀ c, (eventsOf c l).count (.reported n) = 0 ∧
    (eventsOf c l).count (.counted n) = 0) : tally n l = ⟨0, 0⟩ := by
  have hzero : ∀ e : ConnEvent, (∀ c, (eventsOf c l).count e = 0) →
      (l.countP fun e' => e'.2 == e) = 0 := by
    intro e he
    have hle := countP_le_of_parties (p := (· == e)) (q := fun _ => false) (l := l) (fun c => by
      rw [← List.count_eq_countP, he c]
      exact Nat.zero_le _)
    simpa using hle
  rw [tally, hzero _ fun c => (h c).1, hzero _ fun c => (h c).2]

theorem Books.init (cfg : NetConfig) (clients : Connection → Client) :
    (ackNet cfg clients).init.Books [] where
  ids m hm := absurd hm (by simp [ackNet])
  entries n hn := absurd hn Finmap.notMem_empty
  traced c := ⟨fun m hm => absurd hm (by simp [ackNet, freshConn, Chan.make]),
    fun msgId msg hmsg => absurd hmsg (by simp [ackNet, freshConn]), .nothing⟩
  accounts c := by
    refine ⟨fun n => ?_, fun n => rfl, fun n => rfl, ?_, fun n => Nat.le_refl 0, ?_⟩
    · have howed := (clients c).owed_start n
      simp [ackNet, freshConn, AckConn.unanswered, eventsOf, howed]
    · exact fun todo htodo => absurd htodo (by simp [ackNet, freshConn])
    · exact fun n hn => absurd hn (by simp [eventsOf])
  stat n := by simp [AckNet.stat, ackNet, tally]

/-- A new message has an id without an entry, and gets one with zeros. -/
theorem Books.assign {body : List UInt8} {isBrAll : Bool} (hb : s.Books l)
    (hlt : s.assigned.length + 1 < 2 ^ 32) :
    ({ s with
      assigned := s.assigned ++ [s.nextMsg body isBrAll]
      msgStats := s.msgStats.insert (s.assigned.length + 1) ⟨0, 0⟩ } : AckNet clients).Books l := by
  have hsub : s.assigned ⊆ s.assigned ++ [s.nextMsg body isBrAll] := List.subset_append_left _ _
  have hfresh : s.msgStats.lookup (s.assigned.length + 1) = none := by
    rw [Finmap.lookup_eq_none]
    intro hmem
    exact absurd (hb.entries _ hmem) (by omega)
  refine ⟨fun m hm => ?_, fun n hn => ?_, fun c => (hb.traced c).mono hsub,
    fun c => (hb.accounts c).mono hsub, fun n => ?_⟩
  · rcases List.mem_append.mp hm with hold | hnew
    · exact ⟨(hb.ids m hold).1, Finmap.mem_insert.mpr (.inr (hb.ids m hold).2)⟩
    · rw [List.mem_singleton.mp hnew]
      exact ⟨hlt, Finmap.mem_insert.mpr (.inl rfl)⟩
  · rw [List.length_append, List.length_singleton]
    rcases Finmap.mem_insert.mp hn with rfl | hold
    · exact Nat.le_refl _
    · exact Nat.le_succ_of_le (hb.entries n hold)
  · rw [← hb.stat n, AckNet.stat, AckNet.stat, GoMap.lookup_insert]
    split
    · rename_i hn
      rw [hn, hfresh]
      rfl
    · rfl

/-- A step of one connection keeps the books. -/
theorem Books.conn {c : Connection} {a : ConnAction} {x : AckConn (clients c).State}
    {o : List ConnEvent} (hb : s.Books l) (hallowed : a.Allowed s.assigned)
    (h : (s.conns c).Step cfg (clients c) a x o) :
    ({ s.setConn c x with msgStats := o.foldl ConnEvent.count s.msgStats } : AckNet clients).Books
      (l ++ o.map (Prod.mk c)) := by
  have hid : ∀ m ∈ s.assigned, m.msgId < 2 ^ 32 := fun m hm => (hb.ids m hm).1
  have hmem : ∀ n, n ∈ o.foldl ConnEvent.count s.msgStats ↔ n ∈ s.msgStats := by
    intro n
    rw [← Finmap.lookup_isSome, ← Finmap.lookup_isSome, ConnEvent.foldl_count_lookup,
      Option.isSome_map]
  have htraced : ∀ c', ((s.setConn c x).conns c').Traced s.assigned := by
    refine forall_setConn.mpr ⟨?_, fun c' _ => hb.traced c'⟩
    exact (hb.traced c).step hallowed h
  have haccounts : ∀ c', ((s.setConn c x).conns c').Accounts (clients c') s.assigned
      (eventsOf c' (l ++ o.map (Prod.mk c))) := by
    refine (forall_setConn (P := fun c' x' => x'.Accounts (clients c') s.assigned
      (eventsOf c' (l ++ o.map (Prod.mk c))))).mpr ⟨?_, fun c' hc => ?_⟩
    · rw [eventsOf_append, eventsOf_map_self]
      exact (hb.accounts c).step (hb.traced c) hid h
    · rw [eventsOf_append, eventsOf_map_of_ne hc, List.append_nil]
      exact hb.accounts c'
  refine ⟨fun m hm => ⟨hid m hm, (hmem _).mpr (hb.ids m hm).2⟩,
    fun n hn => hb.entries n ((hmem n).mp hn), htraced, haccounts, fun n => ?_⟩
  by_cases hn : n ∈ s.msgStats
  · obtain ⟨v, hv⟩ := Finmap.mem_iff.mp hn
    have hold := hb.stat n
    rw [AckNet.stat, hv] at hold
    obtain rfl : v = tally n l := hold
    rw [AckNet.stat, ConnEvent.foldl_count_lookup, hv, tally_append, tally_map]
    rfl
  · -- an id without an entry belongs to no message, so nothing is shown for it
    have hunknown : ∀ body, ¬ AckConn.Known s.assigned n body :=
      fun body hbody => hn (hbody.elim fun _ hm => (hb.ids _ hm).2)
    rw [tally_eq_zero fun c' => (haccounts c').eq_zero (htraced c') hunknown, AckNet.stat,
      ConnEvent.foldl_count_lookup, Finmap.lookup_eq_none.mpr hn]
    rfl

/-- So does a change of one connection that shows nothing. -/
theorem Books.quiet {c : Connection} {x : AckConn (clients c).State} (hb : s.Books l)
    (ch : Chan (Connection × ℕ) notifyCap) (htraced : x.Traced s.assigned)
    (haccounts : x.Accounts (clients c) s.assigned (eventsOf c l)) :
    ({ s.setConn c x with notifyAckQ := ch } : AckNet clients).Books l := by
  refine ⟨hb.ids, hb.entries, ?_, ?_, hb.stat⟩
  · exact forall_setConn.mpr ⟨htraced, fun c' _ => hb.traced c'⟩
  · exact (forall_setConn (P := fun c' x' => x'.Accounts (clients c') s.assigned
      (eventsOf c' l))).mpr ⟨haccounts, fun c' _ => hb.accounts c'⟩

theorem Books.step (hb : s.Books l) (h : s.Step cfg a t o) : t.Books (l ++ o) := by
  cases h with
  | conn hallowed hx => exact hb.conn hallowed hx
  | panic =>
      rw [List.append_nil]
      exact ⟨hb.ids, hb.entries, hb.traced, hb.accounts, hb.stat⟩
  | loseNotifyAck =>
      rw [List.append_nil]
      exact ⟨hb.ids, hb.entries, hb.traced, hb.accounts, hb.stat⟩
  | assign hlt hlen =>
      rw [List.append_nil]
      exact hb.assign hlt
  | @handNotify c ackSeq rest ch hreader =>
      rw [List.append_nil]
      have htraced := hb.traced c
      exact hb.quiet ch ⟨htraced.send, htraced.queue, htraced.pending⟩
        ((hb.accounts c).handNotify hreader)
  | @sendNotifyAck c ackSeq ch =>
      rw [List.append_nil]
      have htraced := hb.traced c
      exact hb.quiet ch ⟨htraced.send, htraced.queue, htraced.pending⟩
        ((hb.accounts c).ackToPeer ackSeq)

theorem books (r : (ackNet cfg clients).Run) : r.Always Books :=
  r.always (Books.init cfg clients) fun _ _ _ _ _ hb ha => hb.step (step_cases ha).2

end Net

end AckNet

/-- **At any time and for every message, at most as many acks are counted as frames are reported,
and at most as many are reported as have been issued; once no report is due, exactly as many.** -/
theorem ackStats_bounded (cfg : NetConfig) (clients : Connection → Client)
    (r : (ackNet cfg clients).Run) :
    r.Always fun s l => ∀ msgId,
      (s.stat msgId).recvAckCnt ≤ (s.stat msgId).sendMsgCnt ∧
        (s.stat msgId).sendMsgCnt ≤ AckNet.issued msgId l ∧
        ((∀ c, ¬ (s.conns c).Reporting) →
          (s.stat msgId).sendMsgCnt = AckNet.issued msgId l) := by
  refine (AckNet.books r).mono fun s l hb msgId => ?_
  rw [hb.stat msgId]
  refine ⟨?_, ?_, fun hrep => ?_⟩
  · exact countP_le_of_parties fun c => (hb.accounts c).counted_le msgId
  · exact countP_le_of_parties fun c => (hb.accounts c).reported_le (hb.traced c) msgId
  · exact countP_eq_of_parties fun c => (hb.accounts c).reported_eq (hb.traced c) (hrep c) msgId

end Skytime
