/-
# Skytime.Acks.Conservation — no queued message without its frame or its ack on the way.

The clients are the benchmark client with `-rto`, the links lose nothing, no connection is torn
down, and every frame stays within the read limit of the client. Then nothing that is unanswered is
ever lost: the account of `Skytime.Acks.Accounts` is an equation. A key enters `write_msg_Q`
together with its frame and leaves it with the ack, so what the queue holds is on the way.
-/
import Skytime.Acks.Accounts

namespace Skytime

open Process

/-! ## The benchmark client -/

/-- `c.SetReadLimit(16384)`. -/
def readLimit : ℕ := 16384

/-- Where the reader goroutine of `benchmark` stands. -/
inductive BenchReader where
  /-- in `ReadMessage` -/
  | reading
  /-- about to call `send_ack_msg_to_server` -/
  | acking (ackSeq : UInt32)
  /-- at `is_have_msg <- true` -/
  | counting
  /-- out of the loop, after an error of `ReadMessage` or a panic -/
  | stopped
  deriving DecidableEq, Repr

namespace BenchReader

/-- The reader gets a frame. -/
def read : BenchReader → List UInt8 → Option BenchReader
  | .reading, frame =>
    if frame.length ≤ readLimit then
      match clientRead ⟨frame, []⟩ with
      | .error _ => some .stopped
      | .ok (.ack _) => some .reading
      | .ok (.push h _ _) =>
        if h.msgType = 1 then some (.acking (UInt32.ofNat h.ackSeq)) else some .counting
    else some .stopped
  | _, _ => none

/-- What the reader does next. An error of `send_ack_msg_to_server` is not looked at. -/
def act : BenchReader → ClientAct → Option BenchReader
  | .acking ackSeq, .send .text message =>
    if message = ⟨ackToServer ackSeq.toNat, []⟩ then some .counting else none
  | .counting, .internal => some .reading
  | _, _ => none

/-- The ack the reader is about to send. -/
def owed : BenchReader → ℕ → ℕ
  | .acking ackSeq, n => if ackSeq.toNat = n then 1 else 0
  | _, _ => 0

/-- The frames that do not stop the reader. -/
def Accepts (frame : List UInt8) : Prop :=
  frame.length ≤ readLimit ∧ ∃ seen, clientRead ⟨frame, []⟩ = .ok seen

/-- What the client decodes begins with the header. -/
theorem clientRead_header {message : Slice UInt8} {seen : ClientRead}
    (h : clientRead message = .ok seen) :
    readHeader message = .ok seen.header ∧ ∀ hd, seen = .ack hd → hd.msgType = 3 := by
  refine ⟨readHeader_of_clientRead h, ?_⟩
  rintro hd rfl
  obtain ⟨hd', -, ⟨hthree, heq⟩ | ⟨-, b, n, -, -, ⟨-, body, -, heq⟩ | ⟨-, heq⟩⟩⟩ :=
    clientRead_cases h
  · rwa [ClientRead.ack.inj heq]
  · exact absurd heq (by simp)
  · exact absurd heq (by simp)

theorem pushSeq?_of_header {frame : List UInt8} {h : Header}
    (hh : readHeader ⟨frame, []⟩ = .ok h) :
    pushSeq? frame = if h.msgType = 1 then some h.ackSeq else none := by
  simp only [pushSeq?, hh]

/-- After a frame that it accepts, the reader owes the ack of this frame. -/
theorem owed_of_read {x y : BenchReader} {frame : List UInt8} (haccepts : Accepts frame)
    (h : x.read frame = some y) (n : ℕ) :
    y.owed n = x.owed n + if pushSeq? frame = some n then 1 else 0 := by
  obtain ⟨hlen, seen, hseen⟩ := haccepts
  obtain ⟨hheader, hack⟩ := clientRead_header hseen
  cases x with
  | acking | counting | stopped => exact absurd h (by simp [read])
  | reading =>
      simp only [read, if_pos hlen, hseen] at h
      rw [pushSeq?_of_header hheader]
      cases seen with
      | ack hd =>
          obtain rfl := Option.some.inj h
          have htype : (ClientRead.ack hd).header.msgType ≠ 1 := by
            rw [ClientRead.header, hack hd rfl]
            decide
          rw [if_neg htype]
          rfl
      | push hd len body =>
          have hlt : hd.ackSeq < 2 ^ 32 := readHeader_ackSeq_lt hheader
          change (if hd.msgType = 1 then _ else _) = _ at h
          rw [ClientRead.header]
          by_cases hone : hd.msgType = 1
          · rw [if_pos hone] at h ⊢
            obtain rfl := Option.some.inj h
            simp only [owed, UInt32.toNat_ofNat_of_lt' hlt, Option.some.injEq, Nat.zero_add]
          · rw [if_neg hone] at h ⊢
            obtain rfl := Option.some.inj h
            rfl

/-- The client sends the ack it owes. -/
theorem owed_of_send {x y : BenchReader} {mt : MessageType} {message : Slice UInt8}
    (h : x.act (.send mt message) = some y) (n : ℕ) :
    (y.owed n + if ackSeq? mt message = some n then 1 else 0) = x.owed n := by
  cases x with
  | reading | counting | stopped => exact absurd h (by simp [act])
  | acking ackSeq =>
      cases mt with
      | binary => exact absurd h (by simp [act])
      | text =>
          obtain ⟨hmessage, rfl⟩ := Machine.guard_eq_some_iff.mp h
          have hseq : ackSeq? .text message = some ackSeq.toNat := by
            simp only [ackSeq?, hmessage, readHeader_ackToServer, WireFrame.ackSeq_mod]
            rfl
          simp only [hseq, owed, Option.some.injEq, Nat.zero_add]

theorem owed_of_internal {x y : BenchReader} (h : x.act .internal = some y) (n : ℕ) :
    y.owed n = x.owed n := by
  cases x with
  | reading | acking | stopped => exact absurd h (by simp [act])
  | counting =>
      obtain rfl := Option.some.inj h
      rfl

/-- A reader that owes an ack is about to send it. -/
theorem acking_of_owed {x : BenchReader} {n : ℕ} (h : 0 < x.owed n) :
    ∃ ackSeq : UInt32, x = .acking ackSeq ∧ ackSeq.toNat = n := by
  cases x with
  | reading | counting | stopped => exact absurd h (Nat.lt_irrefl 0)
  | acking ackSeq =>
      refine ⟨ackSeq, rfl, ?_⟩
      by_contra hne
      rw [owed, if_neg hne] at h
      exact absurd h (Nat.lt_irrefl 0)

/-- A frame that stops the reader is not acknowledged. -/
theorem owed_of_stopping {x y : BenchReader} {frame : List UInt8} (hnot : ¬ Accepts frame)
    (h : x.read frame = some y) (n : ℕ) : y.owed n = 0 := by
  cases x with
  | acking | counting | stopped => exact absurd h (by simp [read])
  | reading =>
      by_cases hlen : frame.length ≤ readLimit
      · simp only [read, if_pos hlen] at h
        cases hseen : clientRead ⟨frame, []⟩ with
        | error e =>
            rw [hseen] at h
            obtain rfl := Option.some.inj h
            rfl
        | ok seen => exact absurd ⟨hlen, seen, hseen⟩ hnot
      · rw [read, if_neg hlen] at h
        obtain rfl := Option.some.inj h
        rfl

end BenchReader

/-- The benchmark client with `-rto`. -/
def benchmarkClient : Client where
  State := BenchReader
  start := .reading
  read := BenchReader.read
  act := BenchReader.act
  owed := BenchReader.owed
  owed_start _ := rfl
  owed_read {x y frame} h n := by
    by_cases haccepts : BenchReader.Accepts frame
    · exact Nat.le_of_eq (BenchReader.owed_of_read haccepts h n)
    · rw [BenchReader.owed_of_stopping haccepts h n]
      exact Nat.zero_le _
  owed_send h n := Nat.le_of_eq (BenchReader.owed_of_send h n)
  owed_internal h n := Nat.le_of_eq (BenchReader.owed_of_internal h n)

/-- It acknowledges every push frame that it accepts. -/
theorem benchmarkClient_exact : benchmarkClient.Exact BenchReader.Accepts where
  read haccepts h n := BenchReader.owed_of_read haccepts h n
  send h n := BenchReader.owed_of_send h n
  internal h n := BenchReader.owed_of_internal h n

/-! ## What the queue holds -/

namespace AckConn

section Queue

variable {assigned : List PushMsg} {cfg : NetConfig} {cl : Client} {x y : AckConn cl.State}
  {a : ConnAction} {o k : List ConnEvent}

/-- A key is in the queue after a step because it was there or comes with its frame; an ack that
reaches the writer removes its key. -/
theorem Step.mem_queue (h : x.Step cfg cl a y o) {n : ℕ} (hn : n ∈ y.writer.queue) :
    o.count (.passed n) = 0 ∧
      (n ∈ x.writer.queue ∨ 0 < y.pending.countP (WriterOut.pushes n)) := by
  cases h with
  | @takeMessage m ch hsel hbuf =>
      refine ⟨rfl, ?_⟩
      change n ∈ (handleSend cfg.rto x.writer.queue m).1 at hn
      show n ∈ x.writer.queue ∨ 0 < (handleSend cfg.rto x.writer.queue m).2.countP _
      unfold Skytime.handleSend at hn ⊢
      by_cases hbr : m.isBrAll = true
      · rw [if_pos hbr] at hn
        exact .inl hn
      · rw [if_neg hbr] at hn ⊢
        rcases Finmap.mem_insert.mp hn with rfl | hold
        · right
          simp [WriterOut.pushes, pushSeq?_pushFrame, hbr]
        · exact .inl hold
  | @visit msgId rest msg r hpending hwalk hmsg hr =>
      refine ⟨rfl, .inl ?_⟩
      change n ∈ r.store msgId x.writer.queue at hn
      rw [← Finmap.lookup_isSome, RtoRound.store_lookup] at hn
      rw [← Finmap.lookup_isSome]
      split at hn
      · rename_i hid
        rw [hid, hmsg]
        rfl
      · exact hn
  | @handAck ackSeq rest hsel hreader =>
      change n ∈ handleAck x.writer.queue ackSeq at hn
      rw [← Finmap.lookup_isSome, handleAck_lookup] at hn
      split at hn
      · exact absurd hn (by simp)
      · rename_i hne
        refine ⟨?_, .inl (Finmap.lookup_isSome.mp hn)⟩
        simp [Ne.symm hne]
  | putMessage | writerReturns | tick | visitGone | readMessage | readError | clientRead
  | clientSend | clientInternal | loseDown | loseUp => exact ⟨rfl, .inl hn⟩
  | issue | issueLost | report | countAck => exact ⟨by simp, .inl hn⟩

/-- A frame leaves the pending outputs by being issued. -/
theorem Step.pushes_le (h : x.Step cfg cl a y o) (n : ℕ) :
    x.pending.countP (WriterOut.pushes n) ≤
      o.countP (ConnEvent.issues n) + y.pending.countP (WriterOut.pushes n) := by
  cases h with
  | @takeMessage m ch hsel hbuf =>
      rw [hsel.2.2]
      exact Nat.zero_le _
  | @visit msgId rest msg r hpending hwalk hmsg hr =>
      rw [hpending]
      exact Nat.zero_le _
  | @handAck ackSeq rest hsel hreader =>
      rw [hsel.2.2]
      exact Nat.zero_le _
  | @issue msgId frame rest hpending | @issueLost msgId frame rest hpending _ =>
      rw [hpending, countP_push]
  | @report ok msgId rest hpending =>
      rw [hpending, List.countP_cons_of_neg (by simp [WriterOut.pushes])]
      exact Nat.le_add_left _ _
  | putMessage | writerReturns | tick | visitGone | readMessage | readError | countAck
  | clientRead | clientSend | clientInternal | loseDown | loseUp => exact Nat.le_add_left _ _

end Queue

/-! ## The account of a connection -/

/-- Nothing unanswered is lost, and what the queue holds is about to be sent or unanswered. -/
structure Conserved (x : AckConn benchmarkClient.State) (k : List ConnEvent) : Prop where
  answered : ∀ n, k.count (.passed n) + x.unanswered benchmarkClient n =
    k.countP (ConnEvent.issues n)
  queued : ∀ n ∈ x.writer.queue,
    0 < x.pending.countP (WriterOut.pushes n) + x.unanswered benchmarkClient n
  accepted : ∀ frame ∈ x.down, BenchReader.Accepts frame

section Conserved

variable {assigned : List PushMsg} {cfg : NetConfig} {x y : AckConn benchmarkClient.State}
  {a : ConnAction} {o k : List ConnEvent}

/-- The frame of a message within the limit does not stop the client. -/
theorem accepts_pushFrame (msgId : ℕ) {body : List UInt8} (isBrAll : Bool)
    (h : body.length ≤ readLimit - 9) : BenchReader.Accepts (pushFrame msgId body isBrAll) := by
  refine ⟨?_, _, clientRead_pushFrame msgId body isBrAll []⟩
  have hlen : (pushFrame msgId body isBrAll).length = 9 + body.length := by
    simp only [pushFrame, putUint32, List.length_append, List.length_cons, List.length_nil]
  unfold readLimit at h ⊢
  omega

theorem accepts_ackToPeer (ackSeq : ℕ) : BenchReader.Accepts (ackToPeer ackSeq) := by
  refine ⟨?_, _, clientRead_ackToPeer ackSeq []⟩
  show 5 ≤ 16384
  omega

theorem Step.accepted (hx : x.Traced assigned)
    (hlen : ∀ m ∈ assigned, m.msgBody.length ≤ readLimit - 9)
    (hdown : ∀ frame ∈ x.down, BenchReader.Accepts frame)
    (h : x.Step cfg benchmarkClient a y o) : ∀ frame ∈ y.down, BenchReader.Accepts frame := by
  cases h with
  | @issue msgId frame rest hpending =>
      intro frame' hframe'
      rcases List.mem_append.mp hframe' with hold | hnew
      · exact hdown frame' hold
      · rw [List.mem_singleton.mp hnew]
        cases hx.sending hpending with
        | brAll hknown | push hknown =>
            obtain ⟨isBrAll, hm⟩ := hknown
            exact accepts_pushFrame msgId _ (hlen _ hm)
  | @clientRead frame rest z hd hz =>
      intro frame' hframe'
      exact hdown frame' (by rw [hd]; exact List.mem_cons_of_mem _ hframe')
  | @loseDown frame rest hfaults hd =>
      intro frame' hframe'
      exact hdown frame' (by rw [hd]; exact List.mem_cons_of_mem _ hframe')
  | putMessage | takeMessage | writerReturns | tick | visitGone | visit | issueLost | report
  | readMessage | readError | handAck | countAck | clientSend | clientInternal | loseUp =>
      exact hdown

theorem Conserved.step (hc : x.Conserved k) (hx : x.Traced assigned)
    (hid : ∀ m ∈ assigned, m.msgId < 2 ^ 32)
    (hlen : ∀ m ∈ assigned, m.msgBody.length ≤ readLimit - 9) (hfaults : cfg.faults = false)
    (h : x.Step cfg benchmarkClient a y o) : y.Conserved (k ++ o) := by
  have hstep : ∀ n, o.count (.passed n) + y.unanswered benchmarkClient n =
      x.unanswered benchmarkClient n + o.countP (ConnEvent.issues n) := by
    intro n
    obtain ⟨lost, hlost, hzero⟩ := h.unanswered hx hid BenchReader.Accepts n
    have hnone := hzero hfaults benchmarkClient_exact hc.accepted
    omega
  refine ⟨fun n => ?_, fun n hn => ?_, h.accepted hx hlen hc.accepted⟩
  · have hold := hc.answered n
    have hnew := hstep n
    rw [List.count_append, List.countP_append]
    omega
  · obtain ⟨hpassed, hold | hpush⟩ := h.mem_queue hn
    · -- the frame or the ack that was on its way still is
      have hway := hc.queued n hold
      have hnew := hstep n
      have hpushes := h.pushes_le n
      omega
    · exact Nat.add_pos_left hpush _

theorem Conserved.handNotify {ackSeq : ℕ} {rest : List HandOver} (hc : x.Conserved k)
    (hreader : x.reader = .handing (.notifyAckQ ackSeq :: rest)) :
    ({ x with reader := .resume rest } : AckConn benchmarkClient.State).Conserved k := by
  refine ⟨fun n => ?_, fun n hn => ?_, hc.accepted⟩
  · rw [unanswered_handNotify hreader]
    exact hc.answered n
  · rw [unanswered_handNotify hreader]
    exact hc.queued n hn

theorem Conserved.ackToPeer (hc : x.Conserved k) (ackSeq : ℕ) :
    ({ x with down := x.down ++ [Skytime.ackToPeer ackSeq] } :
      AckConn benchmarkClient.State).Conserved k := by
  refine ⟨fun n => ?_, fun n hn => ?_, fun frame hframe => ?_⟩
  · rw [unanswered_ackToPeer]
    exact hc.answered n
  · rw [unanswered_ackToPeer]
    exact hc.queued n hn
  · rcases List.mem_append.mp hframe with hold | hnew
    · exact hc.accepted frame hold
    · rw [List.mem_singleton.mp hnew]
      exact accepts_ackToPeer ackSeq

end Conserved

end AckConn

/-! ## The whole net -/

namespace AckConn

/-- Where the frame of the message `n`, or the ack of it, is. -/
inductive OnTheWay (x : AckConn benchmarkClient.State) (n : ℕ) : Prop
  /-- the frame is about to be written -/
  | frameDue {frame : List UInt8} (hmem : .push n frame ∈ x.pending)
      (hseq : pushSeq? frame = some n)
  /-- the frame is in flight -/
  | frameSent {frame : List UInt8} (hmem : frame ∈ x.down) (hseq : pushSeq? frame = some n)
  /-- the client has read the frame and is about to acknowledge it -/
  | ackDue {ackSeq : UInt32} (hclient : x.client = .acking ackSeq) (hseq : ackSeq.toNat = n)
  /-- the ack is in flight -/
  | ackSent {mt : MessageType} {message : Slice UInt8} (hmem : (mt, message) ∈ x.up)
      (hseq : ackSeq? mt message = some n)
  /-- the reader holds the ack for the writer -/
  | ackHeld (hmem : .recvAckSeq n ∈ x.reader.todo)

/-- Nothing is in flight, the writer is at its `select` and both readers are in `ReadMessage`. -/
structure Idle (x : AckConn benchmarkClient.State) : Prop where
  walk : x.walk = []
  pending : x.pending = []
  reader : x.reader = .reading
  down : x.down = []
  up : x.up = []
  client : x.client = BenchReader.reading

variable {assigned : List PushMsg} {x : AckConn benchmarkClient.State} {k : List ConnEvent}

/-- A frame that is counted as due is there. -/
theorem Sending.exists_push {outs : List WriterOut} (h : Sending assigned outs)
    (hid : ∀ m ∈ assigned, m.msgId < 2 ^ 32) {n : ℕ} (hpos : 0 < outs.countP (WriterOut.pushes n)) :
    ∃ frame, .push n frame ∈ outs ∧ Skytime.pushSeq? frame = some n := by
  cases h with
  | nothing => exact absurd hpos (Nat.lt_irrefl 0)
  | brAll => simp [WriterOut.pushes, pushSeq?_pushFrame] at hpos
  | report => simp [WriterOut.pushes] at hpos
  | @push msgId body hknown =>
      obtain ⟨out, hmem, hout⟩ := List.countP_pos_iff.mp hpos
      have hn : msgId = n := by
        rcases List.mem_pair.mp hmem with rfl | rfl
        · simp only [WriterOut.pushes, Bool.and_eq_true, beq_iff_eq] at hout
          exact hout.1
        · exact absurd hout (by simp [WriterOut.pushes])
      subst hn
      obtain ⟨isBrAll, hm⟩ := hknown
      refine ⟨_, List.mem_cons_self, ?_⟩
      rw [pushSeq?_pushFrame, Nat.mod_eq_of_lt (hid _ hm)]
      rfl

/-- What is due or unanswered is somewhere. -/
theorem onTheWay_of_pos (hx : x.Traced assigned) (hid : ∀ m ∈ assigned, m.msgId < 2 ^ 32) {n : ℕ}
    (h : 0 < x.pending.countP (WriterOut.pushes n) + x.unanswered benchmarkClient n) :
    x.OnTheWay n := by
  rcases Nat.add_pos_iff_pos_or_pos.mp h with hdue | hun
  · obtain ⟨frame, hmem, hseq⟩ := hx.pending.exists_push hid hdue
    exact .frameDue hmem hseq
  · rcases Nat.add_pos_iff_pos_or_pos.mp hun with hheld | hrest
    · exact .ackHeld (List.count_pos_iff.mp hheld)
    · rcases Nat.add_pos_iff_pos_or_pos.mp hrest with hup | hdown
      · rcases Nat.add_pos_iff_pos_or_pos.mp hup with hsent | howed
        · obtain ⟨⟨mt, message⟩, hmem, hseq⟩ := List.countP_pos_iff.mp hsent
          exact .ackSent hmem (of_decide_eq_true hseq)
        · obtain ⟨ackSeq, hclient, hseq⟩ := BenchReader.acking_of_owed howed
          exact .ackDue hclient hseq
      · obtain ⟨frame, hmem, hseq⟩ := List.countP_pos_iff.mp hdown
        exact .frameSent hmem (of_decide_eq_true hseq)

theorem Idle.unanswered (hidle : x.Idle) (n : ℕ) : x.unanswered benchmarkClient n = 0 := by
  rw [AckConn.unanswered, hidle.reader, hidle.down, hidle.up, hidle.client]
  rfl

/-- An idle connection has an empty queue, and has counted as many acks as it has reported
frames. -/
theorem Conserved.idle (hc : x.Conserved k) (hb : x.Accounts benchmarkClient assigned k)
    (hidle : x.Idle) :
    x.writer.queue = ∅ ∧ ∀ n, k.count (.counted n) = k.count (.reported n) := by
  constructor
  · apply Finmap.ext_lookup
    intro n
    rw [Finmap.lookup_empty, Finmap.lookup_eq_none]
    intro hn
    have hway := hc.queued n hn
    rw [hidle.pending, hidle.unanswered n] at hway
    exact absurd hway (Nat.lt_irrefl 0)
  · intro n
    have hanswered := hc.answered n
    have hreports := hb.reports n
    have hhanded := hb.handed n
    rw [hidle.unanswered n] at hanswered
    rw [hidle.pending, List.countP_nil, List.count_nil] at hreports
    rw [hidle.reader, Reader.todo_reading, List.count_nil, List.count_nil] at hhanded
    omega

end AckConn

namespace AckNet

/-- The books of all connections with nothing lost. -/
structure Conserves (s : AckNet fun _ => benchmarkClient) (l : List (Connection × ConnEvent)) :
    Prop where
  books : s.Books l
  bodies : ∀ m ∈ s.assigned, m.msgBody.length ≤ readLimit - 9
  conns : ∀ c, (s.conns c).Conserved (eventsOf c l)

end AckNet

/-- The server, links that lose nothing and benchmark clients; every message stays within the limit
of the client. -/
def losslessNet (rto : RtoConfig) (enableVerboseLog : ℤ) :
    Machine (AckNet fun _ => benchmarkClient) NetAction (Connection × ConnEvent) :=
  ackNet ⟨rto, enableVerboseLog, false, some (readLimit - 9)⟩ fun _ => benchmarkClient

namespace AckNet

variable {rto : RtoConfig} {enableVerboseLog : ℤ} {s t : AckNet fun _ => benchmarkClient}
  {a : NetAction} {l o : List (Connection × ConnEvent)}

theorem Conserves.init (rto : RtoConfig) (enableVerboseLog : ℤ) :
    (losslessNet rto enableVerboseLog).init.Conserves [] where
  books := Books.init _ _
  bodies m hm := absurd hm (by simp [losslessNet, ackNet])
  conns c := by
    refine ⟨fun n => rfl, fun n hn => absurd hn Finmap.notMem_empty, fun frame hframe => ?_⟩
    exact absurd hframe (by simp [losslessNet, ackNet, freshConn])

theorem Conserves.step (hc : s.Conserves l)
    (h : s.Step ⟨rto, enableVerboseLog, false, some (readLimit - 9)⟩ a t o) :
    t.Conserves (l ++ o) := by
  have hid : ∀ m ∈ s.assigned, m.msgId < 2 ^ 32 := fun m hm => (hc.books.ids m hm).1
  have hbooks := hc.books.step h
  cases h with
  | assign hlt hlen =>
      refine ⟨hbooks, fun m hm => ?_, fun c => ?_⟩
      · rcases List.mem_append.mp hm with hold | hnew
        · exact hc.bodies m hold
        · rw [List.mem_singleton.mp hnew]
          exact hlen _ rfl
      · rw [List.append_nil]
        exact hc.conns c
  | @conn c a x o' hallowed hx =>
      refine ⟨hbooks, hc.bodies, ?_⟩
      refine (forall_setConn (P := fun c' x' => x'.Conserved
        (eventsOf c' (l ++ o'.map (Prod.mk c))))).mpr ⟨?_, fun c' hne => ?_⟩
      · rw [eventsOf_append, eventsOf_map_self]
        exact (hc.conns c).step (hc.books.traced c) hid hc.bodies rfl hx
      · rw [eventsOf_append, eventsOf_map_of_ne hne, List.append_nil]
        exact hc.conns c'
  | panic =>
      rw [List.append_nil] at hbooks ⊢
      exact ⟨hbooks, hc.bodies, hc.conns⟩
  | @handNotify c ackSeq rest ch hreader =>
      have hkeep := (hc.conns c).handNotify hreader
      rw [List.append_nil] at hbooks ⊢
      refine ⟨hbooks, hc.bodies, ?_⟩
      exact (forall_setConn (P := fun c' x' => x'.Conserved (eventsOf c' l))).mpr
        ⟨hkeep, fun c' _ => hc.conns c'⟩
  | @sendNotifyAck c ackSeq ch =>
      have hkeep := (hc.conns c).ackToPeer ackSeq
      rw [List.append_nil] at hbooks ⊢
      refine ⟨hbooks, hc.bodies, ?_⟩
      exact (forall_setConn (P := fun c' x' => x'.Conserved (eventsOf c' l))).mpr
        ⟨hkeep, fun c' _ => hc.conns c'⟩
  | loseNotifyAck hfaults => exact absurd hfaults (by simp)

end AckNet

/-- **A message stays in the queue of a connection only while its frame or its ack is on the way;
so when everything is idle every queue is empty, and every message has as many acks counted as
frames reported.** -/
theorem acks_conserved (rto : RtoConfig) (enableVerboseLog : ℤ)
    (r : (losslessNet rto enableVerboseLog).Run) :
    r.Always fun s _ =>
      (∀ c, ∀ n ∈ (s.conns c).writer.queue, (s.conns c).OnTheWay n) ∧
        ((∀ c, (s.conns c).Idle) →
          (∀ c, (s.conns c).writer.queue = ∅) ∧
            ∀ n, (s.stat n).recvAckCnt = (s.stat n).sendMsgCnt) := by
  have hinv : r.Always AckNet.Conserves :=
    r.always (AckNet.Conserves.init rto enableVerboseLog) fun _ _ _ _ _ hc ha =>
      hc.step (AckNet.step_cases ha).2
  refine hinv.mono fun s l hc => ⟨fun c n hn => ?_, fun hidle => ⟨fun c => ?_, fun n => ?_⟩⟩
  · exact AckConn.onTheWay_of_pos (hc.books.traced c) (fun m hm => (hc.books.ids m hm).1)
      ((hc.conns c).queued n hn)
  · exact ((hc.conns c).idle (hc.books.accounts c) (hidle c)).1
  · rw [hc.books.stat n]
    exact countP_eq_of_parties fun c =>
      ((hc.conns c).idle (hc.books.accounts c) (hidle c)).2 n

/-- The ack of a frame is read while the report of the frame is still due. -/
example :
    ((losslessNet ⟨5, 10⟩ 0).exec
      [.assign [7] false, .conn ⟨1, "p"⟩ (.putMessage ⟨1, [7], false⟩),
        .conn ⟨1, "p"⟩ .takeMessage, .conn ⟨1, "p"⟩ (.emit true), .conn ⟨1, "p"⟩ .clientRead,
        .conn ⟨1, "p"⟩ (.clientAct (.send .text ⟨ackToServer 1, []⟩)),
        .conn ⟨1, "p"⟩ .readMessage, .conn ⟨1, "p"⟩ (.emit true), .conn ⟨1, "p"⟩ .handAck,
        .conn ⟨1, "p"⟩ .countAck]).map (fun e => e.1.stat 1) = some ⟨1, 1⟩ := by
  decide +kernel

end Skytime
