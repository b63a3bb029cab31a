/-
# Skytime.Acks.Notify — the acks that `processNotifyMessage` sends for notifies.

The readers of all connections put the notifies they receive on one bounded queue; one goroutine
takes them off and sends each connection an ack for each of its notifies. A reader waits while the
queue is full. The goroutine is busy from the call of `send_ack_msg_to_peer` until its write
returns, which may wait for the connection's writer, and looks at no error. The acks of a reader
take another way, over `recv_ack_seq` and `recv_ack_ch`, whose receivers may take them at any time.
-/
import Skytime.Acks.Net
import Skytime.Process.Ledger

namespace Skytime

open Process

/-! ## The goroutines -/

structure NotifyNet where
  reader : Connection → Reader
  notifyAckQ : Chan (Connection × ℕ) notifyCap
  /-- the ack that `processNotifyMessage` is writing -/
  writing : Option (Connection × ℕ)
  panicked : Bool

inductive NotifyAction where
  /-- `go c.checkPongMessage()` -/
  | goReader (c : Connection)
  | readMessage (c : Connection) (mt : MessageType) (message : Slice UInt8)
  | readError (c : Connection)
  /-- `writeRTO` receives from `recv_ack_seq` -/
  | handAck (c : Connection)
  /-- `msg_ack_stat` receives from `recv_ack_ch` -/
  | countAck (c : Connection)
  | handNotify (c : Connection)
  /-- the deferred calls of the reader -/
  | unregister (c : Connection)
  /-- `processNotifyMessage` takes a notify and calls `send_ack_msg_to_peer` -/
  | takeNotify
  /-- the write returns; whether without an error -/
  | written (ok : Bool)
  deriving DecidableEq, Repr

inductive NotifyEvent where
  /-- the reader has received a notify frame with this sequence number -/
  | received (ackSeq : ℕ)
  /-- `send_ack_msg_to_peer` is called and writes this frame -/
  | issued (frame : List UInt8)
  deriving DecidableEq, Repr

/-- The sequence number of a notify frame. -/
def notifySeq? (mt : MessageType) (message : Slice UInt8) : Option ℕ :=
  match mt, readHeader message with
  | .text, .ok h => if h.msgType = 2 then some h.ackSeq else none
  | _, _ => none

namespace NotifyNet

def setReader (s : NotifyNet) (c : Connection) (x : Reader) : NotifyNet :=
  { s with reader := Function.update s.reader c x }

def stepRunning (verbose : ℤ) (s : NotifyNet) :
    NotifyAction → Option (NotifyNet × List (Connection × NotifyEvent))
  | .goReader c => if s.reader c = .notStarted then some (s.setReader c .reading, []) else none
  | .readMessage c mt message =>
    if s.reader c = .reading then
      match handleMessage verbose mt message with
      | .error _ => some ({ s with panicked := true }, [])
      | .ok todo =>
        some (s.setReader c (.resume todo),
          ((notifySeq? mt message).toList.map NotifyEvent.received).map (Prod.mk c))
    else none
  | .readError c => if s.reader c = .reading then some (s.setReader c .leaving, []) else none
  | .handAck c =>
    match s.reader c with
    | .handing (.recvAckSeq _ :: rest) => some (s.setReader c (.resume rest), [])
    | _ => none
  | .countAck c =>
    match s.reader c with
    | .handing (.recvAckCh _ :: rest) => some (s.setReader c (.resume rest), [])
    | _ => none
  | .handNotify c =>
    match s.reader c with
    | .handing (.notifyAckQ ackSeq :: rest) =>
      match s.notifyAckQ.send (c, ackSeq) with
      | .sent ch => some ({ s.setReader c (.resume rest) with notifyAckQ := ch }, [])
      -- the reader waits
      | _ => none
    | _ => none
  | .unregister c => if s.reader c = .leaving then some (s.setReader c .returned, []) else none
  | .takeNotify =>
    if s.writing = none then
      match s.notifyAckQ.recv with
      | .got (c, ackSeq) ch =>
        some ({ s with notifyAckQ := ch, writing := some (c, ackSeq) },
          [(c, .issued (ackToPeer ackSeq))])
      | _ => none
    else none
  -- the error is not looked at
  | .written _ => if s.writing = none then none else some ({ s with writing := none }, [])

/-- A panic ends the process: nothing is enabled after it. -/
def step (verbose : ℤ) (s : NotifyNet) (a : NotifyAction) :
    Option (NotifyNet × List (Connection × NotifyEvent)) :=
  if s.panicked then none else s.stepRunning verbose a

end NotifyNet

/-- The server before the first reader is started. -/
def notifyNet (verbose : ℤ) : Machine NotifyNet NotifyAction (Connection × NotifyEvent) where
  init := ⟨fun _ => .notStarted, Chan.make, none, false⟩
  step := NotifyNet.step verbose

/-! ## Notifies on their way -/

/-- The notifies among the values a reader is about to hand over. -/
def notifies : List HandOver → List ℕ :=
  List.filterMap fun
    | .notifyAckQ ackSeq => some ackSeq
    | _ => none

/-- The notifies that the reader is about to put on the queue. -/
def Reader.notifies : Reader → List ℕ
  | .handing todo => Skytime.notifies todo
  | _ => []

theorem Reader.notifies_resume (todo : List HandOver) :
    (Reader.resume todo).notifies = Skytime.notifies todo := by
  cases todo <;> rfl

/-- The frames issued to the connection, in order. -/
def issuedFrames (c : Connection) (l : List (Connection × NotifyEvent)) : List (List UInt8) :=
  (eventsOf c l).filterMap fun
    | .issued frame => some frame
    | _ => none

/-- The sequence numbers of the notifies that the reader of the connection has received. -/
def receivedSeqs (c : Connection) (l : List (Connection × NotifyEvent)) : List ℕ :=
  (eventsOf c l).filterMap fun
    | .received ackSeq => some ackSeq
    | _ => none

@[simp] theorem issuedFrames_append (c : Connection) (l o : List (Connection × NotifyEvent)) :
    issuedFrames c (l ++ o) = issuedFrames c l ++ issuedFrames c o := by
  rw [issuedFrames, eventsOf_append, List.filterMap_append]
  rfl

@[simp] theorem receivedSeqs_append (c : Connection) (l o : List (Connection × NotifyEvent)) :
    receivedSeqs c (l ++ o) = receivedSeqs c l ++ receivedSeqs c o := by
  rw [receivedSeqs, eventsOf_append, List.filterMap_append]
  rfl

/-- A round of the reader is about to hand over the notify it has received, if it is one. -/
theorem notifies_of_handleMessage {verbose : ℤ} {mt : MessageType} {message : Slice UInt8}
    {todo : List HandOver} (h : handleMessage verbose mt message = .ok todo) :
    notifies todo = (notifySeq? mt message).toList := by
  cases mt with
  | binary =>
      obtain rfl := Except.ok.inj h
      rfl
  | text =>
      cases hh : readHeader message with
      | error e => simp [handleMessage, hh, bind, Except.bind] at h
      | ok header =>
          rw [handleMessage_eq verbose hh] at h
          by_cases hthree : header.msgType = 3
          · rw [if_pos hthree] at h
            obtain rfl := Except.ok.inj h
            simp [notifySeq?, hh, hthree, notifies]
          · rw [if_neg hthree] at h
            by_cases htwo : header.msgType = 2
            · rw [if_pos htwo] at h
              obtain rfl := handleNotify_cases h
              simp [notifySeq?, hh, htwo, notifies]
            · rw [if_neg htwo] at h
              obtain rfl := Except.ok.inj h
              simp [notifySeq?, hh, htwo, notifies]

theorem notifySeq?_lt {mt : MessageType} {message : Slice UInt8} {n : ℕ}
    (h : notifySeq? mt message = some n) : n < 2 ^ 32 := by
  unfold notifySeq? at h
  split at h
  · rename_i header hh
    split at h
    · exact Option.some.inj h ▸ readHeader_ackSeq_lt hh
    · exact absurd h (by simp)
  · exact absurd h (by simp)

/-- An ack carries the sequence number it is sent for. -/
theorem ackSeq?_ackToPeer {n : ℕ} (h : n < 2 ^ 32) :
    ackSeq? .text ⟨ackToPeer n, []⟩ = some n := by
  have htype : msgTypeOf svrAckByte = 3 := by decide
  simp only [ackSeq?, ackToPeer, readHeader_frame, htype, if_true, Nat.mod_eq_of_lt h]

/-! ## What a step can do -/

/-- Everything one step can do. -/
inductive NotifyNet.Step (verbose : ℤ) (s : NotifyNet) :
    NotifyNet → List (Connection × NotifyEvent) → Prop
  | move {c : Connection} {x : Reader} (hx : x.notifies = (s.reader c).notifies) :
      Step verbose s (s.setReader c x) []
  | read {c : Connection} {mt : MessageType} {message : Slice UInt8} {todo : List HandOver}
      (hreader : s.reader c = .reading) (hok : handleMessage verbose mt message = .ok todo) :
      Step verbose s (s.setReader c (.resume todo))
        (((notifySeq? mt message).toList.map NotifyEvent.received).map (Prod.mk c))
  | panic : Step verbose s { s with panicked := true } []
  | handNotify {c : Connection} {ackSeq : ℕ} {rest : List HandOver}
      {ch : Chan (Connection × ℕ) notifyCap}
      (hreader : s.reader c = .handing (.notifyAckQ ackSeq :: rest))
      (hbuf : ch.buf = s.notifyAckQ.buf ++ [(c, ackSeq)]) :
      Step verbose s { s.setReader c (.resume rest) with notifyAckQ := ch } []
  | takeNotify {c : Connection} {ackSeq : ℕ} {ch : Chan (Connection × ℕ) notifyCap}
      (hbuf : s.notifyAckQ.buf = (c, ackSeq) :: ch.buf) :
      Step verbose s { s with notifyAckQ := ch, writing := some (c, ackSeq) }
        [(c, .issued (ackToPeer ackSeq))]
  | written : Step verbose s { s with writing := none } []

theorem NotifyNet.step_cases {verbose : ℤ} {s t : NotifyNet} {a : NotifyAction}
    {o : List (Connection × NotifyEvent)} (h : (notifyNet verbose).step s a = some (t, o)) :
    s.Step verbose t o := by
  simp only [notifyNet, NotifyNet.step] at h
  split at h
  · exact absurd h (by simp)
  · cases a with
    | goReader c | readError c | unregister c =>
        obtain ⟨hreader, h⟩ := Machine.guard_eq_some_iff.mp h
        obtain ⟨rfl, rfl⟩ := Prod.mk.inj h
        exact .move (by rw [hreader]; rfl)
    | readMessage c mt message =>
        obtain ⟨hreader, h⟩ := Option.ite_none_right_eq_some.mp h
        split at h
        · obtain ⟨rfl, rfl⟩ := Prod.mk.inj (Option.some.inj h)
          exact .panic
        · rename_i todo hok
          obtain ⟨rfl, rfl⟩ := Prod.mk.inj (Option.some.inj h)
          exact .read hreader hok
    | handAck c | countAck c =>
        simp only [stepRunning] at h
        split at h
        · rename_i ackSeq rest hreader
          obtain ⟨rfl, rfl⟩ := Prod.mk.inj (Option.some.inj h)
          exact .move (by rw [hreader, Reader.notifies_resume]; rfl)
        · exact absurd h (by simp)
    | handNotify c =>
        simp only [stepRunning] at h
        split at h
        · rename_i ackSeq rest hreader
          split at h
          · rename_i ch hsend
            obtain ⟨rfl, rfl⟩ := Prod.mk.inj (Option.some.inj h)
            exact .handNotify hreader (Chan.send_eq_sent_iff.mp hsend).2.2.1
          · exact absurd h (by simp)
        · exact absurd h (by simp)
    | takeNotify =>
        obtain ⟨-, h⟩ := Option.ite_none_right_eq_some.mp h
        split at h
        · rename_i c ackSeq ch hrecv
          obtain ⟨rfl, rfl⟩ := Prod.mk.inj (Option.some.inj h)
          exact .takeNotify (Chan.recv_eq_got_iff.mp hrecv).1
        · exact absurd h (by simp)
    | written ok =>
        simp only [stepRunning] at h
        split at h
        · exact absurd h (by simp)
        · obtain ⟨rfl, rfl⟩ := Prod.mk.inj (Option.some.inj h)
          exact .written

/-! ## Every notify is on one way -/

/-- The notifies of a connection on the queue, oldest first. -/
def NotifyNet.queued (s : NotifyNet) (c : Connection) : List ℕ := eventsOf c s.notifyAckQ.buf

/-- What the reader of `c` has received has been acknowledged, is on the queue, or is about to be
put there, in this order. -/
structure NotifyNet.OnWay (s : NotifyNet) (l : List (Connection × NotifyEvent))
    (c : Connection) : Prop where
  order : ∃ acked, receivedSeqs c l = acked ++ s.queued c ++ (s.reader c).notifies ∧
    issuedFrames c l = acked.map ackToPeer
  bound : ∀ n ∈ receivedSeqs c l, n < 2 ^ 32

/-- A step that shows nothing of `c` and leaves its notifies where they are. -/
theorem NotifyNet.OnWay.quiet {s t : NotifyNet} {l o : List (Connection × NotifyEvent)}
    {c : Connection} (h : s.OnWay l c) (ho : eventsOf c o = [])
    (hway : t.queued c ++ (t.reader c).notifies = s.queued c ++ (s.reader c).notifies) :
    t.OnWay (l ++ o) c := by
  obtain ⟨acked, hreceived, hissued⟩ := h.order
  have hr : receivedSeqs c (l ++ o) = receivedSeqs c l := by
    rw [receivedSeqs, eventsOf_append, ho, List.append_nil]
    rfl
  have hi : issuedFrames c (l ++ o) = issuedFrames c l := by
    rw [issuedFrames, eventsOf_append, ho, List.append_nil]
    rfl
  refine ⟨⟨acked, ?_, hi.trans hissued⟩, hr ▸ h.bound⟩
  rw [hr, hreceived, List.append_assoc, List.append_assoc, hway]

theorem NotifyNet.OnWay.step {verbose : ℤ} {s t : NotifyNet}
    {l o : List (Connection × NotifyEvent)} {c : Connection} (h : s.OnWay l c)
    (hstep : s.Step verbose t o) : t.OnWay (l ++ o) c := by
  cases hstep with
  | @move c' x hx =>
      refine h.quiet rfl (congrArg (s.queued c ++ ·) ?_)
      simp only [setReader, Function.update_apply]
      split
      · rename_i hc
        rw [hx, hc]
      · rfl
  | panic | written => exact h.quiet rfl rfl
  | @read c' mt message todo hreader hok =>
      by_cases hc : c = c'
      · subst hc
        obtain ⟨acked, hreceived, hissued⟩ := h.order
        have hnew : receivedSeqs c (((notifySeq? mt message).toList.map NotifyEvent.received).map
            (Prod.mk c)) = notifies todo := by
          rw [receivedSeqs, eventsOf_map_self, notifies_of_handleMessage hok]
          cases notifySeq? mt message <;> rfl
        have hnone : issuedFrames c (((notifySeq? mt message).toList.map
            NotifyEvent.received).map (Prod.mk c)) = [] := by
          rw [issuedFrames, eventsOf_map_self]
          cases notifySeq? mt message <;> rfl
        refine ⟨⟨acked, ?_, by rw [issuedFrames_append, hnone, hissued, List.append_nil]⟩, ?_⟩
        · have hreader' : ((s.setReader c (.resume todo)).reader c).notifies = notifies todo := by
            simp only [setReader, Function.update_self]
            exact Reader.notifies_resume todo
          have hidle : (s.reader c).notifies = [] := by
            rw [hreader]
            rfl
          rw [receivedSeqs_append, hnew, hreceived, hidle, hreader', List.append_nil]
          rfl
        · intro n hn
          rw [receivedSeqs_append, hnew, notifies_of_handleMessage hok] at hn
          rcases List.mem_append.mp hn with hn | hn
          · exact h.bound n hn
          · exact notifySeq?_lt (by simpa using hn)
      · refine h.quiet (eventsOf_map_of_ne hc _) ?_
        simp only [setReader, Function.update_of_ne hc, queued]
  | @handNotify c' ackSeq rest ch hreader hbuf =>
      refine h.quiet rfl ?_
      by_cases hc : c = c'
      · -- the notify goes from the reader to the end of the queue
        subst hc
        have hnew : eventsOf c [(c, ackSeq)] = [ackSeq] := by simp [eventsOf]
        have hnext : (s.reader c).notifies = ackSeq :: notifies rest := by
          rw [hreader]
          rfl
        simp only [setReader, queued, hbuf, Function.update_self, eventsOf_append, hnew]
        rw [hnext, Reader.notifies_resume, List.append_assoc, List.singleton_append]
      · simp only [setReader, queued, hbuf, Function.update_of_ne hc, eventsOf_append]
        simp [eventsOf, Ne.symm hc]
  | @takeNotify c' ackSeq ch hbuf =>
      by_cases hc : c = c'
      · subst hc
        obtain ⟨acked, hreceived, hissued⟩ := h.order
        have hqueue : s.queued c = ackSeq :: eventsOf c ch.buf := by
          simp [queued, hbuf, eventsOf]
        have hnone : receivedSeqs c [(c, .issued (ackToPeer ackSeq))] = [] := by
          simp [receivedSeqs, eventsOf]
        have hnew : issuedFrames c [(c, .issued (ackToPeer ackSeq))] = [ackToPeer ackSeq] := by
          simp [issuedFrames, eventsOf]
        refine ⟨⟨acked ++ [ackSeq], ?_, ?_⟩, ?_⟩
        · rw [receivedSeqs_append, hnone, List.append_nil, hreceived, hqueue]
          simp [queued]
        · rw [issuedFrames_append, hnew, hissued, List.map_append, List.map_singleton]
        · rw [receivedSeqs_append, hnone, List.append_nil]
          exact h.bound
      · refine h.quiet (by simp [eventsOf, Ne.symm hc]) ?_
        simp [queued, hbuf, eventsOf, Ne.symm hc]

/-- **For every connection, the sequence numbers of the acks issued to it, then of the notifies
queued for it, then of the one its reader is about to queue are those of the notifies its reader has
received, in order.** -/
theorem notifies_acknowledged (verbose : ℤ) (r : (notifyNet verbose).Run) :
    r.Always fun s l => ∀ c,
      (issuedFrames c l).map (fun frame => ackSeq? .text ⟨frame, []⟩) ++
        (s.queued c ++ (s.reader c).notifies).map some = (receivedSeqs c l).map some := by
  have hinit : ∀ c, (notifyNet verbose).init.OnWay [] c := by
    intro c
    refine ⟨⟨[], rfl, rfl⟩, ?_⟩
    intro n hn
    exact absurd hn List.not_mem_nil
  have hway : r.Always fun s l => ∀ c, s.OnWay l c := by
    refine Machine.Run.always hinit ?_ r
    intro s l a t o h hstep c
    exact (h c).step (NotifyNet.step_cases hstep)
  refine hway.mono fun s l h c => ?_
  obtain ⟨⟨acked, hreceived, hissued⟩, hbound⟩ := h c
  have hacked : (acked.map ackToPeer).map (fun frame => ackSeq? .text ⟨frame, []⟩) =
      acked.map some := by
    rw [List.map_map]
    apply List.map_congr_left
    intro n hn
    exact ackSeq?_ackToPeer (hbound n (by rw [hreceived]; simp [hn]))
  simp only [hissued, hacked, hreceived, List.append_assoc, List.map_append]

end Skytime
