/-
# Skytime.Conn.Writer — the writers of a connection (`writeRTO`, `writePump`).

`writeRTO` owns `write_msg_Q`, the peer messages that have been sent and not acknowledged. Each of
its `select` cases is a function of the queue that returns the new queue and what the writer sends
while it handles the case: frames to the peer and sequence numbers to `send_msg_ch`. The counters
are machine integers of 64 bits, as in the source, and the configured values are not validated.
-/
import Skytime.Conn.Frame
import Skytime.Hub.Loop
import Skytime.Process.Machine

namespace Skytime

open Process

/-! ## Data -/

/-- `max_retry_ttl` and `max_wait_ttl`. -/
structure RtoConfig where
  maxRetryTtl : Int64
  maxWaitTtl : Int64
  deriving DecidableEq, Repr

/-- `write_msg_t`. -/
structure WriteMsg where
  msgBody : List UInt8
  retryTimes : Int64
  waitTtl : Int64
  deriving DecidableEq, Repr

/-- `connection.write_msg_Q`. -/
abbrev WriteMsgQ := GoMap ℕ WriteMsg

/-- What a writer sends. Errors of the websocket are ignored by `send_push_msg_to_peer`'s callers,
so a frame counts as sent when it is handed to the websocket. -/
inductive WriterOut where
  /-- `send_push_msg_to_peer` for the message with this id -/
  | push (msgId : ℕ) (frame : List UInt8)
  /-- `hrooms.send_msg_ch <- msg_id` -/
  | report (msgId : ℕ)
  /-- the body of a message, written by `writePump` without a frame -/
  | text (body : List UInt8)
  | pingMessage
  | closeMessage
  /-- the `rto_ticker` has fired -/
  | ticked
  deriving DecidableEq, Repr

/-! ## The cases of the select -/

/-- `case message, ok := <-c.send`, with a message. -/
def handleSend (cfg : RtoConfig) (q : WriteMsgQ) (m : PushMsg) : WriteMsgQ × List WriterOut :=
  if m.isBrAll then
    -- a room broadcast is not sent again, so it is not recorded
    (q, [.push m.msgId (pushFrame m.msgId m.msgBody m.isBrAll)])
  else
    (q.insert m.msgId ⟨m.msgBody, cfg.maxRetryTtl, cfg.maxWaitTtl⟩,
      [.push m.msgId (pushFrame m.msgId m.msgBody m.isBrAll), .report m.msgId])

/-- `case ack_seq := <-c.recv_ack_seq`. -/
def handleAck (q : WriteMsgQ) (ackSeq : ℕ) : WriteMsgQ :=
  if ackSeq ∈ q then q.erase ackSeq else q

/-- What a tick does with one entry: its counters afterwards, whether it is deleted, whether it is
sent again. -/
structure RtoRound where
  msg : WriteMsg
  expired : Bool
  resend : Bool
  deriving DecidableEq, Repr

/-- The body of the loop over `write_msg_Q`, for one entry. The retry test comes after the deletion
and is made for a deleted entry as well. -/
def rtoEntry (cfg : RtoConfig) (msg : WriteMsg) : Except RuntimeError RtoRound :=
  let waitTtl := msg.waitTtl - 1
  if cfg.maxRetryTtl = 0 then .error .divide
  else if waitTtl < (msg.retryTimes - 1) * (cfg.maxWaitTtl / cfg.maxRetryTtl) then
    .ok ⟨⟨msg.msgBody, msg.retryTimes - 1, waitTtl⟩, waitTtl ≤ 0, true⟩
  else
    .ok ⟨⟨msg.msgBody, msg.retryTimes, waitTtl⟩, waitTtl ≤ 0, false⟩

/-- What the entry of `msgId` becomes in the map. -/
def RtoRound.store (r : RtoRound) (msgId : ℕ) (q : WriteMsgQ) : WriteMsgQ :=
  if r.expired then q.erase msgId else q.insert msgId r.msg

/-- What is sent for the entry of `msgId`. -/
def RtoRound.outs (r : RtoRound) (msgId : ℕ) : List WriterOut :=
  if r.resend then [.push msgId (pushFrame msgId r.msg.msgBody false), .report msgId] else []

/-- `for ack_seq, msg := range c.write_msg_Q`, along the keys still to be visited. -/
def rtoWalk (cfg : RtoConfig) :
    List ℕ → WriteMsgQ → Except RuntimeError (WriteMsgQ × List WriterOut)
  | [], q => .ok (q, [])
  | msgId :: rest, q =>
    match q.lookup msgId with
    -- the walk deletes only the entry it visits, so the other keys stay present
    | none => rtoWalk cfg rest q
    | some msg => do
      let r ← rtoEntry cfg msg
      let (q', outs) ← rtoWalk cfg rest (r.store msgId q)
      return (q', r.outs msgId ++ outs)

/-! ## The machine -/

/-- Whether the writer is in its loop, has left it to return, or has ended the process. -/
inductive WriterStatus where
  | running
  | returned
  | panicked
  deriving DecidableEq, Repr

/-- A writer goroutine with the queue of its connection. -/
structure Writer where
  queue : WriteMsgQ
  status : WriterStatus

/-- What the writer's `select` finds ready. -/
inductive WriterEvent where
  /-- a message from `c.send` -/
  | message (m : PushMsg)
  /-- `c.send` is closed and empty -/
  | closed
  /-- the `ping_ticker` has fired; whether the ping could be written -/
  | ping (ok : Bool)
  /-- a value from `c.recv_ack_seq` -/
  | ack (ackSeq : ℕ)
  /-- the `rto_ticker` has fired; the order in which the map is iterated -/
  | tick (order : List ℕ)
  deriving DecidableEq, Repr

namespace Writer

/-- One round of the loop of `writeRTO`. -/
def rtoStep (cfg : RtoConfig) (w : Writer) (e : WriterEvent) : Option (Writer × List WriterOut) :=
  if w.status ≠ .running then none
  else match e with
    | .message m =>
      some ({ w with queue := (handleSend cfg w.queue m).1 }, (handleSend cfg w.queue m).2)
    | .closed => some ({ w with status := .returned }, [.closeMessage])
    | .ping true => some (w, [.pingMessage])
    | .ping false => some ({ w with status := .returned }, [.pingMessage])
    | .ack ackSeq => some ({ w with queue := handleAck w.queue ackSeq }, [])
    | .tick order =>
      if w.queue.Range order then
        match rtoWalk cfg order w.queue with
        | .error _ => some ({ w with status := .panicked }, [.ticked])
        | .ok (q, outs) => some ({ w with queue := q }, .ticked :: outs)
      else none

/-- One round of the loop of `writePump`, which has no case for acks and ticks; `ok` says whether
the body of a message could be written. -/
def pumpStep (w : Writer) (ok : Bool) (e : WriterEvent) : Option (Writer × List WriterOut) :=
  if w.status ≠ .running then none
  else match e with
    | .message m =>
      some (if ok then w else { w with status := .returned }, [.text m.msgBody])
    | .closed => some ({ w with status := .returned }, [.closeMessage])
    | .ping sent => some (if sent then w else { w with status := .returned }, [.pingMessage])
    | .ack _ => none
    | .tick _ => none

end Writer

/-- A writer from its start. -/
def rtoWriter (cfg : RtoConfig) : Machine Writer WriterEvent WriterOut where
  init := ⟨∅, .running⟩
  step := Writer.rtoStep cfg

/-- Everything one round of a writer can do. -/
inductive Writer.RtoStep (cfg : RtoConfig) (w : Writer) :
    WriterEvent → Writer → List WriterOut → Prop
  | message (m : PushMsg) :
      RtoStep cfg w (.message m) { w with queue := (handleSend cfg w.queue m).1 }
        (handleSend cfg w.queue m).2
  | closed : RtoStep cfg w .closed { w with status := .returned } [.closeMessage]
  | ping : RtoStep cfg w (.ping true) w [.pingMessage]
  | pingFailed : RtoStep cfg w (.ping false) { w with status := .returned } [.pingMessage]
  | ack (ackSeq : ℕ) :
      RtoStep cfg w (.ack ackSeq) { w with queue := handleAck w.queue ackSeq } []
  | panic {order : List ℕ} {e : RuntimeError} (hwalk : rtoWalk cfg order w.queue = .error e) :
      RtoStep cfg w (.tick order) { w with status := .panicked } [.ticked]
  | tick {order : List ℕ} {q : WriteMsgQ} {outs : List WriterOut}
      (horder : w.queue.Range order) (hwalk : rtoWalk cfg order w.queue = .ok (q, outs)) :
      RtoStep cfg w (.tick order) { w with queue := q } (.ticked :: outs)

/-- A round starts from a running writer and is one of the listed ones. -/
theorem Writer.rtoStep_cases {cfg : RtoConfig} {w w' : Writer} {e : WriterEvent}
    {o : List WriterOut} (h : (rtoWriter cfg).step w e = some (w', o)) :
    w.status = .running ∧ w.RtoStep cfg e w' o := by
  simp only [rtoWriter, Writer.rtoStep] at h
  split at h
  · exact absurd h (by simp)
  · rename_i hrun
    refine ⟨by simpa using hrun, ?_⟩
    split at h
    · rename_i m
      obtain ⟨rfl, rfl⟩ := Prod.mk.inj (Option.some.inj h)
      exact .message m
    · obtain ⟨rfl, rfl⟩ := Prod.mk.inj (Option.some.inj h)
      exact .closed
    · obtain ⟨rfl, rfl⟩ := Prod.mk.inj (Option.some.inj h)
      exact .ping
    · obtain ⟨rfl, rfl⟩ := Prod.mk.inj (Option.some.inj h)
      exact .pingFailed
    · rename_i ackSeq
      obtain ⟨rfl, rfl⟩ := Prod.mk.inj (Option.some.inj h)
      exact .ack ackSeq
    · rename_i order
      split at h
      · rename_i horder
        split at h
        · rename_i hwalk
          obtain ⟨rfl, rfl⟩ := Prod.mk.inj (Option.some.inj h)
          exact .panic hwalk
        · rename_i q outs hwalk
          obtain ⟨rfl, rfl⟩ := Prod.mk.inj (Option.some.inj h)
          exact .tick horder hwalk
      · exact absurd h (by simp)

/-- `writePump` does no arithmetic that could panic. -/
theorem Writer.pumpStep_status {w w' : Writer} {ok : Bool} {e : WriterEvent} {o : List WriterOut}
    (h : w.pumpStep ok e = some (w', o)) : w.status = .running ∧ w'.status ≠ .panicked := by
  simp only [Writer.pumpStep] at h
  split at h
  · exact absurd h (by simp)
  · rename_i hrun
    have hrun : w.status = .running := by simpa using hrun
    refine ⟨hrun, ?_⟩
    split at h
    · obtain ⟨rfl, rfl⟩ := Prod.mk.inj (Option.some.inj h)
      split <;> simp [hrun]
    · obtain ⟨rfl, rfl⟩ := Prod.mk.inj (Option.some.inj h)
      simp
    · obtain ⟨rfl, rfl⟩ := Prod.mk.inj (Option.some.inj h)
      split <;> simp [hrun]
    · exact absurd h (by simp)
    · exact absurd h (by simp)

/-! ## One key of the queue -/

/-- The frames an output list sends for the message `msgId`. -/
def framesOf (msgId : ℕ) : List WriterOut → List (List UInt8)
  | [] => []
  | .push i frame :: outs => if i = msgId then frame :: framesOf msgId outs else framesOf msgId outs
  | _ :: outs => framesOf msgId outs

@[simp] theorem framesOf_append (msgId : ℕ) (l k : List WriterOut) :
    framesOf msgId (l ++ k) = framesOf msgId l ++ framesOf msgId k := by
  induction l with
  | nil => rfl
  | cons o l ih =>
      cases o with
      | push i frame =>
          simp only [List.cons_append, framesOf]
          split <;> simp [ih]
      | report | text | pingMessage | closeMessage | ticked => exact ih

theorem handleSend_lookup_of_ne {cfg : RtoConfig} {q : WriteMsgQ} {m : PushMsg} {msgId : ℕ}
    (h : msgId ≠ m.msgId) : (handleSend cfg q m).1.lookup msgId = q.lookup msgId := by
  unfold handleSend
  split
  · rfl
  · exact Finmap.lookup_insert_of_ne q h

theorem handleSend_framesOf_of_ne {cfg : RtoConfig} {q : WriteMsgQ} {m : PushMsg} {msgId : ℕ}
    (h : msgId ≠ m.msgId) : framesOf msgId (handleSend cfg q m).2 = [] := by
  unfold handleSend
  split <;> simp [framesOf, h.symm]

theorem handleAck_lookup (q : WriteMsgQ) (ackSeq msgId : ℕ) :
    (handleAck q ackSeq).lookup msgId = if msgId = ackSeq then none else q.lookup msgId := by
  unfold handleAck
  split
  · exact GoMap.lookup_erase q ackSeq msgId
  · rename_i habs
    split
    · rename_i heq
      rw [heq]
      exact Finmap.lookup_eq_none.mpr habs
    · rfl

theorem RtoRound.store_lookup (r : RtoRound) (i msgId : ℕ) (q : WriteMsgQ) :
    (r.store i q).lookup msgId =
      if msgId = i then (if r.expired then none else some r.msg) else q.lookup msgId := by
  unfold RtoRound.store
  split
  · rename_i he
    simp only [GoMap.lookup_erase]
  · exact GoMap.lookup_insert q i msgId r.msg

theorem RtoRound.outs_framesOf (r : RtoRound) (i msgId : ℕ) :
    framesOf msgId (r.outs i) =
      if i = msgId ∧ r.resend then [pushFrame i r.msg.msgBody false] else [] := by
  unfold RtoRound.outs
  by_cases hr : r.resend = true <;> by_cases hi : i = msgId <;> simp [framesOf, hr, hi]

/-- One round of the walk. -/
theorem rtoWalk_cons_cases {cfg : RtoConfig} {i : ℕ} {rest : List ℕ} {q q' : WriteMsgQ}
    {outs : List WriterOut} (h : rtoWalk cfg (i :: rest) q = .ok (q', outs)) :
    (q.lookup i = none ∧ rtoWalk cfg rest q = .ok (q', outs)) ∨
      ∃ msg r outs', q.lookup i = some msg ∧ rtoEntry cfg msg = .ok r ∧
        rtoWalk cfg rest (r.store i q) = .ok (q', outs') ∧ outs = r.outs i ++ outs' := by
  unfold rtoWalk at h
  split at h
  · rename_i habs
    exact .inl ⟨habs, h⟩
  · rename_i msg hmsg
    obtain ⟨r, hr, h⟩ := exists_of_bind h
    obtain ⟨p, hw, h⟩ := exists_of_bind h
    obtain ⟨rfl, rfl⟩ := Prod.mk.inj (Except.ok.inj h)
    exact .inr ⟨msg, r, p.2, hmsg, hr, hw, rfl⟩

/-- A key that the walk does not visit keeps its entry and nothing is sent for it. -/
theorem rtoWalk_of_notMem {cfg : RtoConfig} {order : List ℕ} {q q' : WriteMsgQ}
    {outs : List WriterOut} (h : rtoWalk cfg order q = .ok (q', outs)) {msgId : ℕ}
    (hnot : msgId ∉ order) : q'.lookup msgId = q.lookup msgId ∧ framesOf msgId outs = [] := by
  induction order generalizing q outs with
  | nil =>
      obtain ⟨rfl, rfl⟩ := Prod.mk.inj (Except.ok.inj h)
      exact ⟨rfl, rfl⟩
  | cons i rest ih =>
      rw [List.mem_cons, not_or] at hnot
      obtain ⟨hne, hrest⟩ := hnot
      rcases rtoWalk_cons_cases h with ⟨_, hw⟩ | ⟨msg, r, outs', hmsg, hr, hw, rfl⟩
      · exact ih hw hrest
      · obtain ⟨hlook, hout⟩ := ih hw hrest
        rw [RtoRound.store_lookup, if_neg hne] at hlook
        refine ⟨hlook, ?_⟩
        rw [framesOf_append, hout, RtoRound.outs_framesOf, if_neg (fun hi => hne hi.1.symm)]
        rfl

/-- The walk does to every entry it visits what `rtoEntry` says. -/
theorem rtoWalk_of_mem {cfg : RtoConfig} {order : List ℕ} {q q' : WriteMsgQ}
    {outs : List WriterOut} (h : rtoWalk cfg order q = .ok (q', outs)) (hnodup : order.Nodup)
    {msgId : ℕ} (hmem : msgId ∈ order) {msg : WriteMsg} (hmsg : q.lookup msgId = some msg) :
    ∃ r, rtoEntry cfg msg = .ok r ∧
      q'.lookup msgId = (if r.expired then none else some r.msg) ∧
      framesOf msgId outs = (if r.resend then [pushFrame msgId r.msg.msgBody false] else []) := by
  induction order generalizing q outs with
  | nil => exact absurd hmem (by simp)
  | cons i rest ih =>
      obtain ⟨hi, hnd⟩ := List.nodup_cons.mp hnodup
      by_cases hne : msgId = i
      · -- the key is visited now and not again
        subst hne
        rcases rtoWalk_cons_cases h with ⟨habs, _⟩ | ⟨msg', r, outs', hmsg', hr, hw, rfl⟩
        · exact absurd (habs.symm.trans hmsg) (by simp)
        · obtain rfl := Option.some.inj (hmsg'.symm.trans hmsg)
          obtain ⟨hlook, hout⟩ := rtoWalk_of_notMem hw hi
          rw [RtoRound.store_lookup, if_pos rfl] at hlook
          refine ⟨r, hr, hlook, ?_⟩
          simp only [framesOf_append, RtoRound.outs_framesOf, hout, true_and, List.append_nil]
      · have hrest : msgId ∈ rest := List.mem_of_ne_of_mem hne hmem
        rcases rtoWalk_cons_cases h with ⟨_, hw⟩ | ⟨msg', r', outs', hmsg', hr', hw, rfl⟩
        · exact ih hw hnd hrest hmsg
        · have hkeep : (r'.store i q).lookup msgId = some msg := by
            rw [RtoRound.store_lookup, if_neg hne, hmsg]
          obtain ⟨r, hr, hlook, hout⟩ := ih hw hnd hrest hkeep
          refine ⟨r, hr, hlook, ?_⟩
          rw [framesOf_append, RtoRound.outs_framesOf, hout, if_neg (fun hi => hne hi.1.symm)]
          rfl

end Skytime
