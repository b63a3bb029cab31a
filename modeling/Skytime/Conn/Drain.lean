/-
# Skytime.Conn.Drain — the writer issues what is put on `c.send`, in order, and then says goodbye.

A run of a connection is watched with the message whose case of the `select` the writer is in. Each
message that is put on the queue is in one of three places: its frame has been issued, or it has
been taken and its frame is about to be, or it is still queued. Pings, ticks, acks and frames that
are sent again do not move it. The end of the queue is seen only when the queue is empty, so a
writer that returns for this reason has issued everything, and what it sends then is the close
message and nothing else.
-/
import Skytime.Conn.Endpoint

namespace Skytime

open Process

/-! ## Rounds of the writer -/

/-- A frame with the body of a message. -/
def WriterOut.isData : WriterOut → Bool
  | .push .. | .text _ => true
  | _ => false

/-- The frame that the writer issues when it takes a message. -/
def firstFrame (cfg : EndpointConfig) (m : PushMsg) : WriterOut :=
  if cfg.enableAckRto > 0 then .push m.msgId (pushFrame m.msgId m.msgBody m.isBrAll)
  else .text m.msgBody

theorem isData_firstFrame (cfg : EndpointConfig) (m : PushMsg) :
    (firstFrame cfg m).isData = true := by
  unfold firstFrame
  split <;> rfl

/-- Neither a frame with a body nor the close message. -/
def WriterOut.IsPlain (o : WriterOut) : Prop := o.isData = false ∧ o ≠ .closeMessage

/-- The frame that is sent again for an entry of `write_msg_Q`. -/
def resendFrame (msgId : ℕ) (msg : WriteMsg) : WriterOut :=
  .push msgId (pushFrame msgId msg.msgBody false)

/-- The frame can be sent again. -/
def WriteMsgQ.Holds (q : WriteMsgQ) (o : WriterOut) : Prop :=
  ∃ msgId msg, q.lookup msgId = some msg ∧ o = resendFrame msgId msg

/-- What a round from the queue `q` to the queue `q'` leaves to be sent, and what can be sent again
after it. -/
def RoundOuts (cfg : EndpointConfig) (q q' : WriteMsgQ) : WriterEvent → List WriterOut → Prop
  | .message m, outs => (∃ rest, outs = firstFrame cfg m :: rest ∧ ∀ o ∈ rest, o.IsPlain) ∧
      ∀ o, q'.Holds o → q.Holds o ∨ o = firstFrame cfg m
  | .closed, outs => outs = [.closeMessage] ∧ ∀ o, q'.Holds o → q.Holds o
  | _, outs => (.closeMessage ∉ outs ∧ ∀ o ∈ outs, o.isData = true → q.Holds o) ∧
      ∀ o, q'.Holds o → q.Holds o

theorem msgBody_of_rtoEntry {cfg : RtoConfig} {msg : WriteMsg} {r : RtoRound}
    (h : rtoEntry cfg msg = .ok r) : r.msg.msgBody = msg.msgBody := by
  unfold rtoEntry at h
  simp only at h
  split at h
  · exact absurd h (by simp)
  · split at h <;> exact (congrArg (·.msg.msgBody) (Except.ok.inj h)).symm

/-- A visited entry keeps its body or is deleted. -/
theorem holds_of_store {cfg : RtoConfig} {q : WriteMsgQ} {i : ℕ} {msg : WriteMsg} {r : RtoRound}
    (hmsg : q.lookup i = some msg) (hr : rtoEntry cfg msg = .ok r) {o : WriterOut}
    (h : (r.store i q).Holds o) : q.Holds o := by
  obtain ⟨k, msg', hlook, rfl⟩ := h
  rw [RtoRound.store_lookup] at hlook
  split at hlook
  · rename_i hk
    subst hk
    split at hlook
    · exact absurd hlook (by simp)
    · obtain rfl := Option.some.inj hlook
      exact ⟨k, msg, hmsg, by rw [resendFrame, resendFrame, msgBody_of_rtoEntry hr]⟩
  · exact ⟨k, msg', hlook, rfl⟩

/-- A tick sends only what was held before, and the close message is not among it. -/
theorem rtoWalk_holds {cfg : RtoConfig} {order : List ℕ} {q q' : WriteMsgQ}
    {outs : List WriterOut} (h : rtoWalk cfg order q = .ok (q', outs)) :
    (.closeMessage ∉ outs ∧ ∀ o ∈ outs, o.isData = true → q.Holds o) ∧
      ∀ o, q'.Holds o → q.Holds o := by
  induction order generalizing q outs with
  | nil =>
      obtain ⟨rfl, rfl⟩ := Prod.mk.inj (Except.ok.inj h)
      exact ⟨⟨List.not_mem_nil, by simp⟩, fun o ho => ho⟩
  | cons i rest ih =>
      rcases rtoWalk_cons_cases h with ⟨_, hw⟩ | ⟨msg, r, outs', hmsg, hr, hw, rfl⟩
      · exact ih hw
      · obtain ⟨⟨hclose, hdata⟩, hkeep⟩ := ih hw
        have hentry : ∀ o ∈ r.outs i, o ≠ .closeMessage ∧ (o.isData = true → q.Holds o) := by
          intro o ho
          unfold RtoRound.outs at ho
          split at ho
          · rcases List.mem_pair.mp ho with rfl | rfl
            · exact ⟨by simp, fun _ =>
                ⟨i, msg, hmsg, by rw [resendFrame, msgBody_of_rtoEntry hr]⟩⟩
            · exact ⟨by simp, fun hd => absurd hd (by simp [WriterOut.isData])⟩
          · exact absurd ho List.not_mem_nil
        refine ⟨⟨fun hmem => ?_, fun o ho hd => ?_⟩,
          fun o ho => holds_of_store hmsg hr (hkeep o ho)⟩
        · rcases List.mem_append.mp hmem with hmem | hmem
          · exact (hentry _ hmem).1 rfl
          · exact hclose hmem
        · rcases List.mem_append.mp ho with ho | ho
          · exact (hentry o ho).2 hd
          · exact holds_of_store hmsg hr (hdata o ho hd)

/-- A message that is taken adds its own frame at most. -/
theorem holds_handleSend {cfg : EndpointConfig} (hrto : cfg.enableAckRto > 0) {q : WriteMsgQ}
    {m : PushMsg} {o : WriterOut} (h : WriteMsgQ.Holds (handleSend cfg.rto q m).1 o) :
    q.Holds o ∨ o = firstFrame cfg m := by
  obtain ⟨k, msg, hlook, rfl⟩ := h
  unfold handleSend at hlook
  split at hlook
  · exact .inl ⟨k, msg, hlook, rfl⟩
  · rename_i hpeer
    simp only [GoMap.lookup_insert] at hlook
    split at hlook
    · rename_i hk
      obtain rfl := Option.some.inj hlook
      exact .inr (by rw [hk, firstFrame, if_pos hrto, resendFrame, Bool.not_eq_true _ |>.mp hpeer])
    · exact .inl ⟨k, msg, hlook, rfl⟩

theorem holds_handleAck {q : WriteMsgQ} {ackSeq : ℕ} {o : WriterOut}
    (h : WriteMsgQ.Holds (handleAck q ackSeq) o) : q.Holds o := by
  obtain ⟨k, msg, hlook, rfl⟩ := h
  rw [handleAck_lookup] at hlook
  split at hlook
  · exact absurd hlook (by simp)
  · exact ⟨k, msg, hlook, rfl⟩

theorem roundOuts_of_rtoStep {cfg : EndpointConfig} (hrto : cfg.enableAckRto > 0)
    {w w' : Writer} {e : WriterEvent} {outs : List WriterOut}
    (h : w.RtoStep cfg.rto e w' outs) : RoundOuts cfg w.queue w'.queue e outs := by
  cases h with
  | message m =>
      refine ⟨?_, fun o ho => holds_handleSend hrto ho⟩
      have hfirst : firstFrame cfg m = .push m.msgId (pushFrame m.msgId m.msgBody m.isBrAll) :=
        if_pos hrto
      rw [hfirst]
      unfold handleSend
      split
      · exact ⟨[], rfl, by simp⟩
      · exact ⟨[.report m.msgId], rfl, by simp [WriterOut.IsPlain, WriterOut.isData]⟩
  | closed => exact ⟨rfl, fun o ho => ho⟩
  | ping => exact ⟨⟨by simp, by simp [WriterOut.isData]⟩, fun o ho => ho⟩
  | pingFailed => exact ⟨⟨by simp, by simp [WriterOut.isData]⟩, fun o ho => ho⟩
  | ack ackSeq => exact ⟨⟨by simp, by simp⟩, fun o ho => holds_handleAck ho⟩
  | panic hwalk => exact ⟨⟨by simp, by simp [WriterOut.isData]⟩, fun o ho => ho⟩
  | tick horder hwalk =>
      obtain ⟨⟨hclose, hdata⟩, hkeep⟩ := rtoWalk_holds hwalk
      refine ⟨⟨by simpa using hclose, fun o ho hd => ?_⟩, hkeep⟩
      rcases List.mem_cons.mp ho with rfl | ho
      · exact absurd hd (by simp [WriterOut.isData])
      · exact hdata o ho hd

theorem roundOuts_of_pumpStep {cfg : EndpointConfig} (hrto : ¬ cfg.enableAckRto > 0)
    {w w' : Writer} {ok : Bool} {e : WriterEvent} {outs : List WriterOut}
    (h : w.pumpStep ok e = some (w', outs)) : RoundOuts cfg w.queue w'.queue e outs := by
  unfold Writer.pumpStep at h
  split at h
  · exact absurd h (by simp)
  · cases e with
    | message m =>
        obtain ⟨rfl, rfl⟩ := Prod.mk.inj (Option.some.inj h)
        refine ⟨⟨[], by rw [firstFrame, if_neg hrto], by simp⟩, fun o ho => .inl ?_⟩
        split at ho <;> exact ho
    | closed =>
        obtain ⟨rfl, rfl⟩ := Prod.mk.inj (Option.some.inj h)
        exact ⟨rfl, fun o ho => ho⟩
    | ping sent =>
        obtain ⟨rfl, rfl⟩ := Prod.mk.inj (Option.some.inj h)
        refine ⟨⟨by simp, by simp [WriterOut.isData]⟩, fun o ho => ?_⟩
        split at ho <;> exact ho
    | ack ackSeq => exact absurd h (by simp)
    | tick order => exact absurd h (by simp)

/-- The end of the queue ends either writer. -/
theorem Writer.status_of_closed {cfg : EndpointConfig} {w w' : Writer} {ok : Bool}
    {outs : List WriterOut}
    (h : (if cfg.enableAckRto > 0 then w.rtoStep cfg.rto .closed else w.pumpStep ok .closed) =
      some (w', outs)) : w'.status = .returned := by
  split at h
  · unfold rtoStep at h
    split at h
    · exact absurd h (by simp)
    · obtain ⟨rfl, rfl⟩ := Prod.mk.inj (Option.some.inj h)
      rfl
  · unfold pumpStep at h
    split at h
    · exact absurd h (by simp)
    · obtain ⟨rfl, rfl⟩ := Prod.mk.inj (Option.some.inj h)
      rfl

/-- A round begins when nothing is left to be sent and the writer is in its loop. It changes what is
to be sent, but not the queue `c.send`. -/
theorem Endpoint.round_outs {cfg : EndpointConfig} {s t : Endpoint} {ok : Bool} {e : WriterEvent}
    (h : round cfg s ok e = some t) :
    s.pending = [] ∧ s.writer.status = .running ∧ t.send = s.send ∧
      RoundOuts cfg s.writer.queue t.writer.queue e t.pending ∧
      (e = .closed → t.writer.status = .returned) := by
  obtain ⟨-, hrun, -⟩ := round_cases h
  unfold round at h
  split at h
  · rename_i hs
    split at h
    · exact absurd h (by simp)
    · rename_i w outs hw
      obtain rfl := Option.some.inj h
      refine ⟨hs.2, hrun, rfl, ?_, fun he => ?_⟩
      · show RoundOuts cfg s.writer.queue w.queue e outs
        by_cases hrto : cfg.enableAckRto > 0
        · rw [if_pos hrto] at hw
          exact roundOuts_of_rtoStep hrto (Writer.rtoStep_cases hw).2
        · rw [if_neg hrto] at hw
          exact roundOuts_of_pumpStep hrto hw
      · subst he
        exact Writer.status_of_closed hw
  · exact absurd h (by simp)

/-! ## What a step does to the queue and the writer -/

/-- The other rounds of the writer. -/
def EndpointAction.IsBetween : EndpointAction → Prop
  | .ping _ | .tick _ | .handAck => True
  | _ => False

/-- The actions that leave the queue and the writer's loop alone. -/
def EndpointAction.IsAside : EndpointAction → Prop
  | .goWriter | .goReader | .readMessage .. | .readError | .countAck | .handNotify
  | .otherNotify _ | .takeNotify | .unregister => True
  | _ => False

/-- Everything a step can do to `c.send`, to the writer's status and to what is to be sent. -/
inductive Endpoint.Effect (cfg : EndpointConfig) (s t : Endpoint) :
    EndpointAction → List WriterOut → Prop
  | put {m : PushMsg} (hopen : s.send.closed = false) (hbuf : t.send.buf = s.send.buf ++ [m])
      (hwriter : t.writer = s.writer) (hpending : t.pending = s.pending) :
      Effect cfg s t (.putMessage m) []
  | close (hopen : s.send.closed = false) (hbuf : t.send.buf = s.send.buf)
      (hwriter : t.writer = s.writer) (hpending : t.pending = s.pending) :
      Effect cfg s t .closeSend []
  | take {ok : Bool} {m : PushMsg} (hnone : s.pending = []) (hrun : s.writer.status = .running)
      (hbuf : s.send.buf = m :: t.send.buf)
      (houts : RoundOuts cfg s.writer.queue t.writer.queue (.message m) t.pending) :
      Effect cfg s t (.takeMessage ok) []
  | ended (hnone : s.pending = []) (hrun : s.writer.status = .running) (hbuf : s.send.buf = [])
      (hclosed : s.send.closed = true) (hsend : t.send = s.send)
      (hreturned : t.writer.status = .returned)
      (houts : RoundOuts cfg s.writer.queue t.writer.queue .closed t.pending) :
      Effect cfg s t .takeEnd []
  | emit {o : WriterOut} (hpending : s.pending = o :: t.pending) (hsend : t.send = s.send)
      (hwriter : t.writer = s.writer) : Effect cfg s t .emit [o]
  | between {a : EndpointAction} (ha : a.IsBetween) (hnone : s.pending = [])
      (hrun : s.writer.status = .running) (hsend : t.send = s.send)
      (houts : .closeMessage ∉ t.pending ∧
        ∀ o ∈ t.pending, o.isData = true → s.writer.queue.Holds o)
      (hkeep : ∀ o, t.writer.queue.Holds o → s.writer.queue.Holds o) : Effect cfg s t a []
  | aside {a : EndpointAction} (ha : a.IsAside) (hsend : t.send = s.send)
      (hwriter : t.writer = s.writer) (hpending : t.pending = s.pending) : Effect cfg s t a []

/-- A step that only moves the reader, say. -/
theorem Endpoint.effect_of_stepRunning {cfg : EndpointConfig} {s t : Endpoint}
    {a : EndpointAction} {outs : List WriterOut} (ha : a.IsAside)
    (h : s.stepRunning cfg a = some (t, outs)) : s.Effect cfg t a outs := by
  have haside : ∀ {u : Endpoint}, some (u, []) = some (t, outs) → u.send = s.send →
      u.writer = s.writer → u.pending = s.pending → s.Effect cfg t a outs := by
    intro u hu hsend hwriter hpending
    obtain ⟨rfl, rfl⟩ := Prod.mk.inj (Option.some.inj hu)
    exact .aside ha hsend hwriter hpending
  cases a with
  | goWriter =>
      obtain ⟨-, h⟩ := Option.ite_none_left_eq_some.mp h
      exact haside h rfl rfl rfl
  | goReader | readError | unregister =>
      obtain ⟨-, h⟩ := Option.ite_none_right_eq_some.mp h
      exact haside h rfl rfl rfl
  | readMessage mt message =>
      obtain ⟨-, h⟩ := Option.ite_none_right_eq_some.mp h
      split at h
      · exact haside h rfl rfl rfl
      · exact haside h rfl rfl rfl
  | countAck =>
      simp only [stepRunning] at h
      split at h
      · obtain ⟨-, h⟩ := Option.ite_none_right_eq_some.mp h
        exact haside h rfl rfl rfl
      · exact absurd h (by simp)
  | handNotify =>
      simp only [stepRunning] at h
      split at h
      · split at h
        · exact haside h rfl rfl rfl
        · exact absurd h (by simp)
      · exact absurd h (by simp)
  | otherNotify ackSeq =>
      simp only [stepRunning] at h
      split at h
      · exact haside h rfl rfl rfl
      · exact absurd h (by simp)
  | takeNotify =>
      simp only [stepRunning] at h
      split at h
      · obtain ⟨-, h⟩ := Option.ite_none_right_eq_some.mp h
        exact haside h rfl rfl rfl
      · exact absurd h (by simp)
  | putMessage | closeSend | takeMessage | takeEnd | ping | tick | emit | handAck =>
      exact absurd ha id

theorem Endpoint.effect_of_step {cfg : EndpointConfig} {s t : Endpoint} {a : EndpointAction}
    {outs : List WriterOut} (h : (endpoint cfg).step s a = some (t, outs)) :
    s.Effect cfg t a outs := by
  obtain ⟨-, h⟩ := Option.ite_none_left_eq_some.mp h
  cases a with
  | putMessage m =>
      simp only [stepRunning] at h
      split at h
      · rename_i ch hsend
        obtain ⟨rfl, rfl⟩ := Prod.mk.inj (Option.some.inj h)
        obtain ⟨hopen, -, hbuf, -⟩ := Chan.send_eq_sent_iff.mp hsend
        exact .put hopen hbuf rfl rfl
      · exact absurd h (by simp)
  | closeSend =>
      simp only [stepRunning] at h
      split at h
      · rename_i ch hclose
        obtain ⟨rfl, rfl⟩ := Prod.mk.inj (Option.some.inj h)
        obtain ⟨hopen, hbuf, -⟩ := Chan.close_eq_some_iff.mp hclose
        exact .close hopen hbuf rfl rfl
      · exact absurd h (by simp)
  | takeMessage ok =>
      simp only [stepRunning] at h
      split at h
      · rename_i m ch hrecv
        obtain ⟨hround, rfl⟩ := Machine.silent_eq_some_iff.mp h
        obtain ⟨hnone, hrun, hsend, houts, -⟩ := Endpoint.round_outs hround
        have hbuf : s.send.buf = m :: t.send.buf := by
          rw [hsend]
          exact (Chan.recv_eq_got_iff.mp hrecv).1
        exact .take hnone hrun hbuf houts
      · exact absurd h (by simp)
  | takeEnd =>
      simp only [stepRunning] at h
      split at h
      · rename_i hrecv
        obtain ⟨hround, rfl⟩ := Machine.silent_eq_some_iff.mp h
        obtain ⟨hnone, hrun, hsend, houts, hreturned⟩ := Endpoint.round_outs hround
        obtain ⟨hbuf, hclosed⟩ := Chan.recv_eq_eof_iff.mp hrecv
        exact .ended hnone hrun hbuf hclosed hsend (hreturned rfl) houts
      · exact absurd h (by simp)
  | ping ok =>
      obtain ⟨hround, rfl⟩ := Machine.silent_eq_some_iff.mp h
      obtain ⟨hnone, hrun, hsend, houts, -⟩ := Endpoint.round_outs hround
      exact .between trivial hnone hrun hsend houts.1 houts.2
  | tick order =>
      obtain ⟨hround, rfl⟩ := Machine.silent_eq_some_iff.mp h
      obtain ⟨hnone, hrun, hsend, houts, -⟩ := Endpoint.round_outs hround
      exact .between trivial hnone hrun hsend houts.1 houts.2
  | handAck =>
      simp only [stepRunning] at h
      split at h
      · obtain ⟨hround, rfl⟩ := Machine.silent_eq_some_iff.mp h
        obtain ⟨hnone, hrun, hsend, houts, -⟩ := Endpoint.round_outs hround
        exact .between trivial hnone hrun hsend houts.1 houts.2
      · exact absurd h (by simp)
  | emit =>
      simp only [stepRunning] at h
      split at h
      · exact absurd h (by simp)
      · rename_i o rest hpending
        obtain ⟨-, h⟩ := Machine.guard_eq_some_iff.mp h
        obtain ⟨rfl, rfl⟩ := Prod.mk.inj h
        exact .emit hpending rfl rfl
  | goWriter | goReader | readMessage | readError | countAck | handNotify | otherNotify
  | takeNotify | unregister => exact Endpoint.effect_of_stepRunning trivial h

/-! ## Watching a run -/

inductive DrainEvent where
  | put (m : PushMsg)
  /-- the writer has seen the end of `c.send` -/
  | ended
  /-- the writer has sent `o`, in its case for `current` if it has taken a message -/
  | out (current : Option PushMsg) (o : WriterOut)
  deriving DecidableEq, Repr

/-- The messages that have been put on `c.send`. -/
def enqueued (l : List DrainEvent) : List PushMsg :=
  l.filterMap fun
    | .put m => some m
    | _ => none

/-- The messages of which a first frame has been issued, once for each frame. -/
def issued (l : List DrainEvent) : List PushMsg :=
  l.filterMap fun
    | .out (some m) o => if o.isData then some m else none
    | _ => none

/-- All that the writer has sent. -/
def outsOf (l : List DrainEvent) : List WriterOut :=
  l.filterMap fun
    | .out _ o => some o
    | _ => none

@[simp] theorem enqueued_append (l k : List DrainEvent) :
    enqueued (l ++ k) = enqueued l ++ enqueued k :=
  List.filterMap_append

@[simp] theorem issued_append (l k : List DrainEvent) : issued (l ++ k) = issued l ++ issued k :=
  List.filterMap_append

/-- A connection with the message whose case of the `select` the writer is in. -/
structure Drain where
  conn : Endpoint
  current : Option PushMsg

namespace Drain

def next (s : Drain) : EndpointAction → Option PushMsg
  | .takeMessage _ => s.conn.send.buf.head?
  | .takeEnd | .ping _ | .tick _ | .handAck => none
  | _ => s.current

def see (s : Drain) : EndpointAction → List WriterOut → List DrainEvent
  | .putMessage m, _ => [.put m]
  | .takeEnd, _ => [.ended]
  | _, outs => outs.map (.out s.current)

def step (cfg : EndpointConfig) (s : Drain) (a : EndpointAction) :
    Option (Drain × List DrainEvent) :=
  match (endpoint cfg).step s.conn a with
  | none => none
  | some (t, outs) => some (⟨t, s.next a⟩, s.see a outs)

end Drain

/-- A connection that is watched from its start. -/
def drain (cfg : EndpointConfig) : Machine Drain EndpointAction DrainEvent where
  init := ⟨(endpoint cfg).init, none⟩
  step := Drain.step cfg

/-- Watching does not change what a connection does. -/
theorem Drain.step_iff {cfg : EndpointConfig} {s t : Drain} {a : EndpointAction}
    {o : List DrainEvent} : (drain cfg).step s a = some (t, o) ↔
      ∃ outs, (endpoint cfg).step s.conn a = some (t.conn, outs) ∧ t.current = s.next a ∧
        o = s.see a outs := by
  obtain ⟨conn, current⟩ := t
  simp only [drain, Drain.step]
  constructor
  · intro h
    split at h
    · exact absurd h (by simp)
    · rename_i u outs hstep
      obtain ⟨hstate, rfl⟩ := Prod.mk.inj (Option.some.inj h)
      obtain ⟨rfl, rfl⟩ := Drain.mk.inj hstate
      exact ⟨outs, hstep, rfl, rfl⟩
  · rintro ⟨outs, hstep, rfl, rfl⟩
    rw [hstep]

namespace Drain

/-- The message that has been taken and whose frame is still to be issued. -/
def due (s : Drain) : List PushMsg :=
  match s.current with
  | none => []
  | some m => if s.conn.pending.any WriterOut.isData then [m] else []

/-- In the case for a message there is its frame to be sent first, if it is to be sent at all, and
then what is neither a frame nor the end. -/
def Shape (cfg : EndpointConfig) (s : Drain) : Prop :=
  ∀ m, s.current = some m →
    (∃ rest, s.conn.pending = firstFrame cfg m :: rest ∧ ∀ o ∈ rest, o.IsPlain) ∨
      ∀ o ∈ s.conn.pending, o.IsPlain

/-- The close message is about to be sent or has been sent, once and last. -/
def SaysGoodbye (s : Drain) (l : List DrainEvent) : Prop :=
  (s.conn.pending = [.closeMessage] ∧ .closeMessage ∉ outsOf l) ∨
    (s.conn.pending = [] ∧ ∃ ws, outsOf l = ws ++ [.closeMessage] ∧ .closeMessage ∉ ws)

structure Inv (cfg : EndpointConfig) (s : Drain) (l : List DrainEvent) : Prop where
  balance : issued l ++ s.due ++ s.conn.send.buf = enqueued l
  frames : ∀ m o, .out (some m) o ∈ l → o.isData = true → o = firstFrame cfg m
  shape : s.Shape cfg
  /-- as long as the writer has not seen the end -/
  before : .ended ∉ l → .closeMessage ∉ s.conn.pending ∧ .closeMessage ∉ outsOf l
  drained : .ended ∈ l → s.conn.send.closed = true ∧ s.conn.send.buf = [] ∧
    s.conn.writer.status = .returned ∧ s.current = none ∧ s.SaysGoodbye l

theorem due_eq_nil_of_pending {s : Drain} (h : s.conn.pending = []) : s.due = [] := by
  unfold due
  split <;> simp [h]

theorem due_eq_nil_of_plain {s : Drain} (h : ∀ o ∈ s.conn.pending, o.IsPlain) : s.due = [] := by
  unfold due
  split
  · rfl
  · rw [if_neg]
    rw [List.any_eq_true]
    rintro ⟨o, ho, hdata⟩
    exact absurd ((h o ho).1.symm.trans hdata) (by simp)

theorem due_eq_of_firstFrame {cfg : EndpointConfig} {s : Drain} {m : PushMsg}
    {rest : List WriterOut} (hcurrent : s.current = some m)
    (hpending : s.conn.pending = firstFrame cfg m :: rest) : s.due = [m] := by
  simp [due, hcurrent, hpending, isData_firstFrame]

theorem due_congr {s t : Drain} (hcurrent : t.current = s.current)
    (hpending : t.conn.pending = s.conn.pending) : t.due = s.due := by
  rw [due, due, hcurrent, hpending]

theorem next_takeMessage {s : Drain} {ok : Bool} {m : PushMsg} {rest : List PushMsg}
    (hbuf : s.conn.send.buf = m :: rest) : s.next (.takeMessage ok) = some m := by
  rw [next, hbuf, List.head?_cons]

theorem next_of_isAside {s : Drain} {a : EndpointAction} (ha : a.IsAside) :
    s.next a = s.current := by
  cases a <;> first | rfl | exact absurd ha id

theorem see_of_isAside {s : Drain} {a : EndpointAction} (ha : a.IsAside) : s.see a [] = [] := by
  cases a <;> first | rfl | exact absurd ha id

theorem next_of_isBetween {s : Drain} {a : EndpointAction} (ha : a.IsBetween) :
    s.next a = none := by
  cases a <;> first | rfl | exact absurd ha id

theorem see_of_isBetween {s : Drain} {a : EndpointAction} (ha : a.IsBetween) :
    s.see a [] = [] := by
  cases a <;> first | rfl | exact absurd ha id

/-- A writer that is in its loop has not seen the end. -/
theorem Inv.ended_notMem {cfg : EndpointConfig} {s : Drain} {l : List DrainEvent}
    (h : s.Inv cfg l) (hrun : s.conn.writer.status = .running) : .ended ∉ l := fun hmem =>
  absurd (hrun.symm.trans (h.drained hmem).2.2.1) (by simp)

/-- What does not touch the queue, the writer or what is to be sent keeps the invariant. -/
theorem Inv.congr {cfg : EndpointConfig} {s t : Drain} {l : List DrainEvent} (h : s.Inv cfg l)
    (hcurrent : t.current = s.current) (hbuf : t.conn.send.buf = s.conn.send.buf)
    (hclosed : s.conn.send.closed = true → t.conn.send.closed = true)
    (hwriter : t.conn.writer = s.conn.writer) (hpending : t.conn.pending = s.conn.pending) :
    t.Inv cfg l where
  balance := by rw [due_congr hcurrent hpending, hbuf, h.balance]
  frames := h.frames
  shape := by
    unfold Shape
    rw [hcurrent, hpending]
    exact h.shape
  before := by
    rw [hpending]
    exact h.before
  drained := fun hmem => by
    obtain ⟨hc, hb, hw, hcur, hbye⟩ := h.drained hmem
    refine ⟨hclosed hc, hbuf.trans hb, hwriter ▸ hw, hcurrent.trans hcur, ?_⟩
    unfold SaysGoodbye
    rw [hpending]
    exact hbye

/-- A message is put at the end of the queue. -/
theorem Inv.put {cfg : EndpointConfig} {s t : Drain} {l : List DrainEvent} {m : PushMsg}
    (h : s.Inv cfg l) (hopen : s.conn.send.closed = false)
    (hbuf : t.conn.send.buf = s.conn.send.buf ++ [m]) (hcurrent : t.current = s.current)
    (hpending : t.conn.pending = s.conn.pending) : t.Inv cfg (l ++ [.put m]) where
  balance := by
    rw [due_congr hcurrent hpending, hbuf, enqueued_append, ← h.balance]
    simp [issued, enqueued]
  frames := fun m' o hmem => by
    refine h.frames m' o ?_
    simpa using hmem
  shape := by
    unfold Shape
    rw [hcurrent, hpending]
    exact h.shape
  before := fun hmem => by
    have hmem : .ended ∉ l := by simpa using hmem
    rw [hpending]
    simpa [outsOf] using h.before hmem
  drained := fun hmem => by
    have hmem : .ended ∈ l := by simpa using hmem
    exact absurd (hopen.symm.trans (h.drained hmem).1) (by simp)

/-- The oldest message is taken. -/
theorem Inv.take {cfg : EndpointConfig} {s t : Drain} {l : List DrainEvent} {m : PushMsg}
    (h : s.Inv cfg l) (hnone : s.conn.pending = []) (hrun : s.conn.writer.status = .running)
    (hbuf : s.conn.send.buf = m :: t.conn.send.buf) (hcurrent : t.current = some m)
    {rest : List WriterOut} (hpending : t.conn.pending = firstFrame cfg m :: rest)
    (hplain : ∀ o ∈ rest, o.IsPlain) : t.Inv cfg l := by
  have hend := h.ended_notMem hrun
  refine ⟨?_, h.frames, ?_, fun _ => ⟨?_, (h.before hend).2⟩, fun hmem => absurd hmem hend⟩
  · have hbal := h.balance
    rw [due_eq_nil_of_pending hnone, hbuf] at hbal
    rw [due_eq_of_firstFrame hcurrent hpending, ← hbal]
    simp
  · intro m' hm'
    obtain rfl := Option.some.inj (hcurrent.symm.trans hm')
    exact .inl ⟨rest, hpending, hplain⟩
  · intro hmem
    rw [hpending] at hmem
    rcases List.mem_cons.mp hmem with heq | hmem
    · have hdata := isData_firstFrame cfg m
      rw [← heq] at hdata
      exact absurd hdata (by decide)
    · exact (hplain _ hmem).2 rfl

/-- A round without a message. -/
theorem Inv.between {cfg : EndpointConfig} {s t : Drain} {l : List DrainEvent}
    (h : s.Inv cfg l) (hnone : s.conn.pending = []) (hrun : s.conn.writer.status = .running)
    (hsend : t.conn.send = s.conn.send) (hcurrent : t.current = none)
    (houts : .closeMessage ∉ t.conn.pending) : t.Inv cfg l := by
  have hend := h.ended_notMem hrun
  refine ⟨?_, h.frames, ?_, fun _ => ⟨houts, (h.before hend).2⟩, fun hmem => absurd hmem hend⟩
  · have hbal := h.balance
    rw [due_eq_nil_of_pending hnone] at hbal
    have hdue : t.due = [] := by rw [due, hcurrent]
    rw [hdue, hsend, hbal]
  · intro m hm
    exact absurd (hcurrent.symm.trans hm) (by simp)

/-- The writer sees the end of the queue, which is empty. -/
theorem Inv.ended {cfg : EndpointConfig} {s t : Drain} {l : List DrainEvent}
    (h : s.Inv cfg l) (hnone : s.conn.pending = []) (hrun : s.conn.writer.status = .running)
    (hbuf : s.conn.send.buf = []) (hclosed : s.conn.send.closed = true)
    (hsend : t.conn.send = s.conn.send) (hreturned : t.conn.writer.status = .returned)
    (hcurrent : t.current = none) (houts : t.conn.pending = [.closeMessage]) :
    t.Inv cfg (l ++ [.ended]) := by
  have hbefore := (h.before (h.ended_notMem hrun)).2
  have hlog : outsOf (l ++ [.ended]) = outsOf l := by simp [outsOf]
  refine ⟨?_, fun m o hmem => h.frames m o (by simpa using hmem), ?_, ?_, fun _ => ?_⟩
  · have hbal := h.balance
    rw [due_eq_nil_of_pending hnone] at hbal
    have hdue : t.due = [] := by rw [due, hcurrent]
    rw [hdue, hsend, enqueued_append, ← hbal]
    simp [issued, enqueued]
  · intro m hm
    exact absurd (hcurrent.symm.trans hm) (by simp)
  · intro hmem
    exact absurd (List.mem_append_right _ (List.mem_singleton_self _)) hmem
  · refine ⟨hsend ▸ hclosed, hsend ▸ hbuf, hreturned, hcurrent, .inl ⟨houts, ?_⟩⟩
    rwa [hlog]

/-- What is sent in the case for a message is its frame, or none. -/
theorem issued_out (current : Option PushMsg) (o : WriterOut) :
    issued [.out current o] =
      match current with
      | none => []
      | some m => if o.isData then [m] else [] := by
  cases current with
  | none => rfl
  | some m => cases hdata : o.isData <;> simp [issued, hdata]

/-- What is sent is a frame that was due, or nothing was due and nothing is. -/
theorem issued_out_append_due {cfg : EndpointConfig} {s t : Drain} {o : WriterOut}
    (hshape : s.Shape cfg) (hpending : s.conn.pending = o :: t.conn.pending)
    (hcurrent : t.current = s.current) : issued [.out s.current o] ++ t.due = s.due := by
  cases hcur : s.current with
  | none => simp [issued_out, due, hcurrent, hcur]
  | some m =>
      rcases hshape m hcur with ⟨rest, hfirst, hplain⟩ | hplain
      · obtain ⟨rfl, hrest⟩ := List.cons.inj (hpending.symm.trans hfirst)
        rw [due_eq_of_firstFrame hcur hfirst, due_eq_nil_of_plain (hrest ▸ hplain), issued_out]
        simp [isData_firstFrame]
      · have ho := hplain o (hpending ▸ List.mem_cons_self)
        have hrest : ∀ o' ∈ t.conn.pending, o'.IsPlain := fun o' ho' =>
          hplain o' (hpending ▸ List.mem_cons_of_mem _ ho')
        rw [due_eq_nil_of_plain hplain, due_eq_nil_of_plain hrest, issued_out]
        simp [ho.1]

/-- The next of what is to be sent is sent. -/
theorem Inv.emit {cfg : EndpointConfig} {s t : Drain} {l : List DrainEvent} {o : WriterOut}
    (h : s.Inv cfg l) (hpending : s.conn.pending = o :: t.conn.pending)
    (hsend : t.conn.send = s.conn.send) (hwriter : t.conn.writer = s.conn.writer)
    (hcurrent : t.current = s.current) : t.Inv cfg (l ++ [.out s.current o]) := by
  have hlog : outsOf (l ++ [.out s.current o]) = outsOf l ++ [o] := by simp [outsOf]
  have hmemLog : ∀ {e}, e ∈ l ++ [.out s.current o] → e ∈ l ∨ e = .out s.current o := fun he => by
    simpa using he
  have hissue := issued_out_append_due h.shape hpending hcurrent
  refine ⟨?_, ?_, ?_, ?_, ?_⟩
  · have hbal := h.balance
    rw [← hissue] at hbal
    rw [issued_append, enqueued_append, hsend, ← hbal]
    simp [enqueued]
  · intro m o' hmem hdata
    rcases hmemLog hmem with hmem | heq
    · exact h.frames m o' hmem hdata
    · obtain ⟨hcur, rfl⟩ := DrainEvent.out.inj heq
      rcases h.shape m hcur.symm with ⟨rest, hfirst, -⟩ | hplain
      · exact (List.cons.inj (hpending.symm.trans hfirst)).1
      · have ho := (hplain o' (hpending ▸ List.mem_cons_self)).1
        exact absurd (ho.symm.trans hdata) (by simp)
  · intro m hm
    rw [hcurrent] at hm
    rcases h.shape m hm with ⟨rest, hfirst, hplain⟩ | hplain
    · have hrest := (List.cons.inj (hpending.symm.trans hfirst)).2
      exact .inr (hrest ▸ hplain)
    · exact .inr fun o' ho' => hplain o' (hpending ▸ List.mem_cons_of_mem _ ho')
  · intro hend
    obtain ⟨hclose, hlogged⟩ := h.before fun hmem => hend (List.mem_append_left _ hmem)
    rw [hpending, List.mem_cons, not_or] at hclose
    refine ⟨hclose.2, ?_⟩
    rw [hlog, List.mem_append, not_or]
    exact ⟨hlogged, by simpa using hclose.1⟩
  · intro hend
    have hend : .ended ∈ l := by simpa using hend
    obtain ⟨hc, hb, hw, hcur, hbye⟩ := h.drained hend
    refine ⟨hsend ▸ hc, hsend ▸ hb, hwriter ▸ hw, hcurrent.trans hcur, ?_⟩
    rcases hbye with ⟨hone, hnot⟩ | ⟨hnil, -⟩
    · obtain ⟨rfl, hrest⟩ := List.cons.inj (hpending.symm.trans hone)
      exact .inr ⟨hrest, _, hlog, hnot⟩
    · exact absurd (hpending.symm.trans hnil) (by simp)

end Drain

/-- Every step of a watched connection keeps the invariant. -/
theorem Drain.Inv.step {cfg : EndpointConfig} {s t : Drain} {l o : List DrainEvent}
    {a : EndpointAction} (h : s.Inv cfg l) (hstep : (drain cfg).step s a = some (t, o)) :
    t.Inv cfg (l ++ o) := by
  obtain ⟨outs, hconn, hcurrent, rfl⟩ := Drain.step_iff.mp hstep
  cases Endpoint.effect_of_step hconn with
  | put hopen hbuf hwriter hpending => exact h.put hopen hbuf hcurrent hpending
  | close hopen hbuf hwriter hpending =>
      rw [show s.see .closeSend [] = [] from rfl, List.append_nil]
      exact h.congr hcurrent hbuf (fun hc => absurd (hopen.symm.trans hc) (by simp)) hwriter
        hpending
  | take hnone hrun hbuf houts =>
      obtain ⟨⟨rest, hpending, hplain⟩, -⟩ := houts
      rw [show s.see (.takeMessage _) [] = [] from rfl, List.append_nil]
      exact h.take hnone hrun hbuf (hcurrent.trans (Drain.next_takeMessage hbuf)) hpending hplain
  | ended hnone hrun hbuf hclosed hsend hreturned houts =>
      exact h.ended hnone hrun hbuf hclosed hsend hreturned hcurrent houts.1
  | emit hpending hsend hwriter => exact h.emit hpending hsend hwriter hcurrent
  | between ha hnone hrun hsend houts hkeep =>
      rw [Drain.see_of_isBetween ha, List.append_nil]
      exact h.between hnone hrun hsend (hcurrent.trans (Drain.next_of_isBetween ha)) houts.1
  | aside ha hsend hwriter hpending =>
      rw [Drain.see_of_isAside ha, List.append_nil]
      exact h.congr (hcurrent.trans (Drain.next_of_isAside ha)) (by rw [hsend])
        (fun hc => hsend ▸ hc) hwriter hpending

theorem Drain.Inv.init (cfg : EndpointConfig) : (drain cfg).init.Inv cfg [] :=
  ⟨rfl, by simp, fun m hm => absurd hm (by simp [drain]), fun _ => ⟨by simp [drain, endpoint],
    by simp [outsOf]⟩, by simp⟩

/-! ## Frames that are sent again -/

namespace Drain

/-- The frame is that of a message that has been issued or is due. -/
def Known (cfg : EndpointConfig) (s : Drain) (l : List DrainEvent) (o : WriterOut) : Prop :=
  ∃ m ∈ issued l ++ s.due, o = firstFrame cfg m

/-- Frames outside the case for a message repeat frames that have been issued. -/
structure Repeats (cfg : EndpointConfig) (s : Drain) (l : List DrainEvent) : Prop where
  held : ∀ o, s.conn.writer.queue.Holds o → s.Known cfg l o
  pending : s.current = none → ∀ o ∈ s.conn.pending, o.isData = true → s.Known cfg l o
  again : ∀ o, .out none o ∈ l → o.isData = true → ∃ m ∈ issued l, o = firstFrame cfg m

/-- As long as no message is lost from sight, a known frame stays known. -/
theorem Known.mono {cfg : EndpointConfig} {s t : Drain} {l k : List DrainEvent} {o : WriterOut}
    (h : s.Known cfg l o) (hsub : issued l ++ s.due ⊆ issued k ++ t.due) : t.Known cfg k o := by
  obtain ⟨m, hm, ho⟩ := h
  exact ⟨m, hsub hm, ho⟩

theorem Repeats.congr {cfg : EndpointConfig} {s t : Drain} {l k : List DrainEvent}
    (h : s.Repeats cfg l) (hcurrent : t.current = s.current)
    (hwriter : t.conn.writer = s.conn.writer) (hpending : t.conn.pending = s.conn.pending)
    (hissued : issued k = issued l) (hout : ∀ o, .out none o ∈ k → .out none o ∈ l) :
    t.Repeats cfg k where
  held := fun o ho => by
    apply (h.held o (hwriter ▸ ho)).mono
    rw [hissued, due_congr hcurrent hpending]
    exact List.Subset.refl _
  pending := fun hcur o ho hdata => by
    apply (h.pending (hcurrent ▸ hcur) o (hpending ▸ ho) hdata).mono
    rw [hissued, due_congr hcurrent hpending]
    exact List.Subset.refl _
  again := fun o ho hdata => by
    rw [hissued]
    exact h.again o (hout o ho) hdata

/-- A round begins when nothing is due, so what was known then was issued. -/
theorem Known.round {cfg : EndpointConfig} {s t : Drain} {l k : List DrainEvent} {o : WriterOut}
    (h : s.Known cfg l o) (hnone : s.conn.pending = []) (hissued : issued k = issued l) :
    t.Known cfg k o := by
  apply h.mono
  rw [due_eq_nil_of_pending hnone, List.append_nil, hissued]
  exact List.subset_append_left _ _

/-- The frame of a message that is taken is due, and can be sent again later. -/
theorem Repeats.take {cfg : EndpointConfig} {s t : Drain} {l : List DrainEvent} {m : PushMsg}
    (h : s.Repeats cfg l) (hnone : s.conn.pending = []) (hcurrent : t.current = some m)
    {rest : List WriterOut} (hpending : t.conn.pending = firstFrame cfg m :: rest)
    (hkeep : ∀ o, t.conn.writer.queue.Holds o →
      s.conn.writer.queue.Holds o ∨ o = firstFrame cfg m) : t.Repeats cfg l where
  held := fun o ho => by
    rcases hkeep o ho with hold | hnew
    · exact (h.held o hold).round hnone rfl
    · refine ⟨m, ?_, hnew⟩
      rw [due_eq_of_firstFrame hcurrent hpending]
      exact List.mem_append_right _ (List.mem_singleton_self _)
  pending := fun hnot => absurd (hcurrent.symm.trans hnot) (by simp)
  again := h.again

/-- A round without a message sends again what is held. -/
theorem Repeats.between {cfg : EndpointConfig} {s t : Drain} {l k : List DrainEvent}
    (h : s.Repeats cfg l) (hnone : s.conn.pending = []) (hissued : issued k = issued l)
    (hout : ∀ o, .out none o ∈ k → .out none o ∈ l)
    (houts : ∀ o ∈ t.conn.pending, o.isData = true → s.conn.writer.queue.Holds o)
    (hkeep : ∀ o, t.conn.writer.queue.Holds o → s.conn.writer.queue.Holds o) :
    t.Repeats cfg k where
  held := fun o ho => (h.held o (hkeep o ho)).round hnone hissued
  pending := fun _ o ho hdata => (h.held o (houts o ho hdata)).round hnone hissued
  again := fun o ho hdata => by
    rw [hissued]
    exact h.again o (hout o ho) hdata

/-- What is sent was due or known. -/
theorem Repeats.emit {cfg : EndpointConfig} {s t : Drain} {l : List DrainEvent} {o : WriterOut}
    (h : s.Repeats cfg l) (hshape : s.Shape cfg)
    (hpending : s.conn.pending = o :: t.conn.pending)
    (hwriter : t.conn.writer = s.conn.writer) (hcurrent : t.current = s.current) :
    t.Repeats cfg (l ++ [.out s.current o]) := by
  have hsame : issued (l ++ [.out s.current o]) ++ t.due = issued l ++ s.due := by
    rw [issued_append, List.append_assoc, issued_out_append_due hshape hpending hcurrent]
  have hmore : ∀ m ∈ issued l, m ∈ issued (l ++ [.out s.current o]) := by
    intro m hm
    rw [issued_append]
    exact List.mem_append_left _ hm
  refine ⟨fun o' ho' => ?_, fun hcur o' ho' hdata => ?_, fun o' ho' hdata => ?_⟩
  · exact (h.held o' (hwriter ▸ ho')).mono (hsame ▸ List.Subset.refl _)
  · have hmem : o' ∈ s.conn.pending := hpending ▸ List.mem_cons_of_mem _ ho'
    have hcur' : s.current = none := hcurrent.symm.trans hcur
    exact (h.pending hcur' o' hmem hdata).mono (hsame ▸ List.Subset.refl _)
  · rcases List.mem_append.mp ho' with ho' | ho'
    · obtain ⟨m, hm, heq⟩ := h.again o' ho' hdata
      exact ⟨m, hmore m hm, heq⟩
    · obtain ⟨hcur, rfl⟩ := DrainEvent.out.inj (List.mem_singleton.mp ho')
      obtain ⟨m, hm, heq⟩ := h.pending hcur.symm o' (hpending ▸ List.mem_cons_self) hdata
      have hdue : s.due = [] := by rw [due, ← hcur]
      rw [hdue, List.append_nil] at hm
      exact ⟨m, hmore m hm, heq⟩

end Drain

theorem Drain.Repeats.step {cfg : EndpointConfig} {s t : Drain} {l o : List DrainEvent}
    {a : EndpointAction} (hinv : s.Inv cfg l) (h : s.Repeats cfg l)
    (hstep : (drain cfg).step s a = some (t, o)) : t.Repeats cfg (l ++ o) := by
  obtain ⟨outs, hconn, hcurrent, rfl⟩ := Drain.step_iff.mp hstep
  cases Endpoint.effect_of_step hconn with
  | put hopen hbuf hwriter hpending =>
      apply h.congr hcurrent hwriter hpending
      · simp [issued, Drain.see]
      · exact fun o ho => by simpa [Drain.see] using ho
  | close hopen hbuf hwriter hpending =>
      rw [show s.see .closeSend [] = [] from rfl, List.append_nil]
      exact h.congr hcurrent hwriter hpending rfl fun o ho => ho
  | take hnone hrun hbuf houts =>
      obtain ⟨⟨rest, hpending, -⟩, hkeep⟩ := houts
      rw [show s.see (.takeMessage _) [] = [] from rfl, List.append_nil]
      exact h.take hnone (hcurrent.trans (Drain.next_takeMessage hbuf)) hpending hkeep
  | ended hnone hrun hbuf hclosed hsend hreturned houts =>
      obtain ⟨hclose, hkeep⟩ := houts
      refine h.between hnone ?_ ?_ ?_ hkeep
      · simp [issued, Drain.see]
      · exact fun o ho => by simpa [Drain.see] using ho
      · intro o ho hdata
        rw [hclose, List.mem_singleton] at ho
        subst ho
        exact absurd hdata (by decide)
  | emit hpending hsend hwriter => exact h.emit hinv.shape hpending hwriter hcurrent
  | between ha hnone hrun hsend houts hkeep =>
      rw [Drain.see_of_isBetween ha, List.append_nil]
      exact h.between hnone rfl (fun o ho => ho) houts.2 hkeep
  | aside ha hsend hwriter hpending =>
      rw [Drain.see_of_isAside ha, List.append_nil]
      exact h.congr (hcurrent.trans (Drain.next_of_isAside ha)) hwriter hpending rfl fun o ho => ho

theorem Drain.Repeats.init (cfg : EndpointConfig) : (drain cfg).init.Repeats cfg [] := by
  refine ⟨?_, by simp [drain, endpoint], by simp⟩
  rintro o ⟨msgId, msg, hlook, -⟩
  exact absurd hlook (by simp [drain, endpoint])

/-! ## In every run -/

/-- **In every run of a connection, the messages whose first frame the writer has issued are a
prefix of those put on `c.send`, each with its own frame, and any other frame repeats one of these.
When the writer has seen the end of the queue it has issued all of them, and sends one close message
after everything else.** -/
theorem drain_in_order (cfg : EndpointConfig) (r : (drain cfg).Run) : r.Always fun s l =>
    issued l <+: enqueued l ∧
    (∀ m o, .out (some m) o ∈ l → o.isData = true → o = firstFrame cfg m) ∧
    (∀ o, .out none o ∈ l → o.isData = true → ∃ m ∈ issued l, o = firstFrame cfg m) ∧
    (.ended ∈ l → issued l = enqueued l ∧ s.SaysGoodbye l) := by
  have hinv := r.always (I := fun s l => s.Inv cfg l ∧ s.Repeats cfg l)
    ⟨Drain.Inv.init cfg, Drain.Repeats.init cfg⟩
    fun s l a t o h hstep => ⟨h.1.step hstep, h.2.step h.1 hstep⟩
  refine hinv.mono fun s l h => ⟨?_, h.1.frames, h.2.again, fun hend => ?_⟩
  · exact ⟨s.due ++ s.conn.send.buf, by rw [← h.1.balance, List.append_assoc]⟩
  · obtain ⟨-, hbuf, -, hcurrent, hbye⟩ := h.1.drained hend
    have hdue : s.due = [] := by rw [Drain.due, hcurrent]
    have hbal := h.1.balance
    rw [hdue, hbuf, List.append_nil, List.append_nil] at hbal
    exact ⟨hbal, hbye⟩

end Skytime
