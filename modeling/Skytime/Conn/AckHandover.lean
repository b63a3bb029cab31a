/-
# Skytime.Conn.AckHandover — whether the reader's ack finds a receiver.

`recv_ack_seq` has no buffer and only `writeRTO` receives from it. The reader hands over an ack
without asking whether `writeRTO` was started or is still in its loop, so it waits for good when a
client of a server without retransmission sends an ack, or when the writer leaves its loop first.
The two conditions that exclude this are `KeepsReceiver`; a waiting reader whose receiver runs can
always get back to `ReadMessage`.
-/
import Skytime.Conn.Endpoint

namespace Skytime

open Process

/-! ## Waiting and receiving -/

/-- The reader waits to hand an ack to `c.recv_ack_seq`. -/
def Endpoint.Waiting (s : Endpoint) : Prop :=
  ∃ ackSeq rest, s.reader = .handing (.recvAckSeq ackSeq :: rest)

/-- A goroutine that receives from `c.recv_ack_seq` runs: `writeRTO`, in its loop. -/
def Endpoint.ReceiverRuns (cfg : EndpointConfig) (s : Endpoint) : Prop :=
  0 < cfg.enableAckRto ∧ s.started = true ∧ s.writer.status = .running

/-- A reader that waits with an ack has a receiver now or later, and can get back to `ReadMessage`
and from there to its deferred `unregister`. -/
def HandOverLive (cfg : EndpointConfig) (s : Endpoint) (_ : List WriterOut) : Prop :=
  s.panicked = false → s.Waiting →
    (endpoint cfg).CanReach s (Endpoint.ReceiverRuns cfg) ∧
    (endpoint cfg).CanReach s (fun t => t.reader = .reading) ∧
    (endpoint cfg).CanReach s (fun t => t.reader = .leaving)

/-- An ack is read only while `writeRTO` runs, and the writer does not leave its loop while the
reader waits with an ack. -/
def KeepsReceiver (cfg : EndpointConfig) (s : Endpoint) (_ : List WriterOut) :
    EndpointAction → Prop
  | .readMessage mt message => IsAck mt message → s.ReceiverRuns cfg
  | .takeEnd | .ping false => ¬ s.Waiting
  | _ => True

/-! ## Rounds of the writer -/

/-- The events on which the writer leaves its loop in either mode. -/
def WriterEvent.Leaves : WriterEvent → Prop
  | .closed | .ping false => True
  | _ => False

/-- `writeRTO` stays in its loop, or it leaves on one of two events, or a tick ends the process. -/
theorem Writer.RtoStep.status {cfg : RtoConfig} {w w' : Writer} {e : WriterEvent}
    {o : List WriterOut} (h : w.RtoStep cfg e w' o) (hrun : w.status = .running) :
    (¬ e.Leaves ∧ (w'.status = .running ∨ w'.status = .panicked)) ∨
      (e.Leaves ∧ w'.status = .returned) := by
  cases h with
  | message | ack | tick => exact .inl ⟨fun he => he, .inl hrun⟩
  | ping => exact .inl ⟨fun he => he, .inl hrun⟩
  | closed | pingFailed => exact .inr ⟨trivial, rfl⟩
  | panic => exact .inl ⟨fun he => he, .inr rfl⟩

namespace Endpoint

/-- The values a reader can be about to hand over. -/
inductive Todo : List HandOver → Prop
  | ack (ackSeq : ℕ) : Todo [.recvAckSeq ackSeq, .recvAckCh ackSeq]
  | count (ackSeq : ℕ) : Todo [.recvAckCh ackSeq]
  | notify (ackSeq : ℕ) : Todo [.notifyAckQ ackSeq]

/-- What holds of the reader in every reachable state. -/
structure Inv (s : Endpoint) : Prop where
  started_of_reader : s.reader ≠ .notStarted → s.started = true
  todo_of_handing : ∀ todo, s.reader = .handing todo → Todo todo

theorem resume_eq_handing {todo todo' : List HandOver}
    (h : Reader.resume todo = .handing todo') : todo = todo' := by
  cases todo with
  | nil => exact absurd h (by simp [Reader.resume])
  | cons a todo => exact Reader.handing.inj h

/-- After a hand-over at most the count of an ack is left. -/
theorem Inv.resume {s : Endpoint} (hi : s.Inv) {a : HandOver} {rest todo : List HandOver}
    (hreader : s.reader = .handing (a :: rest)) (h : Reader.resume rest = .handing todo) :
    ∃ ackSeq, todo = [.recvAckCh ackSeq] := by
  have htodo := hi.todo_of_handing _ hreader
  obtain rfl := resume_eq_handing h
  cases htodo with
  | ack ackSeq => exact ⟨ackSeq, rfl⟩
  | count | notify => exact absurd h (by simp [Reader.resume])

theorem Inv.init (cfg : EndpointConfig) : (endpoint cfg).init.Inv :=
  ⟨fun h => absurd rfl h, fun _ h => absurd h (by simp [endpoint])⟩

theorem Inv.step {cfg : EndpointConfig} {s t : Endpoint} {a : EndpointAction} (hi : s.Inv)
    (h : s.Step cfg a t) : t.Inv := by
  have hstarted : ∀ {r}, s.reader = r → r ≠ .notStarted → s.started = true :=
    fun hr hne => hi.started_of_reader (by rw [hr]; exact hne)
  cases h with
  | goWriter => exact ⟨fun _ => rfl, hi.todo_of_handing⟩
  | goReader hs => exact ⟨fun _ => hs, fun _ h => absurd h (by simp)⟩
  | quiet | readPanic => exact ⟨hi.started_of_reader, hi.todo_of_handing⟩
  | round ch ha hround =>
      obtain ⟨_, _, w, outs, rfl, _⟩ := round_cases hround
      exact ⟨hi.started_of_reader, hi.todo_of_handing⟩
  | @readMessage mt message todo hreader hok =>
      refine ⟨fun _ => hstarted hreader (by simp), fun todo' hhand => ?_⟩
      obtain rfl := resume_eq_handing hhand
      rcases handleMessage_shape hok with ⟨_, seq, rfl⟩ | ⟨_, rfl | ⟨seq, rfl⟩⟩
      · exact .ack seq
      · exact absurd hhand (by simp [Reader.resume])
      · exact .notify seq
  | readError hreader =>
      exact ⟨fun _ => hstarted hreader (by simp), fun _ h => absurd h (by simp)⟩
  | handAck hreader hround =>
      obtain ⟨hs, _, w, outs, rfl, _⟩ := round_cases hround
      refine ⟨fun _ => hs, fun todo hhand => ?_⟩
      obtain ⟨ackSeq, rfl⟩ := hi.resume hreader hhand
      exact .count ackSeq
  | countAck hreader | handNotify q hreader =>
      refine ⟨fun _ => hstarted hreader (by simp), fun todo hhand => ?_⟩
      obtain ⟨ackSeq, rfl⟩ := hi.resume hreader hhand
      exact .count ackSeq
  | unregister hreader =>
      exact ⟨fun _ => hstarted hreader (by simp), fun _ h => absurd h (by simp)⟩

/-! ## A receiver that is gone stays away -/

/-- The writer has been started and no goroutine receives from `c.recv_ack_seq`. -/
def Deaf (cfg : EndpointConfig) (s : Endpoint) : Prop :=
  s.started = true ∧ ¬ (0 < cfg.enableAckRto ∧ s.writer.status = .running)

theorem Deaf.step {cfg : EndpointConfig} {s t : Endpoint} {a : EndpointAction}
    (hd : s.Deaf cfg) (h : s.Step cfg a t) : t.Deaf cfg := by
  cases h with
  | goWriter hnot => exact absurd (hnot.symm.trans hd.1) (by simp)
  | goReader | quiet | readMessage | readPanic | readError | countAck | handNotify | unregister =>
      exact hd
  | round ch ha hround =>
      obtain ⟨hs, hrun, w, outs, rfl, _⟩ := round_cases hround
      exact ⟨hs, fun hr => hd.2 ⟨hr.1, hrun⟩⟩
  | handAck hreader hround =>
      obtain ⟨hs, hrun, w, outs, rfl, _⟩ := round_cases hround
      exact ⟨hs, fun hr => hd.2 ⟨hr.1, hrun⟩⟩

/-- With the writer started, a receiver runs later only if it runs now. -/
theorem receiverRuns_of_canReach {cfg : EndpointConfig} {s : Endpoint} (hs : s.started = true)
    (h : (endpoint cfg).CanReach s (ReceiverRuns cfg)) : s.ReceiverRuns cfg := by
  by_contra hnot
  have hd : s.Deaf cfg := ⟨hs, fun hr => hnot ⟨hr.1, hs, hr.2⟩⟩
  obtain ⟨t, hdt, hrt⟩ := h.closed hd (fun s a t o hd hstep => hd.step (step_cases hstep).2)
  exact hdt.2 ⟨hrt.1, hrt.2.2⟩

/-! ## A running receiver lets the reader go on -/

theorem step_of_stepRunning {cfg : EndpointConfig} {s t : Endpoint} {a : EndpointAction}
    {o : List WriterOut} (hp : s.panicked = false) (h : s.stepRunning cfg a = some (t, o)) :
    (endpoint cfg).step s a = some (t, o) := by
  simp only [endpoint, step, hp, Bool.false_eq_true, if_false, h]

/-- The writer can send everything that is pending. -/
theorem canReach_flushed {cfg : EndpointConfig} (hrto : 0 < cfg.enableAckRto) {s : Endpoint}
    (hp : s.panicked = false) :
    (endpoint cfg).CanReach s (fun t => t = { s with pending := [] }) := by
  obtain ⟨send, notifyAckQ, started, writer, pending, reader, panicked⟩ := s
  induction pending with
  | nil => exact .now rfl
  | cons o rest ih =>
      have hcan : canEmit cfg o = true := by
        cases o <;> simp [canEmit, hrto]
      have hemit : stepRunning cfg ⟨send, notifyAckQ, started, writer, o :: rest, reader, panicked⟩
          .emit = some (⟨send, notifyAckQ, started, writer, rest, reader, panicked⟩, [o]) := by
        simp only [stepRunning, hcan, if_true]
      exact .head (step_of_stepRunning hp hemit) (ih hp)

/-- A waiting reader with a running receiver can get back to `ReadMessage`. -/
theorem canReach_reading {cfg : EndpointConfig} {s : Endpoint} (hi : s.Inv)
    (hp : s.panicked = false) (hw : s.Waiting) (hr : s.ReceiverRuns cfg) :
    (endpoint cfg).CanReach s (fun t => t.panicked = false ∧ t.reader = .reading) := by
  obtain ⟨hrto, hstarted, hrun⟩ := hr
  obtain ⟨ackSeq, rest, hreader⟩ := hw
  have hrest : rest = [.recvAckCh ackSeq] := by
    have htodo := hi.todo_of_handing _ hreader
    cases htodo
    rfl
  apply (canReach_flushed hrto hp).trans
  rintro t rfl
  -- the writer takes the ack, then `msg_ack_stat` takes its number
  have hack : stepRunning cfg { s with pending := [] } .handAck =
      some ({ s with
        pending := []
        writer := { s.writer with queue := handleAck s.writer.queue ackSeq }
        reader := .handing [.recvAckCh ackSeq]
        panicked := false }, []) := by
    simp [stepRunning, hreader, hrest, round, hstarted, hrto, hrun, Writer.rtoStep, Reader.resume]
  have hcount : ∀ t : Endpoint, t.reader = .handing [.recvAckCh ackSeq] →
      stepRunning cfg t .countAck = some ({ t with reader := .reading }, []) := by
    intro t ht
    simp [stepRunning, ht, hrto, Reader.resume]
  exact .head (step_of_stepRunning hp hack)
    (.head (step_of_stepRunning rfl (hcount _ rfl)) (.now ⟨rfl, rfl⟩))

/-- In a reachable state the reader's ack is live exactly when its receiver runs. -/
theorem handOverLive_iff {cfg : EndpointConfig} {s : Endpoint} {l : List WriterOut} (hi : s.Inv) :
    HandOverLive cfg s l ↔ (s.panicked = false → s.Waiting → s.ReceiverRuns cfg) := by
  constructor
  · intro h hp hw
    obtain ⟨ackSeq, rest, hreader⟩ := hw
    have hs : s.started = true := hi.started_of_reader (by simp [hreader])
    exact receiverRuns_of_canReach hs (h hp ⟨ackSeq, rest, hreader⟩).1
  · intro h hp hw
    have hr := h hp hw
    have hread := canReach_reading hi hp hw hr
    refine ⟨.now hr, hread.trans fun t ht => .now ht.2, hread.trans fun t ht => ?_⟩
    have hleave : stepRunning cfg t .readError = some ({ t with reader := .leaving }, []) := by
      simp [stepRunning, ht.2]
    exact .head (step_of_stepRunning ht.1 hleave) (.now rfl)

/-! ## Runs -/

/-- Under the condition a step keeps the receiver of a waiting reader. -/
theorem receiverRuns_step {cfg : EndpointConfig} {s t : Endpoint} {l : List WriterOut}
    {a : EndpointAction} (hi : s.Inv) (hr : s.Waiting → s.ReceiverRuns cfg)
    (hc : KeepsReceiver cfg s l a) (h : s.Step cfg a t) :
    t.panicked = false → t.Waiting → t.ReceiverRuns cfg := by
  intro hp hw
  cases h with
  | goWriter hnot =>
      -- a reader waits only when the writer has been started
      have := (hr hw).2.1
      exact absurd (hnot.symm.trans this) (by simp)
  | quiet | readPanic => exact hr hw
  | goReader | readError | unregister =>
      obtain ⟨ackSeq, rest, hreader⟩ := hw
      exact absurd hreader (by simp)
  | round ch ha hround =>
      obtain ⟨hs, hrun, w, outs, rfl, hstep, hpump⟩ := round_cases hround
      have hrto : 0 < cfg.enableAckRto := (hr hw).1
      rcases (hstep hrto).status hrun with ⟨_, hstay | hpanic⟩ | ⟨hleave, _⟩
      · exact ⟨hrto, hs, hstay⟩
      · simp [hpanic] at hp
      · -- leaving with a waiting reader is what the condition excludes
        cases ha with
        | takeMessage | tick => exact absurd hleave (by simp [WriterEvent.Leaves])
        | takeEnd => exact absurd hw hc
        | ping ok =>
            cases ok with
            | true => exact absurd hleave (by simp [WriterEvent.Leaves])
            | false => exact absurd hw hc
  | @readMessage mt message todo hreader hok =>
      obtain ⟨ackSeq, rest, hhand⟩ := hw
      obtain rfl := resume_eq_handing hhand
      rcases handleMessage_shape hok with ⟨hack, _⟩ | ⟨_, hnil | ⟨seq, hnotify⟩⟩
      · exact hc hack
      · exact absurd hnil (by simp)
      · exact absurd hnotify (by simp)
  | handAck hreader hround =>
      -- after the hand-over only the count of the ack is left
      obtain ⟨_, _, w, outs, rfl, _⟩ := round_cases hround
      obtain ⟨ackSeq, rest, hhand⟩ := hw
      obtain ⟨seq, hcount⟩ := hi.resume hreader hhand
      exact absurd hcount (by simp)
  | countAck hreader | handNotify q hreader =>
      obtain ⟨ackSeq, rest, hhand⟩ := hw
      obtain ⟨seq, hcount⟩ := hi.resume hreader hhand
      exact absurd hcount (by simp)

/-- A step outside the condition leaves the reader waiting without a receiver. -/
theorem not_receiverRuns_step {cfg : EndpointConfig} {s t : Endpoint} {l : List WriterOut}
    {a : EndpointAction} (hc : ¬ KeepsReceiver cfg s l a) (hp : s.panicked = false)
    (h : s.Step cfg a t) : t.panicked = false ∧ t.Waiting ∧ ¬ t.ReceiverRuns cfg := by
  cases h with
  | @readMessage mt message todo hreader hok =>
      simp only [KeepsReceiver, not_forall] at hc
      obtain ⟨hack, hr⟩ := hc
      rcases handleMessage_shape hok with ⟨_, seq, rfl⟩ | ⟨hnot, _⟩
      · exact ⟨hp, ⟨seq, _, rfl⟩, hr⟩
      · exact absurd hack hnot
  | readPanic hreader herr =>
      -- an ack is long enough to be decoded
      simp only [KeepsReceiver, not_forall] at hc
      obtain ⟨todo, htodo⟩ := handleMessage_of_isAck hc.1
      exact absurd (herr.symm.trans htodo) (by simp)
  | @round a e ok t ch ha hround =>
      obtain ⟨hs, hrun, w, outs, rfl, hstep, hpump⟩ := round_cases hround
      have hleave : e.Leaves ∧ s.Waiting := by
        cases ha with
        | takeMessage | tick => exact absurd trivial hc
        | takeEnd => exact ⟨trivial, not_not.mp hc⟩
        | ping ok =>
            cases ok with
            | true => exact absurd trivial hc
            | false => exact ⟨trivial, not_not.mp hc⟩
      by_cases hrto : 0 < cfg.enableAckRto
      · rcases (hstep hrto).status hrun with ⟨hstay, _⟩ | ⟨_, hret⟩
        · exact absurd hleave.1 hstay
        · refine ⟨by simp [hret], hleave.2, fun hr => ?_⟩
          exact absurd (hret.symm.trans hr.2.2) (by simp)
      · exact ⟨by simp [hpump hrto], hleave.2, fun hr => hrto hr.1⟩
  | goWriter | goReader | readError | handAck | countAck | handNotify | unregister =>
      exact absurd trivial hc
  | @quiet a ha => cases a <;> first | exact absurd trivial hc | exact ha.elim

/-- **Along a run the reader's ack finds a receiver, and the reader gets back to `ReadMessage`,
exactly when acks are read only while `writeRTO` runs and the writer never leaves its loop while the
reader waits with an ack.** -/
theorem always_handOverLive_iff (cfg : EndpointConfig) (r : (endpoint cfg).Run) :
    r.Always (HandOverLive cfg) ↔ r.EachStep (KeepsReceiver cfg) := by
  refine r.always_iff_eachStep (I := fun s l => s.Inv ∧ HandOverLive cfg s l)
    ⟨.init cfg, ?_⟩ (fun s l h => h.2) ?_ ?_
  · rintro _ ⟨ackSeq, rest, hreader⟩
    exact absurd hreader (by simp [endpoint])
  · rintro s l a t o ⟨hi, hl⟩ hc hstep
    obtain ⟨hp, hcases⟩ := step_cases hstep
    have hit := hi.step hcases
    exact ⟨hit, (handOverLive_iff hit).mpr
      (receiverRuns_step hi ((handOverLive_iff hi).mp hl hp) hc hcases)⟩
  · rintro s l a t o ⟨hi, _⟩ hc hstep hlive
    obtain ⟨hp, hcases⟩ := step_cases hstep
    obtain ⟨hpt, hw, hr⟩ := not_receiverRuns_step hc hp hcases
    exact hr ((handOverLive_iff (hi.step hcases)).mp hlive hpt hw)

/-- A run that ends with a waiting reader and no receiver is a failure. -/
theorem not_always_of_last {cfg : EndpointConfig} (r : (endpoint cfg).Run)
    (hp : r.last.panicked = false) (hw : r.last.Waiting) (hr : ¬ r.last.ReceiverRuns cfg) :
    ¬ r.Always (HandOverLive cfg) := by
  intro hall
  have hi : r.last.Inv := Machine.invariant_of_exec (I := fun s _ => s.Inv) (.init cfg)
    (fun s l a t o hi hstep => hi.step (step_cases hstep).2) r.exec_eq
  exact hr ((handOverLive_iff hi).mp hall.last hp hw)

/-- A server without retransmission; a client sends the five bytes of an ack. -/
def ackWithoutRto : List EndpointAction :=
  [.goWriter, .goReader, .readMessage .text ⟨[0, 0, 0, 1, 0x16], []⟩]

/-- A server with retransmission; the writer leaves on a failed ping after the ack was read. -/
def ackAfterPingFailure : List EndpointAction :=
  ackWithoutRto ++ [.ping false]

/-- Both runs end with a reader that waits for good, one in each mode. -/
theorem ack_waits_for_good :
    (∃ r : (endpoint ⟨0, 0, ⟨8, 64⟩⟩).Run, r.acts = ackWithoutRto ∧
      ¬ r.Always (HandOverLive ⟨0, 0, ⟨8, 64⟩⟩)) ∧
    (∃ r : (endpoint ⟨1, 0, ⟨8, 64⟩⟩).Run, r.acts = ackAfterPingFailure ∧
      ¬ r.Always (HandOverLive ⟨1, 0, ⟨8, 64⟩⟩)) := by
  constructor
  · refine ⟨.ofActs ackWithoutRto (by decide), rfl, not_always_of_last _ rfl ⟨1, _, rfl⟩ ?_⟩
    exact fun hr => absurd hr.1 (by decide)
  · refine ⟨.ofActs ackAfterPingFailure (by decide), rfl,
      not_always_of_last _ rfl ⟨1, _, rfl⟩ ?_⟩
    exact fun hr => absurd hr.2.2 (by decide)

end Endpoint

end Skytime
