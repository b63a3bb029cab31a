/-
# Skytime.Conn.WriteMu — who may be in `ws.WriteMessage` of one connection.

Two goroutines call `connection.write`: the writer of the connection, and `processNotifyMessage`,
which `main` starts when `enable_ack_rto` is positive. `write` takes the token of `notify_mu` around
the call of the websocket package, but only when `enable_ack_rto` is `1`.
-/
import Skytime.Conn.Wire
import Skytime.Process.Machine
import Skytime.Process.Token

namespace Skytime

open Process

/-! ## Goroutines and their positions -/

/-- The goroutines that write to a connection. -/
inductive Sender where
  /-- `writeRTO` or `writePump` -/
  | writer
  /-- `processNotifyMessage` -/
  | notifier
  deriving DecidableEq, Repr

/-- The message types that the server writes. -/
inductive WsMessage where
  | textMessage
  | closeMessage
  | pingMessage
  deriving DecidableEq, Repr

inductive WritePos where
  | notStarted
  /-- outside of `write` -/
  | outside
  /-- at `<-c.notify_mu` -/
  | waiting (mt : WsMessage) (payload : List UInt8)
  /-- in `c.ws.WriteMessage` -/
  | writing (mt : WsMessage) (payload : List UInt8)
  /-- at `c.notify_mu<-true` -/
  | returning
  | returned
  deriving DecidableEq, Repr

/-- The goroutine is in a call of `ws.WriteMessage`. -/
def WritePos.Writing : WritePos → Prop
  | .writing _ _ => True
  | _ => False

/-- With `enable_ack_rto = 1` the goroutine holds the token. -/
def WritePos.Holds : WritePos → Prop
  | .writing _ _ | .returning => True
  | _ => False

theorem WritePos.Writing.holds {x : WritePos} (h : x.Writing) : x.Holds := by
  cases x <;> first | exact h | trivial

structure WriteState where
  pos : Sender → WritePos
  /-- the token is in `notify_mu` -/
  notifyMu : Bool

inductive WriteAction where
  /-- `websocketHandler` starts the writer -/
  | goWriter
  /-- `main` starts `processNotifyMessage` -/
  | goNotifier
  /-- the writer calls `write` with a frame, a body, a ping or a close -/
  | writeMessage (mt : WsMessage) (payload : List UInt8)
  /-- `processNotifyMessage` calls `send_ack_msg_to_peer` -/
  | sendAck (ackSeq : ℕ)
  /-- `<-c.notify_mu` -/
  | takeMu (g : Sender)
  /-- `ws.WriteMessage` returns -/
  | written (g : Sender)
  /-- `c.notify_mu<-true` -/
  | giveMu (g : Sender)
  /-- the writer leaves its loop -/
  | writerReturns
  deriving DecidableEq, Repr

/-! ## Steps -/

/-- Where a call of `write` starts. -/
def writeCall (enableAckRto : ℤ) (mt : WsMessage) (payload : List UInt8) : WritePos :=
  if enableAckRto = 1 then .waiting mt payload else .writing mt payload

/-- Where `write` goes when `ws.WriteMessage` has returned. -/
def writeDone (enableAckRto : ℤ) : WritePos :=
  if enableAckRto = 1 then .returning else .outside

namespace WriteState

def setPos (s : WriteState) (g : Sender) (x : WritePos) : WriteState :=
  { s with pos := Function.update s.pos g x }

/-- A message goes to the websocket package in the step that shows it. -/
def step (enableAckRto : ℤ) (s : WriteState) :
    WriteAction → Option (WriteState × List (Sender × WsMessage × List UInt8))
  | .goWriter =>
    if s.pos .writer = .notStarted then some (s.setPos .writer .outside, []) else none
  | .goNotifier =>
    if s.pos .notifier = .notStarted ∧ enableAckRto > 0 then
      some (s.setPos .notifier .outside, [])
    else none
  | .writeMessage mt payload =>
    if s.pos .writer = .outside then
      some (s.setPos .writer (writeCall enableAckRto mt payload), [])
    else none
  | .sendAck ackSeq =>
    if s.pos .notifier = .outside then
      some (s.setPos .notifier (writeCall enableAckRto .textMessage (ackToPeer ackSeq)), [])
    else none
  | .takeMu g =>
    match s.pos g, s.notifyMu with
    | .waiting mt payload, true =>
      some ({ s with notifyMu := false }.setPos g (.writing mt payload), [])
    | _, _ => none
  | .written g =>
    match s.pos g with
    | .writing mt payload => some (s.setPos g (writeDone enableAckRto), [(g, mt, payload)])
    | _ => none
  | .giveMu g =>
    if s.pos g = .returning then some ({ s with notifyMu := true }.setPos g .outside, []) else none
  | .writerReturns =>
    if s.pos .writer = .outside then some (s.setPos .writer .returned, []) else none

end WriteState

/-- A connection with a token in `notify_mu`, before its goroutines are started. -/
def connWrites (enableAckRto : ℤ) :
    Machine WriteState WriteAction (Sender × WsMessage × List UInt8) where
  init := ⟨fun _ => .notStarted, true⟩
  step := WriteState.step enableAckRto

/-- At most one call of `ws.WriteMessage` is in progress. -/
def WriteState.OneWriter (s : WriteState) : Prop :=
  ∀ g g', (s.pos g).Writing → (s.pos g').Writing → g = g'

/-! ## With the token -/

/-- Every step takes the token, moves on with it, returns it, or does not touch it. -/
theorem WriteState.exclusive_step {s t : WriteState} {a : WriteAction}
    {o : List (Sender × WsMessage × List UInt8)}
    (h : Exclusive WritePos.Holds s.notifyMu s.pos) (ha : (connWrites 1).step s a = some (t, o)) :
    Exclusive WritePos.Holds t.notifyMu t.pos := by
  cases a with
  | goWriter | goNotifier | writeMessage | sendAck | writerReturns =>
      obtain ⟨_, heq⟩ := Machine.guard_eq_some_iff.mp ha
      obtain ⟨rfl, _⟩ := Prod.mk.inj heq
      exact h.idle (fun hx => hx)
  | takeMu g =>
      simp only [connWrites, step] at ha
      split at ha
      · rename_i mt payload hpos hmu
        obtain ⟨rfl, _⟩ := Prod.mk.inj (Option.some.inj ha)
        rw [hmu] at h
        exact h.take g _
      · exact absurd ha (by simp)
  | written g =>
      simp only [connWrites, step] at ha
      split at ha
      · rename_i mt payload hpos
        obtain ⟨rfl, _⟩ := Prod.mk.inj (Option.some.inj ha)
        exact h.move (by rw [hpos]; trivial) _
      · exact absurd ha (by simp)
  | giveMu g =>
      obtain ⟨hpos, heq⟩ := Machine.guard_eq_some_iff.mp ha
      obtain ⟨rfl, _⟩ := Prod.mk.inj heq
      exact h.give (by rw [hpos]; trivial) (fun hx => hx)

/-! ## Without the notifier -/

/-- Nothing starts `processNotifyMessage` when `enable_ack_rto` is not positive. -/
theorem WriteState.notStarted_step {enableAckRto : ℤ} (hoff : ¬ 0 < enableAckRto)
    {s t : WriteState} {a : WriteAction} {o : List (Sender × WsMessage × List UInt8)}
    (h : s.pos .notifier = .notStarted) (ha : (connWrites enableAckRto).step s a = some (t, o)) :
    t.pos .notifier = .notStarted := by
  have hother : ∀ x, Function.update s.pos .writer x .notifier = .notStarted := fun x =>
    (Function.update_of_ne (by simp) x s.pos).trans h
  -- a goroutine that takes a step with the token has been started
  have hstarted : ∀ {g x}, s.pos g ≠ .notStarted →
      Function.update s.pos g x .notifier = .notStarted := by
    intro g x hg
    cases g with
    | writer => exact hother x
    | notifier => exact absurd h hg
  cases a with
  | goWriter =>
      obtain ⟨_, heq⟩ := Machine.guard_eq_some_iff.mp ha
      obtain ⟨rfl, _⟩ := Prod.mk.inj heq
      exact hother .outside
  | writeMessage mt payload =>
      obtain ⟨_, heq⟩ := Machine.guard_eq_some_iff.mp ha
      obtain ⟨rfl, _⟩ := Prod.mk.inj heq
      exact hother (writeCall enableAckRto mt payload)
  | writerReturns =>
      obtain ⟨_, heq⟩ := Machine.guard_eq_some_iff.mp ha
      obtain ⟨rfl, _⟩ := Prod.mk.inj heq
      exact hother .returned
  | goNotifier =>
      obtain ⟨⟨_, hpos⟩, _⟩ := Machine.guard_eq_some_iff.mp ha
      exact absurd hpos hoff
  | sendAck =>
      obtain ⟨hpos, _⟩ := Machine.guard_eq_some_iff.mp ha
      exact absurd (h.symm.trans hpos) (by simp)
  | takeMu g =>
      simp only [connWrites, step] at ha
      split at ha
      · rename_i mt payload hpos hmu
        obtain ⟨rfl, _⟩ := Prod.mk.inj (Option.some.inj ha)
        exact hstarted (by simp [hpos])
      · exact absurd ha (by simp)
  | written g =>
      simp only [connWrites, step] at ha
      split at ha
      · rename_i mt payload hpos
        obtain ⟨rfl, _⟩ := Prod.mk.inj (Option.some.inj ha)
        exact hstarted (by simp [hpos])
      · exact absurd ha (by simp)
  | giveMu g =>
      obtain ⟨hpos, heq⟩ := Machine.guard_eq_some_iff.mp ha
      obtain ⟨rfl, _⟩ := Prod.mk.inj heq
      exact hstarted (by simp [hpos])

/-! ## Exclusion -/

theorem oneWriter_of_le_one {enableAckRto : ℤ} (hle : enableAckRto ≤ 1)
    (r : (connWrites enableAckRto).Run) : r.Always fun s _ => s.OneWriter := by
  by_cases hone : enableAckRto = 1
  · subst hone
    have hinv : r.Always fun s _ => Exclusive WritePos.Holds s.notifyMu s.pos :=
      Machine.Run.always (.start fun _ hx => hx)
        (fun s l a t o hI ha => WriteState.exclusive_step hI ha) r
    exact hinv.mono fun s l h g g' hg hg' => h.unique hg.holds hg'.holds
  · have hoff : ¬ 0 < enableAckRto := by omega
    have hinv : r.Always fun s _ => s.pos .notifier = .notStarted :=
      Machine.Run.always rfl (fun s l a t o hI ha => WriteState.notStarted_step hoff hI ha) r
    refine hinv.mono fun s l h g g' hg hg' => ?_
    have hwriter : ∀ {g}, (s.pos g).Writing → g = .writer := by
      intro g hg
      cases g with
      | writer => rfl
      | notifier =>
          rw [h] at hg
          exact absurd hg (fun hx => hx)
    exact (hwriter hg).trans (hwriter hg').symm

/-- Both goroutines are started and write at once. -/
def bothWrite : List WriteAction :=
  [.goWriter, .goNotifier, .writeMessage .pingMessage [], .sendAck 7]

/-- Beyond one the goroutines are started as with one, but do not take the token. -/
theorem exists_two_writers {enableAckRto : ℤ} (hgt : 1 < enableAckRto) :
    ∃ s l, (connWrites enableAckRto).exec bothWrite = some (s, l) ∧ ¬ s.OneWriter := by
  have hpos : enableAckRto > 0 := by omega
  have hne : enableAckRto ≠ 1 := by omega
  refine ⟨⟨Function.update (Function.update (Function.update (Function.update
    (fun _ => .notStarted) .writer .outside) .notifier .outside) .writer (.writing .pingMessage []))
      .notifier (.writing .textMessage (ackToPeer 7)), true⟩, [], ?_, fun hall => ?_⟩
  · simp [bothWrite, Machine.exec, Machine.execFrom, connWrites, WriteState.step,
      WriteState.setPos, writeCall, hpos, hne]
  · have heq := hall .writer .notifier (by simp [WritePos.Writing]) (by simp [WritePos.Writing])
    exact absurd heq (by simp)

/-- **At most one call of `ws.WriteMessage` is in progress in every state of every run exactly when
`enable_ack_rto` is at most one.** -/
theorem oneWriter_iff (enableAckRto : ℤ) :
    (∀ r : (connWrites enableAckRto).Run, r.Always fun s _ => s.OneWriter) ↔
      enableAckRto ≤ 1 := by
  constructor
  · intro hall
    by_contra hgt
    obtain ⟨s, l, hexec, hnot⟩ := exists_two_writers (Int.not_le.mp hgt)
    exact hnot (hall ⟨bothWrite, s, l, hexec⟩).last
  · exact fun hle r => oneWriter_of_le_one hle r

/-- With `enable_ack_rto = 2` the writer pings while `processNotifyMessage` sends an ack. -/
theorem twoWriters_two :
    ¬ ∀ r : (connWrites 2).Run, r.Always fun s _ => s.OneWriter := by
  intro hall
  obtain ⟨s, l, hexec, hnot⟩ := exists_two_writers (show (1 : ℤ) < 2 by decide)
  exact hnot (hall ⟨bothWrite, s, l, hexec⟩).last

end Skytime
