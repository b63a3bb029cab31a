/-
# Skytime.Client.Benchmark — the two goroutines of one connection of the load generator.

After a successful dial `benchmark` starts a reader and waits for an interrupt. Both goroutines have
deferred a `close(done)`, so the channel is closed by whichever of them returns, and a second close
ends the process of all connections. One close is in order as long as the other goroutine goes on:
when the reader ends first the main loop must not be interrupted any more, and when the main loop
has been interrupted its reader must not end before the process does.
-/
import Skytime.Conn.Wire
import Skytime.Process.Channel
import Skytime.Process.Machine

namespace Skytime

open Process

/-! ## Positions -/

/-- Where the main loop of a connection stands. -/
inductive MainPos where
  /-- at its `select` -/
  | looping
  /-- at the `select` on `done` and the timeout -/
  | closing
  /-- at the deferred `ticker.Stop()` -/
  | tickerStop
  /-- at the deferred `close(done)` -/
  | closeDone
  /-- at the deferred `c.Close()` -/
  | closeWs
  /-- at the deferred `wg.Done()` -/
  | wgDone
  | returned
  deriving DecidableEq, Repr

/-- Where the reader stands; a reader that has panicked makes its deferred calls all the same. -/
inductive ReaderPos where
  /-- in `ReadMessage` -/
  | reading
  /-- at `is_have_msg <- true` -/
  | counting
  /-- at the deferred `close(done)` -/
  | closeDone (panicking : Bool)
  /-- at the deferred `c.Close()` -/
  | closeWs (panicking : Bool)
  | returned (panicking : Bool)
  deriving DecidableEq, Repr

/-- One connection, with the fate of the process. -/
structure Bench where
  main : MainPos
  reader : ReaderPos
  done : Chan Unit 0
  /-- `main` has called `os.Exit(0)` -/
  exited : Bool
  panicked : Bool

inductive BenchAction where
  /-- the ticker fires, and nothing is done -/
  | tick
  /-- the interrupt arrives; whether the close frame can be written -/
  | interrupt (written : Bool)
  /-- `case <-done` -/
  | doneClosed
  /-- `case <-time.After(time.Second)` -/
  | timeout
  /-- the main loop makes its next deferred call -/
  | mainDeferred
  | readMessage (mt : MessageType) (message : Slice UInt8)
  /-- `countMsg` takes from `is_have_msg` -/
  | counted
  | readError
  /-- the reader makes its next deferred call, or its panic ends the process -/
  | readerDeferred
  /-- every connection has called `wg.Done()` and the process exits -/
  | exit
  deriving DecidableEq, Repr

/-- A `close(done)` is executed. -/
inductive BenchEvent where
  | closeDone
  deriving DecidableEq, Repr

/-! ## Steps -/

namespace Bench

/-- `close(done)`, which panics on the closed channel. -/
def closeDone (s : Bench) : Bench :=
  match s.done.close with
  | some ch => { s with done := ch }
  | none => { s with panicked := true }

/-- Where the reader goes with a message. -/
def received (ackRto : Bool) (mt : MessageType) (message : Slice UInt8) : ReaderPos :=
  if mt = .text then
    if ackRto then
      match clientRead message with
      | .error _ => .closeDone true
      | .ok (.ack _) => .reading
      -- a message of type 1 is acknowledged first
      | .ok (.push _ _ _) => .counting
    else .counting
  else .reading

def stepRunning (ackRto : Bool) (s : Bench) : BenchAction → Option (Bench × List BenchEvent)
  | .tick => if s.main = .looping then some (s, []) else none
  | .interrupt written =>
    if s.main = .looping then
      some ({ s with main := if written then .closing else .tickerStop }, [])
    else none
  | .doneClosed =>
    if s.main = .closing ∧ s.done.closed = true then
      some ({ s with main := .tickerStop }, [])
    else none
  | .timeout =>
    -- `c.Close()` makes the reader's next read fail sooner or later
    if s.main = .closing then some ({ s with main := .tickerStop }, []) else none
  | .mainDeferred =>
    match s.main with
    | .tickerStop => some ({ s with main := .closeDone }, [])
    | .closeDone => some ({ s with main := .closeWs }.closeDone, [.closeDone])
    | .closeWs => some ({ s with main := .wgDone }, [])
    | .wgDone => some ({ s with main := .returned }, [])
    | _ => none
  | .readMessage mt message =>
    if s.reader = .reading then some ({ s with reader := received ackRto mt message }, [])
    else none
  | .counted => if s.reader = .counting then some ({ s with reader := .reading }, []) else none
  | .readError =>
    if s.reader = .reading then some ({ s with reader := .closeDone false }, []) else none
  | .readerDeferred =>
    match s.reader with
    | .closeDone p => some ({ s with reader := .closeWs p }.closeDone, [.closeDone])
    | .closeWs p => some ({ s with reader := .returned p }, [])
    | .returned true => some ({ s with panicked := true }, [])
    | _ => none
  | .exit => if s.main = .returned then some ({ s with exited := true }, []) else none

/-- The process is running. -/
def Live (s : Bench) : Prop := s.panicked = false ∧ s.exited = false

instance (s : Bench) : Decidable s.Live := inferInstanceAs (Decidable (_ ∧ _))

def step (ackRto : Bool) (s : Bench) (a : BenchAction) : Option (Bench × List BenchEvent) :=
  if s.Live then s.stepRunning ackRto a else none

end Bench

/-- A connection after a successful dial; `ackRto` is the flag `-rto`. -/
def benchmark (ackRto : Bool) : Machine Bench BenchAction BenchEvent where
  init := ⟨.looping, .reading, Chan.make, false, false⟩
  step := Bench.step ackRto

/-! ## What the steps can do -/

/-- The main loop has been interrupted. -/
def MainPos.Ended (x : MainPos) : Prop := x ≠ .looping

/-- The reader is out of its loop. -/
def ReaderPos.Ended (x : ReaderPos) : Prop := x ≠ .reading ∧ x ≠ .counting

/-- The calls of `close(done)` that the main loop still has to make. -/
def MainPos.due : MainPos → ℕ
  | .closeWs | .wgDone | .returned => 0
  | _ => 1

def ReaderPos.due : ReaderPos → ℕ
  | .closeWs _ | .returned _ => 0
  | _ => 1

/-- Everything one step of a connection can do. -/
inductive Bench.Step (ackRto : Bool) (s : Bench) :
    BenchAction → Bench → List BenchEvent → Prop
  | tick : Step ackRto s .tick s []
  | interrupt {written : Bool} {x : MainPos} (hmain : s.main = .looping) (hx : x.Ended)
      (hdue : x.due = 1) : Step ackRto s (.interrupt written) { s with main := x } []
  /-- an interrupted main loop goes on without closing the channel -/
  | mainMoves {a : BenchAction} {x : MainPos}
      (ha : a = .doneClosed ∨ a = .timeout ∨ a = .mainDeferred) (hended : s.main.Ended)
      (hdue : x.due = s.main.due) :
      Step ackRto s a { s with main := x } []
  | mainCloses (hmain : s.main = .closeDone) :
      Step ackRto s .mainDeferred (closeDone { s with main := .closeWs }) [.closeDone]
  | readMessage {mt : MessageType} {message : Slice UInt8} (hreader : s.reader = .reading) :
      Step ackRto s (.readMessage mt message)
        { s with reader := received ackRto mt message } []
  | counted (hreader : s.reader = .counting) :
      Step ackRto s .counted { s with reader := .reading } []
  | readError (hreader : s.reader = .reading) :
      Step ackRto s .readError { s with reader := .closeDone false } []
  | readerMoves {p : Bool} (hreader : s.reader = .closeWs p) :
      Step ackRto s .readerDeferred { s with reader := .returned p } []
  | readerCloses {p : Bool} (hreader : s.reader = .closeDone p) :
      Step ackRto s .readerDeferred (closeDone { s with reader := .closeWs p }) [.closeDone]
  | crash (hreader : s.reader = .returned true) :
      Step ackRto s .readerDeferred { s with panicked := true } []
  | exit : Step ackRto s .exit { s with exited := true } []

namespace Bench

variable {ackRto : Bool} {s t : Bench} {a : BenchAction} {l o : List BenchEvent}

/-- A step is taken by a process that runs, and is one of the listed ones. -/
theorem step_cases (h : (benchmark ackRto).step s a = some (t, o)) :
    s.Live ∧ s.Step ackRto a t o := by
  obtain ⟨hlive, h⟩ := Option.ite_none_right_eq_some.mp h
  refine ⟨hlive, ?_⟩
  cases a with
  | tick =>
      obtain ⟨-, h⟩ := Machine.guard_eq_some_iff.mp h
      obtain ⟨rfl, rfl⟩ := Prod.mk.inj h
      exact .tick
  | interrupt written =>
      obtain ⟨hmain, h⟩ := Machine.guard_eq_some_iff.mp h
      obtain ⟨rfl, rfl⟩ := Prod.mk.inj h
      cases written <;> exact .interrupt hmain (by simp [MainPos.Ended]) rfl
  | doneClosed =>
      obtain ⟨⟨hmain, -⟩, h⟩ := Machine.guard_eq_some_iff.mp h
      obtain ⟨rfl, rfl⟩ := Prod.mk.inj h
      exact .mainMoves (.inl rfl) (by simp [MainPos.Ended, hmain]) (by rw [hmain]; rfl)
  | timeout =>
      obtain ⟨hmain, h⟩ := Machine.guard_eq_some_iff.mp h
      obtain ⟨rfl, rfl⟩ := Prod.mk.inj h
      exact .mainMoves (.inr (.inl rfl)) (by simp [MainPos.Ended, hmain]) (by rw [hmain]; rfl)
  | mainDeferred =>
      simp only [stepRunning] at h
      split at h
      · rename_i hmain
        obtain ⟨rfl, rfl⟩ := Prod.mk.inj (Option.some.inj h)
        exact .mainMoves (.inr (.inr rfl)) (by simp [MainPos.Ended, hmain]) (by rw [hmain]; rfl)
      · rename_i hmain
        obtain ⟨rfl, rfl⟩ := Prod.mk.inj (Option.some.inj h)
        exact .mainCloses hmain
      · rename_i hmain
        obtain ⟨rfl, rfl⟩ := Prod.mk.inj (Option.some.inj h)
        exact .mainMoves (.inr (.inr rfl)) (by simp [MainPos.Ended, hmain]) (by rw [hmain]; rfl)
      · rename_i hmain
        obtain ⟨rfl, rfl⟩ := Prod.mk.inj (Option.some.inj h)
        exact .mainMoves (.inr (.inr rfl)) (by simp [MainPos.Ended, hmain]) (by rw [hmain]; rfl)
      · exact absurd h (by simp)
  | readMessage mt message =>
      obtain ⟨hreader, h⟩ := Machine.guard_eq_some_iff.mp h
      obtain ⟨rfl, rfl⟩ := Prod.mk.inj h
      exact .readMessage hreader
  | counted =>
      obtain ⟨hreader, h⟩ := Machine.guard_eq_some_iff.mp h
      obtain ⟨rfl, rfl⟩ := Prod.mk.inj h
      exact .counted hreader
  | readError =>
      obtain ⟨hreader, h⟩ := Machine.guard_eq_some_iff.mp h
      obtain ⟨rfl, rfl⟩ := Prod.mk.inj h
      exact .readError hreader
  | readerDeferred =>
      simp only [stepRunning] at h
      split at h
      · rename_i p hreader
        obtain ⟨rfl, rfl⟩ := Prod.mk.inj (Option.some.inj h)
        exact .readerCloses hreader
      · rename_i p hreader
        obtain ⟨rfl, rfl⟩ := Prod.mk.inj (Option.some.inj h)
        exact .readerMoves hreader
      · rename_i hreader
        obtain ⟨rfl, rfl⟩ := Prod.mk.inj (Option.some.inj h)
        exact .crash hreader
      · exact absurd h (by simp)
  | exit =>
      obtain ⟨-, h⟩ := Machine.guard_eq_some_iff.mp h
      obtain ⟨rfl, rfl⟩ := Prod.mk.inj h
      exact .exit

/-- A message leaves the reader with its call of `close(done)` before it. -/
theorem received_due (ackRto : Bool) (mt : MessageType) (message : Slice UInt8) :
    (received ackRto mt message).due = 1 := by
  unfold received
  split
  · split
    · split <;> rfl
    · rfl
  · rfl

/-- `close(done)` moves no goroutine. -/
@[simp] theorem closeDone_main (s : Bench) : s.closeDone.main = s.main := by
  unfold closeDone
  split <;> rfl

@[simp] theorem closeDone_reader (s : Bench) : s.closeDone.reader = s.reader := by
  unfold closeDone
  split <;> rfl

/-! ## Closes that are still to come -/

/-- The calls of `close(done)` still to be made, if both goroutines return. -/
def due (s : Bench) : ℕ := s.main.due + s.reader.due

/-- The calls made and those still to be made are two, the channel is closed as soon as one has been
made, and the second one ends the process. -/
structure Inv (s : Bench) (l : List BenchEvent) : Prop where
  count : l.count .closeDone + s.due = 2
  closed_iff : s.done.closed = true ↔ s.due ≤ 1
  panics : s.due = 0 → s.panicked = true

theorem Inv.init : (benchmark ackRto).init.Inv [] :=
  ⟨rfl, by simp [benchmark, due, MainPos.due, ReaderPos.due],
    fun h => absurd h (by simp [benchmark, due, MainPos.due])⟩

/-- A step that closes nothing and leaves the calls to come as they are. -/
theorem Inv.quiet (h : s.Inv l) (hdone : t.done = s.done) (hdue : t.due = s.due)
    (hp : s.panicked = true → t.panicked = true) : t.Inv (l ++ []) := by
  rw [List.append_nil]
  refine ⟨?_, ?_, fun ht => hp (h.panics (hdue ▸ ht))⟩
  · rw [hdue]
    exact h.count
  · rw [hdone, hdue]
    exact h.closed_iff

/-- One of the goroutines, which is then at `t`, makes its call of `close(done)`. -/
theorem Inv.closes (h : s.Inv l) (hlive : s.Live) (hdone : t.done = s.done)
    (hdue : t.due + 1 = s.due) : t.closeDone.Inv (l ++ [.closeDone]) := by
  have hsum := h.count
  have hdue' : t.closeDone.due = t.due := by simp [due]
  have hcount : (l ++ [BenchEvent.closeDone]).count .closeDone + t.due = 2 := by
    rw [List.count_append, List.count_singleton_self]
    omega
  have hpos : s.due ≠ 0 := by
    intro hzero
    exact absurd ((h.panics hzero).symm.trans hlive.1) (by simp)
  refine ⟨hdue' ▸ hcount, ?_, ?_⟩ <;> rw [hdue'] <;> unfold closeDone <;> split
  · rename_i ch hch
    obtain ⟨hopen, -, hnow⟩ := Chan.close_eq_some_iff.mp hch
    exact iff_of_true hnow (by omega)
  · rename_i hpanic
    exact iff_of_true (Chan.close_eq_none_iff.mp hpanic) (by omega)
  · rename_i ch hch
    obtain ⟨hopen, -, hnow⟩ := Chan.close_eq_some_iff.mp hch
    -- the channel was open, so this was the first of the two calls
    rw [hdone] at hopen
    have htwo : ¬ s.due ≤ 1 := by
      rw [← h.closed_iff, hopen]
      simp
    intro hzero
    omega
  · exact fun _ => rfl

theorem Inv.step (h : s.Inv l) (hstep : (benchmark ackRto).step s a = some (t, o)) :
    t.Inv (l ++ o) := by
  obtain ⟨hlive, hstep⟩ := step_cases hstep
  cases hstep with
  | tick | exit => exact h.quiet rfl rfl id
  | crash => exact h.quiet rfl rfl (fun _ => rfl)
  | interrupt hmain hx hdue =>
      refine h.quiet rfl ?_ id
      show _ + s.reader.due = s.main.due + s.reader.due
      rw [hdue, hmain]
      rfl
  | mainMoves ha hended hdue => exact h.quiet rfl (congrArg (· + s.reader.due) hdue) id
  | mainCloses hmain =>
      refine h.closes hlive rfl ?_
      show 0 + s.reader.due + 1 = s.main.due + s.reader.due
      rw [hmain, Nat.zero_add, Nat.add_comm]
      rfl
  | readMessage hreader =>
      refine h.quiet rfl ?_ id
      show s.main.due + (received ackRto _ _).due = s.main.due + s.reader.due
      rw [received_due, hreader]
      rfl
  | counted hreader | readError hreader | readerMoves hreader =>
      refine h.quiet rfl ?_ id
      show s.main.due + _ = s.main.due + s.reader.due
      rw [hreader]
      rfl
  | readerCloses hreader =>
      refine h.closes hlive rfl ?_
      show s.main.due + 0 + 1 = s.main.due + s.reader.due
      rw [hreader]
      rfl

/-! ## One of the two goes on -/

/-- The interrupt finds a reader in its loop, and a reader that ends leaves behind a main loop that
has not been interrupted. -/
def OneEnds (ackRto : Bool) (s : Bench) (_ : List BenchEvent) : BenchAction → Prop
  | .interrupt _ => ¬ s.reader.Ended
  | .readMessage mt message => (received ackRto mt message).Ended → ¬ s.main.Ended
  | .readError => ¬ s.main.Ended
  | _ => True

/-- A step that meets the condition leaves one of the two in its loop. -/
theorem not_both_step (h : ¬ (s.main.Ended ∧ s.reader.Ended)) (hone : OneEnds ackRto s l a)
    (hstep : (benchmark ackRto).step s a = some (t, o)) :
    ¬ (t.main.Ended ∧ t.reader.Ended) := by
  cases (step_cases hstep).2 with
  | tick | exit | crash => exact h
  | interrupt => exact fun hboth => hone hboth.2
  | mainMoves ha hended => exact fun hboth => h ⟨hended, hboth.2⟩
  | mainCloses hmain =>
      rw [closeDone_main, closeDone_reader]
      exact fun hboth => h ⟨by simp [MainPos.Ended, hmain], hboth.2⟩
  | readMessage => exact fun hboth => hone hboth.2 hboth.1
  | counted => exact fun hboth => hboth.2.1 rfl
  | readError => exact fun hboth => hone hboth.1
  | readerMoves hreader => exact fun hboth => h ⟨hboth.1, by simp [ReaderPos.Ended, hreader]⟩
  | readerCloses hreader =>
      rw [closeDone_main, closeDone_reader]
      exact fun hboth => h ⟨hboth.1, by simp [ReaderPos.Ended, hreader]⟩

/-- While one of the two is in its loop, the channel has been closed once at most. -/
theorem Inv.count_le_one (h : s.Inv l) (hone : ¬ (s.main.Ended ∧ s.reader.Ended)) :
    l.count .closeDone ≤ 1 := by
  have hsum := h.count
  have hpos : 1 ≤ s.due := by
    by_cases hmain : s.main = .looping
    · simp [due, hmain, MainPos.due]
    · have hreader : ¬ s.reader.Ended := fun hr => hone ⟨hmain, hr⟩
      unfold due
      cases hx : s.reader <;> simp_all [ReaderPos.Ended, ReaderPos.due]
  omega

/-! ## Both return -/

variable (ackRto) in
/-- An interrupted main loop gets past its call of `close(done)`; if the channel was open, the
process goes on. -/
theorem canReach_mainCloses (hlive : s.Live) (hended : s.main.Ended) (hdue : s.main.due = 1) :
    (benchmark ackRto).CanReach s fun t =>
      t.main.due = 0 ∧ t.reader = s.reader ∧ (s.done.closed = false → t.Live) := by
  -- from the last position to the first
  have hclose : ∀ {u : Bench}, u.Live → u.main = .closeDone → (benchmark ackRto).CanReach u fun t =>
      t.main.due = 0 ∧ t.reader = u.reader ∧ (u.done.closed = false → t.Live) := by
    intro u hu hmain
    have hstep : (benchmark ackRto).step u .mainDeferred =
        some (closeDone { u with main := .closeWs }, [.closeDone]) := by
      simp [benchmark, Bench.step, hu, stepRunning, hmain]
    refine .head hstep (.now ⟨by rw [closeDone_main]; rfl, closeDone_reader _, fun hopen => ?_⟩)
    unfold closeDone
    split
    · exact hu
    · rename_i hpanic
      rw [Chan.close_eq_none_iff] at hpanic
      exact absurd (hpanic.symm.trans hopen) (by simp)
  have hstop : ∀ {u : Bench}, u.Live → u.main = .tickerStop → (benchmark ackRto).CanReach u fun t =>
      t.main.due = 0 ∧ t.reader = u.reader ∧ (u.done.closed = false → t.Live) := by
    intro u hu hmain
    have hstep : (benchmark ackRto).step u .mainDeferred =
        some ({ u with main := .closeDone }, []) := by
      simp [benchmark, Bench.step, hu, stepRunning, hmain]
    have hnext := @hclose { u with main := .closeDone } hu rfl
    exact .head hstep hnext
  cases hmain : s.main with
  | looping => exact absurd hmain hended
  | closing =>
      have hstep : (benchmark ackRto).step s .timeout =
          some ({ s with main := .tickerStop }, []) := by
        simp [benchmark, Bench.step, hlive, stepRunning, hmain]
      have hnext := @hstop { s with main := .tickerStop } hlive rfl
      exact .head hstep hnext
  | tickerStop => exact hstop hlive hmain
  | closeDone => exact hclose hlive hmain
  | closeWs | wgDone | returned =>
      rw [hmain] at hdue
      exact absurd hdue (by decide)

variable (ackRto) in
/-- When both goroutines are on their way out and the process runs, `close(done)` can be called a
second time. -/
theorem canReach_second (hi : s.Inv l) (hlive : s.Live) (hmain : s.main.Ended)
    (hreader : s.reader.Ended) : (benchmark ackRto).CanReach s fun t => t.due = 0 := by
  have hdue : s.due ≠ 0 := by
    intro hzero
    exact absurd ((hi.panics hzero).symm.trans hlive.1) (by simp)
  have hle : s.main.due ≤ 1 := by
    cases s.main <;> decide
  -- the reader's call comes last, when the main loop has made its own
  have hlast : ∀ {u : Bench} {p : Bool}, u.Live → u.reader = .closeDone p → u.main.due = 0 →
      (benchmark ackRto).CanReach u fun t => t.due = 0 := by
    intro u p hu hr hm
    have hstep : (benchmark ackRto).step u .readerDeferred =
        some (closeDone { u with reader := .closeWs p }, [.closeDone]) := by
      simp [benchmark, Bench.step, hu, stepRunning, hr]
    refine .head hstep (.now ?_)
    unfold due
    rw [closeDone_main, closeDone_reader]
    exact hm
  cases hx : s.reader with
  | reading => exact absurd hx hreader.1
  | counting => exact absurd hx hreader.2
  | closeDone p =>
      by_cases hm : s.main.due = 0
      · exact hlast hlive hx hm
      · have hopen : s.done.closed = false := by
          rw [← Bool.not_eq_true, hi.closed_iff]
          unfold due
          rw [hx]
          show ¬ s.main.due + 1 ≤ 1
          omega
        refine (canReach_mainCloses ackRto hlive hmain (by omega)).trans ?_
        rintro t ⟨htm, htr, htl⟩
        exact hlast (htl hopen) (htr.trans hx) htm
  | closeWs p | returned p =>
      have hr : s.reader.due = 0 := by rw [hx]; rfl
      have hm : s.main.due = 1 := by
        unfold due at hdue
        omega
      obtain ⟨as, t, k, hexec, htm, htr, -⟩ :=
        canReach_mainCloses ackRto hlive hmain hm
      refine ⟨as, t, k, hexec, ?_⟩
      show t.main.due + t.reader.due = 0
      rw [htm, htr, hr]

end Bench

/-- The server closes the connection, and the load generator is interrupted after that. -/
def closedThenInterrupted : (benchmark true).Run :=
  .ofActs [.readError, .readerDeferred, .interrupt true, .doneClosed, .mainDeferred, .mainDeferred]
    (by decide +kernel)

end Skytime
