/-
# Skytime.Hub.Solo — one hub's run loop among everything that may happen around it.

The machine `solo` runs one hub. Its environment may hand over register and unregister requests
(every connection object is registered once and unregistered at most once after that, as
`websocketHandler` and the deferred call of `checkPongMessage` do), put messages on `h.broadcast`,
and change the fill level of every send queue: a writer takes messages off (`drain`) and
`broadcast_peers` puts messages on (`direct`). Any number of connections may share a peer id.
-/
import Mathlib.Data.List.Count
import Skytime.Hub.Entries
import Skytime.Process.Machine

namespace Skytime

open Process

/-! ## The machine -/

/-- What has happened to a connection object. -/
inductive Life where
  | fresh
  | registered
  | unregistered
  deriving DecidableEq, Repr

/-- One hub with the lives of the connections. -/
structure Solo where
  view : HubView
  life : Connection → Life

inductive SoloAction where
  | register (c : Connection)
  | unregister (c : Connection)
  | hub (a : HubAction)
  | enqueue (m : PushMsg)
  | drain (c : Connection)
  | direct (c : Connection) (m : PushMsg)
  deriving DecidableEq, Repr

namespace Solo

/-- A running process takes a step. -/
def stepRunning (s : Solo) : SoloAction → Option (Solo × List Event)
  | .register c =>
    if s.life c = .fresh ∧ s.view.hub.loop = .select then
      some (⟨(s.view.register c).1, Function.update s.life c .registered⟩, (s.view.register c).2)
    else none
  | .unregister c =>
    if s.life c = .registered ∧ s.view.hub.loop = .select then
      some (⟨(s.view.unregister c).1, Function.update s.life c .unregistered⟩,
        (s.view.unregister c).2)
    else none
  | .hub a =>
    match s.view.act a with
    | none => none
    | some (v, o) => some ({ s with view := v }, o)
  | .enqueue m =>
    -- a sender waits while the queue is full, and nothing closes `h.broadcast`
    match s.view.hub.broadcast.send m with
    | .sent ch =>
      some ({ s with view := { s.view with hub := { s.view.hub with broadcast := ch } } }, [])
    | _ => none
  | .drain c =>
    match (s.view.send c).recv with
    | .got m ch =>
      some ({ s with view := { s.view with send := Function.update s.view.send c ch } },
        [.drained c m])
    | _ => none
  | .direct c m =>
    -- a send on a closed queue ends the process, so no step follows it
    match (s.view.send c).send m with
    | .sent ch =>
      some ({ s with view := { s.view with send := Function.update s.view.send c ch } },
        [.direct c m])
    | _ => none

/-- A panic ends the process: nothing is enabled after it. -/
def step (s : Solo) (a : SoloAction) : Option (Solo × List Event) :=
  if s.view.panicked then none else s.stepRunning a

end Solo

/-- One hub from its start, with no connection registered. -/
def solo : Machine Solo SoloAction Event where
  init := ⟨⟨newHub, fun _ => Chan.make, false⟩, fun _ => .fresh⟩
  step := Solo.step

/-- Everything one step of `solo` can do. -/
inductive Solo.Step (s : Solo) : SoloAction → Solo → List Event → Prop
  | register {c : Connection} (hlife : s.life c = .fresh) (hloop : s.view.hub.loop = .select) :
      Step s (.register c)
        ⟨(s.view.register c).1, Function.update s.life c .registered⟩ [.registered c]
  | unregister {c : Connection} {v : HubView} {o : List Event}
      (hlife : s.life c = .registered) (hloop : s.view.hub.loop = .select)
      (hv : s.view.Unregister c v o) :
      Step s (.unregister c) ⟨v, Function.update s.life c .unregistered⟩ o
  | hub {a : HubAction} {v : HubView} {o : List Event} (hv : s.view.Act a v o) :
      Step s (.hub a) { s with view := v } o
  | enqueue {m : PushMsg} {ch : Chan PushMsg broadcastCap} :
      Step s (.enqueue m)
        { s with view := { s.view with hub := { s.view.hub with broadcast := ch } } } []
  | drain {c : Connection} {m : PushMsg} {ch : Chan PushMsg sendCap}
      (hbuf : (s.view.send c).buf = m :: ch.buf) (hch : ch.closed = (s.view.send c).closed) :
      Step s (.drain c)
        { s with view := { s.view with send := Function.update s.view.send c ch } } [.drained c m]
  | direct {c : Connection} {m : PushMsg} {ch : Chan PushMsg sendCap}
      (hopen : (s.view.send c).closed = false) (hbuf : ch.buf = (s.view.send c).buf ++ [m])
      (hch : ch.closed = false) :
      Step s (.direct c m)
        { s with view := { s.view with send := Function.update s.view.send c ch } } [.direct c m]

/-- A step starts from a process that has not panicked and is one of the listed ones. -/
theorem Solo.step_cases {s t : Solo} {a : SoloAction} {o : List Event}
    (h : solo.step s a = some (t, o)) : s.view.panicked = false ∧ s.Step a t o := by
  simp only [solo, Solo.step] at h
  split at h
  · exact absurd h (by simp)
  · rename_i hp
    refine ⟨by simpa using hp, ?_⟩
    cases a with
    | register c =>
        obtain ⟨⟨hlife, hloop⟩, h⟩ := Machine.guard_eq_some_iff.mp h
        obtain ⟨rfl, rfl⟩ := Prod.mk.inj h
        exact .register hlife hloop
    | unregister c =>
        obtain ⟨⟨hlife, hloop⟩, h⟩ := Machine.guard_eq_some_iff.mp h
        obtain ⟨rfl, rfl⟩ := Prod.mk.inj h
        exact .unregister hlife hloop (s.view.unregister_cases c)
    | hub a =>
        simp only [Solo.stepRunning] at h
        split at h
        · exact absurd h (by simp)
        · rename_i v o' hact
          obtain ⟨rfl, rfl⟩ := Prod.mk.inj (Option.some.inj h)
          exact .hub (HubView.act_cases hact)
    | enqueue m =>
        simp only [Solo.stepRunning] at h
        split at h
        · obtain ⟨rfl, rfl⟩ := Prod.mk.inj (Option.some.inj h)
          exact .enqueue
        · exact absurd h (by simp)
    | drain c =>
        simp only [Solo.stepRunning] at h
        split at h
        · rename_i m ch hrecv
          obtain ⟨rfl, rfl⟩ := Prod.mk.inj (Option.some.inj h)
          obtain ⟨hbuf, hch⟩ := Chan.recv_eq_got_iff.mp hrecv
          exact .drain hbuf hch
        · exact absurd h (by simp)
    | direct c m =>
        simp only [Solo.stepRunning] at h
        split at h
        · rename_i ch hsend
          obtain ⟨rfl, rfl⟩ := Prod.mk.inj (Option.some.inj h)
          obtain ⟨hopen, _, hbuf, hch⟩ := Chan.send_eq_sent_iff.mp hsend
          exact .direct hopen hbuf hch
        · exact absurd h (by simp)

/-! ## What the events say about the state -/

/-- Events that change what is known about a connection: its registration, its unregistration, and
the closing of its queue. -/
def Event.OfLife : Event → Bool
  | .registered _ | .unregistered _ | .overflow _ _ | .closed _ => true
  | .took _ | .put _ _ | .direct _ _ | .drained _ _ => false

/-- The events shown so far agree with the lives of the connections and with the closed flags of
their queues. -/
structure Solo.Logged (s : Solo) (l : List Event) : Prop where
  registered_iff : ∀ c, .registered c ∈ l ↔ s.life c ≠ .fresh
  unregistered_iff : ∀ c, .unregistered c ∈ l ↔ s.life c = .unregistered
  overflow_closed : ∀ c m, .overflow c m ∈ l → (s.view.send c).closed = true
  closed_count : ∀ c, l.count (.closed c) = if (s.view.send c).closed then 1 else 0

namespace Solo.Logged

variable {s t : Solo} {l o : List Event}

/-- Steps without events of life keep lives and closed flags, so nothing is to be said. -/
theorem quiet (hl : s.Logged l) (hlife : t.life = s.life)
    (hclosed : ∀ c, (t.view.send c).closed = (s.view.send c).closed)
    (ho : ∀ e ∈ o, e.OfLife = false) : t.Logged (l ++ o) := by
  have hno : ∀ e, e.OfLife = true → e ∉ o := by
    intro e he hmem
    rw [ho e hmem] at he
    exact absurd he (by simp)
  constructor
  · intro c
    rw [hlife, ← hl.registered_iff c, List.mem_append, or_iff_left (hno _ rfl)]
  · intro c
    rw [hlife, ← hl.unregistered_iff c, List.mem_append, or_iff_left (hno _ rfl)]
  · intro c m hm
    rw [hclosed]
    exact hl.overflow_closed c m ((List.mem_append.mp hm).resolve_right (hno _ rfl))
  · intro c
    rw [hclosed, List.count_append, hl.closed_count c, List.count_eq_zero.mpr (hno _ rfl),
      Nat.add_zero]

/-- `closed c` is shown by exactly the steps that close an open queue. -/
theorem count_closed {c c' : Connection} {ch : Chan PushMsg sendCap} {e : Event}
    (hl : s.Logged l) (hopen : (s.view.send c).closed = false) (hch : ch.closed = true)
    (he : ∀ d, e ≠ .closed d) :
    (l ++ [e, .closed c]).count (.closed c') =
      if (Function.update s.view.send c ch c').closed then 1 else 0 := by
  rw [List.count_append, hl.closed_count, List.count_cons_of_ne (he c')]
  by_cases hcc : c' = c
  · subst hcc
    simp [hopen, hch]
  · have hne : Event.closed c ≠ .closed c' := fun h => hcc (Event.closed.inj h).symm
    simp [Function.update_of_ne hcc, List.count_cons_of_ne hne]

theorem hub {a : HubAction} {v : HubView} (hl : s.Logged l) (h : s.view.Act a v o) :
    Solo.Logged { s with view := v } (l ++ o) := by
  cases h with
  | take | skip | panic | rangeDone | tick =>
      exact hl.quiet rfl (fun _ => rfl) (by simp [Event.OfLife])
  | @put m k rest c ch hloop hkey hopen hroom hbuf hch =>
      exact hl.quiet rfl (closed_update (hch.trans hopen.symm)) (by simp [Event.OfLife])
  | @overflow m k rest c ch hloop hkey hopen hfull hbuf hch =>
      constructor
      · intro c'
        simp [hl.registered_iff]
      · intro c'
        simp [hl.unregistered_iff]
      · intro c' m' hm
        by_cases hcc : c' = c
        · simp [hcc, hch]
        · simp only [List.mem_append, List.mem_cons, Event.overflow.injEq, hcc, false_and,
            reduceCtorEq, List.not_mem_nil, or_self, or_false] at hm
          simpa [Function.update_of_ne hcc] using hl.overflow_closed c' m' hm
      · intro c'
        exact hl.count_closed hopen hch (by simp)

theorem register {c : Connection} (hl : s.Logged l) (hlife : s.life c = .fresh) :
    Solo.Logged ⟨(s.view.register c).1, Function.update s.life c .registered⟩
      (l ++ [.registered c]) := by
  constructor
  · intro c'
    simp only [List.mem_append, hl.registered_iff, Function.update_apply]
    by_cases hcc : c' = c <;> simp [hcc]
  · intro c'
    simp only [List.mem_append, hl.unregistered_iff, Function.update_apply]
    by_cases hcc : c' = c <;> simp [hcc, hlife]
  · intro c' m hm
    exact hl.overflow_closed c' m (by simpa using hm)
  · intro c'
    rw [List.count_append, hl.closed_count, List.count_eq_zero.mpr (by simp)]
    rfl

theorem unregister {c : Connection} {v : HubView} (hl : s.Logged l)
    (hlife : s.life c = .registered) (h : s.view.Unregister c v o) :
    Solo.Logged ⟨v, Function.update s.life c .unregistered⟩ (l ++ o) := by
  have hreg : ∀ c', .registered c' ∈ l ↔ Function.update s.life c .unregistered c' ≠ .fresh := by
    intro c'
    rw [hl.registered_iff, Function.update_apply]
    split
    · rename_i hcc
      simp [hcc, hlife]
    · rfl
  have hunreg : ∀ c', .unregistered c' ∈ l ++ [Event.unregistered c] ↔
      Function.update s.life c .unregistered c' = .unregistered := by
    intro c'
    rw [List.mem_append, hl.unregistered_iff, Function.update_apply]
    by_cases hcc : c' = c <;> simp [hcc]
  cases h with
  | absent | panic =>
      refine ⟨?_, hunreg, ?_, ?_⟩
      · simpa using hreg
      · simpa using hl.overflow_closed
      · intro c'
        simp [hl.closed_count]
  | @close c' ch hkey hopen hbuf hch =>
      refine ⟨?_, ?_, ?_, fun c' => hl.count_closed hopen hch (by simp)⟩
      · simpa using hreg
      · simpa using hunreg
      · intro c' m hm
        by_cases hcc : c' = c
        · simp [hcc, hch]
        · simpa [Function.update_of_ne hcc] using hl.overflow_closed c' m (by simpa using hm)

end Solo.Logged

/-! ## The invariant of every run -/

/-- What holds in every state of every run of one hub. -/
structure Solo.Inv (s : Solo) (l : List Event) : Prop where
  sound : s.view.Sound
  entry_life : ∀ {k c}, s.view.hub.connections.lookup k = some c → s.life c = .registered
  fresh_open : ∀ {c}, s.life c = .fresh → (s.view.send c).closed = false
  logged : s.Logged l

theorem Solo.Inv.init : solo.init.Inv [] := by
  refine ⟨⟨?_, ?_⟩, ?_, ?_, ⟨?_, ?_, ?_, ?_⟩⟩ <;> intros <;>
    simp_all [solo, newHub, Finmap.lookup_empty]

/-- The queue of a connection that is not registered is not in the map. -/
theorem Solo.Inv.not_listed {s : Solo} {l : List Event} (hi : s.Inv l) {c : Connection}
    (hc : s.life c ≠ .registered) : s.view.hub.connections.lookup c.peerId ≠ some c :=
  fun hk => hc (hi.entry_life hk)

theorem Solo.Inv.step {s t : Solo} {l o : List Event} {a : SoloAction} (hi : s.Inv l)
    (h : s.Step a t o) : t.Inv (l ++ o) := by
  cases h with
  | @register c hlife hloop =>
      refine ⟨hi.sound.register (hi.fresh_open hlife), ?_, ?_, hi.logged.register hlife⟩
      · intro k c' hk
        simp only [HubView.register, GoMap.lookup_insert] at hk
        simp only [Function.update_apply]
        split at hk
        · rw [Option.some.inj hk, if_pos rfl]
        · split
          · rfl
          · exact hi.entry_life hk
      · intro c' hc'
        have hne : c' ≠ c := by
          rintro rfl
          simp at hc'
        simp only [Function.update_of_ne hne] at hc'
        exact hi.fresh_open hc'
  | @unregister c v o hlife hloop hv =>
      refine ⟨hi.sound.unregister hv, ?_, ?_, hi.logged.unregister hlife hv⟩
      · intro k c' hk
        obtain ⟨hne, hk'⟩ := hv.lookup hi.sound hk
        simp only [Function.update_of_ne hne]
        exact hi.entry_life hk'
      · intro c' hc'
        have hne : c' ≠ c := by
          rintro rfl
          simp at hc'
        simp only [Function.update_of_ne hne] at hc'
        rw [hv.send hne]
        exact hi.fresh_open hc'
  | hub hv =>
      refine ⟨hi.sound.act hv, fun hk => hi.entry_life (hv.lookup hk), ?_, hi.logged.hub hv⟩
      intro c hc
      have hlife : s.life c = .fresh := hc
      rw [hi.sound.act_send hv (hi.not_listed (by simp [hlife]))]
      exact hi.fresh_open hlife
  | enqueue =>
      exact ⟨⟨hi.sound.peer, hi.sound.entry_open⟩, hi.entry_life, hi.fresh_open,
        hi.logged.quiet rfl (fun _ => rfl) (by simp)⟩
  | @drain c m ch hbuf hch =>
      have hclosed := closed_update hch
      exact ⟨⟨hi.sound.peer, fun hk => (hclosed _).trans (hi.sound.entry_open hk)⟩, hi.entry_life,
        fun hc => (hclosed _).trans (hi.fresh_open hc),
        hi.logged.quiet rfl hclosed (by simp [Event.OfLife])⟩
  | @direct c m ch hopen hbuf hch =>
      have hclosed := closed_update (hch.trans hopen.symm)
      exact ⟨⟨hi.sound.peer, fun hk => (hclosed _).trans (hi.sound.entry_open hk)⟩, hi.entry_life,
        fun hc => (hclosed _).trans (hi.fresh_open hc),
        hi.logged.quiet rfl hclosed (by simp [Event.OfLife])⟩

end Skytime
