/-
# Skytime.Rooms.Pipeline — the way of a message from a call to a connection.

A room broadcast goes through the queue of a hub and the walk of its loop to the send queues; a
message to peers goes there directly. `Hub.pipeline` lists what a hub has still to finish, oldest
first. What was put on a send queue, less what its writer has taken, is what the queue holds, so
the room broadcasts a connection receives are a prefix of those put on its queue.
-/
import Skytime.Hub.Window
import Skytime.Rooms.Invariant

namespace Skytime

open Process

/-! ## The hub's part -/

/-- The message whose walk is not over. -/
def Loop.current : Loop → List PushMsg
  | .select => []
  | .fanout m _ => [m]

/-- The messages a hub has still to finish, oldest first. -/
def Hub.pipeline (h : Hub) : List PushMsg := h.loop.current ++ h.broadcast.buf

/-- A step of the hub finishes at most the oldest message, and puts no other. -/
theorem HubView.Act.pipeline {v v' : HubView} {a : HubAction} {o : List Event}
    (h : v.Act a v' o) :
    (v'.hub.pipeline <:+ v.hub.pipeline ∧ ∀ c, puts c o = []) ∨
      (v'.hub.pipeline = v.hub.pipeline ∧ ∃ c m rest k, v.hub.pipeline = m :: rest ∧
        v.hub.connections.lookup k = some c ∧ ∀ c', puts c' o = if c = c' then [m] else []) := by
  cases h with
  | take hloop hbuf =>
      refine .inl ⟨?_, fun c => rfl⟩
      simp only [Hub.pipeline, hloop, hbuf, Loop.current, List.nil_append, List.singleton_append]
      exact List.suffix_refl _
  | skip hloop =>
      refine .inl ⟨?_, fun c => rfl⟩
      simp only [Hub.pipeline, hloop, Loop.current]
      exact List.suffix_refl _
  | panic hloop | overflow hloop =>
      refine .inl ⟨?_, fun c => rfl⟩
      simp only [Hub.pipeline, hloop, Loop.current]
      exact List.suffix_refl _
  | @put m k rest c ch hloop hkey =>
      refine .inr ⟨?_, c, m, v.hub.broadcast.buf, k, ?_, hkey, fun c' => ?_⟩
      · simp only [Hub.pipeline, hloop, Loop.current]
      · simp only [Hub.pipeline, hloop, Loop.current, List.singleton_append]
      · simp only [puts, List.filterMap_cons, List.filterMap_nil]
        split <;> simp_all
  | rangeDone hloop =>
      refine .inl ⟨?_, fun c => rfl⟩
      simp only [Hub.pipeline, hloop, Loop.current, List.nil_append]
      exact List.suffix_append _ _
  | tick => exact .inl ⟨List.suffix_refl _, fun c => rfl⟩

/-! ## The queue's part -/

/-- The messages put on the queue of `c`, by a hub or by `broadcast_peers`, in order. -/
def placed (c : Connection) (l : List Event) : List PushMsg :=
  l.filterMap fun
    | .put c' m | .direct c' m => if c' = c then some m else none
    | _ => none

/-- The messages the writer of `c` has taken, in order. -/
def drained (c : Connection) (l : List Event) : List PushMsg :=
  l.filterMap fun
    | .drained c' m => if c' = c then some m else none
    | _ => none

/-- The room broadcasts that the writer of `c` has taken, in order. -/
def received (c : Connection) (l : List Event) : List PushMsg :=
  (drained c l).filter (·.isBrAll)

@[simp] theorem placed_append (c : Connection) (l o : List Event) :
    placed c (l ++ o) = placed c l ++ placed c o := List.filterMap_append

@[simp] theorem drained_append (c : Connection) (l o : List Event) :
    drained c (l ++ o) = drained c l ++ drained c o := List.filterMap_append

/-- Hubs put room broadcasts and `broadcast_peers` puts other messages. -/
def Event.KindOk : Event → Prop
  | .put _ m => m.isBrAll = true
  | .direct _ m => m.isBrAll = false
  | _ => True

/-- The room broadcasts among the placed messages are those a hub has put. -/
theorem filter_placed {c : Connection} {l : List Event} (h : ∀ e ∈ l, e.KindOk) :
    (placed c l).filter (·.isBrAll) = puts c l := by
  induction l with
  | nil => rfl
  | cons e l ih =>
      obtain ⟨he, hl⟩ := List.forall_mem_cons.mp h
      have ih := ih hl
      cases e with
      | put c' m =>
          simp only [Event.KindOk] at he
          simp only [placed, puts, List.filterMap_cons] at ih ⊢
          split <;> simp_all
      | direct c' m =>
          simp only [Event.KindOk] at he
          simp only [placed, puts, List.filterMap_cons] at ih ⊢
          split <;> simp_all
      | registered | unregistered | took | overflow | closed | drained =>
          simpa only [placed, puts, List.filterMap_cons] using ih

/-- What a step of the hub places on a queue is what the queue gains. -/
theorem HubView.Act.send_buf {v v' : HubView} {a : HubAction} {o : List Event}
    (h : v.Act a v' o) (c : Connection) :
    (v'.send c).buf = (v.send c).buf ++ placed c o ∧ drained c o = [] := by
  cases h with
  | take | skip | panic | rangeDone | tick => simp [placed, drained]
  | @put m k rest c' ch hloop hkey hopen hroom hbuf hch =>
      refine ⟨?_, rfl⟩
      by_cases hc : c = c'
      · subst hc
        simp [placed, hbuf]
      · simp [placed, Function.update_of_ne hc, Ne.symm hc]
  | @overflow m k rest c' ch hloop hkey hopen hfull hbuf hch =>
      refine ⟨?_, rfl⟩
      by_cases hc : c = c'
      · subst hc
        simp [placed, hbuf]
      · simp [placed, Function.update_of_ne hc]

theorem HubView.Unregister.send_buf {v v' : HubView} {c' : Connection} {o : List Event}
    (h : v.Unregister c' v' o) (c : Connection) :
    (v'.send c).buf = (v.send c).buf ∧ placed c o = [] ∧ drained c o = [] := by
  cases h with
  | absent | panic => exact ⟨rfl, rfl, rfl⟩
  | close hkey hopen hbuf hch =>
      refine ⟨?_, rfl, rfl⟩
      by_cases hc : c = c'
      · subst hc
        simp [hbuf]
      · simp [Function.update_of_ne hc]

/-! ## First in, first out -/

namespace HubRooms

variable {d : Deployment} {s t : HubRooms} {a : RoomsAction} {l o : List Event}

/-- What was placed on a queue is what its writer has taken and what it still holds. -/
def Fifo (s : HubRooms) (l : List Event) : Prop :=
  ∀ c, placed c l = drained c l ++ (s.send c).buf

theorem Fifo.quiet (h : s.Fifo l) (hsend : ∀ c, (t.send c).buf = (s.send c).buf)
    (hp : ∀ c, placed c o = []) (hd : ∀ c, drained c o = []) : t.Fifo (l ++ o) := by
  intro c
  rw [placed_append, drained_append, hp, hd, List.append_nil, List.append_nil, hsend]
  exact h c

theorem Fifo.step (h : s.Fifo l) (hstep : s.Step d a t o) : t.Fifo (l ++ o) := by
  cases hstep with
  | life | start | acquire | push | skipRoom | absent | found | sendPanic | finish =>
      exact h.quiet (fun _ => rfl) (fun _ => rfl) (fun _ => rfl)
  | register hreg hloop hv =>
      subst hv
      exact h.quiet (fun _ => rfl) (fun _ => rfl) (fun _ => rfl)
  | unregister hreader hloop hv =>
      exact h.quiet (fun c => (hv.send_buf c).1) (fun c => (hv.send_buf c).2.1)
        (fun c => (hv.send_buf c).2.2)
  | hub hr hv =>
      intro c
      obtain ⟨hbuf, hdrained⟩ := hv.send_buf c
      rw [placed_append, drained_append, hdrained, List.append_nil, h c]
      simp only [putView, hbuf, List.append_assoc]
      rfl
  | @drain c' m ch hrun hbuf hch =>
      intro c
      have hc := h c
      by_cases hcc : c = c'
      · subst hcc
        rw [hbuf] at hc
        simpa [placed, drained] using hc
      · simpa [placed, drained, Function.update_of_ne hcc, Ne.symm hcc] using hc
  | @sendPeer i m c' peerIds ch hcall hopen hbuf hch =>
      intro c
      have hc := h c
      by_cases hcc : c = c'
      · subst hcc
        rw [placed_append, hc]
        simp [placed, drained, setCall, hbuf]
      · simpa [placed, drained, setCall, Function.update_of_ne hcc, Ne.symm hcc] using hc

/-! ## Room broadcasts and messages to peers -/

end HubRooms

/-- Calls to rooms carry room broadcasts, and calls to peers carry other messages. -/
def Call.KindOk : Call → Prop
  | .pushing m _ => m.isBrAll = true
  | .looking m _ | .sending m _ _ => m.isBrAll = false
  | _ => True

theorem HubView.Act.kindOk {v v' : HubView} {a : HubAction} {o : List Event} (h : v.Act a v' o)
    (hv : ∀ m ∈ v.hub.pipeline, m.isBrAll = true) :
    (∀ m ∈ v'.hub.pipeline, m.isBrAll = true) ∧ ∀ e ∈ o, e.KindOk := by
  refine ⟨?_, ?_⟩
  · rcases h.pipeline with ⟨hsuffix, _⟩ | ⟨heq, _⟩
    · exact fun m hm => hv m (hsuffix.subset hm)
    · rwa [heq]
  · cases h with
    | take | skip | panic | rangeDone | tick => simp [Event.KindOk]
    | put hloop =>
        simp only [List.mem_singleton, forall_eq, Event.KindOk]
        exact hv _ (by simp [Hub.pipeline, hloop, Loop.current])
    | overflow => simp [Event.KindOk]

theorem HubView.Unregister.kindOk {v v' : HubView} {c : Connection} {o : List Event}
    (h : v.Unregister c v' o) : v'.hub.pipeline = v.hub.pipeline ∧ ∀ e ∈ o, e.KindOk := by
  cases h <;> exact ⟨rfl, by simp [Event.KindOk]⟩

namespace HubRooms

variable {d : Deployment} {s t : HubRooms} {a : RoomsAction} {l o : List Event}

structure KindOk (s : HubRooms) (l : List Event) : Prop where
  events : ∀ e ∈ l, e.KindOk
  rooms : ∀ r, ∀ m ∈ (s.rooms r).pipeline, m.isBrAll = true
  calls : ∀ i, (s.calls i).KindOk

/-- The kind of a call whose position is known. -/
theorem KindOk.of_call (h : s.KindOk l) {i : ℕ} {x : Call} (hcall : s.calls i = x) : x.KindOk :=
  hcall ▸ h.calls i

/-- Changing one call keeps the kinds, if the new position of the call has its kind. -/
theorem KindOk.setCall (h : s.KindOk l) {i : ℕ} {x : Call} (hx : x.KindOk)
    (hcalls : t.calls = Function.update s.calls i x)
    (hrooms : ∀ r, ∀ m ∈ (t.rooms r).pipeline, m.isBrAll = true) (ho : ∀ e ∈ o, e.KindOk) :
    t.KindOk (l ++ o) := by
  refine ⟨?_, hrooms, fun j => ?_⟩
  · intro e he
    rcases List.mem_append.mp he with he | he
    · exact h.events e he
    · exact ho e he
  · rw [hcalls, Function.update_apply]
    split
    · exact hx
    · exact h.calls j

theorem KindOk.putView (h : s.KindOk l) {r : String} {v : HubView}
    (hv : ∀ m ∈ v.hub.pipeline, m.isBrAll = true) (ho : ∀ e ∈ o, e.KindOk)
    (hrooms : t.rooms = Function.update s.rooms r v.hub) (hcalls : t.calls = s.calls) :
    t.KindOk (l ++ o) := by
  refine ⟨?_, fun r' => ?_, fun j => by rw [hcalls]; exact h.calls j⟩
  · intro e he
    rcases List.mem_append.mp he with he | he
    · exact h.events e he
    · exact ho e he
  · rw [hrooms, Function.update_apply]
    split
    · exact hv
    · exact h.rooms r'

theorem KindOk.step (h : s.KindOk l) (hstep : s.Step d a t o) : t.KindOk (l ++ o) := by
  cases hstep with
  | life | sendPanic =>
      rw [List.append_nil]
      exact ⟨h.events, h.rooms, h.calls⟩
  | register hreg hloop hv =>
      subst hv
      exact h.putView (h.rooms _) (by simp [Event.KindOk]) rfl rfl
  | unregister hreader hloop hv =>
      exact h.putView (hv.kindOk.1 ▸ h.rooms _) hv.kindOk.2 rfl rfl
  | hub hr hv =>
      obtain ⟨hpipe, ho⟩ := hv.kindOk (h.rooms _)
      exact h.putView hpipe ho rfl rfl
  | drain =>
      refine ⟨?_, h.rooms, h.calls⟩
      intro e he
      rcases List.mem_append.mp he with he | he
      · exact h.events e he
      · rw [List.mem_singleton.mp he]
        trivial
  | start => exact h.setCall (by trivial) rfl h.rooms (by simp)
  | @acquire i order req hcall =>
      refine h.setCall ?_ rfl h.rooms (by simp)
      cases req <;> rfl
  | @push i m r roomIds ch hcall hr hbuf =>
      have hm : m.isBrAll = true := h.of_call hcall
      refine h.setCall (by exact hm) rfl (fun r' => ?_) (by simp)
      simp only [HubRooms.setCall, Function.update_apply]
      split
      · intro m' hm'
        simp only [Hub.pipeline, hbuf, ← List.append_assoc] at hm'
        rcases List.mem_append.mp hm' with hm' | hm'
        · exact h.rooms r m' hm'
        · rwa [List.mem_singleton.mp hm']
      · exact h.rooms r'
  | skipRoom hcall | absent hcall | found hcall =>
      have hm := h.of_call hcall
      exact h.setCall (by exact hm) rfl h.rooms (by simp)
  | sendPeer hcall =>
      have hm := h.of_call hcall
      exact h.setCall (by exact hm) rfl h.rooms (by simpa [Event.KindOk, Call.KindOk] using hm)
  | finish => exact h.setCall (by trivial) rfl h.rooms (by simp)

end HubRooms

end Skytime
