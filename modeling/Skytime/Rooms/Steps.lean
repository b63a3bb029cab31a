/-
# Skytime.Rooms.Steps — everything one step of the server can do.

`HubRooms.Step` lists the outcomes of a step with their guards. The steps of the hubs are given by
the relations of `Skytime.Hub.Loop` on the view of one room, so what is known of one hub's loop
carries over to the rooms.
-/
import Skytime.Rooms.State

namespace Skytime

open Process

/-- What a step of a goroutine of a connection does to its position. -/
inductive ConnState.Step (x : ConnState) : LifeAction → ConnState → Prop
  | refuse (hx : x.handler = .fresh) : Step x .accept { x with handler := .refused }
  | accept (hx : x.handler = .fresh) : Step x .accept { x with handler := .registering }
  | countUp (hx : x.handler = .counting) : Step x .countUp { x with handler := .posting }
  | posted (hx : x.handler = .posting) : Step x .posted { x with handler := .goWriter }
  | goWriter (hx : x.handler = .goWriter) :
      Step x .goWriter { x with handler := .goReader, writer := .running }
  | goReader (hx : x.handler = .goReader) :
      Step x .goReader { x with handler := .finished, reader := .reading }
  | writerFails (hx : x.writer = .running) : Step x .writerFails { x with writer := .returned }
  | writerEnds (hx : x.writer = .running) : Step x .writerEnds { x with writer := .returned }
  | readerStops (hx : x.reader = .reading) :
      Step x .readerStops { x with reader := .unregistering }
  | countDown (hx : x.reader = .counting) : Step x .countDown { x with reader := .posting }
  | postedOff (hx : x.reader = .posting) : Step x .postedOff { x with reader := .returned }

/-- Everything one step of the server can do. -/
inductive HubRooms.Step (d : Deployment) (s : HubRooms) :
    RoomsAction → HubRooms → List Event → Prop
  | life {c : Connection} {a : LifeAction} {x : ConnState} {n : ℤ} (hx : (s.conn c).Step a x)
      (hend : a = .writerEnds → (s.send c).buf = []) :
      Step d s (.life c a)
        { s with
          conn := Function.update s.conn c x
          stats := { s.stats with totalPeerCnt := n } } []
  | register {c : Connection} {v : HubView} (hreg : (s.conn c).handler = .registering)
      (hloop : (s.rooms (d.getRoomId c.peerId)).loop = .select)
      (hv : ((s.view (d.getRoomId c.peerId)).register c).1 = v) :
      Step d s (.register c)
        ((s.putView (d.getRoomId c.peerId) v).setConn c { s.conn c with handler := .counting })
        [.registered c]
  | unregister {c : Connection} {v : HubView} {o : List Event}
      (hreader : (s.conn c).reader = .unregistering)
      (hloop : (s.rooms (d.getRoomId c.peerId)).loop = .select)
      (hv : (s.view (d.getRoomId c.peerId)).Unregister c v o) :
      Step d s (.unregister c)
        ((s.putView (d.getRoomId c.peerId) v).setConn c { s.conn c with reader := .counting }) o
  | hub {r : String} {a : HubAction} {v : HubView} {o : List Event} (hr : r ∈ d.roomsIds)
      (hv : (s.view r).Act a v o) : Step d s (.hub r a) (s.putView r v) o
  | drain {c : Connection} {m : PushMsg} {ch : Chan PushMsg sendCap}
      (hrun : (s.conn c).writer = .running) (hbuf : (s.send c).buf = m :: ch.buf)
      (hch : ch.closed = (s.send c).closed) :
      Step d s (.drain c) { s with send := Function.update s.send c ch } [.drained c m]
  | start {i : ℕ} {req : Request} (hcall : s.calls i = .idle) :
      Step d s (.start i req) (s.setCall i (.waiting req)) []
  | acquire {i : ℕ} {order : List String} {req : Request} (hcall : s.calls i = .waiting req)
      (htoken : s.broadcastMu = true) (horder : req.VisitOrder d order) :
      Step d s (.acquire i order)
        ({ s with
          broadcastMu := false
          stats := { s.stats with totalMsgCnt := s.stats.totalMsgCnt + 1 }
          msgStats := s.msgStats.insert (s.stats.totalMsgCnt + 1) ⟨0, 0⟩ }.setCall i
            (req.begin (s.nextMsg req) order)) []
  | push {i : ℕ} {m : PushMsg} {r : String} {roomIds : List String}
      {ch : Chan PushMsg broadcastCap} (hcall : s.calls i = .pushing m (r :: roomIds))
      (hr : r ∈ d.roomsIds) (hbuf : ch.buf = (s.rooms r).broadcast.buf ++ [m]) :
      Step d s (.push i)
        ({ s with rooms := Function.update s.rooms r { s.rooms r with broadcast := ch } }.setCall i
          (.pushing m roomIds)) []
  | skipRoom {i : ℕ} {m : PushMsg} {r : String} {roomIds : List String}
      (hcall : s.calls i = .pushing m (r :: roomIds)) (hr : r ∉ d.roomsIds) :
      Step d s (.push i) (s.setCall i (.pushing m roomIds)) []
  | absent {i : ℕ} {m : PushMsg} {p : String} {peerIds : List String}
      (hcall : s.calls i = .looking m (p :: peerIds))
      (hkey : (s.rooms (d.getRoomId p)).connections.lookup p = none) :
      Step d s (.lookup i) (s.setCall i (.looking m peerIds)) []
  | found {i : ℕ} {m : PushMsg} {p : String} {peerIds : List String} {c : Connection}
      (hcall : s.calls i = .looking m (p :: peerIds))
      (hkey : (s.rooms (d.getRoomId p)).connections.lookup p = some c) :
      Step d s (.lookup i) (s.setCall i (.sending m c peerIds)) []
  | sendPeer {i : ℕ} {m : PushMsg} {c : Connection} {peerIds : List String}
      {ch : Chan PushMsg sendCap} (hcall : s.calls i = .sending m c peerIds)
      (hopen : (s.send c).closed = false) (hbuf : ch.buf = (s.send c).buf ++ [m])
      (hch : ch.closed = false) :
      Step d s (.sendPeer i)
        ({ s with send := Function.update s.send c ch }.setCall i (.looking m peerIds))
        [.direct c m]
  | sendPanic {i : ℕ} {m : PushMsg} {c : Connection} {peerIds : List String}
      (hcall : s.calls i = .sending m c peerIds) (hclosed : (s.send c).closed = true) :
      Step d s (.sendPeer i) { s with panicked := true } []
  | finish {i diff : ℕ} {m : PushMsg}
      (hcall : s.calls i = .pushing m [] ∨ s.calls i = .looking m []) :
      Step d s (.finish i diff)
        ({ s with
          broadcastMu := true
          stats := { s.stats with
            totalMsgSize := s.stats.totalMsgSize + m.msgBody.length
            totalConsumeTime := s.stats.totalConsumeTime + diff } }.setCall i .idle) []

namespace HubRooms

variable {d : Deployment} {s t : HubRooms}

theorem putView_rooms (s : HubRooms) (r : String) (v : HubView) (r' : String) :
    (s.putView r v).rooms r' = if r' = r then v.hub else s.rooms r' :=
  Function.update_apply _ _ _ _

theorem step_of_running {a : RoomsAction} (h : s.panicked = false) :
    (hubRooms d).step s a = s.stepRunning d a := by
  simp [hubRooms, step, h]

theorem lifeStep_cases {c : Connection} {a : LifeAction} (h : s.lifeStep d c a = some t) :
    s.Step d (.life c a) t [] := by
  have hself : ∀ {x}, (s.conn c).Step a x → (a = .writerEnds → (s.send c).buf = []) →
      s.Step d (.life c a) (s.setConn c x) [] := fun hx hend => .life hx hend
  cases a with
  | accept =>
      obtain ⟨hx, h⟩ := Option.ite_none_right_eq_some.mp h
      split at h
      · obtain rfl := Option.some.inj h
        exact hself (.refuse hx) (by simp)
      · obtain rfl := Option.some.inj h
        exact hself (.accept hx) (by simp)
  | countUp =>
      obtain ⟨hx, rfl⟩ := Machine.guard_eq_some_iff.mp h
      exact .life (.countUp hx) (by simp)
  | posted =>
      obtain ⟨hx, rfl⟩ := Machine.guard_eq_some_iff.mp h
      exact hself (.posted hx) (by simp)
  | goWriter =>
      obtain ⟨hx, rfl⟩ := Machine.guard_eq_some_iff.mp h
      exact hself (.goWriter hx) (by simp)
  | goReader =>
      obtain ⟨hx, rfl⟩ := Machine.guard_eq_some_iff.mp h
      exact hself (.goReader hx) (by simp)
  | writerFails =>
      obtain ⟨hx, rfl⟩ := Machine.guard_eq_some_iff.mp h
      exact hself (.writerFails hx) (by simp)
  | writerEnds =>
      simp only [lifeStep] at h
      split at h
      · rename_i hx hrecv
        obtain rfl := Option.some.inj h
        exact hself (.writerEnds hx) (fun _ => (Chan.recv_eq_eof_iff.mp hrecv).1)
      · exact absurd h (by simp)
  | readerStops =>
      obtain ⟨hx, rfl⟩ := Machine.guard_eq_some_iff.mp h
      exact hself (.readerStops hx) (by simp)
  | countDown =>
      obtain ⟨hx, rfl⟩ := Machine.guard_eq_some_iff.mp h
      exact .life (.countDown hx) (by simp)
  | postedOff =>
      obtain ⟨hx, rfl⟩ := Machine.guard_eq_some_iff.mp h
      exact hself (.postedOff hx) (by simp)

theorem acquire_cases {i : ℕ} {order : List String} (h : s.acquire d i order = some t) :
    s.Step d (.acquire i order) t [] := by
  unfold acquire at h
  split at h
  · rename_i req hcall
    obtain ⟨⟨htoken, horder⟩, rfl⟩ := Machine.guard_eq_some_iff.mp h
    exact .acquire hcall htoken horder
  · exact absurd h (by simp)

theorem push_cases {i : ℕ} (h : s.push d i = some t) : s.Step d (.push i) t [] := by
  unfold push at h
  split at h
  · rename_i m r roomIds hcall
    split at h
    · rename_i hr
      split at h
      · rename_i ch hsend
        obtain rfl := Option.some.inj h
        exact .push hcall hr (Chan.send_eq_sent_iff.mp hsend).2.2.1
      · exact absurd h (by simp)
    · rename_i hr
      obtain rfl := Option.some.inj h
      exact .skipRoom hcall hr
  · exact absurd h (by simp)

theorem lookup_cases {i : ℕ} (h : s.lookup d i = some t) : s.Step d (.lookup i) t [] := by
  unfold lookup at h
  split at h
  · rename_i m p peerIds hcall
    split at h
    · rename_i hkey
      obtain rfl := Option.some.inj h
      exact .absent hcall hkey
    · rename_i c hkey
      obtain rfl := Option.some.inj h
      exact .found hcall hkey
  · exact absurd h (by simp)

theorem sendPeer_cases {i : ℕ} {o : List Event} (h : s.sendPeer i = some (t, o)) :
    s.Step d (.sendPeer i) t o := by
  unfold sendPeer at h
  split at h
  · rename_i m c peerIds hcall
    split at h
    · rename_i hsend
      obtain ⟨rfl, rfl⟩ := Prod.mk.inj (Option.some.inj h)
      exact .sendPanic hcall (Chan.send_eq_panic_iff.mp hsend)
    · exact absurd h (by simp)
    · rename_i ch hsend
      obtain ⟨rfl, rfl⟩ := Prod.mk.inj (Option.some.inj h)
      obtain ⟨hopen, _, hbuf, hch⟩ := Chan.send_eq_sent_iff.mp hsend
      exact .sendPeer hcall hopen hbuf hch
  · exact absurd h (by simp)

theorem finish_cases {i diff : ℕ} (h : s.finish i diff = some t) :
    s.Step d (.finish i diff) t [] := by
  unfold finish at h
  split at h
  · rename_i m hcall
    obtain rfl := Option.some.inj h
    exact .finish (.inl hcall)
  · rename_i m hcall
    obtain rfl := Option.some.inj h
    exact .finish (.inr hcall)
  · exact absurd h (by simp)

/-- A step starts from a process that has not panicked and is one of the listed ones. -/
theorem step_cases {a : RoomsAction} {o : List Event}
    (h : (hubRooms d).step s a = some (t, o)) : s.panicked = false ∧ s.Step d a t o := by
  simp only [hubRooms, step] at h
  split at h
  · exact absurd h (by simp)
  · rename_i hp
    refine ⟨by simpa using hp, ?_⟩
    cases a with
    | life c a =>
        obtain ⟨ht, rfl⟩ := Machine.silent_eq_some_iff.mp h
        exact lifeStep_cases ht
    | register c =>
        obtain ⟨⟨hreg, hloop⟩, h⟩ := Machine.guard_eq_some_iff.mp h
        obtain ⟨rfl, rfl⟩ := Prod.mk.inj h
        exact .register hreg hloop rfl
    | unregister c =>
        obtain ⟨⟨hreader, hloop⟩, h⟩ := Machine.guard_eq_some_iff.mp h
        obtain ⟨rfl, rfl⟩ := Prod.mk.inj h
        exact .unregister hreader hloop (HubView.unregister_cases _ c)
    | hub r a =>
        obtain ⟨hr, h⟩ := Option.ite_none_right_eq_some.mp h
        split at h
        · exact absurd h (by simp)
        · rename_i v o' hact
          obtain ⟨rfl, rfl⟩ := Prod.mk.inj (Option.some.inj h)
          exact .hub hr (HubView.act_cases hact)
    | drain c =>
        simp only [stepRunning] at h
        split at h
        · rename_i m ch hrun hrecv
          obtain ⟨rfl, rfl⟩ := Prod.mk.inj (Option.some.inj h)
          obtain ⟨hbuf, hch⟩ := Chan.recv_eq_got_iff.mp hrecv
          exact .drain hrun hbuf hch
        · exact absurd h (by simp)
    | start i req =>
        obtain ⟨hcall, h⟩ := Machine.guard_eq_some_iff.mp h
        obtain ⟨rfl, rfl⟩ := Prod.mk.inj h
        exact .start hcall
    | acquire i order =>
        obtain ⟨ht, rfl⟩ := Machine.silent_eq_some_iff.mp h
        exact acquire_cases ht
    | push i =>
        obtain ⟨ht, rfl⟩ := Machine.silent_eq_some_iff.mp h
        exact push_cases ht
    | lookup i =>
        obtain ⟨ht, rfl⟩ := Machine.silent_eq_some_iff.mp h
        exact lookup_cases ht
    | sendPeer i => exact sendPeer_cases h
    | finish i diff =>
        obtain ⟨ht, rfl⟩ := Machine.silent_eq_some_iff.mp h
        exact finish_cases ht

end HubRooms

end Skytime
