/-
# Skytime.Rooms.Invariant — what holds in every reachable state of the server.

`CallsOk` is about the broadcast calls: one of them at most holds the token, and its message has the
newest id. `RoomsOk` is about the rooms: every hub is sound, a connection is listed in the room of
its peer and not before its handler has handed it over, and a connection that has not been handed
over has an open send queue.
-/
import Skytime.Rooms.Steps

namespace Skytime

open Process

/-- Replacing what a hub does not look at for its entries keeps it sound. -/
theorem HubView.Sound.congr {v v' : HubView} (hs : v.Sound)
    (hconn : v'.hub.connections = v.hub.connections)
    (hclosed : ∀ k c, v.hub.connections.lookup k = some c →
      (v'.send c).closed = (v.send c).closed) : v'.Sound := by
  constructor
  · intro k c hk
    rw [hconn] at hk
    exact hs.peer hk
  · intro k c hk
    rw [hconn] at hk
    rw [hclosed k c hk]
    exact hs.entry_open hk

namespace HubRooms

variable {d : Deployment} {s t : HubRooms} {a : RoomsAction} {o : List Event}

/-! ## Calls -/

structure CallsOk (s : HubRooms) : Prop where
  token : Exclusive Call.Holds s.broadcastMu s.calls
  held_id : ∀ {i m}, (s.calls i).held = some m → m.msgId = s.stats.totalMsgCnt

theorem holds_of_held {call : Call} {m : PushMsg} (h : call.held = some m) : call.Holds := by
  simp [Call.Holds, h]

/-- Two calls that hold the token are one. -/
theorem CallsOk.unique (h : s.CallsOk) {i j : ℕ} {m m' : PushMsg}
    (hi : (s.calls i).held = some m) (hj : (s.calls j).held = some m') : i = j :=
  h.token.unique (holds_of_held hi) (holds_of_held hj)

/-- A call goes on with the token and its message. -/
theorem CallsOk.move (h : s.CallsOk) {i : ℕ} {m : PushMsg} {x : Call}
    (hi : (s.calls i).held = some m) (hx : x.held = some m)
    (hcalls : t.calls = Function.update s.calls i x) (hmu : t.broadcastMu = s.broadcastMu)
    (hcnt : t.stats.totalMsgCnt = s.stats.totalMsgCnt) : t.CallsOk := by
  constructor
  · rw [hcalls, hmu]
    exact h.token.move (holds_of_held hi) x
  · intro j m' hj
    rw [hcalls, Function.update_apply] at hj
    rw [hcnt]
    split at hj
    · rw [hx] at hj
      exact Option.some.inj hj ▸ h.held_id hi
    · exact h.held_id hj

/-- A call goes on without the token. -/
theorem CallsOk.idle (h : s.CallsOk) {i : ℕ} {x : Call} (hx : x.held = none)
    (hcalls : t.calls = Function.update s.calls i x)
    (hmu : Exclusive Call.Holds t.broadcastMu t.calls)
    (hcnt : t.stats.totalMsgCnt = s.stats.totalMsgCnt) : t.CallsOk := by
  refine ⟨hmu, fun {j m} hj => ?_⟩
  rw [hcalls, Function.update_apply] at hj
  rw [hcnt]
  split at hj
  · rw [hx] at hj
    exact absurd hj (by simp)
  · exact h.held_id hj

theorem held_begin (m : PushMsg) (order : List String) (req : Request) :
    (req.begin m order).held = some m := by
  cases req <;> rfl

theorem CallsOk.step (hc : s.CallsOk) (h : s.Step d a t o) : t.CallsOk := by
  cases h with
  | life | register | unregister | hub | drain | sendPanic => exact ⟨hc.token, hc.held_id⟩
  | start => exact hc.idle rfl rfl (hc.token.idle (by simp [Call.Holds, Call.held])) rfl
  | @acquire i order req hcall htoken horder =>
      have htok := hc.token
      rw [htoken] at htok
      refine ⟨htok.take i _, fun {j m} hj => ?_⟩
      simp only [setCall, Function.update_apply] at hj
      split at hj
      · rw [held_begin] at hj
        rw [← Option.some.inj hj]
        rfl
      · exact absurd (htok.not_free (holds_of_held hj)) (by simp)
  | push hcall | skipRoom hcall | absent hcall | found hcall | sendPeer hcall =>
      exact hc.move (by rw [hcall]; rfl) rfl rfl rfl rfl
  | @finish i diff m hcall =>
      have hheld : (s.calls i).held = some m := by
        rcases hcall with hcall | hcall <;> rw [hcall] <;> rfl
      exact hc.idle rfl rfl
        (hc.token.give (holds_of_held hheld) (by simp [Call.Holds, Call.held])) rfl

/-! ## Calls that send -/

/-- A `broadcast_peers` call sends, or waits to send, on the queue of `c`. -/
def SendingTo (s : HubRooms) (c : Connection) : Prop :=
  ∃ i m peerIds, s.calls i = .sending m c peerIds

/-- A call that is replaced by one that does not send adds no sender. -/
theorem SendingTo.of_setCall {i : ℕ} {x : Call} {c : Connection}
    (h : (s.setCall i x).SendingTo c) (hx : ∀ m peerIds, x ≠ .sending m c peerIds) :
    s.SendingTo c := by
  obtain ⟨j, m, peerIds, hj⟩ := h
  simp only [setCall, Function.update_apply] at hj
  split at hj
  · exact absurd hj (hx m peerIds)
  · exact ⟨j, m, peerIds, hj⟩

/-- A call that is replaced by one that sends to `c` adds only this sender. -/
theorem SendingTo.of_setCall_sending {i : ℕ} {m : PushMsg} {peerIds : List String}
    {c c' : Connection} (h : (s.setCall i (.sending m c peerIds)).SendingTo c') :
    c' = c ∨ s.SendingTo c' := by
  obtain ⟨j, m', peerIds', hj⟩ := h
  simp only [setCall, Function.update_apply] at hj
  split at hj
  · obtain ⟨_, rfl, _⟩ := Call.sending.inj hj
    exact .inl rfl
  · exact .inr ⟨j, m', peerIds', hj⟩

theorem begin_ne_sending (m m' : PushMsg) (order : List String) (req : Request) (c : Connection)
    (peerIds : List String) : req.begin m order ≠ .sending m' c peerIds := by
  cases req <;> simp [Request.begin]

end HubRooms

/-! ## Connections -/

/-- The hub of its room has taken the connection. -/
def ConnState.Entered (x : ConnState) : Prop :=
  x.handler ≠ .fresh ∧ x.handler ≠ .refused ∧ x.handler ≠ .registering

/-- A reader is started by the handler's last step. -/
def ConnState.ReaderOk (x : ConnState) : Prop := x.reader ≠ .notStarted → x.handler = .finished

theorem ConnState.Step.entered_iff {x x' : ConnState} {a : LifeAction} (h : x.Step a x') :
    x'.Entered ↔ x.Entered := by
  cases h <;> simp [ConnState.Entered, *]

theorem ConnState.Step.readerOk {x x' : ConnState} {a : LifeAction} (h : x.Step a x')
    (hx : x.ReaderOk) : x'.ReaderOk := by
  cases h with
  | refuse hh | accept hh | countUp hh | posted hh | goWriter hh =>
      intro hr
      exact absurd ((hx hr).symm.trans hh) (by simp)
  | goReader => exact fun _ => rfl
  | writerFails | writerEnds => exact hx
  | readerStops hr | countDown hr | postedOff hr => exact fun _ => hx (by rw [hr]; simp)

namespace HubRooms

variable {d : Deployment} {s t : HubRooms} {a : RoomsAction} {o : List Event}

/-! ## Rooms -/

structure RoomsOk (d : Deployment) (s : HubRooms) : Prop where
  sound : ∀ r, (s.view r).Sound
  home : ∀ {r k c}, (s.rooms r).connections.lookup k = some c → d.getRoomId c.peerId = r
  entered : ∀ {r k c}, (s.rooms r).connections.lookup k = some c → (s.conn c).Entered
  fresh_open : ∀ {c}, ¬ (s.conn c).Entered → (s.send c).closed = false
  readerOk : ∀ c, (s.conn c).ReaderOk

/-- A step that changes no entry, no closed flag and no position beyond what `ConnState` allows. -/
theorem RoomsOk.congr (h : s.RoomsOk d)
    (hconn : ∀ r, (t.rooms r).connections = (s.rooms r).connections)
    (hclosed : ∀ c, (t.send c).closed = (s.send c).closed)
    (hentered : ∀ c, (t.conn c).Entered ↔ (s.conn c).Entered)
    (hreader : ∀ c, (t.conn c).ReaderOk) : t.RoomsOk d := by
  constructor
  · exact fun r => (h.sound r).congr (hconn r) (fun k c _ => hclosed c)
  · intro r k c hk
    rw [hconn] at hk
    exact h.home hk
  · intro r k c hk
    rw [hconn] at hk
    exact (hentered c).mpr (h.entered hk)
  · intro c hc
    rw [hclosed]
    exact h.fresh_open (fun he => hc ((hentered c).mpr he))
  · exact hreader

/-- A connection listed in another room is another connection. -/
theorem RoomsOk.ne_of_room (h : s.RoomsOk d) {r : String} {k : String} {c c' : Connection}
    (hk : (s.rooms r).connections.lookup k = some c) (hr : d.getRoomId c'.peerId ≠ r) : c ≠ c' := by
  rintro rfl
  exact hr (h.home hk)

/-- A step of the hub of room `r`, together with a step of one connection of that room. -/
theorem RoomsOk.putView (h : s.RoomsOk d) {r : String} {v : HubView} {conn : Connection → ConnState}
    (hsound : v.Sound)
    (hlisted : ∀ k c, v.hub.connections.lookup k = some c →
      d.getRoomId c.peerId = r ∧ (conn c).Entered)
    (hother : ∀ r' k c, r' ≠ r → (s.rooms r').connections.lookup k = some c →
      (v.send c).closed = (s.send c).closed)
    (hfresh : ∀ c, ¬ (conn c).Entered → (v.send c).closed = (s.send c).closed)
    (hentered : ∀ c, (s.conn c).Entered → (conn c).Entered)
    (hreader : ∀ c, (conn c).ReaderOk) :
    RoomsOk d { s.putView r v with conn := conn } := by
  constructor
  · intro r'
    by_cases hr : r' = r
    · subst hr
      exact hsound.congr (by simp [HubRooms.view, HubRooms.putView]) (fun k c _ => rfl)
    · exact (h.sound r').congr (by simp [HubRooms.view, HubRooms.putView, hr])
        (fun k c hk => hother r' k c hr hk)
  · intro r' k c hk
    simp only [HubRooms.putView, Function.update_apply] at hk
    split at hk
    · rename_i hr
      exact hr ▸ (hlisted k c hk).1
    · exact h.home hk
  · intro r' k c hk
    simp only [HubRooms.putView, Function.update_apply] at hk
    split at hk
    · exact (hlisted k c hk).2
    · exact hentered c (h.entered hk)
  · intro c hc
    simp only [HubRooms.putView]
    rw [hfresh c hc]
    exact h.fresh_open (fun he => hc (hentered c he))
  · exact hreader

theorem RoomsOk.register (h : s.RoomsOk d) {c : Connection} {v : HubView}
    (hreg : (s.conn c).handler = .registering)
    (hv : ((s.view (d.getRoomId c.peerId)).register c).1 = v) :
    RoomsOk d ((s.putView (d.getRoomId c.peerId) v).setConn c
      { s.conn c with handler := .counting }) := by
  subst hv
  have hfresh : ¬ (s.conn c).Entered := fun he => he.2.2 hreg
  refine h.putView ((h.sound _).register (h.fresh_open hfresh)) ?_ (fun _ _ _ _ _ => rfl)
    (fun _ _ => rfl) ?_ ?_
  · intro k c' hk
    simp only [HubView.register, GoMap.lookup_insert] at hk
    split at hk
    · obtain rfl := Option.some.inj hk
      refine ⟨rfl, ?_⟩
      simp [ConnState.Entered]
    · have hne : c' ≠ c := by
        rintro rfl
        exact hfresh (h.entered hk)
      refine ⟨h.home hk, ?_⟩
      rw [Function.update_of_ne hne]
      exact h.entered hk
  · intro c' he
    rw [Function.update_apply]
    split
    · simp [ConnState.Entered]
    · exact he
  · intro c'
    rw [Function.update_apply]
    split
    · intro hr
      exact absurd (hreg.symm.trans (h.readerOk c hr)) (by simp)
    · exact h.readerOk c'

theorem RoomsOk.unregister (h : s.RoomsOk d) {c : Connection} {v : HubView}
    (hreader : (s.conn c).reader = .unregistering)
    (hv : (s.view (d.getRoomId c.peerId)).Unregister c v o) :
    RoomsOk d ((s.putView (d.getRoomId c.peerId) v).setConn c
      { s.conn c with reader := .counting }) := by
  have hfin : (s.conn c).handler = .finished := h.readerOk c (by rw [hreader]; simp)
  have hentered : ∀ c',
      (Function.update s.conn c { s.conn c with reader := .counting } c').Entered ↔
        (s.conn c').Entered := by
    intro c'
    rw [Function.update_apply]
    split
    · rename_i hc
      rw [hc]
      exact Iff.rfl
    · exact Iff.rfl
  refine h.putView ((h.sound _).unregister hv) ?_ ?_ ?_ (fun c' => (hentered c').mpr) ?_
  · intro k c' hk
    obtain ⟨_, hk'⟩ := hv.lookup (h.sound _) hk
    exact ⟨h.home hk', (hentered c').mpr (h.entered hk')⟩
  · intro r' k c' hr hk
    rw [hv.send (h.ne_of_room hk (Ne.symm hr))]
    rfl
  · intro c' hc'
    have hne : c' ≠ c := by
      rintro rfl
      exact hc' ((hentered c').mpr (by simp [ConnState.Entered, hfin]))
    rw [hv.send hne]
    rfl
  · intro c'
    rw [Function.update_apply]
    split
    · exact fun _ => hfin
    · exact h.readerOk c'

theorem RoomsOk.hub (h : s.RoomsOk d) {r : String} {ha : HubAction} {v : HubView}
    (hv : (s.view r).Act ha v o) : RoomsOk d (s.putView r v) := by
  -- the queue of a connection that is not listed in the room stays as it is
  have hsend : ∀ c, (s.rooms r).connections.lookup c.peerId ≠ some c → v.send c = s.send c :=
    fun c hc => (h.sound r).act_send hv hc
  refine h.putView ((h.sound r).act hv) ?_ ?_ ?_ (fun _ he => he) h.readerOk
  · intro k c hk
    exact ⟨h.home (hv.lookup hk), h.entered (hv.lookup hk)⟩
  · intro r' k c hr hk
    rw [hsend c (fun hk' => hr ((h.home hk).symm.trans (h.home hk')))]
  · intro c hc
    rw [hsend c (fun hk => hc (h.entered hk))]

theorem RoomsOk.step (h : s.RoomsOk d) (hstep : s.Step d a t o) : t.RoomsOk d := by
  cases hstep with
  | @life c a x n hx hend =>
      refine h.congr (fun _ => rfl) (fun _ => rfl) (fun c' => ?_) (fun c' => ?_)
      · simp only [Function.update_apply]
        split
        · rename_i hc
          rw [hc]
          exact hx.entered_iff
        · rfl
      · simp only [Function.update_apply]
        split
        · exact hx.readerOk (h.readerOk c)
        · exact h.readerOk c'
  | @register c v hreg hloop hv => exact h.register hreg hv
  | @unregister c v o hreader hloop hv => exact h.unregister hreader hv
  | @hub r a v o hr hv => exact h.hub hv
  | @drain c m ch hrun hbuf hch =>
      exact h.congr (fun _ => rfl) (closed_update hch) (fun _ => Iff.rfl) h.readerOk
  | start | acquire | skipRoom | absent | found | sendPanic | finish =>
      exact h.congr (fun _ => rfl) (fun _ => rfl) (fun _ => Iff.rfl) h.readerOk
  | @push i m r roomIds ch hcall hr hbuf =>
      refine h.congr (fun r' => ?_) (fun _ => rfl) (fun _ => Iff.rfl) h.readerOk
      simp only [setCall, Function.update_apply]
      split
      · rename_i hr'
        rw [hr']
      · rfl
  | @sendPeer i m c peerIds ch hcall hopen hbuf hch =>
      exact h.congr (fun _ => rfl) (closed_update (hch.trans hopen.symm)) (fun _ => Iff.rfl)
        h.readerOk

/-! ## Runs -/

/-- The invariants of the server. -/
structure Inv (d : Deployment) (s : HubRooms) : Prop where
  calls : s.CallsOk
  rooms : s.RoomsOk d

theorem Inv.init (d : Deployment) : (hubRooms d).init.Inv d := by
  refine ⟨⟨.start ?_, ?_⟩, ⟨fun r => ⟨?_, ?_⟩, ?_, ?_, fun _ => rfl, ?_⟩⟩
  · intro i
    simp [Call.Holds, Call.held, hubRooms]
  · intro i m hm
    exact absurd hm (by simp [Call.held, hubRooms])
  · intro k c hk
    exact absurd hk (by simp [view, hubRooms, newHub, Finmap.lookup_empty])
  · intro k c hk
    exact absurd hk (by simp [view, hubRooms, newHub, Finmap.lookup_empty])
  · intro r k c hk
    exact absurd hk (by simp [hubRooms, newHub, Finmap.lookup_empty])
  · intro r k c hk
    exact absurd hk (by simp [hubRooms, newHub, Finmap.lookup_empty])
  · exact fun _ hr => absurd rfl hr

theorem Inv.step (h : s.Inv d) (hstep : s.Step d a t o) : t.Inv d :=
  ⟨h.calls.step hstep, h.rooms.step hstep⟩

/-- The invariant holds in every state that a run reaches. -/
theorem inv_of_exec {as : List RoomsAction} {l : List Event}
    (h : (hubRooms d).exec as = some (s, l)) : s.Inv d := by
  refine Machine.invariant_of_exec (I := fun s _ => s.Inv d) (.init d) ?_ h
  intro s l a t o hi hstep
  exact hi.step (step_cases hstep).2

end HubRooms

/-! ## Connections in the middle of `register` or `unregister` -/

/-- The connection is neither in the middle of `register` nor in the middle of `unregister`. -/
def ConnState.Settled (x : ConnState) : Prop :=
  (x.handler ≠ .registering ∧ x.handler ≠ .counting ∧ x.handler ≠ .posting) ∧
    (x.reader ≠ .unregistering ∧ x.reader ≠ .counting ∧ x.reader ≠ .posting)

instance (x : ConnState) : Decidable x.Settled := inferInstanceAs (Decidable (_ ∧ _))

/-- The connection whose goroutines take the step. -/
def RoomsAction.conn? : RoomsAction → Option Connection
  | .life c _ | .register c | .unregister c => some c
  | _ => none

namespace HubRooms

variable {d : Deployment} {s t : HubRooms} {a : RoomsAction} {o : List Event}

/-- Only the steps of its own goroutines move a connection. -/
theorem Step.conn_of_ne (h : s.Step d a t o) {c : Connection} (hc : a.conn? ≠ some c) :
    t.conn c = s.conn c := by
  cases h with
  | life | register | unregister =>
      have hne : c ≠ _ := fun heq => hc (congrArg some heq.symm)
      exact Function.update_of_ne hne _ _
  | hub | drain | start | acquire | push | skipRoom | absent | found | sendPeer | sendPanic |
    finish => rfl

/-- A connection that no step of a run names does not exist. -/
theorem conn_eq_fresh {as : List RoomsAction} {l : List Event}
    (h : (hubRooms d).exec as = some (s, l)) {c : Connection}
    (hc : c ∉ as.filterMap RoomsAction.conn?) : s.conn c = .fresh := by
  induction as using List.reverseRecOn generalizing s l with
  | nil =>
      obtain ⟨rfl, rfl⟩ := Prod.mk.inj (Option.some.inj h)
      rfl
  | append_singleton as a ih =>
      obtain ⟨u, k, o, hexec, ha, rfl⟩ := (hubRooms d).exec_concat_iff.mp h
      rw [List.filterMap_append, List.mem_append, not_or] at hc
      have ha' : a.conn? ≠ some c := by
        intro heq
        exact hc.2 (List.mem_filterMap.mpr ⟨a, List.mem_singleton_self a, heq⟩)
      rw [(step_cases ha).2.conn_of_ne ha', ih hexec hc.1]

/-- For a run it is enough to look at the connections that its steps name. -/
theorem settled_of_exec {as : List RoomsAction} {l : List Event}
    (h : (hubRooms d).exec as = some (s, l))
    (hc : ∀ c ∈ as.filterMap RoomsAction.conn?, (s.conn c).Settled) (c : Connection) :
    (s.conn c).Settled := by
  by_cases hmem : c ∈ as.filterMap RoomsAction.conn?
  · exact hc c hmem
  · rw [conn_eq_fresh h hmem]
    decide

end HubRooms

end Skytime
