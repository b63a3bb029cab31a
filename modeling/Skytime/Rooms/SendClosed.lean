/-
# Skytime.Rooms.SendClosed — whether `broadcast_peers` sends on a closed queue.

`broadcast_peers` looks a connection up and sends to it later, while the hub may close the queue in
between: on an unregister request, or because a broadcast finds the queue full. Looking up always
gives an open queue, so the queue of a waiting call is open along a run exactly when no hub closes
the queue of a connection that a call is about to send to.
-/
import Skytime.Rooms.Invariant

namespace Skytime

open Process

namespace HubRooms

variable {d : Deployment} {s t : HubRooms} {a : RoomsAction} {o : List Event}

/-- No call of `broadcast_peers` sends, or waits to send, on a closed queue. -/
def SendsOpen (s : HubRooms) (_ : List Event) : Prop :=
  ∀ c, s.SendingTo c → (s.send c).closed = false

/-- The step closes no queue that a call is about to send on: neither by an unregister request that
finds the key of its connection, nor by an attempt that finds a full queue. -/
def ClosesUnused (d : Deployment) (s : HubRooms) (_ : List Event) : RoomsAction → Prop
  | .unregister c =>
    (∃ c', (s.rooms (d.getRoomId c.peerId)).connections.lookup c.peerId = some c') →
      ¬ s.SendingTo c
  | .hub r .attempt =>
    ∀ m k rest c, (s.rooms r).loop = .fanout m (k :: rest) →
      (s.rooms r).connections.lookup k = some c → (s.send c).Full → ¬ s.SendingTo c
  | _ => True

/-! ## Steps -/

theorem SendsOpen.step {l : List Event} (hi : s.Inv d) (hs : s.SendsOpen l)
    (hc : ClosesUnused d s l a) (h : s.Step d a t o) : t.SendsOpen (l ++ o) := by
  intro c hsend
  cases h with
  | life | sendPanic => exact hs c hsend
  | register hreg hloop hv =>
      subst hv
      exact hs c hsend
  | start => exact hs c (hsend.of_setCall (by simp))
  | acquire =>
      exact hs c (SendingTo.of_setCall hsend (fun m ps => begin_ne_sending _ _ _ _ _ _))
  | push | skipRoom | absent | finish => exact hs c (SendingTo.of_setCall hsend (by simp))
  | @drain c' m ch hrun hbuf hch =>
      exact (closed_update hch c).trans (hs c hsend)
  | @found i m p peerIds c' hcall hkey =>
      rcases hsend.of_setCall_sending with rfl | hsend
      · exact (hi.rooms.sound _).entry_open hkey
      · exact hs c hsend
  | @sendPeer i m c' peerIds ch hcall hopen hbuf hch =>
      refine (closed_update (hch.trans hopen.symm) c).trans (hs c ?_)
      exact SendingTo.of_setCall hsend (by simp)
  | @unregister c' v o hreader hloop hv =>
      by_cases hcc : c = c'
      · subst hcc
        cases hv with
        | absent | panic => exact hs c hsend
        | close hkey => exact absurd hsend (hc ⟨_, hkey⟩)
      · exact (congrArg Chan.closed (hv.send hcc)).trans (hs c hsend)
  | @hub r a v o hr hv =>
      cases hv with
      | take | skip | panic | rangeDone | tick => exact hs c hsend
      | put hloop hkey hopen hroom hbuf hch =>
          exact (closed_update (hch.trans hopen.symm) c).trans (hs c hsend)
      | @overflow m k rest c' ch hloop hkey hopen hfull hbuf hch =>
          have hne : c ≠ c' := by
            rintro rfl
            exact hc m k rest c hloop hkey hfull hsend
          exact (congrArg Chan.closed (Function.update_of_ne hne _ _)).trans (hs c hsend)

/-- A step that closes a queue in use leaves a call at a closed queue. -/
theorem not_sendsOpen_of_not_closesUnused {l : List Event} (hs : s.SendsOpen l)
    (hc : ¬ ClosesUnused d s l a) (h : s.Step d a t o) : ¬ t.SendsOpen (l ++ o) := by
  intro ht
  cases h with
  | @unregister c v o hreader hloop hv =>
      simp only [ClosesUnused, not_forall, not_not] at hc
      obtain ⟨⟨c', hkey⟩, hsend⟩ := hc
      have hopen := ht c hsend
      cases hv with
      | absent habs => exact absurd (habs.symm.trans hkey) (by simp)
      | panic _ hclosed => exact absurd (hclosed.symm.trans (hs c hsend)) (by simp)
      | close _ _ _ hch =>
          simp only [setConn, putView, Function.update_self, hch] at hopen
          exact absurd hopen (by simp)
  | @hub r a v o hr hv =>
      cases a with
      | take | rangeDone | tick => exact hc trivial
      | attempt =>
          simp only [ClosesUnused, not_forall, not_not] at hc
          obtain ⟨m, k, rest, c, hloop, hkey, hfull, hsend⟩ := hc
          have hopen : (v.send c).closed = false := ht c hsend
          -- the queue of `c` is open and full, so the attempt closes it
          rcases hv.attempt_listed hloop hkey with hclosed | ⟨hroom, _⟩ | ⟨_, hclosed⟩
          · exact absurd (hclosed.symm.trans (hs c hsend)) (by simp)
          · exact hroom hfull
          · exact absurd (hclosed.symm.trans hopen) (by simp)
  | life | register | drain | start | acquire | push | skipRoom | absent | found | sendPeer
    | sendPanic | finish => exact hc trivial

end HubRooms

/-- **Along a run `broadcast_peers` never sends, or waits to send, on a closed queue exactly when no
hub closes a queue that a call is about to send on.** -/
theorem always_sendsOpen_iff (d : Deployment) (r : (hubRooms d).Run) :
    r.Always HubRooms.SendsOpen ↔ r.EachStep (HubRooms.ClosesUnused d) := by
  refine r.always_iff_eachStep (I := fun s l => s.Inv d ∧ s.SendsOpen l) ⟨.init d, ?_⟩
    (fun s l h => h.2) ?_ ?_
  · rintro c ⟨i, m, peerIds, hcall⟩
    exact absurd hcall (by simp [hubRooms])
  · rintro s l a t o ⟨hi, hs⟩ hc hstep
    have hcases := (HubRooms.step_cases hstep).2
    exact ⟨hi.step hcases, hs.step hi hc hcases⟩
  · rintro s l a t o ⟨_, hs⟩ hc hstep
    exact HubRooms.not_sendsOpen_of_not_closesUnused hs hc (HubRooms.step_cases hstep).2

/-- A call looks a connection up; the peer leaves before the call sends. -/
def leaveBeforeSend : List RoomsAction :=
  connect ⟨1, "p"⟩ ++ [.start 0 (.peers ["p"] []), .acquire 0 [], .lookup 0,
    .life ⟨1, "p"⟩ .readerStops, .unregister ⟨1, "p"⟩]

/-- The call is left at a closed queue, and its send ends the process. -/
theorem leaveBeforeSend_closes :
    ∃ r : (hubRooms oneRoom).Run, r.acts = leaveBeforeSend ∧
      r.last.calls 0 = .sending ⟨1, [], false⟩ ⟨1, "p"⟩ [] ∧
      (r.last.send ⟨1, "p"⟩).closed = true ∧ ¬ r.Always HubRooms.SendsOpen := by
  refine ⟨.ofActs leaveBeforeSend (by decide), rfl, by decide, by decide, fun hall => ?_⟩
  have hopen := hall.last ⟨1, "p"⟩ ⟨0, ⟨1, [], false⟩, [], by decide⟩
  exact absurd hopen (by decide)

end Skytime
