/-
# Skytime.Rooms.Overtaking — when a message to peers gets ahead of a room broadcast.

A room broadcast waits in the queue of a hub and for its rate limit, a message to peers does not, so
it can be placed on a send queue before a room broadcast with a smaller id. That happens only to a
broadcast that is in flight at that moment: still queued at the hub of the connection's room, or
being fanned out with the connection not yet visited. A broadcast that is no longer in flight has
passed the connection for good (`Passed`), because no call pushes it again.
-/
import Skytime.Rooms.Invariant

namespace Skytime

open Process

/-! ## In flight -/

/-- The message is queued at the hub, or its walk has still to visit the peer. -/
def Hub.Carries (h : Hub) (peerId : String) (m : PushMsg) : Prop :=
  m ∈ h.broadcast.buf ∨ ∃ rest, h.loop = .fanout m rest ∧ peerId ∈ rest

/-- A step of the hub makes it carry no message it does not carry, and puts none for that peer. -/
theorem HubView.Act.not_carries {v v' : HubView} {a : HubAction} {o : List Event}
    (h : v.Act a v' o) (hs : v.Sound) {peerId : String} {m : PushMsg}
    (hnot : ¬ v.hub.Carries peerId m) :
    ¬ v'.hub.Carries peerId m ∧ ∀ c, .put c m ∈ o → c.peerId ≠ peerId := by
  obtain ⟨hqueue, hwalk⟩ := not_or.mp hnot
  have hwalk : ∀ rest, v.hub.loop = .fanout m rest → peerId ∉ rest :=
    fun rest hl hmem => hwalk ⟨rest, hl, hmem⟩
  cases h with
  | @take order m' ch hloop hbuf =>
      rw [hbuf, List.mem_cons, not_or] at hqueue
      refine ⟨?_, by simp⟩
      rintro (hmem | ⟨rest, hl, _⟩)
      · exact hqueue.2 hmem
      · exact hqueue.1 (Loop.fanout.inj hl).1.symm
  | skip hloop | panic hloop | overflow hloop =>
      refine ⟨?_, by simp⟩
      rintro (hmem | ⟨rest, hl, hmem⟩)
      · exact hqueue hmem
      · obtain ⟨rfl, rfl⟩ := Loop.fanout.inj hl
        exact hwalk _ hloop (List.mem_cons_of_mem _ hmem)
  | @put m' k rest c' ch hloop hkey =>
      refine ⟨?_, fun c hput hpeer => ?_⟩
      · rintro (hmem | ⟨rest, hl, hmem⟩)
        · exact hqueue hmem
        · obtain ⟨rfl, rfl⟩ := Loop.fanout.inj hl
          exact hwalk _ hloop (List.mem_cons_of_mem _ hmem)
      · -- the connection visited now stands under the peer id that is visited
        obtain ⟨rfl, rfl⟩ := Event.put.inj (List.mem_singleton.mp hput)
        rw [← hpeer, hs.peer hkey] at hwalk
        exact hwalk _ hloop List.mem_cons_self
  | rangeDone =>
      refine ⟨?_, by simp⟩
      rintro (hmem | ⟨rest, hl, _⟩)
      · exact hqueue hmem
      · exact absurd hl (by simp)
  | tick => exact ⟨hnot, by simp⟩

theorem HubView.Unregister.carries_iff {v v' : HubView} {c : Connection} {o : List Event}
    (h : v.Unregister c v' o) (peerId : String) (m : PushMsg) :
    v'.hub.Carries peerId m ↔ v.hub.Carries peerId m := by
  cases h <;> exact Iff.rfl

namespace HubRooms

variable {d : Deployment} {s t u : HubRooms} {a : RoomsAction} {l o : List Event}
  {c : Connection} {m : PushMsg}

/-- The hub of the room of `c` carries the message for the peer of `c`. -/
def InFlight (d : Deployment) (s : HubRooms) (c : Connection) (m : PushMsg) : Prop :=
  (s.rooms (d.getRoomId c.peerId)).Carries c.peerId m

/-! ## What has passed does not come back -/

/-- The message is an old one that no call holds and that is not in flight to `c`. -/
structure Passed (d : Deployment) (s : HubRooms) (c : Connection) (m : PushMsg) : Prop where
  not_inFlight : ¬ s.InFlight d c m
  not_held : ∀ i, (s.calls i).held ≠ some m
  old : m.msgId ≤ s.stats.totalMsgCnt

/-- A call goes on with the message it has, or with none. -/
theorem Passed.setCall (h : s.Passed d c m) {i : ℕ} {x : Call}
    (hx : x.held = some m → (s.calls i).held = some m)
    (hcalls : t.calls = Function.update s.calls i x) (hrooms : ¬ t.InFlight d c m)
    (hcnt : s.stats.totalMsgCnt ≤ t.stats.totalMsgCnt) : t.Passed d c m := by
  refine ⟨hrooms, fun j hj => ?_, h.old.trans hcnt⟩
  rw [hcalls, Function.update_apply] at hj
  split at hj
  · exact h.not_held i (hx hj)
  · exact h.not_held j hj

/-- A hub works on its view. -/
theorem Passed.putView (h : s.Passed d c m) {r : String} {v : HubView}
    (hv : ∀ peerId, ¬ (s.rooms r).Carries peerId m → ¬ v.hub.Carries peerId m) :
    (s.putView r v).Passed d c m := by
  refine ⟨?_, h.not_held, h.old⟩
  have hflight := h.not_inFlight
  unfold InFlight at hflight ⊢
  simp only [HubRooms.putView, Function.update_apply]
  split
  · rename_i hr
    rw [hr] at hflight
    exact hv _ hflight
  · exact hflight

theorem Passed.step (hi : s.Inv d) (h : s.Passed d c m) (hstep : s.Step d a t o) :
    t.Passed d c m ∧ .put c m ∉ o := by
  cases hstep with
  | life | drain | sendPanic => exact ⟨⟨h.not_inFlight, h.not_held, h.old⟩, by simp⟩
  | @register c' v hreg hloop hv =>
      have hput : (s.putView (d.getRoomId c'.peerId) v).Passed d c m :=
        h.putView (fun peerId hnot => by rw [← hv]; exact hnot)
      exact ⟨⟨hput.not_inFlight, hput.not_held, hput.old⟩, by simp⟩
  | unregister hreader hloop hv =>
      have hput := h.putView (fun peerId hnot hcar => hnot ((hv.carries_iff peerId m).mp hcar))
      exact ⟨⟨hput.not_inFlight, hput.not_held, hput.old⟩, by cases hv <;> simp⟩
  | @hub r a v o hr hv =>
      refine ⟨h.putView (fun peerId hnot => (hv.not_carries (hi.rooms.sound r) hnot).1), ?_⟩
      intro hput
      by_cases hroom : d.getRoomId c.peerId = r
      · have hflight := h.not_inFlight
        unfold InFlight at hflight
        rw [hroom] at hflight
        exact (hv.not_carries (hi.rooms.sound r) hflight).2 c hput rfl
      · -- the hub of another room puts on the queues of its own connections
        cases hv with
        | take | skip | panic | overflow | rangeDone | tick => simp at hput
        | put hloop hkey =>
            obtain ⟨rfl, rfl⟩ := Event.put.inj (List.mem_singleton.mp hput)
            exact hroom (hi.rooms.home hkey)
  | start =>
      exact ⟨h.setCall (by simp [Call.held]) rfl h.not_inFlight (Nat.le_refl _), by simp⟩
  | @acquire i order req hcall htoken horder =>
      refine ⟨h.setCall (fun hx => ?_) rfl h.not_inFlight (Nat.le_succ _), by simp⟩
      -- the new message has an id that the old one does not have
      rw [held_begin] at hx
      have hid : m.msgId = s.stats.totalMsgCnt + 1 := by
        rw [← Option.some.inj hx]
        rfl
      have := h.old
      omega
  | @push i m' r roomIds ch hcall hr hbuf =>
      have hne : m ≠ m' := by
        rintro rfl
        exact h.not_held i (by rw [hcall]; rfl)
      refine ⟨h.setCall (by rw [hcall]; exact id) rfl ?_ (Nat.le_refl _), by simp⟩
      have hflight := h.not_inFlight
      unfold InFlight at hflight ⊢
      simp only [HubRooms.setCall, Function.update_apply]
      split
      · rename_i hroom
        rw [hroom] at hflight
        rintro (hmem | hwalk)
        · rw [hbuf] at hmem
          rcases List.mem_append.mp hmem with hmem | hmem
          · exact hflight (.inl hmem)
          · exact hne (List.mem_singleton.mp hmem)
        · exact hflight (.inr hwalk)
      · exact hflight
  | skipRoom hcall | absent hcall | found hcall | sendPeer hcall =>
      exact ⟨h.setCall (by rw [hcall]; exact id) rfl h.not_inFlight (Nat.le_refl _), by simp⟩
  | finish =>
      exact ⟨h.setCall (by simp [Call.held]) rfl h.not_inFlight (Nat.le_refl _), by simp⟩

/-- A message that has passed a connection is not put on its queue any more. -/
theorem Passed.run (hi : s.Inv d) (h : s.Passed d c m) {as : List RoomsAction}
    (hexec : (hubRooms d).execFrom s as = some (u, l)) : .put c m ∉ l := by
  induction as generalizing s l with
  | nil =>
      obtain ⟨rfl, rfl⟩ := Prod.mk.inj (Option.some.inj hexec)
      simp
  | cons a as ih =>
      obtain ⟨t, o, k, hstep, hrest, rfl⟩ := (hubRooms d).execFrom_cons_iff.mp hexec
      have hcases := (step_cases hstep).2
      obtain ⟨ht, hput⟩ := h.step hi hcases
      rw [List.mem_append, not_or]
      exact ⟨hput, ih (hi.step hcases) ht hrest⟩

end HubRooms

/-- **A room broadcast with a smaller id that is put on a queue after a message to peers was in
flight to that connection when the message to peers was placed.** -/
theorem overtaken_inFlight {d : Deployment} {pre post : List RoomsAction} {s u : HubRooms}
    {l₁ l₂ : List Event} {i : ℕ} {p m : PushMsg} {c : Connection} {peerIds : List String}
    (hpre : (hubRooms d).exec pre = some (s, l₁)) (hcall : s.calls i = .sending p c peerIds)
    (hpost : (hubRooms d).execFrom s (.sendPeer i :: post) = some (u, l₂))
    (hid : m.msgId < p.msgId) (hput : .put c m ∈ l₂) : s.InFlight d c m := by
  have hi : s.Inv d := HubRooms.inv_of_exec hpre
  by_contra hnot
  have hheld : (s.calls i).held = some p := by rw [hcall]; rfl
  have hp : p.msgId = s.stats.totalMsgCnt := hi.calls.held_id hheld
  have hpassed : s.Passed d c m := by
    refine ⟨hnot, fun j hj => ?_, by omega⟩
    -- the only call that holds the token holds `p`
    obtain rfl := hi.calls.unique hheld hj
    rw [hheld] at hj
    rw [Option.some.inj hj] at hid
    exact Nat.lt_irrefl _ hid
  exact hpassed.run hi hpost hput

/-- A room broadcast has been pushed to the room when a message to peers is about to be sent. -/
def pushThenLookup : List RoomsAction :=
  connect ⟨1, "p"⟩ ++ [.start 0 (.rooms ["room_0"] []), .acquire 0 [], .push 0, .finish 0 0,
    .start 1 (.peers ["p"] []), .acquire 1 [], .lookup 1]

/-- The message to peers is sent, and then the hub works on the broadcast. -/
def sendThenFanout : List RoomsAction :=
  [.sendPeer 1, .hub "room_0" (.take ["p"]), .hub "room_0" .tick, .hub "room_0" .attempt]

/-- The message to peers with id 2 is placed before the room broadcast with id 1. -/
theorem peers_overtake_rooms :
    ∃ r : (hubRooms oneRoom).Run, r.acts = pushThenLookup ++ sendThenFanout ∧
      [.direct ⟨1, "p"⟩ ⟨2, [], false⟩, .put ⟨1, "p"⟩ ⟨1, [], true⟩].Sublist r.log := by
  have hlog : (Machine.Run.ofActs (M := hubRooms oneRoom) (pushThenLookup ++ sendThenFanout)
      (by decide)).log = [.registered ⟨1, "p"⟩, .direct ⟨1, "p"⟩ ⟨2, [], false⟩,
        .took ⟨1, [], true⟩, .put ⟨1, "p"⟩ ⟨1, [], true⟩] := by decide
  refine ⟨.ofActs (pushThenLookup ++ sendThenFanout) (by decide), rfl, ?_⟩
  rw [hlog]
  decide

/-- The server when the message to peers is about to be sent. -/
def beforeSend : (hubRooms oneRoom).Run := .ofActs pushThenLookup (by decide)

/-- In that run the broadcast is queued at the hub when it is overtaken. -/
theorem peers_overtake_rooms_inFlight :
    beforeSend.last.InFlight oneRoom ⟨1, "p"⟩ ⟨1, [], true⟩ := by
  have hcall : beforeSend.last.calls 1 = .sending ⟨2, [], false⟩ ⟨1, "p"⟩ [] := by decide
  have hpost : ((hubRooms oneRoom).execFrom beforeSend.last sendThenFanout).isSome := by decide
  exact overtaken_inFlight beforeSend.exec_eq hcall (Option.some_get hpost).symm (by decide)
    (by decide)

end Skytime
