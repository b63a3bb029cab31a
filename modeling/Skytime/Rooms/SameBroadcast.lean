/-
# Skytime.Rooms.SameBroadcast — `broadcast` and `broadcast_rooms` over all rooms are one operation.

The two functions are written out separately: one ranges over the map of the rooms, in whatever
order, the other goes through a list of ids and looks each of them up. `hub_rooms.run` enters every
id of the list `rooms_ids` once into the map, so an order of the map is a permutation of that list,
and pushes to different rooms commute. The calls of the machine do what the two functions say, and
when something runs beside them the queues differ only in what the hubs have taken in the meantime.
-/
import Mathlib.Data.List.Perm.Basic
import Skytime.Rooms.Partition
import Skytime.Rooms.Pushes

namespace Skytime

open Process

/-! ## The map of the rooms -/

/-- `hr.rooms` after the loop of `run`. -/
def Config.rooms (config : Config) : GoMap String Hub :=
  config.run.roomsIds.foldl (fun rooms v => rooms.insert v newHub) ∅

theorem keys_foldl_insert {κ ν : Type} [DecidableEq κ] (v : ν) (ks : List κ) (m : GoMap κ ν) :
    (ks.foldl (fun m k => Finmap.insert k v m) m).keys = m.keys ∪ ks.toFinset := by
  induction ks generalizing m with
  | nil => simp
  | cons k ks ih =>
      rw [List.foldl_cons, ih]
      ext k'
      simp only [Finset.mem_union, Finmap.mem_keys, Finmap.mem_insert, List.mem_toFinset,
        List.mem_cons]
      tauto

/-- The map has the ids of the list as its keys, once each. -/
theorem range_rooms_iff {config : Config} {order : List String} :
    config.rooms.Range order ↔ order.Perm config.run.roomsIds := by
  have hkeys : config.rooms.keys.val = (config.run.roomsIds : Multiset String) := by
    rw [Config.rooms, keys_foldl_insert, Finmap.keys_empty, Finset.empty_union,
      List.toFinset_val, List.dedup_eq_self.mpr (nodup_roomsIds config)]
  rw [GoMap.Range, hkeys, Multiset.coe_eq_coe]

/-! ## The two functions -/

namespace HubRooms

/-- `h.broadcast <- push_msg`; `none` if it waits. -/
def sendRoom (m : PushMsg) (s : HubRooms) (r : String) : Option HubRooms :=
  match (s.rooms r).broadcast.send m with
  | .sent ch =>
      some { s with rooms := Function.update s.rooms r { s.rooms r with broadcast := ch } }
  | _ => none

/-- `for _, h := range hr.rooms`, in the given order. -/
def sendEach (m : PushMsg) (s : HubRooms) : List String → Option HubRooms
  | [] => some s
  | r :: order => (s.sendRoom m r).bind fun s => sendEach m s order

/-- `for _, room_id := range room_ids`. -/
def sendListed (d : Deployment) (m : PushMsg) (s : HubRooms) : List String → Option HubRooms
  | [] => some s
  | r :: roomIds =>
    if r ∈ d.roomsIds then (s.sendRoom m r).bind fun s => sendListed d m s roomIds
    else sendListed d m s roomIds

/-- One round of the loop of `broadcast`, if nothing runs beside it and it need not wait. -/
def broadcast (s : HubRooms) (bmsg : List UInt8) (order : List String) (diff : ℕ) :
    Option HubRooms :=
  if s.broadcastMu then
    let s := { s with broadcastMu := false }
    let s := { s with stats := { s.stats with totalMsgCnt := s.stats.totalMsgCnt + 1 } }
    let pushMsg : PushMsg := ⟨s.stats.totalMsgCnt, bmsg, true⟩
    let s := { s with msgStats := s.msgStats.insert pushMsg.msgId ⟨0, 0⟩ }
    (s.sendEach pushMsg order).map fun s =>
      { s with
        stats := { s.stats with
          totalMsgSize := s.stats.totalMsgSize + bmsg.length
          totalConsumeTime := s.stats.totalConsumeTime + diff }
        broadcastMu := true }
  else none

/-- `broadcast_rooms`, if nothing runs beside it and it need not wait. -/
def broadcastRooms (d : Deployment) (s : HubRooms) (roomIds : List String) (brMsg : List UInt8)
    (diff : ℕ) : Option HubRooms :=
  if s.broadcastMu then
    let s := { s with broadcastMu := false }
    let s := { s with stats := { s.stats with totalMsgCnt := s.stats.totalMsgCnt + 1 } }
    let pushMsg : PushMsg := ⟨s.stats.totalMsgCnt, brMsg, true⟩
    let s := { s with msgStats := s.msgStats.insert pushMsg.msgId ⟨0, 0⟩ }
    (s.sendListed d pushMsg roomIds).map fun s =>
      { s with
        stats := { s.stats with
          totalMsgSize := s.stats.totalMsgSize + brMsg.length
          totalConsumeTime := s.stats.totalConsumeTime + diff }
        broadcastMu := true }
  else none

/-- Everything but the measured time. -/
def untimed (s : HubRooms) : HubRooms := { s with stats := { s.stats with totalConsumeTime := 0 } }

/-! ## The order of the pushes -/

/-- Pushes to two rooms commute. -/
theorem sendRoom_comm (m : PushMsg) (s : HubRooms) (r r' : String) :
    ((s.sendRoom m r).bind fun s => s.sendRoom m r') =
      (s.sendRoom m r').bind fun s => s.sendRoom m r := by
  by_cases hr : r = r'
  · rw [hr]
  · have hr' : r' ≠ r := fun h => hr h.symm
    cases hsend : (s.rooms r).broadcast.send m <;> cases hsend' : (s.rooms r').broadcast.send m <;>
      simp [sendRoom, hsend, hsend', hr, hr', Function.update_of_ne, Function.update_comm hr]

theorem sendEach_eq_foldl (m : PushMsg) (s : HubRooms) (order : List String) :
    s.sendEach m order = order.foldl (fun o r => o.bind fun s => s.sendRoom m r) (some s) := by
  have hnone : ∀ order : List String,
      order.foldl (fun o r => o.bind fun s : HubRooms => s.sendRoom m r) none = none := by
    intro order
    induction order with
    | nil => rfl
    | cons r order ih => exact ih
  induction order generalizing s with
  | nil => rfl
  | cons r order ih =>
      rw [sendEach, List.foldl_cons, Option.bind_some]
      cases hsend : s.sendRoom m r with
      | none => exact (hnone order).symm
      | some t => exact ih t

/-- The order in which the rooms are visited does not matter. -/
theorem sendEach_perm {m : PushMsg} {order order' : List String} (h : order.Perm order')
    (s : HubRooms) : s.sendEach m order = s.sendEach m order' := by
  rw [sendEach_eq_foldl, sendEach_eq_foldl]
  apply h.foldl_eq'
  intro r _ r' _ o
  cases o with
  | none => rfl
  | some s => exact sendRoom_comm m s r r'

/-- A list of rooms that exist is gone through without a skip. -/
theorem sendListed_eq_sendEach {d : Deployment} {m : PushMsg} {roomIds : List String}
    (h : ∀ r ∈ roomIds, r ∈ d.roomsIds) (s : HubRooms) :
    s.sendListed d m roomIds = s.sendEach m roomIds := by
  induction roomIds generalizing s with
  | nil => rfl
  | cons r roomIds ih =>
      rw [sendListed, sendEach, if_pos (h r List.mem_cons_self)]
      congr 1
      funext t
      exact ih (fun r' hr' => h r' (List.mem_cons_of_mem _ hr')) t

/-- The two functions wait together, and lead to the same state up to the time they take. -/
theorem broadcast_eq_broadcastRooms {d : Deployment} {order : List String}
    (horder : order.Perm d.roomsIds) (s : HubRooms) (bmsg : List UInt8) (diff diff' : ℕ) :
    (s.broadcast bmsg order diff).map untimed =
      (s.broadcastRooms d d.roomsIds bmsg diff').map untimed := by
  unfold broadcast broadcastRooms
  split
  · simp only [sendEach_perm horder, sendListed_eq_sendEach fun r (hr : r ∈ d.roomsIds) => hr,
      Option.map_map]
    rfl
  · rfl

end HubRooms

/-! ## A call alone -/

/-- A call from its start to its end, with the steps `as` in between. -/
def completeCall (i : ℕ) (req : Request) (order : List String) (as : List RoomsAction)
    (diff : ℕ) : List RoomsAction :=
  .start i req :: .acquire i order :: (as ++ [.finish i diff])

/-- A call with `n` rounds of its loop and nothing beside it. -/
def alone (i : ℕ) (req : Request) (order : List String) (n diff : ℕ) : List RoomsAction :=
  completeCall i req order (List.replicate n (.push i)) diff

namespace HubRooms

variable {d : Deployment} {s : HubRooms} {i : ℕ}

/-- The end of a call with message `m`. -/
def giveBack (m : PushMsg) (diff : ℕ) (s : HubRooms) : HubRooms :=
  { s with
    stats := { s.stats with
      totalMsgSize := s.stats.totalMsgSize + m.msgBody.length
      totalConsumeTime := s.stats.totalConsumeTime + diff }
    broadcastMu := true }

theorem setCall_self (h : s.calls i = .idle) : s.setCall i .idle = s := by
  simp [setCall, ← h]

theorem panicked_of_sendRoom {m : PushMsg} {r : String} {t : HubRooms}
    (h : s.sendRoom m r = some t) : t.panicked = s.panicked := by
  unfold sendRoom at h
  split at h
  · obtain rfl := Option.some.inj h
    rfl
  · exact absurd h (by simp)

/-- One round of the loop over a list of rooms. -/
theorem step_push (hrun : s.panicked = false) (m : PushMsg) (r : String) (rest : List String) :
    (hubRooms d).step (s.setCall i (.pushing m (r :: rest))) (.push i) =
      (if r ∈ d.roomsIds then s.sendRoom m r else some s).map fun t =>
        (t.setCall i (.pushing m rest), []) := by
  have hrun' : (s.setCall i (.pushing m (r :: rest))).panicked = false := hrun
  rw [step_of_running hrun']
  by_cases hr : r ∈ d.roomsIds
  · cases hsend : (s.rooms r).broadcast.send m <;>
      simp [stepRunning, push, setCall, sendRoom, hr, hsend]
  · simp [stepRunning, push, setCall, hr]

/-- A call that holds the token goes through its list as `sendListed` does. -/
theorem execFrom_pushes (hrun : s.panicked = false) (m : PushMsg) (rest : List String)
    (diff : ℕ) :
    (hubRooms d).execFrom (s.setCall i (.pushing m rest))
        (List.replicate rest.length (.push i) ++ [.finish i diff]) =
      (s.sendListed d m rest).map fun t => ((t.giveBack m diff).setCall i .idle, []) := by
  induction rest generalizing s with
  | nil =>
      have hrun' : (s.setCall i (.pushing m [])).panicked = false := hrun
      rw [List.length_nil, List.replicate_zero, List.nil_append, Machine.execFrom_cons_eq,
        step_of_running hrun']
      simp [stepRunning, finish, setCall, sendListed, giveBack]
  | cons r rest ih =>
      rw [List.length_cons, List.replicate_succ, List.cons_append, Machine.execFrom_cons_eq,
        step_push hrun, sendListed]
      by_cases hr : r ∈ d.roomsIds
      · rw [if_pos hr, if_pos hr]
        cases hsend : s.sendRoom m r with
        | none => rfl
        | some t =>
            have hnext := ih ((panicked_of_sendRoom hsend).trans hrun)
            simp only [Option.map_some, Option.bind_some, hnext, Option.map_map]
            rfl
      · have hnext := ih hrun
        rw [if_neg hr, if_neg hr]
        simp only [Option.map_some, Option.bind_some, hnext, Option.map_map]
        rfl

/-- Nothing but the call itself changes on the way, so it is idle again afterwards. -/
theorem calls_of_sendListed {m : PushMsg} {roomIds : List String} {t : HubRooms}
    (h : s.sendListed d m roomIds = some t) : t.calls = s.calls := by
  induction roomIds generalizing s with
  | nil =>
      obtain rfl := Option.some.inj h
      rfl
  | cons r roomIds ih =>
      unfold sendListed at h
      split at h
      · obtain ⟨u, hsend, hrest⟩ := Option.bind_eq_some_iff.mp h
        have hu : u.calls = s.calls := by
          unfold sendRoom at hsend
          split at hsend
          · obtain rfl := Option.some.inj hsend
            rfl
          · exact absurd hsend (by simp)
        exact (ih hrest).trans hu
      · exact ih h

/-- A call that finds the token takes it and goes through its list of rooms. -/
theorem execFrom_alone (hrun : s.panicked = false) (hidle : s.calls i = .idle)
    (hfree : s.broadcastMu = true) (req : Request) {order rest : List String}
    (horder : req.VisitOrder d order) (hbegin : ∀ m, req.begin m order = .pushing m rest)
    (diff : ℕ) :
    (hubRooms d).execFrom s (alone i req order rest.length diff) =
      (({ s with
        broadcastMu := false
        stats := { s.stats with totalMsgCnt := s.stats.totalMsgCnt + 1 }
        msgStats := s.msgStats.insert (s.stats.totalMsgCnt + 1) ⟨0, 0⟩ } : HubRooms).sendListed d
          (s.nextMsg req) rest).map fun t => (t.giveBack (s.nextMsg req) diff, []) := by
  have hstart : (hubRooms d).step s (.start i req) = some (s.setCall i (.waiting req), []) := by
    rw [step_of_running hrun]
    exact if_pos hidle
  have hacquire : (hubRooms d).step (s.setCall i (.waiting req)) (.acquire i order) =
      some (({ s with
        broadcastMu := false
        stats := { s.stats with totalMsgCnt := s.stats.totalMsgCnt + 1 }
        msgStats := s.msgStats.insert (s.stats.totalMsgCnt + 1) ⟨0, 0⟩ } : HubRooms).setCall i
          (.pushing (s.nextMsg req) rest), []) := by
    have hrun' : (s.setCall i (.waiting req)).panicked = false := hrun
    rw [step_of_running hrun']
    simp [stepRunning, acquire, setCall, nextMsg, hfree, horder, hbegin]
  rw [alone, completeCall, Machine.execFrom_cons_eq, hstart, Option.bind_some,
    Machine.execFrom_cons_eq, hacquire, Option.bind_some, execFrom_pushes (by exact hrun)]
  simp only [Option.map_map]
  apply Option.map_congr
  intro t ht
  have hcalls : (t.giveBack (s.nextMsg req) diff).calls i = .idle :=
    (congrFun (calls_of_sendListed ht) i).trans hidle
  simp only [Function.comp_apply, List.nil_append, setCall_self hcalls]

/-- One round of `broadcast` as the machine runs it. -/
theorem execFrom_broadcast (hrun : s.panicked = false) (hidle : s.calls i = .idle)
    (hfree : s.broadcastMu = true) {order : List String} (horder : order.Perm d.roomsIds)
    (bmsg : List UInt8) (diff : ℕ) :
    (hubRooms d).execFrom s (alone i (.all bmsg) order order.length diff) =
      (s.broadcast bmsg order diff).map (·, []) := by
  rw [execFrom_alone hrun hidle hfree (.all bmsg) horder (fun _ => rfl), broadcast,
    if_pos hfree, sendListed_eq_sendEach fun r hr => horder.mem_iff.mp hr, Option.map_map]
  rfl

/-- `broadcast_rooms` as the machine runs it. -/
theorem execFrom_broadcastRooms (hrun : s.panicked = false) (hidle : s.calls i = .idle)
    (hfree : s.broadcastMu = true) (roomIds order : List String) (brMsg : List UInt8) (diff : ℕ) :
    (hubRooms d).execFrom s (alone i (.rooms roomIds brMsg) order roomIds.length diff) =
      (s.broadcastRooms d roomIds brMsg diff).map (·, []) := by
  rw [execFrom_alone hrun hidle hfree (.rooms roomIds brMsg) trivial (fun _ => rfl),
    broadcastRooms, if_pos hfree, Option.map_map]
  rfl

end HubRooms

/-! ## A call among other goroutines -/

/-- How many messages the hub of room `r` has taken. -/
def takes (r : String) (as : List RoomsAction) : ℕ :=
  as.countP fun
    | .hub r' (.take _) => r' = r
    | _ => false

/-- The call `i` with message `m` has passed `done` of its list, from the state `s` in which it has
taken the token: what has been pushed stands behind what was queued, up to what the hubs took. -/
structure HubRooms.Underway (s : HubRooms) (i : ℕ) (m : PushMsg) (done rest : List String)
    (as : List RoomsAction) (t : HubRooms) : Prop where
  call : t.calls i = .pushing m rest
  cnt : t.stats.totalMsgCnt = s.stats.totalMsgCnt
  size : t.stats.totalMsgSize = s.stats.totalMsgSize
  msgStats : t.msgStats = s.msgStats
  taken : ∀ r, takes r as ≤ ((s.rooms r).broadcast.buf ++ List.replicate (done.count r) m).length
  queue : ∀ r, (t.rooms r).broadcast.buf =
    ((s.rooms r).broadcast.buf ++ List.replicate (done.count r) m).drop (takes r as)

theorem takes_concat (r : String) (as : List RoomsAction) (a : RoomsAction) :
    takes r (as ++ [a]) = takes r as + takes r [a] := List.countP_append

namespace HubRooms.Underway

variable {d : Deployment} {s t u : HubRooms} {i : ℕ} {m : PushMsg} {done rest : List String}
  {as : List RoomsAction}

/-- A step that takes no message and leaves the queues and the statistics. -/
theorem quiet (h : s.Underway i m done rest as t) {a : RoomsAction}
    (hcall : u.calls i = t.calls i) (hcnt : u.stats.totalMsgCnt = t.stats.totalMsgCnt)
    (hsize : u.stats.totalMsgSize = t.stats.totalMsgSize) (hstats : u.msgStats = t.msgStats)
    (hqueue : ∀ r, (u.rooms r).broadcast = (t.rooms r).broadcast)
    (htakes : ∀ r, takes r [a] = 0) : s.Underway i m done rest (as ++ [a]) u where
  call := hcall.trans h.call
  cnt := hcnt.trans h.cnt
  size := hsize.trans h.size
  msgStats := hstats.trans h.msgStats
  taken := fun r => by
    rw [takes_concat, htakes, Nat.add_zero]
    exact h.taken r
  queue := fun r => by
    rw [takes_concat, htakes, Nat.add_zero, hqueue]
    exact h.queue r

/-- A hub takes the oldest message of its queue. -/
theorem take (h : s.Underway i m done rest as t) {r : String} {order : List String} {v : HubView}
    {o : List Event} (hv : (t.view r).Act (.take order) v o) :
    s.Underway i m done rest (as ++ [.hub r (.take order)]) (t.putView r v) := by
  cases hv with
  | @take _ m' ch hloop hbuf hch horder =>
      have hbuf : (t.rooms r).broadcast.buf = m' :: ch.buf := hbuf
      have hqueue := h.queue r
      have htake : ∀ r', takes r' [RoomsAction.hub r (.take order)] = if r' = r then 1 else 0 := by
        intro r'
        by_cases hr : r' = r
        · simp [takes, hr]
        · simp [takes, hr, Ne.symm hr]
      refine ⟨h.call, h.cnt, h.size, h.msgStats, fun r' => ?_, fun r' => ?_⟩
      · rw [takes_concat, htake]
        have hle := h.taken r'
        split
        · rename_i hr
          subst hr
          have hlen := congrArg List.length (hbuf.symm.trans hqueue)
          rw [List.length_cons, List.length_drop] at hlen
          omega
        · exact hle
      · rw [takes_concat, htake, HubRooms.putView_rooms]
        split
        · rename_i hr
          subst hr
          rw [← List.drop_drop, ← hqueue, hbuf]
          rfl
        · exact h.queue r'

/-- The call pushes to the next room. -/
theorem push {r : String} (h : s.Underway i m done (r :: rest) as t)
    {ch : Chan PushMsg broadcastCap} (hbuf : ch.buf = (t.rooms r).broadcast.buf ++ [m]) :
    s.Underway i m (done ++ [r]) rest (as ++ [.push i])
      ({ t with rooms := Function.update t.rooms r { t.rooms r with broadcast := ch } }.setCall i
        (.pushing m rest)) := by
  have hcount : ∀ r', (done ++ [r]).count r' = done.count r' + if r' = r then 1 else 0 := by
    intro r'
    by_cases hr : r' = r
    · simp [hr]
    · simp [hr, Ne.symm hr]
  have htakes : ∀ r', takes r' (as ++ [.push i]) = takes r' as := fun r' => by
    rw [takes_concat]
    rfl
  refine ⟨Function.update_self .., h.cnt, h.size, h.msgStats, fun r' => ?_, fun r' => ?_⟩
  · have hle := h.taken r'
    rw [htakes, hcount]
    simp only [List.length_append, List.length_replicate] at hle ⊢
    omega
  · rw [htakes, hcount]
    show (Function.update t.rooms r _ r').broadcast.buf = _
    rw [Function.update_apply]
    split
    · rename_i hr
      subst hr
      show ch.buf = _
      rw [hbuf, h.queue r', List.replicate_add, ← List.append_assoc,
        List.drop_append_of_le_length (h.taken r')]
      rfl
    · exact h.queue r'

/-- What a hub does apart from taking a message leaves its queue. -/
theorem broadcast_of_act {v v' : HubView} {a : HubAction} {o : List Event} (h : v.Act a v' o)
    (ha : ∀ order, a ≠ .take order) : v'.hub.broadcast = v.hub.broadcast := by
  cases h with
  | take => exact absurd rfl (ha _)
  | skip | panic | put | overflow | rangeDone | tick => rfl

theorem broadcast_of_unregister {v v' : HubView} {c : Connection} {o : List Event}
    (h : v.Unregister c v' o) : v'.hub.broadcast = v.hub.broadcast := by
  cases h <;> rfl

/-- The queues after a hub has worked on its view without taking a message. -/
theorem broadcast_putView {t : HubRooms} {r : String} {v : HubView}
    (hv : v.hub.broadcast = (t.rooms r).broadcast) (r' : String) :
    ((t.putView r v).rooms r').broadcast = (t.rooms r').broadcast := by
  rw [HubRooms.putView_rooms]
  split
  · rename_i hr
    rw [hr, hv]
  · rfl

/-- Whatever step is taken, the call is under way or has moved on by one room. -/
theorem step (hc : t.CallsOk) (h : s.Underway i m done rest as t)
    (hrest : ∀ r ∈ rest, r ∈ d.roomsIds) {a : RoomsAction} {o : List Event}
    (ha : ∀ diff, a ≠ .finish i diff) (hstep : t.Step d a u o) :
    ∃ done' rest', done' ++ rest' = done ++ rest ∧ s.Underway i m done' rest' (as ++ [a]) u := by
  have hheld : (t.calls i).held = some m := by
    rw [h.call]
    rfl
  -- a call that holds the token is this one
  have hself : ∀ {j : ℕ} {x : Call} {m' : PushMsg}, t.calls j = x → x.held = some m' → j = i := by
    intro j x m' hx hm'
    exact hc.unique (hx ▸ hm') hheld
  cases hstep with
  | life => exact ⟨done, rest, rfl, h.quiet rfl rfl rfl rfl (fun _ => rfl) fun _ => rfl⟩
  | register hreg hloop hv =>
      refine ⟨done, rest, rfl, h.quiet rfl rfl rfl rfl (broadcast_putView ?_) fun _ => rfl⟩
      rw [← hv]
      rfl
  | unregister hreader hloop hv =>
      exact ⟨done, rest, rfl, h.quiet rfl rfl rfl rfl
        (broadcast_putView (broadcast_of_unregister hv)) fun _ => rfl⟩
  | @hub r a v o hr hv =>
      cases a with
      | take order => exact ⟨done, rest, rfl, h.take hv⟩
      | attempt | rangeDone | tick =>
          exact ⟨done, rest, rfl, h.quiet rfl rfl rfl rfl
            (broadcast_putView (broadcast_of_act hv (by simp))) fun _ => rfl⟩
  | drain => exact ⟨done, rest, rfl, h.quiet rfl rfl rfl rfl (fun _ => rfl) fun _ => rfl⟩
  | @start j req hcall =>
      have hne : i ≠ j := by
        rintro rfl
        exact absurd (h.call.symm.trans hcall) (by simp)
      exact ⟨done, rest, rfl,
        h.quiet (Function.update_of_ne hne _ _) rfl rfl rfl (fun _ => rfl) fun _ => rfl⟩
  | acquire hcall htoken horder =>
      have htok := hc.token
      rw [htoken] at htok
      exact absurd (htok.not_free (HubRooms.holds_of_held hheld)) (by simp)
  | @push j m' r roomIds ch hcall hr hbuf =>
      obtain rfl := hself hcall rfl
      obtain ⟨rfl, rfl⟩ := Call.pushing.inj (h.call.symm.trans hcall)
      exact ⟨done ++ [r], roomIds, by simp, h.push hbuf⟩
  | @skipRoom j m' r roomIds hcall hr =>
      obtain rfl := hself hcall rfl
      obtain ⟨rfl, rfl⟩ := Call.pushing.inj (h.call.symm.trans hcall)
      exact absurd (hrest r List.mem_cons_self) hr
  | absent hcall | found hcall | sendPeer hcall | sendPanic hcall =>
      obtain rfl := hself hcall rfl
      exact absurd (h.call.symm.trans hcall) (by simp)
  | @finish j diff m' hcall =>
      have hji : j = i := by
        rcases hcall with hcall | hcall <;> exact hself hcall rfl
      exact absurd (by rw [hji]) (ha diff)

/-- The call is under way as long as it has not returned the token. -/
theorem of_execFrom (hc : s.CallsOk) (hcall : s.calls i = .pushing m rest)
    (hrest : ∀ r ∈ rest, r ∈ d.roomsIds) (has : ∀ diff, .finish i diff ∉ as) {l : List Event}
    (hexec : (hubRooms d).execFrom s as = some (t, l)) :
    t.CallsOk ∧ ∃ done rest', done ++ rest' = rest ∧ s.Underway i m done rest' as t := by
  induction as using List.reverseRecOn generalizing t l with
  | nil =>
      obtain ⟨rfl, rfl⟩ := Prod.mk.inj (Option.some.inj hexec)
      exact ⟨hc, [], rest, rfl, hcall, rfl, rfl, rfl, fun r => Nat.zero_le _,
        fun r => by simp [takes]⟩
  | append_singleton as a ih =>
      obtain ⟨v, k, o, hbefore, hstep, rfl⟩ := (hubRooms d).execFrom_concat_iff.mp hexec
      obtain ⟨hcv, done, rest', hlist, hunder⟩ :=
        ih (fun diff hmem => has diff (List.mem_append_left _ hmem)) hbefore
      have hstep := (HubRooms.step_cases hstep).2
      have ha : ∀ diff, a ≠ .finish i diff := fun diff heq =>
        has diff (heq ▸ List.mem_append_right _ (List.mem_singleton_self _))
      have hrest' : ∀ r ∈ rest', r ∈ d.roomsIds := fun r hr =>
        hrest r (hlist ▸ List.mem_append_right _ hr)
      obtain ⟨done', rest'', hlist', hunder'⟩ := hunder.step hcv hrest' ha hstep
      exact ⟨hcv.step hstep, done', rest'', hlist'.trans hlist, hunder'⟩

end HubRooms.Underway

/-! ## One operation -/

namespace HubRooms

/-- What a complete call has done: one more message, its bytes, its statistics, and the message
behind the queues of its rooms. -/
structure Sent (s : HubRooms) (m : PushMsg) (roomIds : List String) (as : List RoomsAction)
    (t : HubRooms) : Prop where
  cnt : t.stats.totalMsgCnt = s.stats.totalMsgCnt + 1
  size : t.stats.totalMsgSize = s.stats.totalMsgSize + m.msgBody.length
  msgStats : t.msgStats = s.msgStats.insert (s.stats.totalMsgCnt + 1) ⟨0, 0⟩
  queue : ∀ r, (t.rooms r).broadcast.buf =
    ((s.rooms r).broadcast.buf ++ List.replicate (roomIds.count r) m).drop (takes r as)

theorem sent_of_completeCall {d : Deployment} {s t : HubRooms} (hc : s.CallsOk) {i : ℕ}
    {req : Request} {order roomIds : List String} {as : List RoomsAction} {diff : ℕ}
    (hbegin : ∀ m, req.begin m order = .pushing m roomIds)
    (hexist : req.VisitOrder d order → ∀ r ∈ roomIds, r ∈ d.roomsIds)
    (has : ∀ diff, .finish i diff ∉ as) {l : List Event}
    (hexec : (hubRooms d).execFrom s (completeCall i req order as diff) = some (t, l)) :
    s.Sent (s.nextMsg req) roomIds as t := by
  obtain ⟨s₁, _, _, hstart, hexec, -⟩ := (hubRooms d).execFrom_cons_iff.mp hexec
  obtain ⟨s₂, _, _, hacquire, hexec, -⟩ := (hubRooms d).execFrom_cons_iff.mp hexec
  obtain ⟨s₃, _, _, hbetween, hfinish, -⟩ := (hubRooms d).execFrom_concat_iff.mp hexec
  have hstart := (step_cases hstart).2
  have hacquire := (step_cases hacquire).2
  have hc₂ := (hc.step hstart).step hacquire
  cases hstart with
  | start hidle =>
      cases hacquire with
      | @acquire _ _ req' hcall htoken horder =>
          have hreq : req = req' := by
            have hself : (s.setCall i (.waiting req)).calls i = .waiting req :=
              Function.update_self ..
            exact Call.waiting.inj (hself.symm.trans hcall)
          subst hreq
          have hpushing : ∀ x : HubRooms,
              (x.setCall i (req.begin (s.nextMsg req) order)).calls i =
                .pushing (s.nextMsg req) roomIds := by
            intro x
            rw [← hbegin]
            exact Function.update_self ..
          obtain ⟨-, done, rest, hlist, hunder⟩ :=
            Underway.of_execFrom hc₂ (hpushing _) (hexist horder) has hbetween
          cases (step_cases hfinish).2 with
          | @finish _ _ m' hcall' =>
              -- the list is at its end
              have hend : s.nextMsg req = m' ∧ rest = [] := by
                rcases hcall' with hcall' | hcall'
                · exact Call.pushing.inj (hunder.call.symm.trans hcall')
                · exact absurd (hunder.call.symm.trans hcall') (by simp)
              obtain ⟨hm, rfl⟩ := hend
              rw [List.append_nil] at hlist
              refine ⟨hunder.cnt, ?_, hunder.msgStats, fun r => ?_⟩
              · rw [hm]
                exact congrArg (· + m'.msgBody.length) hunder.size
              · exact hlist ▸ hunder.queue r

/-- Two servers agree on the statistics of the messages and on what the rooms have queued. -/
structure SameQueues (t u : HubRooms) : Prop where
  cnt : t.stats.totalMsgCnt = u.stats.totalMsgCnt
  size : t.stats.totalMsgSize = u.stats.totalMsgSize
  msgStats : t.msgStats = u.msgStats
  queue : ∀ r, (t.rooms r).broadcast.buf = (u.rooms r).broadcast.buf

/-- A message of a whole-server broadcast and one for all rooms are the same message in the same
queues. -/
theorem Sent.same {d : Deployment} {s t u : HubRooms} {bmsg : List UInt8} {order : List String}
    {as bs : List RoomsAction} (ht : s.Sent (s.nextMsg (.all bmsg)) order as t)
    (hu : s.Sent (s.nextMsg (.rooms d.roomsIds bmsg)) d.roomsIds bs u)
    (horder : order.Perm d.roomsIds) (htakes : ∀ r, takes r as = takes r bs) :
    t.SameQueues u where
  cnt := ht.cnt.trans hu.cnt.symm
  size := ht.size.trans hu.size.symm
  msgStats := ht.msgStats.trans hu.msgStats.symm
  queue := fun r => by
    rw [ht.queue, hu.queue, horder.count_eq, htakes]
    rfl

/-- Whatever runs beside the two calls, when they are complete they have done the same. -/
theorem same_of_completeCalls {d : Deployment} {s t u : HubRooms} (hc : s.CallsOk) {i : ℕ}
    {order order' : List String} (horder : order.Perm d.roomsIds) {bmsg : List UInt8}
    {as bs : List RoomsAction} {diff diff' : ℕ} {l k : List Event}
    (has : ∀ e, .finish i e ∉ as) (hbs : ∀ e, .finish i e ∉ bs)
    (ht : (hubRooms d).execFrom s (completeCall i (.all bmsg) order as diff) = some (t, l))
    (hu : (hubRooms d).execFrom s
      (completeCall i (.rooms d.roomsIds bmsg) order' bs diff') = some (u, k))
    (htakes : ∀ room, takes room as = takes room bs) : t.SameQueues u := by
  have hall : ∀ room ∈ order, room ∈ d.roomsIds := by
    intro room hroom
    exact horder.mem_iff.mp hroom
  have hsent : s.Sent (s.nextMsg (.all bmsg)) order as t :=
    sent_of_completeCall hc (fun _ => rfl) (fun _ => hall) has ht
  have hsent' : s.Sent (s.nextMsg (.rooms d.roomsIds bmsg)) d.roomsIds bs u :=
    sent_of_completeCall hc (fun _ => rfl) (fun _ _ hroom => hroom) hbs hu
  exact hsent.same hsent' horder htakes

/-- After a panic no call gets anywhere. -/
theorem execFrom_completeCall_of_panicked {d : Deployment} {s : HubRooms}
    (hrun : s.panicked = true) (i : ℕ) (req : Request) (order : List String)
    (as : List RoomsAction) (diff : ℕ) :
    (hubRooms d).execFrom s (completeCall i req order as diff) = none := by
  rw [completeCall, Machine.execFrom_cons_eq]
  simp [hubRooms, HubRooms.step, hrun]

/-- With nothing beside them the two calls wait together, and lead to the same state up to the time
they take. -/
theorem alone_same {d : Deployment} {s : HubRooms} {i : ℕ} (hidle : s.calls i = .idle)
    (hfree : s.broadcastMu = true) {order : List String} (horder : order.Perm d.roomsIds)
    (bmsg : List UInt8) (diff diff' : ℕ) :
    ((hubRooms d).execFrom s (alone i (.all bmsg) order order.length diff)).map (·.1.untimed) =
      ((hubRooms d).execFrom s
        (alone i (.rooms d.roomsIds bmsg) [] d.roomsIds.length diff')).map (·.1.untimed) := by
  cases hrun : s.panicked with
  | false =>
      rw [execFrom_broadcast hrun hidle hfree horder,
        execFrom_broadcastRooms hrun hidle hfree d.roomsIds, Option.map_map, Option.map_map]
      exact broadcast_eq_broadcastRooms horder s bmsg diff diff'
  | true =>
      rw [alone, alone, execFrom_completeCall_of_panicked hrun,
        execFrom_completeCall_of_panicked hrun]

end HubRooms

/-- **From any reachable state in which the token is free, and for any payload and any order of the
map, a round of `broadcast` and a call of `broadcast_rooms` for all rooms do the same: alone they
wait together and lead to the same server up to the time they take, and among other goroutines they
lead to the same statistics and the same queues if the hubs take the same number of messages.** -/
theorem broadcast_same_as_rooms (config : Config) (hash : ConsistentHash) (maxConnLimit : ℤ)
    (r : (hubRooms (config.deployment hash maxConnLimit)).Run) (hfree : r.last.broadcastMu = true)
    {i : ℕ} (hidle : r.last.calls i = .idle) {order : List String}
    (horder : config.rooms.Range order) (bmsg : List UInt8) :
    (∀ diff diff',
      ((hubRooms (config.deployment hash maxConnLimit)).execFrom r.last
          (alone i (.all bmsg) order order.length diff)).map (·.1.untimed) =
        ((hubRooms (config.deployment hash maxConnLimit)).execFrom r.last
          (alone i (.rooms config.run.roomsIds bmsg) [] config.run.roomsIds.length diff')).map
            (·.1.untimed)) ∧
    ∀ as bs diff diff' t u l k order',
      (∀ e, .finish i e ∉ as) → (∀ e, .finish i e ∉ bs) →
      (hubRooms (config.deployment hash maxConnLimit)).execFrom r.last
        (completeCall i (.all bmsg) order as diff) = some (t, l) →
      (hubRooms (config.deployment hash maxConnLimit)).execFrom r.last
        (completeCall i (.rooms config.run.roomsIds bmsg) order' bs diff') = some (u, k) →
      (∀ room, takes room as = takes room bs) → t.SameQueues u := by
  have hcalls := (HubRooms.inv_of_exec r.exec_eq).calls
  have hperm := range_rooms_iff.mp horder
  rw [← deployment_roomsIds config hash maxConnLimit] at hperm ⊢
  constructor
  · exact HubRooms.alone_same hidle hfree hperm bmsg
  · intro as bs diff diff' t u l k order' has hbs ht hu htakes
    exact HubRooms.same_of_completeCalls hcalls hperm has hbs ht hu htakes

/-- A server with the default settings: ten rooms. -/
def unsetServer : Deployment :=
  Config.deployment ⟨.absent, .absent, .absent, .absent⟩ default 100000

def justStarted : (hubRooms unsetServer).Run := ⟨[], (hubRooms unsetServer).init, [], rfl⟩

/-- The rooms in the opposite order, in two calls that complete. -/
theorem justStarted_broadcast :
    ((hubRooms unsetServer).execFrom justStarted.last
      (alone 0 (.all [0x68, 0x69]) unsetServer.roomsIds.reverse 10 3)).isSome ∧
    ((hubRooms unsetServer).execFrom justStarted.last
      (alone 0 (.all [0x68, 0x69]) unsetServer.roomsIds.reverse 10 3)).map (·.1.untimed) =
      ((hubRooms unsetServer).execFrom justStarted.last
        (alone 0 (.rooms unsetServer.roomsIds [0x68, 0x69]) [] 10 5)).map (·.1.untimed) := by
  have horder :
      (Config.rooms ⟨.absent, .absent, .absent, .absent⟩).Range unsetServer.roomsIds.reverse :=
    range_rooms_iff.mpr (List.reverse_perm _)
  refine ⟨by decide +kernel, ?_⟩
  exact (broadcast_same_as_rooms ⟨.absent, .absent, .absent, .absent⟩ default 100000 justStarted rfl
    (i := 0) rfl horder [0x68, 0x69]).1 3 5

end Skytime
