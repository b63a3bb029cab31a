/-
# Skytime.Api.Copies — how many copies of one message a call puts on a send queue.

No list of ids is searched for repetitions on its way from a request to a queue, so a call puts as
many copies on the queue of a connection as its list names the connection's room or peer. That it
puts no more is a budget: what has been put, what the hub of the room has still to put and what the
call has still to pass on never grows, since a walk visits no key twice and only one call has the
message.
-/
import Skytime.Api.Requests
import Skytime.Process.Text
import Skytime.Rooms.Pipeline

namespace Skytime

open Process

/-! ## What a request names -/

/-- The ids that a request goes through. -/
def Request.targets (d : Deployment) : Request → List String
  | .all _ => d.roomsIds
  | .rooms roomIds _ => roomIds
  | .peers peerIds _ => peerIds

/-- The id that leads a request to a connection. -/
def Request.address (d : Deployment) (c : Connection) : Request → String
  | .peers _ _ => c.peerId
  | _ => d.getRoomId c.peerId

/-- How often a request names a connection. -/
def Request.names (d : Deployment) (c : Connection) (req : Request) : ℕ :=
  (req.targets d).count (req.address d c)

/-- The copies of message `n` that have been put on the queue of `c`. -/
def copies (c : Connection) (n : ℕ) (l : List Event) : ℕ :=
  (placed c l).countP fun m => m.msgId = n

@[simp] theorem copies_append (c : Connection) (n : ℕ) (l o : List Event) :
    copies c n (l ++ o) = copies c n l + copies c n o := by
  rw [copies, placed_append, List.countP_append]
  rfl

theorem copies_of_placed {c : Connection} {n : ℕ} {o : List Event} (h : placed c o = []) :
    copies c n o = 0 := by
  rw [copies, h]
  rfl

/-! ## What is still to be put -/

/-- The copies of message `n` that a walk has still to put on the queue of `c`. -/
def Loop.owes (c : Connection) (n : ℕ) : Loop → ℕ
  | .select => 0
  | .fanout m rest => if m.msgId = n ∧ c.peerId ∈ rest then 1 else 0

def Hub.owes (c : Connection) (n : ℕ) (h : Hub) : ℕ :=
  h.loop.owes c n + h.broadcast.buf.countP fun m => m.msgId = n

/-- The copies of message `n` for `c` that a call has still to pass on. -/
def Call.owes (d : Deployment) (c : Connection) (n : ℕ) : Call → ℕ
  | .pushing m roomIds => if m.msgId = n then roomIds.count (d.getRoomId c.peerId) else 0
  | .looking m peerIds => if m.msgId = n then peerIds.count c.peerId else 0
  | .sending m c' peerIds =>
    if m.msgId = n then (if c' = c then 1 else 0) + peerIds.count c.peerId else 0
  | _ => 0

theorem Call.owes_of_held_none {d : Deployment} {c : Connection} {n : ℕ} {x : Call}
    (h : x.held = none) : x.owes d c n = 0 := by
  cases x with
  | idle | waiting => rfl
  | pushing | looking | sending => exact absurd h (by simp [Call.held])

theorem Call.owes_of_ne {d : Deployment} {c : Connection} {n : ℕ} {x : Call} {m : PushMsg}
    (h : x.held = some m) (hne : m.msgId ≠ n) : x.owes d c n = 0 := by
  cases x with
  | idle | waiting => rfl
  | pushing | looking | sending =>
      obtain rfl := Option.some.inj h
      simp [Call.owes, hne]

/-- At the start a call has to pass on what its request names. -/
theorem Request.owes_begin {d : Deployment} {req : Request} {order : List String}
    (horder : req.VisitOrder d order) (c : Connection) (m : PushMsg) :
    (req.begin m order).owes d c m.msgId = req.names d c := by
  cases req with
  | all =>
      simp only [Request.begin, Call.owes, if_true, Request.names, Request.targets,
        Request.address]
      exact horder.count_eq _
  | rooms | peers =>
      simp only [Request.begin, Call.owes, if_true, Request.names, Request.targets,
        Request.address]

/-- A walk puts what it owes, since it visits no key twice. -/
theorem HubView.Act.owes {v v' : HubView} {a : HubAction} {o : List Event} (h : v.Act a v' o)
    (hs : v.Sound) (hw : v.WalkOk) (c : Connection) (n : ℕ) :
    copies c n o + v'.hub.owes c n ≤ v.hub.owes c n := by
  -- the rest of a walk owes no more than the walk
  have hrest : ∀ (m : PushMsg) k rest,
      (Loop.fanout m rest).owes c n ≤ (Loop.fanout m (k :: rest)).owes c n := by
    intro m k rest
    simp only [Loop.owes, List.mem_cons]
    split <;> simp_all
  cases h with
  | @take order m ch hloop hbuf hch horder =>
      simp only [Hub.owes, hloop, hbuf, Loop.owes, List.countP_cons, decide_eq_true_eq]
      show 0 + _ ≤ _
      by_cases hm : m.msgId = n
      · simp only [hm, true_and, if_true]
        split <;> omega
      · simp [hm]
  | @skip m k rest hloop hkey =>
      have := hrest m k rest
      simp only [Hub.owes, hloop]
      show 0 + _ ≤ _
      omega
  | @panic m k rest c' hloop hkey hclosed =>
      have := hrest m k rest
      simp only [Hub.owes, hloop]
      show 0 + _ ≤ _
      omega
  | @overflow m k rest c' ch hloop hkey hopen hfull hbuf hch =>
      have := hrest m k rest
      simp only [Hub.owes, hloop]
      show 0 + _ ≤ _
      omega
  | @put m k rest c' ch hloop hkey hopen hroom hbuf hch =>
      have hk : c'.peerId = k := hs.peer hkey
      have hnodup : k ∉ rest := (List.nodup_cons.mp (hw m _ hloop).1).1
      have := hrest m k rest
      by_cases hc : c' = c
      · subst hc
        simp only [copies, placed, Hub.owes, hloop, Loop.owes, List.filterMap_cons, if_true,
          List.filterMap_nil, List.countP_cons, List.countP_nil, hk, List.mem_cons, hnodup]
        simp
      · have hnone : copies c n [.put c' m] = 0 := copies_of_placed (by simp [placed, hc])
        simp only [Hub.owes, hloop, hnone]
        omega
  | rangeDone hloop =>
      simp only [Hub.owes, hloop, Loop.owes]
      show 0 + _ ≤ _
      omega
  | tick => exact Nat.le_of_eq (Nat.zero_add _)

/-- A walk puts nothing on the queue of a connection that is not listed. -/
theorem HubView.Act.placed_of_absent {v v' : HubView} {a : HubAction} {o : List Event}
    (h : v.Act a v' o) {c : Connection} (hc : ∀ k, v.hub.connections.lookup k ≠ some c) :
    placed c o = [] := by
  cases h with
  | take | skip | panic | overflow | rangeDone | tick => rfl
  | @put m k rest c' ch hloop hkey =>
      have hne : c' ≠ c := by
        rintro rfl
        exact hc k hkey
      simp [placed, hne]

namespace HubRooms

variable {d : Deployment} {s t : HubRooms} {a : RoomsAction} {l o : List Event}

/-! ## The walks of the server -/

def WalksOk (s : HubRooms) : Prop := ∀ r, (s.view r).WalkOk

/-- A hub that stands at its `select` has no walk. -/
theorem walkOk_of_select {v : HubView} (h : v.hub.loop = .select) : v.WalkOk := by
  intro m rest hloop
  exact absurd (h.symm.trans hloop) (by simp)

theorem WalksOk.putView (h : s.WalksOk) {r : String} {v : HubView} (hv : v.WalkOk)
    (ht : t.rooms = (s.putView r v).rooms) : t.WalksOk := by
  intro r' m rest hloop
  simp only [view, ht, putView_rooms] at hloop ⊢
  split at hloop
  · rename_i hr
    simp only [if_pos hr]
    exact hv m rest hloop
  · rename_i hr
    simp only [if_neg hr]
    exact h r' m rest hloop

theorem WalksOk.step (hi : s.Inv d) (h : s.WalksOk) (hstep : s.Step d a t o) : t.WalksOk := by
  cases hstep with
  | life | drain | start | acquire | skipRoom | absent | found | sendPeer | sendPanic | finish =>
      exact h
  | register hreg hloop hv =>
      subst hv
      exact h.putView (walkOk_of_select hloop) rfl
  | unregister hreader hloop hv =>
      refine h.putView (walkOk_of_select ?_) rfl
      cases hv <;> exact hloop
  | hub hr hv => exact h.putView ((h _).act (hi.rooms.sound _) hv) rfl
  | @push i m r roomIds ch hcall hr hbuf =>
      exact h.putView (v := ⟨{ s.rooms r with broadcast := ch }, s.send, s.panicked⟩) (h r) rfl

/-! ## The budget of a message -/

/-- What has been put of message `n`, what the hub of the connection's room has still to put and
what any call has still to pass on stays within `k`. -/
def Within (d : Deployment) (n : ℕ) (k : Connection → ℕ) (s : HubRooms) (l : List Event) : Prop :=
  ∀ c i, copies c n l + (s.rooms (d.getRoomId c.peerId)).owes c n + (s.calls i).owes d c n ≤ k c

variable {n : ℕ} {k : Connection → ℕ}

/-- A step of the rooms, in which a hub puts no more than it owes. -/
theorem Within.rooms (h : s.Within d n k l) (hcalls : t.calls = s.calls)
    (howes : ∀ c, copies c n o + (t.rooms (d.getRoomId c.peerId)).owes c n ≤
      (s.rooms (d.getRoomId c.peerId)).owes c n) : t.Within d n k (l ++ o) := by
  intro c i
  have hc := h c i
  have ho := howes c
  rw [copies_append, hcalls]
  omega

/-- A call takes a position in which it has nothing of message `n` to pass on. -/
theorem Within.enter (h : s.Within d n k l) {i : ℕ} {x : Call}
    (hcalls : t.calls = Function.update s.calls i x) (hrooms : t.rooms = s.rooms)
    (hx : ∀ c, x.owes d c n = 0) : t.Within d n k (l ++ []) := by
  intro c j
  have hc := h c j
  rw [List.append_nil, hrooms, hcalls, Function.update_apply]
  split
  · rw [hx]
    omega
  · exact hc

/-- The call with the token goes on and passes on what it owes no longer. -/
theorem Within.move (hc : s.CallsOk) (h : s.Within d n k l) {i : ℕ} {m : PushMsg} {x : Call}
    (hheld : (s.calls i).held = some m) (hcalls : t.calls = Function.update s.calls i x)
    (howes : ∀ c, copies c n o + (t.rooms (d.getRoomId c.peerId)).owes c n + x.owes d c n ≤
      (s.rooms (d.getRoomId c.peerId)).owes c n + (s.calls i).owes d c n) :
    t.Within d n k (l ++ o) := by
  intro c j
  have hi := h c i
  have ho := howes c
  rw [copies_append, hcalls, Function.update_apply]
  split
  · omega
  · -- another call has no message
    rename_i hj
    have hnone : (s.calls j).held = none := by
      by_contra hne
      obtain ⟨m', hm'⟩ := Option.ne_none_iff_exists'.mp hne
      exact hj (hc.unique hm' hheld)
    rw [Call.owes_of_held_none hnone]
    omega

theorem Within.hub (hi : s.Inv d) (hw : s.WalksOk) (h : s.Within d n k l) {r : String}
    {ha : HubAction} {v : HubView} (hv : (s.view r).Act ha v o) :
    (s.putView r v).Within d n k (l ++ o) := by
  refine h.rooms rfl fun c => ?_
  rw [putView_rooms]
  split
  · rename_i hr
    rw [hr]
    exact hv.owes (hi.rooms.sound r) (hw r) c n
  · -- the hub of another room
    rename_i hr
    have habsent : ∀ k, (s.view r).hub.connections.lookup k ≠ some c :=
      fun k hk => hr (hi.rooms.home hk)
    rw [copies_of_placed (hv.placed_of_absent habsent), Nat.zero_add]

/-- Within the budget of a message that has its id, or gets it later. -/
theorem Within.step (hi : s.Inv d) (hw : s.WalksOk) (h : s.Within d n k l)
    (hn : n ≤ s.stats.totalMsgCnt ∨ t.stats.totalMsgCnt < n) (hstep : s.Step d a t o) :
    t.Within d n k (l ++ o) := by
  cases hstep with
  | life | sendPanic => exact h.rooms rfl fun c => Nat.le_of_eq (Nat.zero_add _)
  | drain => exact h.rooms rfl fun c => Nat.le_of_eq (Nat.zero_add _)
  | register hreg hloop hv =>
      subst hv
      refine h.rooms rfl fun c => ?_
      simp only [HubRooms.setConn, putView_rooms]
      show 0 + _ ≤ _
      split
      · rename_i hr
        rw [hr]
        exact Nat.le_of_eq (Nat.zero_add _)
      · omega
  | unregister hreader hloop hv =>
      refine h.rooms rfl fun c => ?_
      rw [copies_of_placed (hv.send_buf c).2.1, Nat.zero_add]
      simp only [HubRooms.setConn, putView_rooms]
      split
      · rename_i hr
        rw [hr]
        cases hv <;> exact Nat.le_refl _
      · exact Nat.le_refl _
  | hub hr hv => exact h.hub hi hw hv
  | start => exact h.enter rfl rfl fun c => rfl
  | @acquire i order req hcall htoken horder =>
      have hne : (s.nextMsg req).msgId ≠ n := by
        show s.stats.totalMsgCnt + 1 ≠ n
        have : n ≤ s.stats.totalMsgCnt ∨ s.stats.totalMsgCnt + 1 < n := hn
        omega
      exact h.enter rfl rfl fun c => Call.owes_of_ne (held_begin _ order req) hne
  | @push i m r roomIds ch hcall hr hbuf =>
      refine h.move hi.calls (i := i) (m := m) (by rw [hcall]; rfl) rfl fun c => ?_
      simp only [HubRooms.setCall, Function.update_apply, hcall, Call.owes, List.count_cons]
      show 0 + _ + _ ≤ _
      by_cases hrc : d.getRoomId c.peerId = r
      · simp only [hrc, if_true, Hub.owes, hbuf, List.countP_append, List.countP_singleton,
          beq_self_eq_true, decide_eq_true_eq]
        split <;> omega
      · simp only [hrc, if_false]
        split <;> omega
  | @skipRoom i m r roomIds hcall =>
      refine h.move hi.calls (i := i) (m := m) (by rw [hcall]; rfl) rfl fun c => ?_
      simp only [HubRooms.setCall, hcall, Call.owes, List.count_cons]
      show 0 + _ + _ ≤ _
      split <;> omega
  | @absent i m p peerIds hcall hkey =>
      refine h.move hi.calls (i := i) (m := m) (by rw [hcall]; rfl) rfl fun c => ?_
      simp only [HubRooms.setCall, hcall, Call.owes, List.count_cons]
      show 0 + _ + _ ≤ _
      split <;> omega
  | @found i m p peerIds c' hcall hkey =>
      have hp : c'.peerId = p := (hi.rooms.sound _).peer hkey
      refine h.move hi.calls (i := i) (m := m) (by rw [hcall]; rfl) rfl fun c => ?_
      simp only [HubRooms.setCall, hcall, Call.owes, List.count_cons, ← hp]
      show 0 + _ + _ ≤ _
      by_cases hcc : c' = c
      · simp only [hcc, if_true, beq_self_eq_true]
        split <;> omega
      · simp only [hcc, if_false]
        split <;> omega
  | @sendPeer i m c' peerIds ch hcall hopen hbuf hch =>
      refine h.move hi.calls (i := i) (m := m) (by rw [hcall]; rfl) rfl fun c => ?_
      simp only [HubRooms.setCall, hcall, Call.owes]
      by_cases hcc : c' = c
      · simp only [copies, placed, List.filterMap_cons, hcc, if_true, List.filterMap_nil,
          List.countP_singleton, decide_eq_true_eq]
        split <;> omega
      · rw [copies_of_placed (by simp [placed, hcc])]
        simp only [hcc, if_false]
        split <;> omega
  | finish => exact h.enter rfl rfl fun c => rfl

/-- A call that takes its id may put what its request names. -/
theorem Within.acquire (h : s.Within d (s.stats.totalMsgCnt + 1) (fun _ => 0) l) {i : ℕ}
    {order : List String} {req : Request} (horder : req.VisitOrder d order)
    (hcalls : t.calls = Function.update s.calls i (req.begin (s.nextMsg req) order))
    (hrooms : t.rooms = s.rooms) :
    t.Within d (s.stats.totalMsgCnt + 1) (fun c => req.names d c) (l ++ []) := by
  intro c j
  have hc := h c j
  rw [List.append_nil, hrooms, hcalls, Function.update_apply]
  split
  · have hnew : (req.begin (s.nextMsg req) order).owes d c (s.stats.totalMsgCnt + 1) =
        req.names d c := Request.owes_begin horder c (s.nextMsg req)
    simp only [hnew] at hc ⊢
    omega
  · exact hc.trans (Nat.zero_le _)

/-! ## Runs -/

theorem Step.cnt_le (h : s.Step d a t o) : s.stats.totalMsgCnt ≤ t.stats.totalMsgCnt := by
  cases h with
  | acquire => exact Nat.le_succ _
  | life | register | unregister | hub | drain | start | push | skipRoom | absent | found |
    sendPeer | sendPanic | finish => exact Nat.le_refl _

/-- Of a message without an id there is no copy. -/
structure Unissued (d : Deployment) (s : HubRooms) (l : List Event) : Prop where
  inv : s.Inv d
  walks : s.WalksOk
  none : ∀ n, s.stats.totalMsgCnt < n → s.Within d n (fun _ => 0) l

theorem Unissued.init (d : Deployment) : (hubRooms d).init.Unissued d [] := by
  refine ⟨.init d, fun r => walkOk_of_select rfl, fun n _ c i => ?_⟩
  exact Nat.le_refl _

theorem Unissued.step (h : s.Unissued d l) (hstep : s.Step d a t o) : t.Unissued d (l ++ o) := by
  refine ⟨h.inv.step hstep, h.walks.step h.inv hstep, fun n hn => ?_⟩
  exact (h.none n (hstep.cnt_le.trans_lt hn)).step h.inv h.walks (.inr hn) hstep

/-- The budget of a message that has its id. -/
structure Issued (d : Deployment) (n : ℕ) (k : Connection → ℕ) (s : HubRooms) (l : List Event) :
    Prop where
  inv : s.Inv d
  walks : s.WalksOk
  le_cnt : n ≤ s.stats.totalMsgCnt
  within : s.Within d n k l

theorem Issued.step (h : s.Issued d n k l) (hstep : s.Step d a t o) : t.Issued d n k (l ++ o) :=
  ⟨h.inv.step hstep, h.walks.step h.inv hstep, h.le_cnt.trans hstep.cnt_le,
    h.within.step h.inv h.walks (.inl h.le_cnt) hstep⟩

end HubRooms

/-- **In every run, a call puts at most as many copies of its message on a send queue as its list
names the room or the peer of the connection, and so at most one if the list repeats no id.** -/
theorem copies_le_names {d : Deployment} (r : (hubRooms d).Run) {pre : List RoomsAction} {i : ℕ}
    {order : List String} {s : HubRooms} {l : List Event} {req : Request}
    (hpre : pre ++ [.acquire i order] <+: r.acts) (hexec : (hubRooms d).exec pre = some (s, l))
    (hcall : s.calls i = .waiting req) (c : Connection) :
    copies c (s.nextMsg req).msgId r.log ≤ req.names d c ∧
      ((req.targets d).Nodup → copies c (s.nextMsg req).msgId r.log ≤ 1) := by
  obtain ⟨rest, hrest⟩ := hpre
  have hrun : (hubRooms d).exec ((pre ++ [.acquire i order]) ++ rest) = some (r.last, r.log) :=
    hrest ▸ r.exec_eq
  obtain ⟨t, l₁, l₂, hfirst, hlater, hlog⟩ := (hubRooms d).execFrom_append_iff.mp hrun
  obtain ⟨s', l', o, hexec', hstep, rfl⟩ := (hubRooms d).exec_concat_iff.mp hfirst
  obtain ⟨rfl, rfl⟩ := Prod.mk.inj (Option.some.inj (hexec.symm.trans hexec'))
  have hun : s.Unissued d l := Machine.invariant_of_exec (.init d)
    (fun s l a t o h ha => h.step (HubRooms.step_cases ha).2) hexec
  have hcases := (HubRooms.step_cases hstep).2
  -- right after the step that takes the id, the call has to pass on what its request names
  have hissued : t.Issued d (s.nextMsg req).msgId (fun c => req.names d c) (l ++ o) := by
    refine ⟨hun.inv.step hcases, hun.walks.step hun.inv hcases, ?_, ?_⟩
    · cases hcases with
      | acquire => exact Nat.le_refl _
    · cases hcases with
      | @acquire _ _ req' hcall' htoken horder =>
          obtain rfl := Call.waiting.inj (hcall.symm.trans hcall')
          exact (hun.none _ (Nat.lt_succ_self _)).acquire horder rfl rfl
  have hlast : r.last.Issued d (s.nextMsg req).msgId (fun c => req.names d c) r.log := by
    rw [hlog]
    exact Machine.invariant_of_execFrom (M := hubRooms d)
      (fun s l a t o h ha => h.step (HubRooms.step_cases ha).2) hissued hlater
  have hle : copies c (s.nextMsg req).msgId r.log ≤ req.names d c := by
    have hc := hlast.within c 0
    omega
  exact ⟨hle, fun hnodup => hle.trans (List.nodup_iff_count_le_one.mp hnodup _)⟩

/-! ## Repeated ids -/

/-- The peer connects, and a call for `req` waits for the token. -/
def waitingCall (req : Request) : List RoomsAction := connect ⟨0, "p"⟩ ++ [.start 0 req]

/-- The message of call 0 is pushed twice and its hub walks twice. -/
def twicePushed : List RoomsAction :=
  [.push 0, .push 0, .finish 0 0, .hub "room_0" .tick, .hub "room_0" .tick,
    .hub "room_0" (.take ["p"]), .hub "room_0" .attempt, .hub "room_0" .rangeDone,
    .hub "room_0" (.take ["p"]), .hub "room_0" .attempt]

/-- The message of call 0 is sent to two peers. -/
def twiceSent : List RoomsAction :=
  [.lookup 0, .sendPeer 0, .lookup 0, .sendPeer 0, .finish 0 0]

/-- A call for the room of a connection puts its message there at most once. -/
theorem onePush_copies :
    ∃ r : (hubRooms oneRoom).Run, copies ⟨0, "p"⟩ 1 r.log ≤ 1 := by
  let r : (hubRooms oneRoom).Run := .ofActs
    (waitingCall (.rooms ["room_0"] [1]) ++ [.acquire 0 []] ++ [.push 0]) (by decide +kernel)
  have hexec : ∃ s l, (hubRooms oneRoom).exec (waitingCall (.rooms ["room_0"] [1])) = some (s, l) ∧
      s.calls 0 = .waiting (.rooms ["room_0"] [1]) ∧ s.stats.totalMsgCnt = 0 := by
    refine ⟨_, _, rfl, rfl, rfl⟩
  obtain ⟨s, l, hexec, hcall, hcnt⟩ := hexec
  refine ⟨r, ?_⟩
  have h := (copies_le_names r ⟨[.push 0], rfl⟩ hexec hcall ⟨0, "p"⟩).2 (by decide)
  simpa [HubRooms.nextMsg, hcnt] using h

/-- The room of the set `"0,0"` gets the message of one call twice, and so does the peer of the list
`"p,p"`. -/
theorem repeatedIds_copied :
    (setRoomIds "0,0" = ["room_0", "room_0"] ∧
      ∃ r : (hubRooms oneRoom).Run,
        waitingCall (.rooms ["room_0", "room_0"] [1]) ++ [.acquire 0 []] <+: r.acts ∧
          copies ⟨0, "p"⟩ 1 r.log = 2) ∧
    splitPeerIds "p,p" = ["p", "p"] ∧
      ∃ r : (hubRooms oneRoom).Run,
        waitingCall (.peers ["p", "p"] [1]) ++ [.acquire 0 []] <+: r.acts ∧
          copies ⟨0, "p"⟩ 1 r.log = 2 := by
  have hset : ("0,0" : String).splitOn "," = ["0", "0"] :=
    splitOn_intercalate (c := ',') (l := ["0", "0"]) (by decide) (by decide)
  have hpeers : ("p,p" : String).splitOn "," = ["p", "p"] :=
    splitOn_intercalate (c := ',') (l := ["p", "p"]) (by decide) (by decide)
  refine ⟨⟨?_, .ofActs (_ ++ twicePushed) ?_, ⟨twicePushed, rfl⟩, ?_⟩, ?_,
    .ofActs (_ ++ twiceSent) ?_, ⟨twiceSent, rfl⟩, ?_⟩
  · rw [setRoomIds, hset]
    decide
  · decide +kernel
  · decide +kernel
  · rw [splitPeerIds, hpeers]
    decide
  · decide +kernel
  · decide +kernel

end Skytime
