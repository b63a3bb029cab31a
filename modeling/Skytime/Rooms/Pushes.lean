/-
# Skytime.Rooms.Pushes — the rooms that a call of `broadcast_rooms` pushes its message to.

The run is observed through three events: a call for a list of rooms takes its message id, it pushes
its message to a room, a call returns the token. Whatever runs beside it, a call that has finished
has pushed its message to the rooms of its list that exist, once for each time they are listed.
-/
import Skytime.Rooms.Invariant

namespace Skytime

open Process

inductive PushEvent where
  /-- a call of `broadcast_rooms` has taken the token and the message id -/
  | began (roomIds : List String) (msgId : ℕ)
  /-- `v.broadcast <- push_msg` -/
  | pushed (msgId : ℕ) (roomId : String)
  /-- the call of this message has returned the token -/
  | ended (msgId : ℕ)
  deriving DecidableEq, Repr

/-- What a step shows of the calls. -/
def seePushes (d : Deployment) (s : HubRooms) (a : RoomsAction) (_ : HubRooms) : List PushEvent :=
  match a with
  | .acquire i _ =>
    match s.calls i with
    | .waiting (.rooms roomIds body) => [.began roomIds (s.nextMsg (.rooms roomIds body)).msgId]
    | _ => []
  | .push i =>
    match s.calls i with
    | .pushing m (r :: _) => if r ∈ d.roomsIds then [.pushed m.msgId r] else []
    | _ => []
  | .finish i _ =>
    match (s.calls i).held with
    | some m => [.ended m.msgId]
    | none => []
  | _ => []

/-- The server, observed through its calls. -/
def roomPushes (d : Deployment) : Machine HubRooms RoomsAction PushEvent :=
  (hubRooms d).observe (seePushes d)

/-- The rooms to which message `n` has been pushed, in order. -/
def pushedRooms (n : ℕ) (l : List PushEvent) : List String :=
  l.filterMap fun
    | .pushed msgId roomId => if msgId = n then some roomId else none
    | _ => none

@[simp] theorem pushedRooms_append (n : ℕ) (l o : List PushEvent) :
    pushedRooms n (l ++ o) = pushedRooms n l ++ pushedRooms n o := List.filterMap_append

/-- The members of a list of room ids that name a room. -/
def Deployment.existing (d : Deployment) (roomIds : List String) : List String :=
  roomIds.filter (· ∈ d.roomsIds)

namespace HubRooms

variable {d : Deployment} {s t : HubRooms} {a : RoomsAction} {l o : List PushEvent}

/-- A call goes through its list with message `n`, or has returned. -/
def Passing (d : Deployment) (n : ℕ) (roomIds : List String) (s : HubRooms) (l : List PushEvent) :
    Prop :=
  (.ended n ∈ l ∧ pushedRooms n l = d.existing roomIds) ∨
    (.ended n ∉ l ∧ ∃ i m rest, s.calls i = .pushing m rest ∧ m.msgId = n ∧
      pushedRooms n l ++ d.existing rest = d.existing roomIds)

/-- Ids that have not been issued have left no trace, and the message of a call that holds the token
has not ended. -/
structure Pushes (d : Deployment) (s : HubRooms) (l : List PushEvent) : Prop where
  fresh : ∀ n, s.stats.totalMsgCnt < n → pushedRooms n l = [] ∧ .ended n ∉ l ∧
    ∀ roomIds, .began roomIds n ∉ l
  open_held : ∀ i m, (s.calls i).held = some m → .ended m.msgId ∉ l
  passing : ∀ roomIds n, .began roomIds n ∈ l → s.Passing d n roomIds l

theorem Pushes.init (d : Deployment) : (hubRooms d).init.Pushes d [] :=
  ⟨fun _ _ => ⟨rfl, List.not_mem_nil, fun _ => List.not_mem_nil⟩,
    fun _ _ _ => List.not_mem_nil, fun _ _ h => absurd h List.not_mem_nil⟩

/-- A step that shows nothing and leaves every pushing call where it is. -/
theorem Pushes.quiet (h : s.Pushes d l) (hcnt : t.stats.totalMsgCnt = s.stats.totalMsgCnt)
    (hheld : ∀ i, (t.calls i).held = (s.calls i).held)
    (hpushing : ∀ i m rest, s.calls i = .pushing m rest → t.calls i = .pushing m rest) :
    t.Pushes d (l ++ []) := by
  rw [List.append_nil]
  refine ⟨fun n hn => h.fresh n (hcnt ▸ hn), fun i m hi => h.open_held i m (hheld i ▸ hi), ?_⟩
  intro roomIds n hn
  rcases h.passing roomIds n hn with hend | ⟨hopen, i, m, rest, hcall, hm⟩
  · exact .inl hend
  · exact .inr ⟨hopen, i, m, rest, hpushing i m rest hcall, hm⟩

/-- A call goes on from a position in which it was not pushing, with the same message. -/
theorem Pushes.move (h : s.Pushes d l) {i : ℕ} {x : Call}
    (hcnt : t.stats.totalMsgCnt = s.stats.totalMsgCnt)
    (hcalls : t.calls = Function.update s.calls i x) (hx : x.held = (s.calls i).held)
    (hnot : ∀ m rest, s.calls i ≠ .pushing m rest) : t.Pushes d (l ++ []) := by
  refine h.quiet hcnt (fun j => ?_) (fun j m rest hj => ?_)
  · rw [hcalls, Function.update_apply]
    split
    · rename_i hji
      rw [hx, hji]
    · rfl
  · have hne : j ≠ i := by
      rintro rfl
      exact hnot m rest hj
    rw [hcalls, Function.update_of_ne hne, hj]

/-- A call takes the token and the next message id. -/
theorem Pushes.acquire (hc : s.CallsOk) (htoken : s.broadcastMu = true) (h : s.Pushes d l)
    {i : ℕ} {m : PushMsg} {x : Call} (hx : x.held = some m)
    (hm : m.msgId = s.stats.totalMsgCnt + 1)
    (hcnt : t.stats.totalMsgCnt = s.stats.totalMsgCnt + 1)
    (hcalls : t.calls = Function.update s.calls i x)
    (ho : ∀ e ∈ o, ∃ roomIds, e = .began roomIds m.msgId ∧ x = .pushing m roomIds) :
    t.Pushes d (l ++ o) := by
  have hpushed : ∀ n, pushedRooms n o = [] := by
    intro n
    apply List.filterMap_eq_nil_iff.mpr
    intro e he
    obtain ⟨roomIds, rfl, -⟩ := ho e he
    rfl
  have hended : ∀ n, .ended n ∉ o := by
    intro n hn
    obtain ⟨roomIds, heq, -⟩ := ho _ hn
    exact absurd heq (by simp)
  have hfree : ∀ j, (s.calls j).held = none := by
    intro j
    by_contra hj
    exact absurd (hc.token.not_free (i := j) hj) (by simp [htoken])
  obtain ⟨hnew, hopen, hnone⟩ := h.fresh m.msgId (by omega)
  refine ⟨fun n hn => ?_, fun j m' hj => ?_, fun roomIds n hn => ?_⟩
  · obtain ⟨hp, he, hb⟩ := h.fresh n (by omega)
    refine ⟨by rw [pushedRooms_append, hp, hpushed, List.append_nil], ?_, fun roomIds hmem => ?_⟩
    · simp [he, hended]
    · rcases List.mem_append.mp hmem with hmem | hmem
      · exact hb roomIds hmem
      · obtain ⟨_, heq, -⟩ := ho _ hmem
        have hid : n = m.msgId := (PushEvent.began.inj heq).2
        omega
  · rw [hcalls, Function.update_apply] at hj
    split at hj
    · rw [hx] at hj
      obtain rfl := Option.some.inj hj
      simp [hopen, hended]
    · exact absurd ((hfree j).symm.trans hj) (by simp)
  · rcases List.mem_append.mp hn with hn | hn
    · -- a call that has begun before has returned, since the token was free
      rcases h.passing roomIds n hn with ⟨hend, hdone⟩ | ⟨-, j, m', rest, hcall, -⟩
      · refine .inl ⟨List.mem_append_left _ hend, ?_⟩
        rw [pushedRooms_append, hpushed, List.append_nil, hdone]
      · have hj := hfree j
        rw [hcall] at hj
        exact absurd hj (by simp [Call.held])
    · obtain ⟨roomIds', heq, hcall⟩ := ho _ hn
      obtain ⟨rfl, rfl⟩ := PushEvent.began.inj heq
      refine .inr ⟨by simp [hopen, hended], i, m, roomIds, ?_, rfl, ?_⟩
      · rw [hcalls, Function.update_self, hcall]
      · rw [pushedRooms_append, hnew, hpushed, List.append_nil, List.nil_append]

/-- The call with the token passes the first room of its list. -/
theorem Pushes.push (hc : s.CallsOk) (h : s.Pushes d l) {i : ℕ} {m : PushMsg} {r : String}
    {rest : List String} (hcall : s.calls i = .pushing m (r :: rest))
    (hcnt : t.stats.totalMsgCnt = s.stats.totalMsgCnt)
    (hcalls : t.calls = Function.update s.calls i (.pushing m rest))
    (ho : o = if r ∈ d.roomsIds then [.pushed m.msgId r] else []) : t.Pushes d (l ++ o) := by
  have hheld : (s.calls i).held = some m := by
    rw [hcall]
    rfl
  have hid : m.msgId = s.stats.totalMsgCnt := hc.held_id hheld
  have hpushed : pushedRooms m.msgId o = d.existing [r] := by
    subst ho
    by_cases hr : r ∈ d.roomsIds <;> simp [pushedRooms, Deployment.existing, hr]
  have hother : ∀ n, n ≠ m.msgId → pushedRooms n o = [] := by
    intro n hn
    subst ho
    split <;> simp [pushedRooms, Ne.symm hn]
  have hquiet : ∀ n, .ended n ∉ o ∧ ∀ roomIds, .began roomIds n ∉ o := by
    intro n
    subst ho
    split <;> simp
  refine ⟨fun n hn => ?_, fun j m' hj => ?_, fun roomIds n hn => ?_⟩
  · obtain ⟨hp, he, hb⟩ := h.fresh n (by omega)
    refine ⟨?_, by simp [he, hquiet], fun roomIds => by simp [hb, hquiet]⟩
    rw [pushedRooms_append, hp, hother n (by omega), List.append_nil]
  · have hj' : (s.calls j).held = some m' := by
      rw [hcalls, Function.update_apply] at hj
      split at hj
      · rename_i hji
        rw [hji, hheld]
        exact hj
      · exact hj
    simp [h.open_held j m' hj', hquiet]
  · have hn' : .began roomIds n ∈ l := by simpa [hquiet] using hn
    rcases h.passing roomIds n hn' with ⟨hend, hdone⟩ | ⟨hopen, j, m', rest', hj, rfl, hway⟩
    · have hne : n ≠ m.msgId := by
        rintro rfl
        exact h.open_held i m hheld hend
      refine .inl ⟨List.mem_append_left _ hend, ?_⟩
      rw [pushedRooms_append, hother n hne, List.append_nil, hdone]
    · obtain rfl : j = i := hc.unique (by rw [hj]; rfl) hheld
      obtain ⟨rfl, rfl⟩ := Call.pushing.inj (hj.symm.trans hcall)
      refine .inr ⟨by simp [hopen, hquiet], j, m', rest, ?_, rfl, ?_⟩
      · rw [hcalls, Function.update_self]
      · rw [pushedRooms_append, hpushed, List.append_assoc, ← hway]
        congr 1
        rw [Deployment.existing, Deployment.existing, ← List.filter_append]
        rfl

/-- The call with the token gives it back at the end of its list. -/
theorem Pushes.finish (hc : s.CallsOk) (h : s.Pushes d l) {i : ℕ} {m : PushMsg}
    (hcall : s.calls i = .pushing m [] ∨ s.calls i = .looking m [])
    (hcnt : t.stats.totalMsgCnt = s.stats.totalMsgCnt)
    (hcalls : t.calls = Function.update s.calls i .idle) :
    t.Pushes d (l ++ [.ended m.msgId]) := by
  have hheld : (s.calls i).held = some m := by
    rcases hcall with hcall | hcall <;> rw [hcall] <;> rfl
  have hid : m.msgId = s.stats.totalMsgCnt := hc.held_id hheld
  have hpushed : ∀ n, pushedRooms n (l ++ [.ended m.msgId]) = pushedRooms n l := by
    intro n
    rw [pushedRooms_append]
    exact List.append_nil _
  refine ⟨fun n hn => ?_, fun j m' hj => ?_, fun roomIds n hn => ?_⟩
  · obtain ⟨hp, he, hb⟩ := h.fresh n (by omega)
    have hne : n ≠ m.msgId := by omega
    exact ⟨(hpushed n).trans hp, by simp [he, hne], fun roomIds => by simp [hb]⟩
  · -- no other call holds the token
    rw [hcalls, Function.update_apply] at hj
    split at hj
    · exact absurd hj (by simp [Call.held])
    · rename_i hne
      exact absurd (hc.unique hj hheld) hne
  · have hn' : .began roomIds n ∈ l := by simpa using hn
    rcases h.passing roomIds n hn' with ⟨hend, hdone⟩ | ⟨hopen, j, m', rest, hj, rfl, hway⟩
    · exact .inl ⟨List.mem_append_left _ hend, (hpushed n).trans hdone⟩
    · obtain rfl : j = i := hc.unique (by rw [hj]; rfl) hheld
      rcases hcall with hcall | hcall
      · obtain ⟨rfl, rfl⟩ := Call.pushing.inj (hj.symm.trans hcall)
        refine .inl ⟨by simp, (hpushed m'.msgId).trans ?_⟩
        rw [← hway]
        exact (List.append_nil _).symm
      · exact absurd (hj.symm.trans hcall) (by simp)

theorem Pushes.step {k : List Event} (hc : s.CallsOk) (h : s.Pushes d l)
    (hstep : s.Step d a t k) : t.Pushes d (l ++ seePushes d s a t) := by
  cases hstep with
  | life | register | unregister | hub | drain | sendPanic =>
      exact h.quiet rfl (fun _ => rfl) (fun _ _ _ hcall => hcall)
  | start hcall => exact h.move rfl rfl (by rw [hcall]; rfl) (by simp [hcall])
  | absent hcall | found hcall | sendPeer hcall =>
      exact h.move rfl rfl (by rw [hcall]; rfl) (by simp [hcall])
  | @acquire i order req hcall htoken horder =>
      refine h.acquire hc htoken (held_begin (s.nextMsg req) order req) rfl rfl rfl ?_
      intro e he
      simp only [seePushes, hcall] at he
      cases req with
      | all | peers => exact absurd he List.not_mem_nil
      | rooms roomIds body => exact ⟨roomIds, List.mem_singleton.mp he, rfl⟩
  | push hcall hr =>
      refine h.push hc hcall rfl rfl ?_
      simp only [seePushes, hcall]
  | skipRoom hcall hr =>
      refine h.push hc hcall rfl rfl ?_
      simp only [seePushes, hcall]
  | @finish i diff m hcall =>
      have hsee : ∀ t', seePushes d s (.finish i diff) t' = [.ended m.msgId] := by
        intro t'
        rcases hcall with hcall | hcall <;> simp [seePushes, hcall, Call.held]
      rw [hsee]
      exact h.finish hc hcall rfl rfl

end HubRooms

/-- **In every run, a call of `broadcast_rooms` that has returned the token has pushed its message
to the rooms of its list that exist, in order, once for each time they are listed.** -/
theorem pushedRooms_of_ended {d : Deployment} (r : (roomPushes d).Run) {roomIds : List String}
    {n : ℕ} (hbegan : .began roomIds n ∈ r.log) (hended : .ended n ∈ r.log) :
    pushedRooms n r.log = d.existing roomIds := by
  have hall : r.Always fun s l => s.Pushes d l := by
    refine Machine.Run.always_observe (J := HubRooms.Inv d) (.init d)
      (fun s a t k hi ha => hi.step (HubRooms.step_cases ha).2) (.init d) ?_ r
    intro s l a t k hi h ha
    exact h.step hi.calls (HubRooms.step_cases ha).2
  rcases hall.last.passing roomIds n hbegan with ⟨-, hdone⟩ | ⟨hopen, -⟩
  · exact hdone
  · exact absurd hended hopen

/-! ## A call that finishes -/

/-- A call that holds the token passes the first room of its list, if its queue has space. -/
theorem exists_push {d : Deployment} {s : HubRooms} {i : ℕ} {m : PushMsg} {r : String}
    {rest : List String} (hrun : s.panicked = false) (hcall : s.calls i = .pushing m (r :: rest))
    (hspace : (s.rooms r).broadcast.closed = false ∧ ¬ (s.rooms r).broadcast.Full) :
    ∃ t, (hubRooms d).step s (.push i) = some (t, []) ∧ t.panicked = false ∧
      t.calls i = .pushing m rest ∧ ∀ r', r' ≠ r → t.rooms r' = s.rooms r' := by
  obtain ⟨ch, hch⟩ := Chan.exists_send_eq_sent m hspace.1 hspace.2
  rw [HubRooms.step_of_running hrun]
  by_cases hr : r ∈ d.roomsIds
  · refine ⟨{ s with
      rooms := Function.update s.rooms r { s.rooms r with broadcast := ch } }.setCall i
        (.pushing m rest), ?_, hrun, by simp [HubRooms.setCall], fun r' hr' => ?_⟩
    · simp only [HubRooms.stepRunning, HubRooms.push, hcall, if_pos hr, hch]
      rfl
    · exact Function.update_of_ne hr' _ _
  · refine ⟨s.setCall i (.pushing m rest), ?_, hrun, by simp [HubRooms.setCall], fun _ _ => rfl⟩
    simp only [HubRooms.stepRunning, HubRooms.push, hcall, if_neg hr]
    rfl

/-- While the queues of its rooms have space, a call that holds the token can go on to its end. -/
theorem exists_ended {d : Deployment} {s : HubRooms} {i : ℕ} {m : PushMsg} {rest : List String}
    (hrun : s.panicked = false) (hcall : s.calls i = .pushing m rest) (hnodup : rest.Nodup)
    (hspace : ∀ r ∈ rest, (s.rooms r).broadcast.closed = false ∧ ¬ (s.rooms r).broadcast.Full) :
    ∃ as t l, (roomPushes d).execFrom s as = some (t, l) ∧ .ended m.msgId ∈ l := by
  induction rest generalizing s with
  | nil =>
      have hstep : ∃ t, (hubRooms d).step s (.finish i 0) = some (t, []) := by
        rw [HubRooms.step_of_running hrun]
        simp only [HubRooms.stepRunning, HubRooms.finish, hcall]
        exact ⟨_, rfl⟩
      obtain ⟨t, hstep⟩ := hstep
      have hsee : seePushes d s (.finish i 0) t = [.ended m.msgId] := by
        simp [seePushes, hcall, Call.held]
      refine ⟨[.finish i 0], t, [.ended m.msgId], ?_, List.mem_singleton_self _⟩
      exact (roomPushes d).execFrom_cons_iff.mpr
        ⟨t, _, [], Machine.observe_step_iff.mpr ⟨[], hstep, rfl⟩, rfl, by simp [hsee]⟩
  | cons r rest ih =>
      obtain ⟨hr, hnodup⟩ := List.nodup_cons.mp hnodup
      obtain ⟨t, hstep, hrun', hcall', hrooms⟩ :=
        exists_push (d := d) hrun hcall (hspace r List.mem_cons_self)
      -- the rooms that are still to come have not been touched
      have hspace' : ∀ r' ∈ rest,
          (t.rooms r').broadcast.closed = false ∧ ¬ (t.rooms r').broadcast.Full := by
        intro r' hr'
        have hne : r' ≠ r := by
          rintro rfl
          exact hr hr'
        rw [hrooms r' hne]
        exact hspace r' (List.mem_cons_of_mem _ hr')
      obtain ⟨as, u, l, hexec, hended⟩ := ih hrun' hcall' hnodup hspace'
      refine ⟨.push i :: as, u, _, (roomPushes d).execFrom_cons_iff.mpr
        ⟨t, _, l, Machine.observe_step_iff.mpr ⟨[], hstep, rfl⟩, hexec, rfl⟩, ?_⟩
      exact List.mem_append_right _ hended

/-- A call for rooms that are listed once each can finish. -/
theorem exists_pushes (d : Deployment) {roomIds : List String} (hnodup : roomIds.Nodup) :
    ∃ (r : (roomPushes d).Run) (n : ℕ), .began roomIds n ∈ r.log ∧ .ended n ∈ r.log := by
  have hbegin : ∃ s, (roomPushes d).exec [.start 0 (.rooms roomIds []), .acquire 0 []] =
      some (s, [.began roomIds 1]) ∧ s.panicked = false ∧
      s.calls 0 = .pushing ⟨1, [], true⟩ roomIds ∧ ∀ r, s.rooms r = newHub :=
    ⟨_, rfl, rfl, rfl, fun _ => rfl⟩
  obtain ⟨s, hexec, hrun, hcall, hrooms⟩ := hbegin
  have hspace : ∀ r ∈ roomIds,
      (s.rooms r).broadcast.closed = false ∧ ¬ (s.rooms r).broadcast.Full := by
    intro r _
    rw [hrooms]
    decide
  obtain ⟨as, t, l, hlater, hended⟩ := exists_ended (d := d) hrun hcall hnodup hspace
  refine ⟨⟨_, t, _, (roomPushes d).execFrom_append_iff.mpr
    ⟨s, [.began roomIds 1], l, hexec, hlater, rfl⟩⟩, 1, ?_, ?_⟩
  · exact List.mem_append_left _ (List.mem_singleton_self _)
  · exact List.mem_append_right _ hended

end Skytime
