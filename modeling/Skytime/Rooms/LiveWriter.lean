/-
# Skytime.Rooms.LiveWriter — whether a full queue that a call waits for is drained.

`broadcast_peers` holds the token of all broadcasts while it waits for room in a send queue. A
connection is listed before its handler comes back from the app server and starts the writer, and it
stays listed after the writer has returned on a failed write, so the queue may have no consumer. The
condition `KeepsConsumer` names the three steps that leave a call in front of such a queue.
-/
import Skytime.Rooms.Invariant

namespace Skytime

open Process

namespace HubRooms

variable {d : Deployment} {s t : HubRooms} {a : RoomsAction} {l o : List Event}

/-- Whenever a call waits to send on a full queue, the writer of that connection has been started
and has not returned, and the call can get on. -/
def WriterLive (d : Deployment) (s : HubRooms) (_ : List Event) : Prop :=
  s.panicked = false → ∀ i m c peerIds, s.calls i = .sending m c peerIds →
    (s.send c).closed = false → (s.send c).Full →
      (s.conn c).writer = .running ∧
        (hubRooms d).CanReach s (fun t => t.calls i = .looking m peerIds)

/-- A call looks up a full queue only if its writer runs, a hub fills the last place of a queue that
a call is about to send on only if its writer runs, and no writer fails while a call waits for its
full queue. -/
def KeepsConsumer (d : Deployment) (s : HubRooms) (_ : List Event) : RoomsAction → Prop
  | .lookup i =>
    ∀ m p peerIds c, s.calls i = .looking m (p :: peerIds) →
      (s.rooms (d.getRoomId p)).connections.lookup p = some c → (s.send c).Full →
        (s.conn c).writer = .running
  | .hub r .attempt =>
    ∀ m k rest c, (s.rooms r).loop = .fanout m (k :: rest) →
      (s.rooms r).connections.lookup k = some c → (s.send c).buf.length + 1 = sendCap →
        s.SendingTo c → (s.conn c).writer = .running
  | .life c .writerFails =>
    (s.send c).closed = false → (s.send c).Full → ¬ s.SendingTo c
  | _ => True

/-! ## A running writer lets the call go on -/

/-- The writers of the full queues that calls wait for run. -/
def Consumed (s : HubRooms) : Prop :=
  ∀ c, s.SendingTo c → (s.send c).closed = false → (s.send c).Full → (s.conn c).writer = .running

/-- The writer takes a message, and the call sends. -/
theorem canReach_looking (hp : s.panicked = false) {i : ℕ} {m : PushMsg} {c : Connection}
    {peerIds : List String} (hcall : s.calls i = .sending m c peerIds)
    (hopen : (s.send c).closed = false) (hfull : (s.send c).Full)
    (hrun : (s.conn c).writer = .running) :
    (hubRooms d).CanReach s (fun t => t.calls i = .looking m peerIds) := by
  obtain ⟨m', ch, hrecv⟩ := Chan.exists_recv_eq_got (by decide) hfull
  obtain ⟨hbuf, hch⟩ := Chan.recv_eq_got_iff.mp hrecv
  have hroom : ¬ ch.Full := by
    unfold Chan.Full at hfull ⊢
    rw [hbuf, List.length_cons] at hfull
    omega
  obtain ⟨ch', hsend⟩ := Chan.exists_send_eq_sent m (hch.trans hopen) hroom
  have hdrain : (hubRooms d).step s (.drain c) =
      some ({ s with send := Function.update s.send c ch }, [.drained c m']) := by
    rw [step_of_running hp]
    simp only [stepRunning, hrun, hrecv]
  have hput : (hubRooms d).step { s with send := Function.update s.send c ch } (.sendPeer i) =
      some ({ s with send := Function.update (Function.update s.send c ch) c ch' }.setCall i
        (.looking m peerIds), [.direct c m]) := by
    rw [step_of_running (by exact hp)]
    simp only [stepRunning, sendPeer, hcall, Function.update_self, hsend]
  exact .head hdrain (.head hput (.now (by simp [setCall])))

theorem writerLive_iff : s.WriterLive d l ↔ (s.panicked = false → s.Consumed) := by
  constructor
  · rintro h hp c ⟨i, m, peerIds, hcall⟩ hopen hfull
    exact (h hp i m c peerIds hcall hopen hfull).1
  · intro h hp i m c peerIds hcall hopen hfull
    have hrun := h hp c ⟨i, m, peerIds, hcall⟩ hopen hfull
    exact ⟨hrun, canReach_looking hp hcall hopen hfull hrun⟩

/-! ## Steps -/

/-- A connection that changes its position but not its writer. -/
theorem writer_update {conn : Connection → ConnState} {c : Connection} {x : ConnState}
    (hx : x.writer = (conn c).writer) (c' : Connection) :
    (Function.update conn c x c').writer = (conn c').writer := by
  rw [Function.update_apply]
  split
  · rename_i hc
    rw [hc, hx]
  · rfl

theorem Consumed.life (h : s.Consumed) {c' : Connection} {la : LifeAction} {x : ConnState} {n : ℤ}
    (hc : KeepsConsumer d s l (.life c' la)) (hx : (s.conn c').Step la x)
    (hend : la = .writerEnds → (s.send c').buf = []) :
    Consumed { s with
      conn := Function.update s.conn c' x
      stats := { s.stats with totalPeerCnt := n } } := by
  intro c hsend hopen hfull
  by_cases hcc : c = c'
  · subst hcc
    have hrun : (s.conn c).writer = .running := h c hsend hopen hfull
    have hxrun : x.writer = .running := by
      cases hx with
      | writerFails => exact absurd hsend (hc hopen hfull)
      | writerEnds =>
          -- a writer that returns at the end of its queue leaves no full queue
          have hempty := hend rfl
          have hlen : (s.send c).buf.length = sendCap := hfull
          rw [hempty] at hlen
          exact absurd hlen (by decide)
      | goWriter => rfl
      | refuse | accept | countUp | posted | goReader | readerStops | countDown | postedOff =>
          exact hrun
    simpa using hxrun
  · simp only [Function.update_of_ne hcc]
    exact h c hsend hopen hfull

theorem Consumed.hub (h : s.Consumed) {r : String} {ha : HubAction} {v : HubView}
    (hc : KeepsConsumer d s l (.hub r ha)) (hv : (s.view r).Act ha v o) :
    (s.putView r v).Consumed := by
  intro c hsend hopen hfull
  cases hv with
  | take | skip | panic | rangeDone | tick => exact h c hsend hopen hfull
  | @put m k rest c' ch hloop hkey hopen' hroom hbuf hch =>
      by_cases hcc : c = c'
      · subst hcc
        apply hc m k rest c hloop hkey ?_ hsend
        simp only [putView, Function.update_self, Chan.Full, hbuf, List.length_append,
          List.length_singleton] at hfull
        exact hfull
      · simp only [putView, Function.update_of_ne hcc] at hopen hfull
        exact h c hsend hopen hfull
  | @overflow m k rest c' ch hloop hkey hopen' hfull' hbuf hch =>
      have hne : c ≠ c' := by
        rintro rfl
        simp only [putView, Function.update_self, hch] at hopen
        exact absurd hopen (by simp)
      simp only [putView, Function.update_of_ne hne] at hopen hfull
      exact h c hsend hopen hfull

theorem Consumed.step (hi : s.Inv d) (h : s.Consumed) (hc : KeepsConsumer d s l a)
    (hstep : s.Step d a t o) (hp : t.panicked = false) : t.Consumed := by
  intro c hsend hopen hfull
  cases hstep with
  | life hx hend => exact h.life hc hx hend c hsend hopen hfull
  | hub hr hv => exact h.hub hc hv c hsend hopen hfull
  | register hreg hloop hv =>
      subst hv
      simp only [setConn, putView]
      rw [writer_update (by rfl)]
      exact h c hsend hopen hfull
  | @unregister c' v o hreader hloop hv =>
      simp only [setConn, putView]
      rw [writer_update (by rfl)]
      cases hv with
      | absent | panic => exact h c hsend hopen hfull
      | @close c'' ch hkey hopen' hbuf hch =>
          have hne : c ≠ c' := by
            rintro rfl
            simp only [setConn, putView, Function.update_self, hch] at hopen
            exact absurd hopen (by simp)
          simp only [setConn, putView, Function.update_of_ne hne] at hopen hfull
          exact h c hsend hopen hfull
  | @drain c' m ch hrun hbuf hch =>
      by_cases hcc : c = c'
      · exact hcc ▸ hrun
      · simp only [Function.update_of_ne hcc] at hopen hfull
        exact h c hsend hopen hfull
  | start => exact h c (hsend.of_setCall (by simp)) hopen hfull
  | acquire =>
      exact h c (SendingTo.of_setCall hsend (fun m ps => begin_ne_sending _ _ _ _ _ _)) hopen hfull
  | push | skipRoom | absent | finish =>
      exact h c (SendingTo.of_setCall hsend (by simp)) hopen hfull
  | @found i m p peerIds c' hcall hkey =>
      rcases hsend.of_setCall_sending with rfl | hsend
      · exact hc m p peerIds c hcall hkey hfull
      · exact h c hsend hopen hfull
  | @sendPeer i m c' peerIds ch hcall =>
      -- the only call that holds the token is past its send
      obtain ⟨j, m', peerIds', hj⟩ := hsend
      simp only [setCall, Function.update_apply] at hj
      split at hj
      · exact absurd hj (by simp)
      · rename_i hji
        have hi' : (s.calls i).held = some m := by rw [hcall]; rfl
        have hj' : (s.calls j).held = some m' := by rw [hj]; rfl
        exact absurd (hi.calls.unique hj' hi') hji
  | sendPanic => exact absurd hp (by simp)

/-- A step outside the condition leaves a call in front of a full queue without a writer. -/
theorem not_consumed_of_not_keepsConsumer (hi : s.Inv d) (hc : ¬ KeepsConsumer d s l a)
    (hp : s.panicked = false) (hstep : s.Step d a t o) : t.panicked = false ∧ ¬ t.Consumed := by
  cases hstep with
  | @life c a x n hx hend =>
      cases hx with
      | writerFails hrun =>
          simp only [KeepsConsumer, not_forall, not_not] at hc
          obtain ⟨hopen, hfull, hsend⟩ := hc
          refine ⟨hp, fun h => ?_⟩
          have hrun' := h c hsend hopen hfull
          simp at hrun'
      | refuse | accept | countUp | posted | goWriter | goReader | writerEnds | readerStops
        | countDown | postedOff => exact absurd trivial hc
  | @hub r a v o hr hv =>
      cases a with
      | take | rangeDone | tick => exact absurd trivial hc
      | attempt =>
          simp only [KeepsConsumer, not_forall] at hc
          obtain ⟨m, k, rest, c, hloop, hkey, hlast, hsend, hrun⟩ := hc
          -- the queue of `c` is open and has one place left, so the attempt fills it
          rcases hv.attempt_listed hloop hkey with hclosed | ⟨_, hpv, hopen, hbuf⟩ | ⟨hfull, _⟩
          · exact absurd (hclosed.symm.trans ((hi.rooms.sound r).entry_open hkey)) (by simp)
          · have hfull : (v.send c).buf.length = sendCap := by
              rw [hbuf, List.length_append, List.length_singleton]
              exact hlast
            exact ⟨hpv.trans hp, fun h => hrun (h c hsend hopen hfull)⟩
          · have hlen : (s.send c).buf.length = sendCap := hfull
            omega
  | @found i m p peerIds c hcall hkey =>
      simp only [KeepsConsumer, not_forall] at hc
      obtain ⟨m', p', peerIds', c', hcall', hkey', hfull, hrun⟩ := hc
      obtain ⟨rfl, hcons⟩ := Call.looking.inj (hcall.symm.trans hcall')
      obtain ⟨rfl, rfl⟩ := List.cons.inj hcons
      obtain rfl := Option.some.inj (hkey.symm.trans hkey')
      refine ⟨hp, fun h => hrun (h c ⟨i, m, peerIds, ?_⟩ ?_ hfull)⟩
      · simp [setCall]
      · exact (hi.rooms.sound _).entry_open hkey
  | @absent i m p peerIds hcall hkey =>
      simp only [KeepsConsumer, not_forall] at hc
      obtain ⟨m', p', peerIds', c', hcall', hkey', _⟩ := hc
      obtain ⟨rfl, hcons⟩ := Call.looking.inj (hcall.symm.trans hcall')
      obtain ⟨rfl, rfl⟩ := List.cons.inj hcons
      exact absurd (hkey.symm.trans hkey') (by simp)
  | register | unregister | drain | start | acquire | push | skipRoom | sendPeer | sendPanic
    | finish => exact absurd trivial hc

end HubRooms

/-- **Along a run a call never waits for a full queue without a running writer exactly when no step
leaves it in front of one: no lookup, no last message by a hub, no failing writer.** -/
theorem always_writerLive_iff (d : Deployment) (r : (hubRooms d).Run) :
    r.Always (HubRooms.WriterLive d) ↔ r.EachStep (HubRooms.KeepsConsumer d) := by
  refine r.always_iff_eachStep (I := fun s l => s.Inv d ∧ s.WriterLive d l) ⟨.init d, ?_⟩
    (fun s l h => h.2) ?_ ?_
  · intro _ i m c peerIds hcall
    exact absurd hcall (by simp [hubRooms])
  · rintro s l a t o ⟨hi, hw⟩ hc hstep
    obtain ⟨hp, hcases⟩ := HubRooms.step_cases hstep
    have hs : s.Consumed := HubRooms.writerLive_iff.mp hw hp
    exact ⟨hi.step hcases, HubRooms.writerLive_iff.mpr (hs.step hi hc hcases)⟩
  · rintro s l a t o ⟨hi, _⟩ hc hstep hw
    obtain ⟨hp, hcases⟩ := HubRooms.step_cases hstep
    obtain ⟨hpt, hnot⟩ := HubRooms.not_consumed_of_not_keepsConsumer hi hc hp hcases
    exact hnot (HubRooms.writerLive_iff.mp hw hpt)

/-! ## A stalled broadcast -/

/-- A call that names a listed peer puts its message on the queue, if there is room. -/
theorem exists_lookup_send {d : Deployment} {i : ℕ} {m : PushMsg} {p : String} {c : Connection}
    {peerIds : List String} {s : HubRooms} (hp : s.panicked = false)
    (hcall : s.calls i = .looking m (p :: peerIds))
    (hkey : (s.rooms (d.getRoomId p)).connections.lookup p = some c)
    (hopen : (s.send c).closed = false) (hroom : ¬ (s.send c).Full) :
    ∃ t l, (hubRooms d).execFrom s [.lookup i, .sendPeer i] = some (t, l) ∧ t.panicked = false ∧
      t.calls i = .looking m peerIds ∧ t.rooms = s.rooms ∧ t.conn = s.conn ∧
      (t.send c).closed = false ∧ (t.send c).buf.length = (s.send c).buf.length + 1 := by
  obtain ⟨ch, hsend⟩ := Chan.exists_send_eq_sent m hopen hroom
  obtain ⟨_, _, hbuf, hch⟩ := Chan.send_eq_sent_iff.mp hsend
  have hlookup : (hubRooms d).step s (.lookup i) =
      some (s.setCall i (.sending m c peerIds), []) := by
    rw [HubRooms.step_of_running hp]
    simp [HubRooms.stepRunning, HubRooms.lookup, hcall, hkey]
  have hput : (hubRooms d).step (s.setCall i (.sending m c peerIds)) (.sendPeer i) =
      some ({ s with send := Function.update s.send c ch }.setCall i (.looking m peerIds),
        [.direct c m]) := by
    rw [HubRooms.step_of_running (by exact hp)]
    simp [HubRooms.stepRunning, HubRooms.sendPeer, HubRooms.setCall, hsend]
  refine ⟨{ s with send := Function.update s.send c ch }.setCall i (.looking m peerIds),
    [.direct c m], ?_, hp, by simp [HubRooms.setCall], rfl, rfl, ?_, ?_⟩
  · simp only [Machine.execFrom, hlookup, hput, List.nil_append, List.append_nil]
  · simpa [HubRooms.setCall] using hch
  · simp [HubRooms.setCall, hbuf]

/-- Call `i` looks up and sends `n` times. -/
def lookupAndSend (i : ℕ) : ℕ → List RoomsAction
  | 0 => []
  | n + 1 => [.lookup i, .sendPeer i] ++ lookupAndSend i n

/-- A call that names a listed peer `n` times puts `n` messages on its queue, if they fit. -/
theorem exists_lookupAndSend {d : Deployment} {i : ℕ} {m : PushMsg} {p : String} {c : Connection}
    {peerIds : List String} (n : ℕ) {s : HubRooms} (hp : s.panicked = false)
    (hcall : s.calls i = .looking m (List.replicate n p ++ peerIds))
    (hkey : (s.rooms (d.getRoomId p)).connections.lookup p = some c)
    (hopen : (s.send c).closed = false) (hfit : (s.send c).buf.length + n ≤ sendCap) :
    ∃ t l, (hubRooms d).execFrom s (lookupAndSend i n) = some (t, l) ∧ t.panicked = false ∧
      t.calls i = .looking m peerIds ∧ t.rooms = s.rooms ∧ t.conn = s.conn ∧
      (t.send c).closed = false ∧ (t.send c).buf.length = (s.send c).buf.length + n := by
  induction n generalizing s with
  | zero => exact ⟨s, [], rfl, hp, hcall, rfl, rfl, hopen, rfl⟩
  | succ n ih =>
      have hroom : ¬ (s.send c).Full := by
        unfold Chan.Full
        omega
      obtain ⟨t, l, hexec, htp, htcall, htrooms, htconn, htopen, htlen⟩ :=
        exists_lookup_send hp hcall hkey hopen hroom
      obtain ⟨u, k, hexec', hup, hucall, hurooms, huconn, huopen, hulen⟩ :=
        ih htp htcall (by rw [htrooms]; exact hkey) htopen (by omega)
      refine ⟨u, l ++ k, ?_, hup, hucall, hurooms.trans htrooms, huconn.trans htconn, huopen,
        by omega⟩
      exact (Machine.execFrom_append_iff _).mpr ⟨t, l, k, hexec, hexec', rfl⟩

/-- A peer is registered and its handler is at the app server; a call names it 4097 times. -/
def registerThenCall : List RoomsAction :=
  [.life ⟨1, "p"⟩ .accept, .register ⟨1, "p"⟩, .life ⟨1, "p"⟩ .countUp,
    .start 0 (.peers (List.replicate 4096 "p" ++ ["p"]) []), .acquire 0 []]

/-- The call waits with the token for a queue of 4096 messages whose writer has not been started. -/
theorem handshake_stalls_call :
    ∃ r : (hubRooms oneRoom).Run,
      r.acts = registerThenCall ++ lookupAndSend 0 4096 ++ [.lookup 0] ∧
      r.last.calls 0 = .sending ⟨1, [], false⟩ ⟨1, "p"⟩ [] ∧
      (r.last.send ⟨1, "p"⟩).Full ∧ (r.last.conn ⟨1, "p"⟩).writer = .notStarted ∧
      ¬ r.Always (HubRooms.WriterLive oneRoom) := by
  -- the state before the call looks anything up
  obtain ⟨⟨s, l⟩, hpre⟩ : ∃ p, (hubRooms oneRoom).exec registerThenCall = some p :=
    Option.isSome_iff_exists.mp (by decide)
  have hs : s = (((hubRooms oneRoom).exec registerThenCall).get (by decide)).1 := by
    simp only [hpre, Option.get_some]
  have hp : s.panicked = false := by rw [hs]; rfl
  have hcall : s.calls 0 = .looking ⟨1, [], false⟩ (List.replicate 4096 "p" ++ ["p"]) := by
    rw [hs]; rfl
  have hkey : (s.rooms "room_0").connections.lookup "p" = some ⟨1, "p"⟩ := by rw [hs]; rfl
  have hsend : s.send ⟨1, "p"⟩ = Chan.make := by rw [hs]; rfl
  have hwriter : (s.conn ⟨1, "p"⟩).writer = .notStarted := by rw [hs]; rfl
  obtain ⟨t, k, hfill, htp, htcall, htrooms, htconn, htopen, htlen⟩ :=
    exists_lookupAndSend (d := oneRoom) 4096 hp hcall hkey (by rw [hsend]; rfl)
      (by rw [hsend]; decide)
  have hfull : (t.send ⟨1, "p"⟩).Full := by
    rw [hsend] at htlen
    exact htlen
  have hlast : (hubRooms oneRoom).step t (.lookup 0) =
      some (t.setCall 0 (.sending ⟨1, [], false⟩ ⟨1, "p"⟩ []), []) := by
    have hkey' : (t.rooms (oneRoom.getRoomId "p")).connections.lookup "p" = some ⟨1, "p"⟩ := by
      rw [htrooms]
      exact hkey
    rw [HubRooms.step_of_running htp]
    simp [HubRooms.stepRunning, HubRooms.lookup, htcall, hkey']
  have hexec : (hubRooms oneRoom).exec (registerThenCall ++ lookupAndSend 0 4096 ++ [.lookup 0]) =
      some (t.setCall 0 (.sending ⟨1, [], false⟩ ⟨1, "p"⟩ []), l ++ k ++ []) :=
    (Machine.exec_concat_iff _).mpr ⟨t, l ++ k, [],
      (Machine.execFrom_append_iff _).mpr ⟨s, l, k, hpre, hfill, rfl⟩, hlast, rfl⟩
  refine ⟨⟨_, _, _, hexec⟩, rfl, by simp [HubRooms.setCall], hfull, ?_, fun hall => ?_⟩
  · exact (congrArg (fun conn => (conn ⟨1, "p"⟩).writer) htconn).trans hwriter
  · have hlive := (hall.last htp 0 ⟨1, [], false⟩ ⟨1, "p"⟩ [] (by simp [HubRooms.setCall]) htopen
      hfull).1
    have hnot : (t.conn ⟨1, "p"⟩).writer = .notStarted := by rw [htconn, hwriter]
    exact absurd (hnot.symm.trans hlive) (by simp)

end Skytime
