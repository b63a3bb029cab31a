/-
# Skytime.Server.Stands — when nothing ends the server.

A panic in any goroutine ends the process. There are four ways to one: a reader slices a message
that is shorter than its header, a writer divides by `max_retry_ttl`, a hub closes a queue twice,
and `broadcast_peers` sends on a queue that a hub has closed. Here they are taken together, for the
whole server with all of its goroutines. If a peer comes back only after it has been unregistered,
the third cannot happen, since an unregister request then finds no entry but its own.
-/
import Skytime.Conn.Schedule
import Skytime.Rooms.Counters
import Skytime.Rooms.SendClosed
import Skytime.Server.Whole

namespace Skytime

open Process WebSocket

/-! ## The rooms -/

namespace HubRooms

variable {d : Deployment} {s t : HubRooms} {a : RoomsAction} {o l : List Event}

/-- A peer is registered when none of its connections is registered any more, and no hub closes a
queue that a call is about to send on. -/
def Careful (d : Deployment) (s : HubRooms) (l : List Event) : RoomsAction → Prop
  | .register c => ∀ c', c'.peerId = c.peerId → ¬ (s.conn c').Handed
  | a => ClosesUnused d s l a

/-- What careful steps keep. -/
structure Orderly (d : Deployment) (s : HubRooms) (l : List Event) : Prop where
  running : s.panicked = false
  inv : s.Inv d
  entries : s.EntriesOk d l
  sends : s.SendsOpen l
  alone : ∀ c c', c.peerId = c'.peerId → (s.conn c).Handed → (s.conn c').Handed → c = c'

theorem Orderly.init (d : Deployment) : (hubRooms d).init.Orderly d [] where
  running := rfl
  inv := .init d
  entries := .init d
  sends := by
    rintro c ⟨i, m, peerIds, hcall⟩
    exact absurd hcall (by simp [hubRooms])
  alone c c' _ h := absurd rfl h.1.1

theorem Careful.closesUnused (h : Careful d s l a) : ClosesUnused d s l a := by
  cases a with
  | register => trivial
  | life | unregister | hub | drain | start | acquire | push | lookup | sendPeer | finish => exact h

/-- An entry is that of a connection which has been handed over. -/
theorem Orderly.handed_of_lookup (h : s.Orderly d l) {c c' : Connection}
    (hkey : (s.rooms (d.getRoomId c.peerId)).connections.lookup c.peerId = some c') :
    c'.peerId = c.peerId ∧ (s.conn c').Handed := by
  have hpeer : c'.peerId = c.peerId := (h.inv.rooms.sound _).peer hkey
  refine ⟨hpeer, h.entries.handed ?_⟩
  show (s.rooms (d.getRoomId c'.peerId)).connections.lookup c'.peerId = some c'
  rw [hpeer]
  exact hkey

theorem Orderly.keyFree (h : s.Orderly d l) (hc : Careful d s l a) : KeyFree d s a := by
  rintro c rfl
  cases hkey : (s.rooms (d.getRoomId c.peerId)).connections.lookup c.peerId with
  | none => rfl
  | some c' =>
      obtain ⟨hpeer, hhanded⟩ := h.handed_of_lookup hkey
      exact absurd hhanded (hc c' hpeer)

/-- An unregister request finds no entry but that of its own connection. -/
theorem Orderly.own_entry (h : s.Orderly d l) {c c' : Connection}
    (hreader : (s.conn c).reader = .unregistering)
    (hkey : (s.rooms (d.getRoomId c.peerId)).connections.lookup c.peerId = some c') : c' = c := by
  obtain ⟨hpeer, hhanded⟩ := h.handed_of_lookup hkey
  have hfin : (s.conn c).handler = .finished := h.inv.rooms.readerOk c (by rw [hreader]; simp)
  apply h.alone c' c hpeer hhanded
  simp [ConnState.Handed, ConnState.Entered, ConnState.Left, hfin, hreader]

/-- Only a register request hands a connection over. -/
theorem handed_of_step (hok : s.RoomsOk d) (hstep : s.Step d a t o) {c : Connection}
    (h : (t.conn c).Handed) : (s.conn c).Handed ∨ a = .register c := by
  cases hstep with
  | @life c' la x n hx hend =>
      left
      have hx' : (Function.update s.conn c' x c).Handed := h
      rw [Function.update_apply] at hx'
      split at hx'
      · rename_i hc
        rw [hc]
        exact (hx.handed_iff (hok.readerOk c')).mp hx'
      · exact hx'
  | @register c' v hreg hloop hv =>
      by_cases hc : c = c'
      · exact .inr (congrArg RoomsAction.register hc.symm)
      · have hx' : (Function.update s.conn c' _ c).Handed := h
        rw [Function.update_of_ne hc] at hx'
        exact .inl hx'
  | @unregister c' v o hreader hloop hv =>
      left
      have hx' : (Function.update s.conn c' { s.conn c' with reader := .counting } c).Handed := h
      by_cases hc : c = c'
      · rw [hc, Function.update_self] at hx'
        exact absurd (.inl rfl) hx'.2
      · rwa [Function.update_of_ne hc] at hx'
  | hub | drain | start | acquire | push | skipRoom | absent | found | sendPeer | sendPanic
    | finish => exact .inl h

/-- None of the ways to a panic is open. -/
theorem Orderly.step_running (h : s.Orderly d l) (hstep : s.Step d a t o) :
    t.panicked = false := by
  cases hstep with
  | sendPanic hcall hclosed =>
      exact absurd (hclosed.symm.trans (h.sends _ ⟨_, _, _, hcall⟩)) (by simp)
  | hub hr hv =>
      rename_i r ha v
      exact ((h.inv.rooms.sound r).act_panicked hv).trans h.running
  | unregister hreader hloop hv =>
      cases hv with
      | absent => exact h.running
      | close => exact h.running
      | panic hkey hclosed =>
          obtain rfl := h.own_entry hreader hkey
          exact absurd (hclosed.symm.trans ((h.inv.rooms.sound _).entry_open hkey)) (by simp)
  | register hreg hloop hv =>
      subst hv
      exact h.running
  | life | drain | start | acquire | push | skipRoom | absent | found | sendPeer | finish =>
      exact h.running

theorem Orderly.step (h : s.Orderly d l) (hc : Careful d s l a) (hstep : s.Step d a t o) :
    t.Orderly d (l ++ o) where
  running := h.step_running hstep
  inv := h.inv.step hstep
  entries := h.entries.step h.inv.rooms h.running (h.keyFree hc) hstep
  sends := h.sends.step h.inv hc.closesUnused hstep
  alone c c' hpeer hhanded hhanded' := by
    obtain hold | rfl := handed_of_step h.inv.rooms hstep hhanded
    · obtain hold' | rfl := handed_of_step h.inv.rooms hstep hhanded'
      · exact h.alone c c' hpeer hold hold'
      · exact absurd hold (hc c hpeer)
    · obtain hold' | heq := handed_of_step h.inv.rooms hstep hhanded'
      · exact absurd hold' (hc c' hpeer.symm)
      · exact RoomsAction.register.inj heq

/-- Along steps that are careful in every state. -/
theorem Orderly.exec {as : List RoomsAction} {k : List Event} (h : s.Orderly d l)
    (has : ∀ a ∈ as, ∀ s l, Careful d s l a) (hexec : (hubRooms d).execFrom s as = some (t, k)) :
    t.Orderly d (l ++ k) := by
  induction as generalizing s l k with
  | nil =>
      obtain ⟨rfl, rfl⟩ := Prod.mk.inj (Option.some.inj hexec)
      rwa [List.append_nil]
  | cons a as ih =>
      obtain ⟨u, o, k', ha, hrest, rfl⟩ := Machine.execFrom_cons_iff _ |>.mp hexec
      rw [← List.append_assoc]
      apply ih (h.step (has a List.mem_cons_self s l) (step_cases ha).2) _ hrest
      exact fun b hb => has b (List.mem_cons_of_mem a hb)

end HubRooms

/-! ## A connection -/

section Connection

variable {cfg : EndpointConfig} {s t : Endpoint}

/-- The two writers have nothing to divide by, or something that is not zero. -/
def EndpointConfig.Divides (cfg : EndpointConfig) : Prop :=
  cfg.enableAckRto > 0 → cfg.rto.maxRetryTtl ≠ 0

/-- The message is as long as the header that it announces. -/
def EndpointAction.LongEnough : EndpointAction → Prop
  | .readMessage .text message => ¬ TooShort message
  | _ => True

theorem handleMessage_ne_error {verbose : ℤ} {mt : MessageType} {message : Slice UInt8}
    (h : EndpointAction.LongEnough (.readMessage mt message)) (e : RuntimeError) :
    handleMessage verbose mt message ≠ .error e := by
  cases mt with
  | binary => simp [handleMessage]
  | text =>
      have hlong : announcedLen message.data ≤ message.len := Nat.le_of_not_lt h
      have hfive : 5 ≤ message.len := by
        unfold announcedLen at hlong
        split at hlong
        · exact hlong
        · split at hlong
          · omega
          · exact hlong
      obtain ⟨seq, b4, hb4, hheader⟩ := exists_readHeader hfive
      rw [handleMessage_eq verbose hheader]
      split
      · simp
      · split
        · rename_i htwo
          have hnine : 9 ≤ message.len := by
            simpa only [announcedLen, hb4, show msgTypeOf b4 = 2 from htwo, if_true] using hlong
          rw [handleNotify_eq_ok _ hnine]
          simp
        · simp

theorem Endpoint.round_running (hdiv : cfg.Divides) {ok : Bool} {e : WriterEvent}
    (h : round cfg s ok e = some t) : t.panicked = false := by
  obtain ⟨-, hrun, w, outs, rfl, hrto, hpump⟩ := round_cases h
  have hstatus : w.status ≠ .panicked := by
    by_cases hpos : 0 < cfg.enableAckRto
    · cases hrto hpos with
      | message | ping | ack | tick =>
          simp only [hrun]
          decide
      | closed | pingFailed => simp
      | panic hwalk =>
          obtain ⟨p, hp⟩ := exists_rtoWalk (hdiv hpos) _ s.writer.queue
          exact absurd (hp.symm.trans hwalk) (by simp)
    · exact hpump hpos
  simpa using hstatus

/-- A connection stands if its clients send whole headers. -/
theorem Endpoint.step_running {a : EndpointAction} {o : List WriterOut} (hdiv : cfg.Divides)
    (ha : a.LongEnough) (h : (endpoint cfg).step s a = some (t, o)) : t.panicked = false := by
  obtain ⟨hrun, hcases⟩ := Endpoint.step_cases h
  cases hcases with
  | round ch _ hround => exact round_running hdiv hround
  | handAck _ hround => exact round_running hdiv hround
  | readPanic _ herr => exact absurd herr (handleMessage_ne_error ha _)
  | goWriter | goReader | quiet | readMessage | readError | countAck | handNotify | unregister =>
      exact hrun

end Connection

/-- The message of the client, if the action is one, is long enough. -/
def OnlineAction.LongEnough : OnlineAction → Prop
  | .conn a => a.LongEnough
  | _ => True

theorem Online.step_running {cfg : EndpointConfig} {wcfg : WriteConfig} {s t : Online}
    {a : OnlineAction} {o : List OnlineEvent} (hdiv : cfg.Divides) (ha : a.LongEnough)
    (hs : s.conn.conn.panicked = false) (h : (online cfg wcfg).step s a = some (t, o)) :
    t.conn.conn.panicked = false := by
  cases Online.step_cases h with
  | conn _ hstep =>
      obtain ⟨outs, hend, -⟩ := Drain.step_iff.mp hstep
      exact Endpoint.step_running hdiv ha hend
  | silent _ _ hstep | output _ _ hstep =>
      obtain ⟨outs, hend, -⟩ := Drain.step_iff.mp hstep
      exact Endpoint.step_running (a := .emit) hdiv trivial hend
  | ack | ws => exact hs

/-! ## The server -/

namespace WholeServer

variable {cfg : ServerConfig} {s t : WholeServer} {l o : List ServerEvent}

/-- What the clients, the peers and the calls have to see to. -/
def Careful (cfg : ServerConfig) (s : WholeServer) (l : List ServerEvent) : ServerAction → Prop
  | .rooms a => s.hub.Careful cfg.deployment (hubOf l) a
  | .peer c (.conn .unregister) => s.hub.Careful cfg.deployment (hubOf l) (.unregister c)
  | .peer _ a => a.LongEnough

/-- What careful steps keep. -/
structure Stands (cfg : ServerConfig) (s : WholeServer) (l : List ServerEvent) : Prop where
  running : s.panicked = false
  hub : s.hub.Orderly cfg.deployment (hubOf l)
  peer : ∀ c, (s.peer c).conn.conn.panicked = false

theorem deliver_running (hdiv : cfg.conn.Divides) {es : List Event} {peer q : Connection → Online}
    {k : List ServerEvent} (h : deliver cfg peer es = some (q, k))
    (hpeer : ∀ c, (peer c).conn.conn.panicked = false) (c : Connection) :
    (q c).conn.conn.panicked = false := by
  induction es generalizing peer q k with
  | nil =>
      obtain ⟨rfl, rfl⟩ := Prod.mk.inj (Option.some.inj h)
      exact hpeer c
  | cons e es ih =>
      rw [deliver] at h
      cases hdelivery : e.delivery with
      | none =>
          simp only [hdelivery] at h
          obtain ⟨r, hr, heq⟩ := Option.map_eq_some_iff.mp h
          obtain ⟨rfl, rfl⟩ := Prod.mk.inj heq
          exact ih hr hpeer
      | some x =>
          obtain ⟨c', a⟩ := x
          simp only [hdelivery] at h
          cases hstep : (online cfg.conn cfg.write).step (peer c') (.conn a) with
          | none => simp only [hstep, reduceCtorEq] at h
          | some y =>
              obtain ⟨p, m⟩ := y
              simp only [hstep] at h
              obtain ⟨r, hr, heq⟩ := Option.map_eq_some_iff.mp h
              obtain ⟨rfl, rfl⟩ := Prod.mk.inj heq
              have ha : a.LongEnough := by
                cases e with
                | put | direct | closed =>
                    obtain ⟨rfl, rfl⟩ := Prod.mk.inj (Option.some.inj hdelivery)
                    trivial
                | registered | unregistered | took | overflow | drained =>
                    exact absurd hdelivery (by simp [Event.delivery])
              refine ih hr fun c'' => ?_
              rw [Function.update_apply]
              split
              · exact Online.step_running (a := .conn a) hdiv ha (hpeer c') hstep
              · exact hpeer c''

/-- Of what a connection does, only `unregister` closes a queue. -/
theorem rooms_careful {d : Deployment} {c : Connection} {p : Online} {a : OnlineAction}
    (ha : a ≠ .conn .unregister) : ∀ b ∈ a.rooms c p, ∀ h k, HubRooms.Careful d h k b := by
  intro b hb h k
  cases a with
  | conn a =>
      cases a with
      | goWriter | goReader | takeEnd | readError =>
          rw [List.mem_singleton.mp hb]
          trivial
      | takeMessage =>
          rcases List.mem_cons.mp hb with rfl | hb
          · trivial
          · split at hb
            · rw [List.mem_singleton.mp hb]
              trivial
            · exact absurd hb List.not_mem_nil
      | ping =>
          simp only [OnlineAction.rooms] at hb
          split at hb
          · rw [List.mem_singleton.mp hb]
            trivial
          · exact absurd hb List.not_mem_nil
      | unregister => exact absurd rfl ha
      | putMessage | closeSend | tick | emit | readMessage | handAck | countAck | handNotify
      | otherNotify | takeNotify => exact absurd hb List.not_mem_nil
  | emit | ack | flush | writeControl | closeConn => exact absurd hb List.not_mem_nil

theorem Careful.longEnough {c : Connection} {a : OnlineAction}
    (h : Careful cfg s l (.peer c a)) : a.LongEnough := by
  cases a with
  | conn a =>
      cases a with
      | unregister => trivial
      | goWriter | goReader | putMessage | closeSend | takeMessage | takeEnd | ping | tick | emit
      | readMessage | readError | handAck | countAck | handNotify | otherNotify | takeNotify =>
          exact h
  | emit | ack | flush | writeControl | closeConn => trivial

theorem Stands.step (hdiv : cfg.conn.Divides) {a : ServerAction} (h : s.Stands cfg l)
    (hc : Careful cfg s l a) (hstep : (server cfg).step s a = some (t, o)) :
    t.Stands cfg (l ++ o) := by
  cases a with
  | rooms a =>
      obtain ⟨es, hrooms, hdeliver, hpanic⟩ := step_rooms hstep
      have hub : t.hub.Orderly cfg.deployment (hubOf l ++ es) :=
        h.hub.step hc (HubRooms.step_cases hrooms).2
      have hlog : hubOf (l ++ o) = hubOf l ++ es := by
        rw [hubOf_append, (deliver_spec hdeliver).1]
      exact ⟨hpanic.trans hub.running, hlog ▸ hub, deliver_running hdiv hdeliver h.peer⟩
  | peer c a =>
      obtain ⟨-, p, m, es, r, honline, hexec, hdeliver, rfl, hpanic⟩ := step_peer hstep
      have hp : p.conn.conn.panicked = false :=
        Online.step_running hdiv hc.longEnough (h.peer c) honline
      have hub : t.hub.Orderly cfg.deployment (hubOf l ++ es) := by
        by_cases ha : a = .conn .unregister
        · subst ha
          obtain ⟨u, k, k', hone, hnil, rfl⟩ := Machine.execFrom_cons_iff _ |>.mp hexec
          obtain ⟨rfl, rfl⟩ := Prod.mk.inj (Option.some.inj hnil)
          rw [List.append_nil]
          exact h.hub.step (a := .unregister c) hc (HubRooms.step_cases hone).2
        · exact h.hub.exec (rooms_careful ha) hexec
      have hlog : hubOf (l ++ (m.map (.peer c) ++ r)) = hubOf l ++ es := by
        rw [hubOf_append, hubOf_append, hubOf_peer, List.nil_append, (deliver_spec hdeliver).1]
      refine ⟨?_, hlog ▸ hub, deliver_running hdiv hdeliver fun c' => ?_⟩
      · rw [hpanic, hub.running, hp]
        rfl
      · rw [Function.update_apply]
        split
        · exact hp
        · exact h.peer c'

end WholeServer

/-- A peer connects and sends an ack. -/
def ackFirst : List ServerAction :=
  [.rooms (.life peerA .accept), .rooms (.register peerA), .rooms (.life peerA .countUp),
    .rooms (.life peerA .posted), .peer peerA (.conn .goWriter), .peer peerA (.conn .goReader),
    .peer peerA (.conn (.readMessage .text ⟨[0, 0, 0, 1, 0x16], []⟩))]

theorem ackFirst_careful (r : (server (smallServer 1)).Run) (hacts : r.acts = ackFirst) :
    r.EachStep (WholeServer.Careful (smallServer 1)) := by
  intro pre a hpre s l hexec
  rw [hacts] at hpre
  rcases pre with _ | ⟨x, pre⟩
  · obtain ⟨rfl, -⟩ := List.cons_prefix_cons.mp hpre
    trivial
  · obtain ⟨rfl, hrest⟩ := List.cons_prefix_cons.mp hpre
    rcases pre with _ | ⟨y, pre⟩
    · -- no connection has been handed over yet
      obtain ⟨rfl, -⟩ := List.cons_prefix_cons.mp hrest
      obtain ⟨rfl, rfl⟩ := Prod.mk.inj (Option.some.inj hexec)
      intro c' hpeer hhanded
      by_cases hc : c' = peerA
      · subst hc
        exact absurd rfl hhanded.1.2.2
      · have hfresh : Function.update (fun _ => ConnState.fresh) peerA
            { ConnState.fresh with handler := .registering } c' = .fresh :=
          Function.update_of_ne hc _ _
        exact absurd (congrArg ConnState.handler hfresh) hhanded.1.1
    · obtain ⟨-, htail⟩ := List.cons_prefix_cons.mp hrest
      have hmem := htail.subset (List.mem_append_right pre List.mem_cons_self)
      simp only [List.mem_cons, List.not_mem_nil, or_false] at hmem
      obtain rfl | rfl | rfl | rfl | rfl := hmem
      · trivial
      · trivial
      · trivial
      · trivial
      · show ¬ TooShort _
        decide

end Skytime
