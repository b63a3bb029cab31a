/-
# Skytime.Server.Whole — the hubs and the connections together, up to what the clients read.

`hubRooms` knows of a connection only that its queue is filled and drained and that its goroutines
come and go; `online` knows of the hubs only that they put messages on the queue and close it. Here
the two run as one process: what a hub puts on a queue is put on the queue of that connection, and
what a writer takes is taken from it. A run of the server is a run of `hubRooms` and, for every
connection, a run of `online`, so what is known about the parts says what the clients read.
-/
import Skytime.Conn.ClientReads
import Skytime.Rooms.TotalOrder

namespace Skytime

open Process WebSocket

/-! ## The machine -/

/-- What a server is started with. -/
structure ServerConfig where
  deployment : Deployment
  conn : EndpointConfig
  write : WriteConfig

structure WholeServer where
  hub : HubRooms
  peer : Connection → Online
  panicked : Bool

inductive ServerAction where
  /-- a handler, a hub or a broadcast call -/
  | rooms (a : RoomsAction)
  /-- the writer, the reader or the websocket of `c` -/
  | peer (c : Connection) (a : OnlineAction)

inductive ServerEvent where
  | hub (e : Event)
  | peer (c : Connection) (e : OnlineEvent)

/-- The steps that the rooms take with a connection. -/
def LifeAction.ofPeer : LifeAction → Bool
  | .goWriter | .goReader | .writerFails | .writerEnds | .readerStops => true
  | _ => false

def RoomsAction.ofPeer : RoomsAction → Bool
  | .drain _ | .unregister _ => true
  | .life _ a => a.ofPeer
  | _ => false

/-- The steps that a connection takes with a hub. -/
def OnlineAction.ofHub : OnlineAction → Bool
  | .conn (.putMessage _) | .conn .closeSend => true
  | _ => false

/-- What the step of a connection, which is `p` after it, is for the rooms. -/
def OnlineAction.rooms (c : Connection) (p : Online) : OnlineAction → List RoomsAction
  | .conn .goWriter => [.life c .goWriter]
  | .conn .goReader => [.life c .goReader]
  | .conn (.takeMessage _) =>
    .drain c ::
      if p.conn.conn.writer.status = .returned then [.life c .writerFails] else []
  | .conn (.ping _) =>
    if p.conn.conn.writer.status = .returned then [.life c .writerFails] else []
  | .conn .takeEnd => [.life c .writerEnds]
  | .conn .readError => [.life c .readerStops]
  | .conn .unregister => [.unregister c]
  | _ => []

/-- What a step of the rooms is for a connection. -/
def Event.delivery : Event → Option (Connection × EndpointAction)
  | .put c m | .direct c m => some (c, .putMessage m)
  | .closed c => some (c, .closeSend)
  | _ => none

namespace WholeServer

variable (cfg : ServerConfig)

/-- The connections take part in what the rooms do. -/
def deliver (peer : Connection → Online) :
    List Event → Option ((Connection → Online) × List ServerEvent)
  | [] => some (peer, [])
  | e :: l =>
    match e.delivery with
    | none => (deliver peer l).map fun r => (r.1, .hub e :: r.2)
    | some (c, a) =>
      match (online cfg.conn cfg.write).step (peer c) (.conn a) with
      | none => none
      | some (p, o) =>
        (deliver (Function.update peer c p) l).map fun r =>
          (r.1, .hub e :: (o.map (.peer c) ++ r.2))

def step (s : WholeServer) : ServerAction → Option (WholeServer × List ServerEvent)
  | .rooms a =>
    if s.panicked ∨ a.ofPeer then none
    else
      match (hubRooms cfg.deployment).step s.hub a with
      | none => none
      | some (h, o) =>
        (deliver cfg s.peer o).map fun r => (⟨h, r.1, h.panicked⟩, r.2)
  | .peer c a =>
    if s.panicked ∨ a.ofHub then none
    else
      match (online cfg.conn cfg.write).step (s.peer c) a with
      | none => none
      | some (p, o) =>
        match (hubRooms cfg.deployment).execFrom s.hub (a.rooms c p) with
        | none => none
        | some (h, k) =>
          (deliver cfg (Function.update s.peer c p) k).map fun r =>
            (⟨h, r.1, h.panicked || p.conn.conn.panicked⟩, o.map (.peer c) ++ r.2)

end WholeServer

/-- The server after `hub_rooms.run`. -/
def server (cfg : ServerConfig) : Machine WholeServer ServerAction ServerEvent where
  init := ⟨(hubRooms cfg.deployment).init, fun _ => (online cfg.conn cfg.write).init, false⟩
  step := WholeServer.step cfg

/-! ## The parts of a run -/

def ServerEvent.hub? : ServerEvent → List Event
  | .hub e => [e]
  | _ => []

def ServerEvent.peer? (c : Connection) : ServerEvent → List OnlineEvent
  | .peer c' e => if c' = c then [e] else []
  | _ => []

/-- What has been seen of the rooms. -/
def hubOf (l : List ServerEvent) : List Event := l.flatMap ServerEvent.hub?

/-- What has been seen of a connection. -/
def peerOf (c : Connection) (l : List ServerEvent) : List OnlineEvent :=
  l.flatMap (ServerEvent.peer? c)

section Parts

variable {cfg : ServerConfig} {s t : WholeServer} {l o k : List ServerEvent} {c : Connection}

@[simp] theorem hubOf_append : hubOf (l ++ k) = hubOf l ++ hubOf k := List.flatMap_append

@[simp] theorem peerOf_append : peerOf c (l ++ k) = peerOf c l ++ peerOf c k :=
  List.flatMap_append

@[simp] theorem hubOf_peer (c : Connection) (o : List OnlineEvent) : hubOf (o.map (.peer c)) = [] :=
  Machine.flatMap_map_nil (fun _ => rfl) o

theorem peerOf_peer (c c' : Connection) (o : List OnlineEvent) :
    peerOf c (o.map (.peer c')) = if c' = c then o else [] := by
  split_ifs with hc
  · exact Machine.flatMap_map_self (fun _ => if_pos hc) o
  · exact Machine.flatMap_map_nil (f := ServerEvent.peer c') (fun _ => if_neg hc) o

theorem placed_cons (c : Connection) (e : Event) (es : List Event) :
    placed c (e :: es) = placed c [e] ++ placed c es :=
  placed_append c [e] es

/-- What a connection puts on its queue for an event of the rooms. -/
theorem Event.placed_of_delivery {e : Event} {c' : Connection} {a : EndpointAction}
    (h : e.delivery = some (c', a)) (c : Connection) :
    placed c [e] = if c' = c then a.puts else [] := by
  cases e with
  | put c'' m | direct c'' m =>
      obtain ⟨rfl, rfl⟩ := Prod.mk.inj (Option.some.inj h)
      by_cases hc : c'' = c <;> simp [placed, EndpointAction.puts, hc]
  | closed =>
      obtain ⟨rfl, rfl⟩ := Prod.mk.inj (Option.some.inj h)
      simp [placed, EndpointAction.puts]
  | registered | unregistered | took | overflow | drained => exact absurd h (by simp [delivery])

theorem Event.placed_of_no_delivery {e : Event} (h : e.delivery = none) (c : Connection) :
    placed c [e] = [] := by
  cases e with
  | put | direct | closed => exact absurd h (by simp [delivery])
  | registered | unregistered | took | overflow | drained => rfl

/-- What is delivered is seen by the rooms as it is, and by a connection as messages that are put on
its queue and as its end. -/
theorem WholeServer.deliver_spec {es : List Event} {peer q : Connection → Online}
    (h : deliver cfg peer es = some (q, k)) : hubOf k = es ∧
      ∀ c, (∃ as, (online cfg.conn cfg.write).execFrom (peer c) as = some (q c, peerOf c k)) ∧
        enqueued (connOf (peerOf c k)) = placed c es := by
  induction es generalizing peer q k with
  | nil =>
      obtain ⟨rfl, rfl⟩ := Prod.mk.inj (Option.some.inj h)
      exact ⟨rfl, fun c => ⟨⟨[], rfl⟩, rfl⟩⟩
  | cons e es ih =>
      rw [deliver] at h
      cases hdelivery : e.delivery with
      | none =>
          simp only [hdelivery] at h
          obtain ⟨r, hr, heq⟩ := Option.map_eq_some_iff.mp h
          obtain ⟨rfl, rfl⟩ := Prod.mk.inj heq
          obtain ⟨hhub, hpeers⟩ := ih hr
          refine ⟨congrArg (e :: ·) hhub, fun c => ?_⟩
          rw [placed_cons, Event.placed_of_no_delivery hdelivery]
          exact hpeers c
      | some x =>
          obtain ⟨c', a⟩ := x
          simp only [hdelivery] at h
          cases hstep : (online cfg.conn cfg.write).step (peer c') (.conn a) with
          | none => simp only [hstep, reduceCtorEq] at h
          | some y =>
              obtain ⟨p, o⟩ := y
              simp only [hstep] at h
              obtain ⟨r, hr, heq⟩ := Option.map_eq_some_iff.mp h
              obtain ⟨rfl, rfl⟩ := Prod.mk.inj heq
              obtain ⟨hhub, hpeers⟩ := ih hr
              refine ⟨?_, fun c => ?_⟩
              · show [e] ++ hubOf (o.map (.peer c') ++ r.2) = e :: es
                rw [hubOf_append, hubOf_peer, hhub]
                rfl
              · obtain ⟨⟨as, has⟩, hqueue⟩ := hpeers c
                have hpeer : peerOf c (.hub e :: (o.map (.peer c') ++ r.2)) =
                    (if c' = c then o else []) ++ peerOf c r.2 := by
                  show peerOf c (o.map (.peer c') ++ r.2) = _
                  rw [peerOf_append, peerOf_peer]
                have hputs := (Online.step_cases hstep).enqueued
                rw [hpeer, placed_cons, Event.placed_of_delivery hdelivery]
                by_cases hc : c' = c
                · subst hc
                  rw [if_pos rfl, if_pos rfl, connOf_append, enqueued_append, hputs, hqueue]
                  rw [Function.update_self] at has
                  exact ⟨⟨.conn a :: as, Machine.execFrom_cons_iff _ |>.mpr
                    ⟨_, _, _, hstep, has, rfl⟩⟩, rfl⟩
                · rw [Function.update_of_ne (Ne.symm hc)] at has
                  rw [if_neg hc, if_neg hc, List.nil_append, List.nil_append]
                  exact ⟨⟨as, has⟩, hqueue⟩

/-- Everything one step can do: the rooms and the connections run on, and what has been placed on a
queue is what was put on it. -/
structure WholeServer.Step (cfg : ServerConfig) (s t : WholeServer) (o : List ServerEvent) :
    Prop where
  hub : ∃ as, (hubRooms cfg.deployment).execFrom s.hub as = some (t.hub, hubOf o)
  peer : ∀ c, ∃ as, (online cfg.conn cfg.write).execFrom (s.peer c) as = some (t.peer c, peerOf c o)
  queue : ∀ c, enqueued (connOf (peerOf c o)) = placed c (hubOf o)

theorem OnlineAction.puts_of_not_ofHub {a : OnlineAction} (h : ¬ a.ofHub) : a.puts = [] := by
  cases a with
  | conn a =>
      cases a with
      | putMessage => exact absurd rfl h
      | closeSend | goWriter | goReader | takeMessage | takeEnd | ping | tick | emit | readMessage
      | readError | handAck | countAck | handNotify | otherNotify | takeNotify | unregister => rfl
  | emit | ack | flush | writeControl | closeConn => rfl

theorem WholeServer.step_rooms {a : RoomsAction}
    (h : (server cfg).step s (.rooms a) = some (t, o)) :
    ∃ es, (hubRooms cfg.deployment).step s.hub a = some (t.hub, es) ∧
      deliver cfg s.peer es = some (t.peer, o) ∧ t.panicked = t.hub.panicked := by
  obtain ⟨-, h⟩ := Option.ite_none_left_eq_some.mp h
  split at h
  · exact absurd h (by simp)
  · rename_i hub es hstep
    obtain ⟨r, hr, heq⟩ := Option.map_eq_some_iff.mp h
    obtain ⟨rfl, rfl⟩ := Prod.mk.inj heq
    exact ⟨es, hstep, hr, rfl⟩

theorem WholeServer.step_peer {a : OnlineAction}
    (h : (server cfg).step s (.peer c a) = some (t, o)) :
    ¬ a.ofHub ∧ ∃ p m es r, (online cfg.conn cfg.write).step (s.peer c) a = some (p, m) ∧
      (hubRooms cfg.deployment).execFrom s.hub (a.rooms c p) = some (t.hub, es) ∧
      deliver cfg (Function.update s.peer c p) es = some (t.peer, r) ∧
      o = m.map (.peer c) ++ r ∧ t.panicked = (t.hub.panicked || p.conn.conn.panicked) := by
  obtain ⟨hguard, h⟩ := Option.ite_none_left_eq_some.mp h
  refine ⟨fun hof => hguard (.inr hof), ?_⟩
  split at h
  · exact absurd h (by simp)
  · rename_i p m hstep
    split at h
    · exact absurd h (by simp)
    · rename_i hub es hexec
      obtain ⟨r, hr, heq⟩ := Option.map_eq_some_iff.mp h
      obtain ⟨rfl, rfl⟩ := Prod.mk.inj heq
      exact ⟨p, m, es, r.2, hstep, hexec, hr, rfl, rfl⟩

theorem WholeServer.step_cases {a : ServerAction} (h : (server cfg).step s a = some (t, o)) :
    s.Step cfg t o := by
  cases a with
  | rooms a =>
      obtain ⟨es, hstep, hdeliver, -⟩ := step_rooms h
      obtain ⟨hhub, hpeers⟩ := deliver_spec hdeliver
      refine ⟨⟨[a], ?_⟩, fun c => (hpeers c).1, fun c => ?_⟩
      · rw [hhub]
        exact (hubRooms cfg.deployment).execFrom_single hstep
      · rw [hhub]
        exact (hpeers c).2
  | peer c' a =>
      obtain ⟨hof, p, m, es, r, hstep, hexec, hdeliver, rfl, -⟩ := step_peer h
      obtain ⟨hhub, hpeers⟩ := deliver_spec hdeliver
      have hputs := (Online.step_cases hstep).enqueued
      rw [OnlineAction.puts_of_not_ofHub hof] at hputs
      refine ⟨⟨a.rooms c' p, ?_⟩, fun c => ?_, fun c => ?_⟩
      · rw [hubOf_append, hubOf_peer, List.nil_append, hhub]
        exact hexec
      · obtain ⟨⟨as, has⟩, -⟩ := hpeers c
        rw [peerOf_append, peerOf_peer]
        by_cases hc : c' = c
        · subst hc
          rw [Function.update_self] at has
          rw [if_pos rfl]
          exact ⟨a :: as, Machine.execFrom_cons_iff _ |>.mpr ⟨_, _, _, hstep, has, rfl⟩⟩
        · rw [Function.update_of_ne (Ne.symm hc)] at has
          rw [if_neg hc]
          exact ⟨as, has⟩
      · rw [peerOf_append, peerOf_peer, hubOf_append, hubOf_peer, List.nil_append, hhub,
          connOf_append, enqueued_append, (hpeers c).2]
        by_cases hc : c' = c
        · rw [if_pos hc, hputs, List.nil_append]
        · rw [if_neg hc]
          rfl

/-- A run of the server is a run of the rooms. -/
theorem server_hub {as : List ServerAction} (h : (server cfg).exec as = some (s, l)) :
    ∃ bs, (hubRooms cfg.deployment).exec bs = some (s.hub, hubOf l) := by
  refine Machine.invariant_of_exec
    (I := fun s l => ∃ bs, (hubRooms cfg.deployment).exec bs = some (s.hub, hubOf l))
    ⟨[], rfl⟩ ?_ h
  rintro s l a t o ⟨bs, hbs⟩ hstep
  obtain ⟨cs, hcs⟩ := (WholeServer.step_cases hstep).hub
  exact ⟨bs ++ cs, Machine.execFrom_append_iff _ |>.mpr ⟨_, _, _, hbs, hcs, hubOf_append⟩⟩

/-- It is a run of every connection, on whose queue it puts what the rooms place there. -/
theorem server_peer {as : List ServerAction} (h : (server cfg).exec as = some (s, l))
    (c : Connection) :
    (∃ bs, (online cfg.conn cfg.write).exec bs = some (s.peer c, peerOf c l)) ∧
      enqueued (connOf (peerOf c l)) = placed c (hubOf l) := by
  refine Machine.invariant_of_exec (I := fun s l =>
    (∃ bs, (online cfg.conn cfg.write).exec bs = some (s.peer c, peerOf c l)) ∧
      enqueued (connOf (peerOf c l)) = placed c (hubOf l)) ⟨⟨[], rfl⟩, rfl⟩ ?_ h
  rintro s l a t o ⟨⟨bs, hbs⟩, hqueue⟩ hstep
  have hcases := WholeServer.step_cases hstep
  obtain ⟨cs, hcs⟩ := hcases.peer c
  refine ⟨⟨bs ++ cs, Machine.execFrom_append_iff _ |>.mpr ⟨_, _, _, hbs, hcs, peerOf_append⟩⟩, ?_⟩
  rw [peerOf_append, connOf_append, enqueued_append, hqueue, hcases.queue c, hubOf_append,
    placed_append]

end Parts

/-! ## What the clients read -/

section Clients

variable {cfg : ServerConfig} {s : WholeServer} {l : List ServerEvent}
  {input : Connection → List UInt8}

theorem HubRooms.ordered_of_exec {d : Deployment} {as : List RoomsAction} {s : HubRooms}
    {l : List Event} (h : (hubRooms d).exec as = some (s, l)) : s.Ordered d l ∧ s.KindOk l := by
  have hinit : (hubRooms d).init.Ordered d [] ∧ (hubRooms d).init.KindOk [] := by
    refine ⟨⟨fun c => List.Pairwise.nil, ?_⟩, ⟨?_, ?_, fun i => trivial⟩⟩
    · exact fun c m hm => absurd hm List.not_mem_nil
    · exact fun e he => absurd he List.not_mem_nil
    · exact fun r m hm => absurd hm List.not_mem_nil
  have hall : s.Inv d ∧ s.Ordered d l ∧ s.KindOk l := by
    refine Machine.invariant_of_exec (I := fun s l => s.Inv d ∧ s.Ordered d l ∧ s.KindOk l)
      ⟨.init d, hinit⟩ ?_ h
    rintro s l a t o ⟨hi, ho, hk⟩ hstep
    have hcases := (HubRooms.step_cases hstep).2
    exact ⟨hi.step hcases, ho.step hi hcases, hk.step hcases⟩
  exact hall.2

/-- The room broadcasts at the front of two queues come in one order. -/
theorem sameOrder_of_prefix {as : List ServerAction} (h : (server cfg).exec as = some (s, l))
    {c c' : Connection} {ms ms' : List PushMsg} (hms : ms <+: placed c (hubOf l))
    (hms' : ms' <+: placed c' (hubOf l)) :
    SameOrder (ms.filter (·.isBrAll)) (ms'.filter (·.isBrAll)) := by
  obtain ⟨bs, hbs⟩ := server_hub h
  obtain ⟨hordered, hkind⟩ := HubRooms.ordered_of_exec hbs
  have hin : ∀ (c : Connection) (ms : List PushMsg), ms <+: placed c (hubOf l) →
      InOrder (ms.filter (·.isBrAll)) := by
    intro c ms hms
    have hputs : InOrder (puts c (hubOf l)) := (List.pairwise_append.mp (hordered.inOrder c)).1
    rw [← filter_placed hkind.events] at hputs
    exact hputs.sublist (hms.sublist.filter _)
  exact (hin c ms hms).sameOrder (hin c' ms' hms')

/-- A peer. -/
def peerA : Connection := ⟨0, "a"⟩

/-- One room and one peer, with or without acks. -/
def smallServer (enableAckRto : ℤ) : ServerConfig :=
  ⟨oneRoom, ⟨enableAckRto, 0, ⟨3, 5⟩⟩, ⟨true, 4096, Nat.succ_pos 4095⟩⟩

/-- The benchmark client, with the limit it sets. -/
def clientReads (chunk : ℕ → ℕ) (ends : StreamEnd) : ReadEnv :=
  ⟨false, 16384, chunk, ends, fun _ _ => true, fun _ _ => true⟩

/-- A peer connects, and a message to all is sent to it. -/
def sayHi : List ServerAction :=
  [.rooms (.life peerA .accept), .rooms (.register peerA), .rooms (.life peerA .countUp),
    .rooms (.life peerA .posted), .peer peerA (.conn .goWriter),
    .rooms (.start 0 (.all [104, 105])), .rooms (.acquire 0 ["room_0"]), .rooms (.push 0),
    .rooms (.hub "room_0" .tick), .rooms (.hub "room_0" (.take ["a"])),
    .rooms (.hub "room_0" .attempt), .peer peerA (.conn (.takeMessage true)), .peer peerA .emit,
    .peer peerA (.flush (fun _ => 0) 100)]

/-- What is seen of it, if the writer sends the message as `out` with the body `data`. -/
def saidHi (out : WriterOut) (data : List UInt8) : List ServerEvent :=
  [.hub (.registered peerA), .hub (.took ⟨1, [104, 105], true⟩),
    .hub (.put peerA ⟨1, [104, 105], true⟩), .peer peerA (.conn (.put ⟨1, [104, 105], true⟩)),
    .hub (.drained peerA ⟨1, [104, 105], true⟩),
    .peer peerA (.conn (.out (some ⟨1, [104, 105], true⟩) out)),
    .peer peerA (.called true .text data),
    .peer peerA (.ws (.bytes (0x81 :: UInt8.ofNat data.length :: data))),
    .peer peerA (.ws (.returned .text data))]

theorem placed_saidHi {out : WriterOut} {data : List UInt8} {c : Connection} {m : PushMsg}
    (hm : m ∈ placed c (hubOf (saidHi out data))) : m = ⟨1, [104, 105], true⟩ := by
  by_cases hc : peerA = c
  · simpa [hubOf, saidHi, ServerEvent.hub?, placed, hc] using hm
  · exact absurd hm (by simp [hubOf, saidHi, ServerEvent.hub?, placed, hc])

theorem sayHi_pump : ∃ s, (server (smallServer 0)).exec sayHi =
    some (s, saidHi (.text [104, 105]) [104, 105]) :=
  ⟨_, rfl⟩

theorem sayHi_rto : ∃ s, (server (smallServer 1)).exec sayHi =
    some (s, saidHi (.push 1 (pushFrame 1 [104, 105] true)) (pushFrame 1 [104, 105] true)) :=
  ⟨_, rfl⟩

end Clients

end Skytime
