/-
# Skytime.Hub.Loop — the run loop of one hub (`hub.run` in server/hub.go).

A hub owns a map from peer ids to connections and a bounded queue of messages to broadcast. Its
`run` goroutine is a `select` over register requests, unregister requests and broadcast messages;
a broadcast walks over the map and attempts one send per connection, each paid for with a token of
the `throttle` channel. The loop is cut into the steps between which other goroutines can run: one
register, one unregister, taking a message, one attempt, the end of the walk.

The loop touches its own `Hub` and the send queues of the connections, which other goroutines
share; `HubView` is that pair with the flag of a runtime panic. The effects another goroutine or an
observer can see are the `Event`s a step returns.
-/
import Mathlib.Logic.Function.Basic
import Skytime.Process.Channel
import Skytime.Process.GoMap

namespace Skytime

open Process

/-! ## Data -/

/-- `push_msg_t`. -/
structure PushMsg where
  msgId : ℕ
  msgBody : List UInt8
  isBrAll : Bool
  deriving DecidableEq, Repr

/-- A pointer to a `connection`, with the field that never changes. Two connections of one peer
are two values with one `peerId`. -/
structure Connection where
  ptr : ℕ
  peerId : String
  deriving DecidableEq, Repr

/-- Capacity of `connection.send`, made in `websocketHandler`. -/
def sendCap : ℕ := 4096

/-- Capacity of `hub.broadcast`, made in `Newhub`. -/
def broadcastCap : ℕ := 4096

/-- Capacity of the `throttle` channel of `hub.run`. -/
def burstLimit : ℕ := 10000

/-- Where the run loop stands: at the `select`, or in the walk of a broadcast of `m` with the keys
in `rest` still to be visited. -/
inductive Loop where
  | select
  | fanout (m : PushMsg) (rest : List String)
  deriving DecidableEq, Repr

theorem fanout_cons_inj {m m' : PushMsg} {k k' : String} {rest rest' : List String}
    (h : Loop.fanout m (k :: rest) = .fanout m' (k' :: rest')) :
    m = m' ∧ k = k' ∧ rest = rest' := by
  obtain ⟨rfl, hcons⟩ := Loop.fanout.inj h
  obtain ⟨rfl, rfl⟩ := List.cons.inj hcons
  exact ⟨rfl, rfl, rfl⟩

/-- `hub`, with the number of tokens in the loop's `throttle` channel and the loop's position. The
`register` and `unregister` channels have no buffer, so a hand-over is a step of the loop. -/
structure Hub where
  connections : GoMap String Connection
  broadcast : Chan PushMsg broadcastCap
  peercnt : ℤ
  throttle : ℕ
  loop : Loop

/-- `Newhub`, with its loop started. -/
def newHub : Hub := ⟨∅, Chan.make, 0, 0, .select⟩

/-- What one run loop works on. -/
structure HubView where
  hub : Hub
  send : Connection → Chan PushMsg sendCap
  panicked : Bool

/-- Replacing a queue by one with the same flag changes no closed flag. -/
theorem closed_update {send : Connection → Chan PushMsg sendCap} {c : Connection}
    {ch : Chan PushMsg sendCap} (h : ch.closed = (send c).closed) (c' : Connection) :
    (Function.update send c ch c').closed = (send c').closed := by
  rw [Function.update_apply]
  split
  · rename_i hcc
    rw [hcc, h]
  · rfl

/-- What the goroutines of the server do that can be seen from outside. -/
inductive Event where
  /-- `h.connections[c.peer_id] = c` -/
  | registered (c : Connection)
  /-- a hub has processed the unregister request of `c` -/
  | unregistered (c : Connection)
  /-- `m := <-h.broadcast` -/
  | took (m : PushMsg)
  /-- `c.send <- m` by a hub -/
  | put (c : Connection) (m : PushMsg)
  /-- the attempt to send `m` finds the queue of `c` full -/
  | overflow (c : Connection) (m : PushMsg)
  /-- `close(c.send)` -/
  | closed (c : Connection)
  /-- `c.send <- push_msg` by `broadcast_peers` -/
  | direct (c : Connection) (m : PushMsg)
  /-- the writer of `c` takes `m` from `c.send` -/
  | drained (c : Connection) (m : PushMsg)
  deriving DecidableEq, Repr

/-! ## The cases of the select -/

namespace HubView

/-- `case c := <-h.register`. -/
def register (v : HubView) (c : Connection) : HubView × List Event :=
  ({ v with hub := { v.hub with
      connections := v.hub.connections.insert c.peerId c
      peercnt := v.hub.peercnt + 1 } },
   [.registered c])

/-- `case c := <-h.unregister`: the entry is looked up by the peer id alone. -/
def unregister (v : HubView) (c : Connection) : HubView × List Event :=
  match v.hub.connections.lookup c.peerId with
  | none => (v, [.unregistered c])
  | some _ =>
    -- the deleted entry may be that of another connection, but the queue closed is that of `c`
    let h := { v.hub with connections := v.hub.connections.erase c.peerId }
    match (v.send c).close with
    | none => ({ v with hub := h, panicked := true }, [.unregistered c])
    | some ch =>
      ({ v with hub := { h with peercnt := h.peercnt - 1 }, send := Function.update v.send c ch },
       [.unregistered c, .closed c])

/-- `case m := <-h.broadcast`: take a message and start the walk over the connections in the
iteration order `order`. -/
def take (v : HubView) (order : List String) : Option (HubView × List Event) :=
  match v.hub.loop, v.hub.broadcast.recv with
  | .select, .got m ch =>
    if v.hub.connections.Range order then
      some ({ v with hub := { v.hub with broadcast := ch, loop := .fanout m order } }, [.took m])
    else none
  | _, _ => none

/-- One round of the walk: a token, then `select { case c.send <- m: default: .. }`. -/
def attempt (v : HubView) : Option (HubView × List Event) :=
  match v.hub.loop with
  | .fanout m (k :: rest) =>
    match v.hub.connections.lookup k with
    -- an entry deleted during the walk is not visited
    | none => some ({ v with hub := { v.hub with loop := .fanout m rest } }, [])
    | some c =>
      -- the loop waits for a token
      if v.hub.throttle = 0 then none
      else
        let h := { v.hub with throttle := v.hub.throttle - 1, loop := .fanout m rest }
        match (v.send c).send m with
        | .panic => some ({ v with hub := h, panicked := true }, [])
        | .sent ch =>
          some ({ v with hub := h, send := Function.update v.send c ch }, [.put c m])
        -- the default branch drops the slow connection
        | .blocked =>
          match (v.send c).close with
          | none => some ({ v with hub := h, panicked := true }, [])
          | some ch =>
            some ({ v with
              hub := { h with
                connections := h.connections.erase c.peerId
                peercnt := h.peercnt - 1 }
              send := Function.update v.send c ch }, [.overflow c m, .closed c])
  | _ => none

/-- The walk is over and the loop returns to its `select`. -/
def rangeDone (v : HubView) : Option (HubView × List Event) :=
  match v.hub.loop with
  | .fanout _ [] => some ({ v with hub := { v.hub with loop := .select } }, [])
  | _ => none

/-- The throttle goroutine takes a tick and offers it to the `throttle` channel. -/
def tick (v : HubView) : HubView × List Event :=
  ({ v with hub := { v.hub with throttle := min (v.hub.throttle + 1) burstLimit } }, [])

end HubView

/-- The steps of a hub's own goroutines. -/
inductive HubAction where
  | take (order : List String)
  | attempt
  | rangeDone
  | tick
  deriving DecidableEq, Repr

/-- One step of a hub's own goroutines. -/
def HubView.act (v : HubView) : HubAction → Option (HubView × List Event)
  | .take order => v.take order
  | .attempt => v.attempt
  | .rangeDone => v.rangeDone
  | .tick => some v.tick

/-! ## What the steps can do -/

/-- The outcomes of one unregister request. -/
inductive HubView.Unregister (v : HubView) (c : Connection) : HubView → List Event → Prop
  | absent (hkey : v.hub.connections.lookup c.peerId = none) :
      Unregister v c v [.unregistered c]
  | panic {c' : Connection} (hkey : v.hub.connections.lookup c.peerId = some c')
      (hclosed : (v.send c).closed = true) :
      Unregister v c
        { v with
          hub := { v.hub with connections := v.hub.connections.erase c.peerId }
          panicked := true }
        [.unregistered c]
  | close {c' : Connection} {ch : Chan PushMsg sendCap}
      (hkey : v.hub.connections.lookup c.peerId = some c')
      (hopen : (v.send c).closed = false) (hbuf : ch.buf = (v.send c).buf)
      (hch : ch.closed = true) :
      Unregister v c
        { v with
          hub := { v.hub with
            connections := v.hub.connections.erase c.peerId
            peercnt := v.hub.peercnt - 1 }
          send := Function.update v.send c ch }
        [.unregistered c, .closed c]

theorem HubView.unregister_cases (v : HubView) (c : Connection) :
    v.Unregister c (v.unregister c).1 (v.unregister c).2 := by
  unfold HubView.unregister
  split
  · rename_i hkey
    exact .absent hkey
  · rename_i c' hkey
    split
    · rename_i hclose
      exact .panic hkey (Chan.close_eq_none_iff.mp hclose)
    · rename_i ch hclose
      obtain ⟨hopen, hbuf, hch⟩ := Chan.close_eq_some_iff.mp hclose
      exact .close hkey hopen hbuf hch

/-- The outcomes of one step of a hub's own goroutines. -/
inductive HubView.Act (v : HubView) : HubAction → HubView → List Event → Prop
  | take {order : List String} {m : PushMsg} {ch : Chan PushMsg broadcastCap}
      (hloop : v.hub.loop = .select) (hbuf : v.hub.broadcast.buf = m :: ch.buf)
      (hch : ch.closed = v.hub.broadcast.closed) (horder : v.hub.connections.Range order) :
      Act v (.take order)
        { v with hub := { v.hub with broadcast := ch, loop := .fanout m order } } [.took m]
  | skip {m : PushMsg} {k : String} {rest : List String}
      (hloop : v.hub.loop = .fanout m (k :: rest)) (hkey : v.hub.connections.lookup k = none) :
      Act v .attempt { v with hub := { v.hub with loop := .fanout m rest } } []
  | panic {m : PushMsg} {k : String} {rest : List String} {c : Connection}
      (hloop : v.hub.loop = .fanout m (k :: rest)) (hkey : v.hub.connections.lookup k = some c)
      (hclosed : (v.send c).closed = true) :
      Act v .attempt
        { v with
          hub := { v.hub with throttle := v.hub.throttle - 1, loop := .fanout m rest }
          panicked := true } []
  | put {m : PushMsg} {k : String} {rest : List String} {c : Connection}
      {ch : Chan PushMsg sendCap}
      (hloop : v.hub.loop = .fanout m (k :: rest)) (hkey : v.hub.connections.lookup k = some c)
      (hopen : (v.send c).closed = false) (hroom : ¬ (v.send c).Full)
      (hbuf : ch.buf = (v.send c).buf ++ [m]) (hch : ch.closed = false) :
      Act v .attempt
        { v with
          hub := { v.hub with throttle := v.hub.throttle - 1, loop := .fanout m rest }
          send := Function.update v.send c ch } [.put c m]
  | overflow {m : PushMsg} {k : String} {rest : List String} {c : Connection}
      {ch : Chan PushMsg sendCap}
      (hloop : v.hub.loop = .fanout m (k :: rest)) (hkey : v.hub.connections.lookup k = some c)
      (hopen : (v.send c).closed = false) (hfull : (v.send c).Full)
      (hbuf : ch.buf = (v.send c).buf) (hch : ch.closed = true) :
      Act v .attempt
        { v with
          hub := { v.hub with
            connections := v.hub.connections.erase c.peerId
            peercnt := v.hub.peercnt - 1
            throttle := v.hub.throttle - 1
            loop := .fanout m rest }
          send := Function.update v.send c ch } [.overflow c m, .closed c]
  | rangeDone {m : PushMsg} (hloop : v.hub.loop = .fanout m []) :
      Act v .rangeDone { v with hub := { v.hub with loop := .select } } []
  | tick :
      Act v .tick
        { v with hub := { v.hub with throttle := min (v.hub.throttle + 1) burstLimit } } []

theorem HubView.take_cases {v v' : HubView} {order : List String} {o : List Event}
    (h : v.take order = some (v', o)) : v.Act (.take order) v' o := by
  unfold HubView.take at h
  split at h
  · rename_i m ch hloop hrecv
    split at h
    · rename_i horder
      obtain ⟨rfl, rfl⟩ := Prod.mk.inj (Option.some.inj h)
      obtain ⟨hbuf, hch⟩ := Chan.recv_eq_got_iff.mp hrecv
      exact .take hloop hbuf hch horder
    · exact absurd h (by simp)
  · exact absurd h (by simp)

theorem HubView.attempt_cases {v v' : HubView} {o : List Event}
    (h : v.attempt = some (v', o)) : v.Act .attempt v' o := by
  unfold HubView.attempt at h
  split at h
  · rename_i m k rest hloop
    split at h
    · rename_i hkey
      obtain ⟨rfl, rfl⟩ := Prod.mk.inj (Option.some.inj h)
      exact .skip hloop hkey
    · rename_i c hkey
      split at h
      · exact absurd h (by simp)
      · simp only at h
        split at h
        · rename_i hsend
          obtain ⟨rfl, rfl⟩ := Prod.mk.inj (Option.some.inj h)
          exact .panic hloop hkey (Chan.send_eq_panic_iff.mp hsend)
        · rename_i ch hsend
          obtain ⟨rfl, rfl⟩ := Prod.mk.inj (Option.some.inj h)
          obtain ⟨hopen, hroom, hbuf, hch⟩ := Chan.send_eq_sent_iff.mp hsend
          exact .put hloop hkey hopen hroom hbuf hch
        · rename_i hsend
          obtain ⟨hopen, hfull⟩ := Chan.send_eq_blocked_iff.mp hsend
          split at h
          · rename_i hclose
            rw [Chan.close_eq_none_iff, hopen] at hclose
            exact absurd hclose (by simp)
          · rename_i ch hclose
            obtain ⟨rfl, rfl⟩ := Prod.mk.inj (Option.some.inj h)
            obtain ⟨_, hbuf, hch⟩ := Chan.close_eq_some_iff.mp hclose
            exact .overflow hloop hkey hopen hfull hbuf hch
  · exact absurd h (by simp)

/-- Everything a step of a hub's own goroutines can do. -/
theorem HubView.act_cases {v v' : HubView} {a : HubAction} {o : List Event}
    (h : v.act a = some (v', o)) : v.Act a v' o := by
  cases a with
  | take order => exact take_cases h
  | attempt => exact attempt_cases h
  | rangeDone =>
      simp only [act, rangeDone] at h
      split at h
      · rename_i m hloop
        obtain ⟨rfl, rfl⟩ := Prod.mk.inj (Option.some.inj h)
        exact .rangeDone hloop
      · exact absurd h (by simp)
  | tick =>
      obtain ⟨rfl, rfl⟩ := Prod.mk.inj (Option.some.inj h)
      exact .tick

/-- An attempt for the connection `c` finds its queue closed, puts the message on it, or finds it
full and closes it. -/
theorem HubView.Act.attempt_listed {v v' : HubView} {m : PushMsg} {k : String}
    {rest : List String} {c : Connection} {o : List Event} (h : v.Act .attempt v' o)
    (hloop : v.hub.loop = .fanout m (k :: rest)) (hkey : v.hub.connections.lookup k = some c) :
    (v.send c).closed = true ∨
      (¬ (v.send c).Full ∧ v'.panicked = v.panicked ∧ (v'.send c).closed = false ∧
        (v'.send c).buf = (v.send c).buf ++ [m]) ∨
      ((v.send c).Full ∧ (v'.send c).closed = true) := by
  -- the attempt of the step is the one for `c`
  cases h with
  | skip hloop' habs =>
      obtain ⟨_, rfl, _⟩ := fanout_cons_inj (hloop.symm.trans hloop')
      exact absurd (habs.symm.trans hkey) (by simp)
  | panic hloop' hkey' hclosed =>
      obtain ⟨_, rfl, _⟩ := fanout_cons_inj (hloop.symm.trans hloop')
      obtain rfl := Option.some.inj (hkey.symm.trans hkey')
      exact .inl hclosed
  | @put m' k' rest' c' ch hloop' hkey' hopen hroom hbuf hch =>
      obtain ⟨rfl, rfl, _⟩ := fanout_cons_inj (hloop.symm.trans hloop')
      obtain rfl := Option.some.inj (hkey.symm.trans hkey')
      refine .inr (.inl ⟨hroom, rfl, ?_, ?_⟩)
      · show (Function.update v.send c ch c).closed = false
        rwa [Function.update_self]
      · show (Function.update v.send c ch c).buf = (v.send c).buf ++ [m]
        rwa [Function.update_self]
  | @overflow m' k' rest' c' ch hloop' hkey' hopen hfull hbuf hch =>
      obtain ⟨_, rfl, _⟩ := fanout_cons_inj (hloop.symm.trans hloop')
      obtain rfl := Option.some.inj (hkey.symm.trans hkey')
      refine .inr (.inr ⟨hfull, ?_⟩)
      show (Function.update v.send c ch c).closed = true
      rwa [Function.update_self]

end Skytime
