/-
# Skytime.Conn.Online — a connection with its websocket, from `c.send` to the wire.

The writer hands its frames to the websocket by `c.write`; with `enable_ack_rto` one, the goroutine
that answers notifies writes as well, and `notify_mu` keeps the two apart. The reader's goroutine
writes control frames whenever it wants. The machine `online` interleaves these with all that the
connection does; how much of a frame the network takes is up to the network. A run of it is a run of
`drain` and a run of `sender`, and the calls of the second are the outputs of the first. So what is
known about the two says what the client reads.
-/
import Skytime.Conn.Drain
import Skytime.Conn.Wire
import Skytime.WebSocket.Received

namespace Skytime

open Process WebSocket

/-! ## The machine -/

/-- A connection, the write side of its websocket, and whether the writer is in `c.write`. -/
structure Online where
  conn : Drain
  ws : WebSocket.WriteSide
  writing : Bool

inductive OnlineAction where
  /-- anything but an output of the writer -/
  | conn (a : EndpointAction)
  /-- the next output of the writer; if it is a frame, `c.write` is called -/
  | emit
  /-- `send_ack_msg_to_peer`, in the goroutine that answers notifies -/
  | ack (ackSeq : ℕ)
  /-- the next frame of the call that is in `c.write` -/
  | flush (key : MaskKey) (room : ℕ)
  /-- the reader's answer to a frame of the client -/
  | writeControl (t : FrameType) (data : List UInt8) (key : MaskKey) (room : ℕ)
  /-- `c.ws.Close()` -/
  | closeConn

inductive OnlineEvent where
  | conn (e : DrainEvent)
  /-- `c.write` is called, by the writer or with an ack -/
  | called (byWriter : Bool) (t : FrameType) (data : List UInt8)
  | ws (e : WriteEvent)

/-- The call of `c.write` for an output of the writer. -/
def WriterOut.call : WriterOut → Option (FrameType × List UInt8)
  | .push _ frame => some (.text, frame)
  | .text body => some (.text, body)
  | .pingMessage => some (.ping, [])
  | .closeMessage => some (.close, [])
  | .report _ | .ticked => none

/-- The actions of the writer's goroutine, which waits while it is in `c.write`. -/
def EndpointAction.ofWriter : EndpointAction → Bool
  | .takeMessage _ | .takeEnd | .ping _ | .tick _ | .handAck | .emit => true
  | _ => false

namespace Online

variable (cfg : EndpointConfig) (wcfg : WriteConfig)

/-- `c.write`, by one of its callers. -/
def call (s : Online) (byWriter : Bool) (t : FrameType) (data : List UInt8) :
    Option (WriteSide × List OnlineEvent) :=
  match (sender wcfg).step s.ws (.writeMessage t data) with
  | none => none
  | some (w, o) => some (w, .called byWriter t data :: o.map .ws)

def step (s : Online) : OnlineAction → Option (Online × List OnlineEvent)
  | .conn a =>
    if a = .emit ∨ (s.writing ∧ a.ofWriter) then none
    else
      match (drain cfg).step s.conn a with
      | none => none
      | some (c, o) => some ({ s with conn := c }, o.map .conn)
  | .emit =>
    if s.writing then none
    else
      match s.conn.conn.pending with
      | [] => none
      | out :: _ =>
        match (drain cfg).step s.conn .emit with
        | none => none
        | some (c, o) =>
          match out.call with
          | none => some ({ s with conn := c }, o.map .conn)
          | some (t, data) =>
            match s.call wcfg true t data with
            | none => none
            | some (w, o') => some (⟨c, w, w.stage ≠ .idle⟩, o.map .conn ++ o')
  | .ack ackSeq =>
    if cfg.enableAckRto = 1 then
      match s.call wcfg false .text (ackToPeer ackSeq) with
      | none => none
      | some (w, o) => some ({ s with ws := w }, o)
    else none
  | .flush key room =>
    match (sender wcfg).step s.ws (.flush key room) with
    | none => none
    | some (w, o) => some ({ s with ws := w, writing := s.writing ∧ w.stage ≠ .idle }, o.map .ws)
  | .writeControl t data key room =>
    match (sender wcfg).step s.ws (.writeControl t data key room) with
    | none => none
    | some (w, o) => some ({ s with ws := w }, o.map .ws)
  | .closeConn =>
    match (sender wcfg).step s.ws .closeConn with
    | none => none
    | some (w, o) => some ({ s with ws := w }, o.map .ws)

end Online

/-- A connection that has been registered, with its websocket. -/
def online (cfg : EndpointConfig) (wcfg : WriteConfig) :
    Machine Online OnlineAction OnlineEvent where
  init := ⟨(drain cfg).init, (sender wcfg).init, false⟩
  step := Online.step cfg wcfg

/-! ## What a run shows -/

def OnlineEvent.conn? : OnlineEvent → List DrainEvent
  | .conn e => [e]
  | _ => []

def OnlineEvent.ws? : OnlineEvent → List WriteEvent
  | .ws e => [e]
  | _ => []

/-- The call of `c.write`, and who calls. -/
def OnlineEvent.call? : OnlineEvent → List (Bool × FrameType × List UInt8)
  | .called byWriter t data => [(byWriter, t, data)]
  | _ => []

/-- The call of `c.write`, whoever calls. -/
def OnlineEvent.said : OnlineEvent → List (FrameType × List UInt8)
  | .called _ t data => [(t, data)]
  | _ => []

/-- The calls of `WriteMessage` among the actions of the write side. -/
def callTold : WebSocket.WriteAction → List (FrameType × List UInt8)
  | .writeMessage t data => [(t, data)]
  | _ => []

/-- The messages that an action puts on the queue. -/
def EndpointAction.puts : EndpointAction → List PushMsg
  | .putMessage m => [m]
  | _ => []

def OnlineAction.puts : OnlineAction → List PushMsg
  | .conn a => a.puts
  | _ => []

/-! ## The two parts of a run -/

section Parts

variable {cfg : EndpointConfig} {wcfg : WriteConfig} {s t : Online} {o : List OnlineEvent}

theorem Online.call_eq_some {byWriter : Bool} {ft : FrameType} {data : List UInt8}
    {w : WebSocket.WriteSide} (h : s.call wcfg byWriter ft data = some (w, o)) :
    ∃ k, (sender wcfg).step s.ws (.writeMessage ft data) = some (w, k) ∧
      o = .called byWriter ft data :: k.map .ws := by
  simp only [Online.call] at h
  split at h
  · exact absurd h (by simp)
  · rename_i v k hstep
    obtain ⟨rfl, rfl⟩ := Prod.mk.inj (Option.some.inj h)
    exact ⟨k, hstep, rfl⟩

/-- Everything one step can do: the connection moves, or the websocket, or both with an output of
the writer. -/
inductive Online.Step (cfg : EndpointConfig) (wcfg : WriteConfig) (s : Online) :
    OnlineAction → Online → List OnlineEvent → Prop
  | conn {a : EndpointAction} {c : Drain} {k : List DrainEvent} (ha : a ≠ .emit)
      (hstep : (drain cfg).step s.conn a = some (c, k)) :
      Step cfg wcfg s (.conn a) { s with conn := c } (k.map .conn)
  | silent {out : WriterOut} {rest : List WriterOut} {c : Drain} {k : List DrainEvent}
      (hout : s.conn.conn.pending = out :: rest) (hcall : out.call = none)
      (hstep : (drain cfg).step s.conn .emit = some (c, k)) :
      Step cfg wcfg s .emit { s with conn := c } (k.map .conn)
  | output {out : WriterOut} {rest : List WriterOut} {c : Drain} {k : List DrainEvent}
      {ft : FrameType} {data : List UInt8} {w : WebSocket.WriteSide} {m : List WriteEvent}
      (hout : s.conn.conn.pending = out :: rest) (hcall : out.call = some (ft, data))
      (hstep : (drain cfg).step s.conn .emit = some (c, k))
      (hwrite : (sender wcfg).step s.ws (.writeMessage ft data) = some (w, m)) (b : Bool) :
      Step cfg wcfg s .emit ⟨c, w, b⟩ (k.map .conn ++ .called true ft data :: m.map .ws)
  | ack {ackSeq : ℕ} {w : WebSocket.WriteSide} {m : List WriteEvent} (hrto : cfg.enableAckRto = 1)
      (hwrite : (sender wcfg).step s.ws (.writeMessage .text (ackToPeer ackSeq)) = some (w, m)) :
      Step cfg wcfg s (.ack ackSeq) { s with ws := w }
        (.called false .text (ackToPeer ackSeq) :: m.map .ws)
  | ws {x : OnlineAction} {a : WebSocket.WriteAction} {w : WebSocket.WriteSide}
      {m : List WriteEvent} (b : Bool) (hx : x.puts = []) (ha : callTold a = [])
      (hwrite : (sender wcfg).step s.ws a = some (w, m)) :
      Step cfg wcfg s x { s with ws := w, writing := b } (m.map .ws)

theorem Online.step_cases {a : OnlineAction} (h : (online cfg wcfg).step s a = some (t, o)) :
    s.Step cfg wcfg a t o := by
  cases a with
  | conn a =>
      simp only [online, Online.step] at h
      split_ifs at h with hnot
      cases hstep : (drain cfg).step s.conn a with
      | none => simp only [hstep, reduceCtorEq] at h
      | some p =>
          simp only [hstep, Option.some.injEq, Prod.mk.injEq] at h
          obtain ⟨rfl, rfl⟩ := h
          exact .conn (fun ha => hnot (.inl ha)) hstep
  | emit =>
      simp only [online, Online.step] at h
      split_ifs at h with hnot
      cases hpending : s.conn.conn.pending with
      | nil => simp only [hpending, reduceCtorEq] at h
      | cons out rest =>
          simp only [hpending] at h
          cases hstep : (drain cfg).step s.conn .emit with
          | none => simp only [hstep, reduceCtorEq] at h
          | some p =>
              simp only [hstep] at h
              cases hcall : out.call with
              | none =>
                  simp only [hcall, Option.some.injEq, Prod.mk.injEq] at h
                  obtain ⟨rfl, rfl⟩ := h
                  exact .silent hpending hcall hstep
              | some q =>
                  simp only [hcall] at h
                  cases hwrite : s.call wcfg true q.1 q.2 with
                  | none => simp only [hwrite, reduceCtorEq] at h
                  | some r =>
                      simp only [hwrite, Option.some.injEq, Prod.mk.injEq] at h
                      obtain ⟨rfl, rfl⟩ := h
                      obtain ⟨m, hm, hr⟩ := Online.call_eq_some hwrite
                      rw [hr]
                      exact .output hpending hcall hstep hm _
  | ack ackSeq =>
      simp only [online, Online.step] at h
      split_ifs at h with hrto
      cases hwrite : s.call wcfg false .text (ackToPeer ackSeq) with
      | none => simp only [hwrite, reduceCtorEq] at h
      | some r =>
          simp only [hwrite, Option.some.injEq, Prod.mk.injEq] at h
          obtain ⟨rfl, rfl⟩ := h
          obtain ⟨m, hm, hr⟩ := Online.call_eq_some hwrite
          rw [hr]
          exact .ack hrto hm
  | flush key room =>
      simp only [online, Online.step] at h
      cases hwrite : (sender wcfg).step s.ws (.flush key room) with
      | none => simp only [hwrite, reduceCtorEq] at h
      | some r =>
          simp only [hwrite, Option.some.injEq, Prod.mk.injEq] at h
          obtain ⟨rfl, rfl⟩ := h
          exact .ws _ rfl rfl hwrite
  | writeControl ft data key room =>
      simp only [online, Online.step] at h
      cases hwrite : (sender wcfg).step s.ws (.writeControl ft data key room) with
      | none => simp only [hwrite, reduceCtorEq] at h
      | some r =>
          simp only [hwrite, Option.some.injEq, Prod.mk.injEq] at h
          obtain ⟨rfl, rfl⟩ := h
          exact .ws s.writing rfl rfl hwrite
  | closeConn =>
      simp only [online, Online.step] at h
      cases hwrite : (sender wcfg).step s.ws .closeConn with
      | none => simp only [hwrite, reduceCtorEq] at h
      | some r =>
          simp only [hwrite, Option.some.injEq, Prod.mk.injEq] at h
          obtain ⟨rfl, rfl⟩ := h
          exact .ws s.writing rfl rfl hwrite

/-- What has been seen of the connection. -/
def connOf (l : List OnlineEvent) : List DrainEvent := l.flatMap OnlineEvent.conn?

/-- What has been seen of the write side. -/
def wsOf (l : List OnlineEvent) : List WriteEvent := l.flatMap OnlineEvent.ws?

/-- The calls of `c.write`. -/
def callsOf (l : List OnlineEvent) : List (Bool × FrameType × List UInt8) :=
  l.flatMap OnlineEvent.call?

/-- A connection runs in it. -/
theorem online_drain (cfg : EndpointConfig) (wcfg : WriteConfig) :
    (online cfg wcfg).IsPart (drain cfg) Online.conn OnlineEvent.conn?
      (fun _ => ([] : List Unit)) (fun _ => []) where
  init := rfl
  step s a t o h := by
    have htell : ∀ (as : List EndpointAction) (k : List OnlineEvent),
        as.flatMap (fun _ => ([] : List Unit)) = k.flatMap fun _ => [] := by
      intro as k
      rw [List.flatMap_eq_nil_iff.mpr fun _ _ => rfl, List.flatMap_eq_nil_iff.mpr fun _ _ => rfl]
    have hself := fun k => Machine.flatMap_map_self (f := OnlineEvent.conn)
      (g := OnlineEvent.conn?) (fun _ => rfl) k
    have hnil := fun k => Machine.flatMap_map_nil (f := OnlineEvent.ws)
      (g := OnlineEvent.conn?) (fun _ => rfl) k
    cases Online.step_cases h with
    | @conn a' c k _ hstep =>
        exact ⟨[a'], by rw [hself]; exact (drain cfg).execFrom_single hstep, htell _ _⟩
    | silent _ _ hstep =>
        exact ⟨[.emit], by rw [hself]; exact (drain cfg).execFrom_single hstep, htell _ _⟩
    | output _ _ hstep =>
        refine ⟨[.emit], ?_, htell _ _⟩
        rw [List.flatMap_append, hself, List.flatMap_cons, hnil]
        simpa [OnlineEvent.conn?] using (drain cfg).execFrom_single hstep
    | ack _ hwrite => exact ⟨[], by rw [List.flatMap_cons, hnil]; rfl, htell _ _⟩
    | ws b _ _ hwrite => exact ⟨[], by rw [hnil]; rfl, htell _ _⟩

/-- The write side runs in it, and its calls are those of `c.write`. -/
theorem online_sender (cfg : EndpointConfig) (wcfg : WriteConfig) :
    (online cfg wcfg).IsPart (sender wcfg) Online.ws OnlineEvent.ws? callTold
      OnlineEvent.said where
  init := rfl
  step s a t o h := by
    have hself := fun k => Machine.flatMap_map_self (f := OnlineEvent.ws)
      (g := OnlineEvent.ws?) (fun _ => rfl) k
    have hnil := fun k => Machine.flatMap_map_nil (f := OnlineEvent.conn)
      (g := OnlineEvent.ws?) (fun _ => rfl) k
    have hsaid := fun k => Machine.flatMap_map_nil (f := OnlineEvent.conn)
      (g := OnlineEvent.said) (fun _ => rfl) k
    have hsaid' := fun k => Machine.flatMap_map_nil (f := OnlineEvent.ws)
      (g := OnlineEvent.said) (fun _ => rfl) k
    cases Online.step_cases h with
    | conn _ hstep => exact ⟨[], by rw [hnil]; rfl, by rw [hsaid]; rfl⟩
    | silent _ _ hstep => exact ⟨[], by rw [hnil]; rfl, by rw [hsaid]; rfl⟩
    | @output _ _ _ k ft data w m _ _ _ hwrite b =>
        refine ⟨[.writeMessage ft data], ?_, ?_⟩
        · rw [List.flatMap_append, hnil, List.flatMap_cons, hself]
          exact (sender wcfg).execFrom_single hwrite
        · rw [List.flatMap_append, hsaid]
          exact (congrArg ([(ft, data)] ++ ·) (hsaid' m)).symm
    | @ack ackSeq w m _ hwrite =>
        refine ⟨[.writeMessage .text (ackToPeer ackSeq)], ?_, ?_⟩
        · rw [List.flatMap_cons, hself]
          exact (sender wcfg).execFrom_single hwrite
        · exact (congrArg ([(FrameType.text, ackToPeer ackSeq)] ++ ·) (hsaid' m)).symm
    | @ws _ a' w m b _ ha hwrite =>
        refine ⟨[a'], by rw [hself]; exact (sender wcfg).execFrom_single hwrite, ?_⟩
        rw [hsaid', List.flatMap_cons, ha]
        rfl

/-- The outputs of the connection are those that its writer emits. -/
theorem drain_outs {a : EndpointAction} {c d : Drain} {k : List DrainEvent} (ha : a ≠ .emit)
    (hstep : (drain cfg).step c a = some (d, k)) : outsOf k = [] := by
  obtain ⟨outs, hend, -, rfl⟩ := Drain.step_iff.mp hstep
  have houts : outs = [] := by
    cases Endpoint.effect_of_step hend with
    | emit => exact absurd rfl ha
    | put | close | take | ended | between | aside => rfl
  rw [houts]
  cases a <;> rfl

theorem drain_emit {c d : Drain} {k : List DrainEvent} {out : WriterOut} {rest : List WriterOut}
    (hout : c.conn.pending = out :: rest)
    (hstep : (drain cfg).step c .emit = some (d, k)) : outsOf k = [out] := by
  obtain ⟨outs, hend, -, rfl⟩ := Drain.step_iff.mp hstep
  cases Endpoint.effect_of_step hend with
  | emit hpending =>
      rw [hout] at hpending
      obtain ⟨rfl, -⟩ := List.cons.inj hpending
      rfl
  | between ha => exact ha.elim
  | aside ha => exact ha.elim

end Parts

/-! ## The calls are the outputs -/

section Calls

variable {cfg : EndpointConfig} {wcfg : WriteConfig} {s : Online} {l : List OnlineEvent}

@[simp] theorem connOf_append (l k : List OnlineEvent) : connOf (l ++ k) = connOf l ++ connOf k :=
  List.flatMap_append

@[simp] theorem callsOf_append (l k : List OnlineEvent) :
    callsOf (l ++ k) = callsOf l ++ callsOf k :=
  List.flatMap_append

@[simp] theorem outsOf_append (l k : List DrainEvent) : outsOf (l ++ k) = outsOf l ++ outsOf k :=
  List.filterMap_append

/-- The calls of the writer are its outputs, and the others are acks. -/
structure CallsMatch (cfg : EndpointConfig) (l : List OnlineEvent) : Prop where
  writer : ((callsOf l).filter (·.1)).map (·.2) = (outsOf (connOf l)).filterMap WriterOut.call
  acks : ∀ c ∈ callsOf l, c.1 = false →
    cfg.enableAckRto = 1 ∧ ∃ ackSeq, c.2 = (.text, ackToPeer ackSeq)

theorem connOf_conn (k : List DrainEvent) : connOf (k.map .conn) = k :=
  Machine.flatMap_map_self (fun _ => rfl) k

theorem connOf_ws (m : List WriteEvent) : connOf (m.map .ws) = [] :=
  Machine.flatMap_map_nil (fun _ => rfl) m

theorem callsOf_conn (k : List DrainEvent) : callsOf (k.map .conn) = [] :=
  Machine.flatMap_map_nil (fun _ => rfl) k

theorem callsOf_ws (m : List WriteEvent) : callsOf (m.map .ws) = [] :=
  Machine.flatMap_map_nil (fun _ => rfl) m

theorem callsOf_called (b : Bool) (ft : FrameType) (data : List UInt8) (m : List WriteEvent) :
    callsOf (.called b ft data :: m.map .ws) = [(b, ft, data)] :=
  congrArg ([(b, ft, data)] ++ ·) (callsOf_ws m)

theorem connOf_called (b : Bool) (ft : FrameType) (data : List UInt8) (m : List WriteEvent) :
    connOf (.called b ft data :: m.map .ws) = [] :=
  connOf_ws m

theorem CallsMatch.append {l o : List OnlineEvent} (h : CallsMatch cfg l) (ho : CallsMatch cfg o) :
    CallsMatch cfg (l ++ o) where
  writer := by
    rw [callsOf_append, List.filter_append, List.map_append, h.writer, ho.writer, connOf_append,
      outsOf_append, List.filterMap_append]
  acks := by
    intro c hc
    rw [callsOf_append] at hc
    rcases List.mem_append.mp hc with hc | hc
    · exact h.acks c hc
    · exact ho.acks c hc

theorem Online.Step.callsMatch {a : OnlineAction} {t : Online} {o : List OnlineEvent}
    (hstep : s.Step cfg wcfg a t o) : CallsMatch cfg o := by
  cases hstep with
  | conn ha hstep =>
      refine ⟨?_, ?_⟩
      · rw [callsOf_conn, connOf_conn, drain_outs ha hstep]
        rfl
      · rw [callsOf_conn]
        simp
  | silent hout hcall hstep =>
      refine ⟨?_, ?_⟩
      · rw [callsOf_conn, connOf_conn, drain_emit hout hstep]
        simp [hcall]
      · rw [callsOf_conn]
        simp
  | output hout hcall hstep hwrite b =>
      refine ⟨?_, ?_⟩
      · rw [callsOf_append, callsOf_conn, callsOf_called, connOf_append, connOf_conn, connOf_called,
          List.append_nil, drain_emit hout hstep]
        simp [hcall]
      · rw [callsOf_append, callsOf_conn, callsOf_called]
        simp
  | ack hrto hwrite =>
      refine ⟨?_, ?_⟩
      · rw [callsOf_called, connOf_called]
        rfl
      · rw [callsOf_called]
        intro c hc
        rw [List.mem_singleton.mp hc]
        exact fun _ => ⟨hrto, _, rfl⟩
  | ws b hx ha hwrite =>
      refine ⟨?_, ?_⟩
      · rw [callsOf_ws, connOf_ws]
        rfl
      · rw [callsOf_ws]
        simp

theorem callsMatch_exec {as : List OnlineAction} (hexec : (online cfg wcfg).exec as = some (s, l)) :
    CallsMatch cfg l :=
  Machine.invariant_of_exec (I := fun _ l => CallsMatch cfg l) ⟨rfl, by simp [callsOf]⟩
    (fun _ _ _ _ _ h hstep => h.append (Online.step_cases hstep).callsMatch) hexec

/-- The message of a call, if it is a data message. -/
def dataOf (c : FrameType × List UInt8) : Option WebSocket.Message :=
  (dataType c.1).map fun t => (t, c.2)

theorem dataCalls_eq (bs : List WebSocket.WriteAction) :
    dataCalls bs = (bs.flatMap callTold).filterMap dataOf := by
  induction bs with
  | nil => rfl
  | cons b bs ih =>
      rw [List.flatMap_cons, List.filterMap_append, ← ih]
      cases b with
      | writeMessage ft data => cases hft : dataType ft <;> simp [dataCalls, callTold, dataOf, hft]
      | flush key room | writeControl ft data key room | closeConn => rfl

theorem said_eq (l : List OnlineEvent) : l.flatMap OnlineEvent.said = (callsOf l).map (·.2) := by
  induction l with
  | nil => rfl
  | cons e l ih =>
      rw [List.flatMap_cons, ih]
      cases e <;> rfl

/-- Every call of the websocket is one of `c.write`. -/
theorem mem_callsOf {bs : List WebSocket.WriteAction}
    (htell : bs.flatMap callTold = l.flatMap OnlineEvent.said) {ft : FrameType}
    {data : List UInt8} (hmem : .writeMessage ft data ∈ bs) :
    ∃ b, (b, ft, data) ∈ callsOf l := by
  have hsaid : (ft, data) ∈ (callsOf l).map (·.2) := by
    rw [← said_eq, ← htell]
    exact List.mem_flatMap.mpr ⟨_, hmem, by simp [callTold]⟩
  obtain ⟨⟨b, c⟩, hc, rfl⟩ := List.mem_map.mp hsaid
  exact ⟨b, hc⟩

end Calls

/-! ## The queue -/

theorem enqueued_see (s : Drain) (a : EndpointAction) (outs : List WriterOut) :
    enqueued (s.see a outs) = a.puts := by
  have hnone : enqueued (outs.map (.out s.current)) = [] :=
    List.filterMap_eq_nil_iff.mpr fun e he => by
      obtain ⟨o, -, rfl⟩ := List.mem_map.mp he
      rfl
  cases a <;> first | rfl | exact hnone

theorem drain_enqueued {cfg : EndpointConfig} {s t : Drain} {a : EndpointAction}
    {o : List DrainEvent} (h : (drain cfg).step s a = some (t, o)) : enqueued o = a.puts := by
  obtain ⟨outs, -, -, rfl⟩ := Drain.step_iff.mp h
  exact enqueued_see s a outs

/-- The events of a step have the messages that the action puts. -/
theorem Online.Step.enqueued {cfg : EndpointConfig} {wcfg : WriteConfig} {s t : Online}
    {a : OnlineAction} {o : List OnlineEvent} (h : s.Step cfg wcfg a t o) :
    Skytime.enqueued (connOf o) = a.puts := by
  cases h with
  | conn ha hstep =>
      rw [connOf_conn]
      exact drain_enqueued hstep
  | silent hout hcall hstep =>
      rw [connOf_conn]
      exact drain_enqueued hstep
  | output hout hcall hstep hwrite b =>
      rw [connOf_append, connOf_conn, connOf_called, List.append_nil]
      exact drain_enqueued hstep
  | ack hrto hwrite =>
      rw [connOf_called]
      rfl
  | ws b hx ha hwrite =>
      rw [connOf_ws, hx]
      rfl

end Skytime
