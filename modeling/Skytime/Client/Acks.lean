/-
# Skytime.Client.Acks — the acks of the load generator, from what it reads to what the server reads.

With `-rto` the reader of a connection answers every message of type 1 with an ack before it reads
the next one. In the same goroutine it answers pings, and the main loop writes a close frame when it
is interrupted. Nothing keeps the main loop apart from the reader; what two calls at once do to the
write side is not modelled here. The machine `answering` starts with the messages that the reader is
to find. Put behind the server's writer and in front of its reader it closes the circle: every ack
that the server reads is of a message that it has put on the queue of the connection.
-/
import Skytime.Acks.Conservation
import Skytime.Server.Whole

namespace Skytime

open Process WebSocket

/-! ## The answer to a message -/

/-- `send_ack_msg_to_server`, for a message of type 1. -/
def answerOf : ClientRead → Option (List UInt8)
  | .ack _ => none
  | .push h _ _ => if h.msgType = 1 then some (ackToServer h.ackSeq) else none

/-- What the reader writes for a message, which has `spare` behind it in its buffer. -/
def answer (m : WebSocket.Message) (spare : List UInt8) :
    Except RuntimeError (Option (List UInt8)) :=
  match m.1 with
  | .text => (clientRead ⟨m.2, spare⟩).map answerOf
  | .binary => .ok none

/-- The reader of the ack network answers in the same way. -/
theorem answer_of_read {frame : List UInt8} {ackSeq : UInt32}
    (h : BenchReader.reading.read frame = some (.acking ackSeq)) :
    answer (.text, frame) [] = .ok (some (ackToServer ackSeq.toNat)) := by
  simp only [BenchReader.read] at h
  split at h
  · cases hr : clientRead ⟨frame, []⟩ with
    | error e =>
        rw [hr] at h
        exact absurd h (by simp)
    | ok r =>
        rw [hr] at h
        cases r with
        | ack hd => exact absurd h (by simp)
        | push hd n body =>
            have hlt : hd.ackSeq < 2 ^ 32 := readHeader_ackSeq_lt (readHeader_of_clientRead hr)
            simp only at h
            split at h
            · rename_i hone
              obtain rfl := BenchReader.acking.inj (Option.some.inj h)
              simp only [answer, hr, Except.map, answerOf, if_pos hone]
              rw [UInt32.toNat_ofNat_of_lt' hlt]
            · exact absurd h (by simp)
  · exact absurd h (by simp)

/-! ## The machine -/

/-- A connection of the load generator: the messages that `ReadMessage` has still to return, the
write side of its websocket, and whether the reader is in `WriteMessage`. -/
structure Answering where
  unread : List WebSocket.Message
  ws : WebSocket.WriteSide
  writing : Bool

inductive AnsweringAction where
  /-- a round of the reader; what is behind the message in the buffer -/
  | readMessage (spare : List UInt8)
  /-- the ping handler, which `ReadMessage` calls -/
  | pong
  /-- the main loop writes its close frame -/
  | interrupt
  /-- the next frame of the call that is in `WriteMessage` -/
  | flush (key : MaskKey) (room : ℕ)
  /-- the answer to a close frame -/
  | writeControl (t : FrameType) (data : List UInt8) (key : MaskKey) (room : ℕ)
  /-- `c.Close()` -/
  | closeConn

inductive AnsweringEvent where
  /-- a message is read, with its answer -/
  | read (m : WebSocket.Message) (ack : Option (List UInt8))
  /-- `WriteMessage` is called -/
  | called (t : FrameType) (data : List UInt8)
  | ws (e : WriteEvent)

/-- `websocket.FormatCloseMessage(websocket.CloseNormalClosure, "")`. -/
def closeNormalClosure : List UInt8 := [0x03, 0xe8]

namespace Answering

variable (wcfg : WriteConfig)

/-- `WriteMessage`. -/
def call (s : Answering) (t : FrameType) (data : List UInt8) :
    Option (WriteSide × List AnsweringEvent) :=
  match (sender wcfg).step s.ws (.writeMessage t data) with
  | none => none
  | some (w, o) => some (w, .called t data :: o.map .ws)

def step (s : Answering) : AnsweringAction → Option (Answering × List AnsweringEvent)
  | .readMessage spare =>
    if s.writing then none
    else
      match s.unread with
      | [] => none
      | m :: rest =>
        match answer m spare with
        -- the panic ends the process, nothing is read any more
        | .error _ => some ({ s with unread := [] }, [])
        | .ok none => some ({ s with unread := rest }, [.read m none])
        | .ok (some data) =>
          match s.call wcfg .text data with
          | none => none
          | some (w, o) => some (⟨rest, w, w.stage ≠ .idle⟩, .read m (some data) :: o)
  | .pong =>
    if s.writing then none
    else
      match s.call wcfg .pong [] with
      | none => none
      | some (w, o) => some (⟨s.unread, w, w.stage ≠ .idle⟩, o)
  | .interrupt =>
    match s.call wcfg .close closeNormalClosure with
    | none => none
    | some (w, o) => some ({ s with ws := w }, o)
  | .flush key room =>
    match (sender wcfg).step s.ws (.flush key room) with
    | none => none
    | some (w, o) => some (⟨s.unread, w, s.writing ∧ w.stage ≠ .idle⟩, o.map .ws)
  | .writeControl t data key room =>
    match (sender wcfg).step s.ws (.writeControl t data key room) with
    | none => none
    | some (w, o) => some ({ s with ws := w }, o.map .ws)
  | .closeConn =>
    match (sender wcfg).step s.ws .closeConn with
    | none => none
    | some (w, o) => some ({ s with ws := w }, o.map .ws)

end Answering

/-- A connection of the load generator that is to read these messages. -/
def answering (wcfg : WriteConfig) (unread : List WebSocket.Message) :
    Machine Answering AnsweringAction AnsweringEvent where
  init := ⟨unread, (sender wcfg).init, false⟩
  step := Answering.step wcfg

/-! ## What a run shows -/

def AnsweringEvent.ws? : AnsweringEvent → List WriteEvent
  | .ws e => [e]
  | _ => []

/-- The call of `WriteMessage`. -/
def AnsweringEvent.said : AnsweringEvent → List (FrameType × List UInt8)
  | .called t data => [(t, data)]
  | _ => []

/-- The message that is read, with its answer. -/
def AnsweringEvent.read? : AnsweringEvent → List (WebSocket.Message × Option (List UInt8))
  | .read m ack => [(m, ack)]
  | _ => []

section Run

variable {wcfg : WriteConfig} {unread : List WebSocket.Message} {s t : Answering}
  {l o : List AnsweringEvent}

theorem Answering.call_eq_some {ft : FrameType} {data : List UInt8} {w : WebSocket.WriteSide}
    (h : s.call wcfg ft data = some (w, o)) :
    ∃ k, (sender wcfg).step s.ws (.writeMessage ft data) = some (w, k) ∧
      o = .called ft data :: k.map .ws := by
  simp only [Answering.call] at h
  split at h
  · exact absurd h (by simp)
  · rename_i v k hstep
    obtain ⟨rfl, rfl⟩ := Prod.mk.inj (Option.some.inj h)
    exact ⟨k, hstep, rfl⟩

/-- Everything one step can do. -/
inductive Answering.Step (wcfg : WriteConfig) (s : Answering) :
    AnsweringAction → Answering → List AnsweringEvent → Prop
  | panic {spare : List UInt8} : Step wcfg s (.readMessage spare) { s with unread := [] } []
  | silent {spare : List UInt8} {m : WebSocket.Message} {rest : List WebSocket.Message}
      (hunread : s.unread = m :: rest) (hanswer : answer m spare = .ok none) :
      Step wcfg s (.readMessage spare) { s with unread := rest } [.read m none]
  | answer {spare data : List UInt8} {m : WebSocket.Message} {rest : List WebSocket.Message}
      {w : WebSocket.WriteSide} {k : List WriteEvent} (hunread : s.unread = m :: rest)
      (hanswer : answer m spare = .ok (some data))
      (hwrite : (sender wcfg).step s.ws (.writeMessage .text data) = some (w, k)) (b : Bool) :
      Step wcfg s (.readMessage spare) ⟨rest, w, b⟩
        (.read m (some data) :: .called .text data :: k.map .ws)
  | control {a : AnsweringAction} {ft : FrameType} {data : List UInt8} {w : WebSocket.WriteSide}
      {k : List WriteEvent} (hft : dataType ft = none) (hlen : data.length ≤ 2)
      (hwrite : (sender wcfg).step s.ws (.writeMessage ft data) = some (w, k)) (b : Bool) :
      Step wcfg s a ⟨s.unread, w, b⟩ (.called ft data :: k.map .ws)
  | ws {a : AnsweringAction} {x : WebSocket.WriteAction} {w : WebSocket.WriteSide}
      {k : List WriteEvent} (hx : callTold x = [])
      (hwrite : (sender wcfg).step s.ws x = some (w, k)) (b : Bool) :
      Step wcfg s a ⟨s.unread, w, b⟩ (k.map .ws)

theorem Answering.step_cases {a : AnsweringAction}
    (h : (answering wcfg unread).step s a = some (t, o)) : s.Step wcfg a t o := by
  cases a with
  | readMessage spare =>
      simp only [answering, Answering.step] at h
      split_ifs at h with hwriting
      cases hunread : s.unread with
      | nil => simp only [hunread, reduceCtorEq] at h
      | cons m rest =>
          simp only [hunread] at h
          cases hanswer : Skytime.answer m spare with
          | error e =>
              simp only [hanswer, Option.some.injEq, Prod.mk.injEq] at h
              obtain ⟨rfl, rfl⟩ := h
              exact .panic
          | ok ack =>
              cases ack with
              | none =>
                  simp only [hanswer, Option.some.injEq, Prod.mk.injEq] at h
                  obtain ⟨rfl, rfl⟩ := h
                  exact .silent hunread hanswer
              | some data =>
                  simp only [hanswer] at h
                  cases hcall : s.call wcfg .text data with
                  | none => simp only [hcall, reduceCtorEq] at h
                  | some r =>
                      simp only [hcall, Option.some.injEq, Prod.mk.injEq] at h
                      obtain ⟨rfl, rfl⟩ := h
                      obtain ⟨k, hwrite, hr⟩ := Answering.call_eq_some hcall
                      rw [hr]
                      exact .answer hunread hanswer hwrite _
  | pong =>
      simp only [answering, Answering.step] at h
      split_ifs at h with hwriting
      cases hcall : s.call wcfg .pong [] with
      | none => simp only [hcall, reduceCtorEq] at h
      | some r =>
          simp only [hcall, Option.some.injEq, Prod.mk.injEq] at h
          obtain ⟨rfl, rfl⟩ := h
          obtain ⟨k, hwrite, hr⟩ := Answering.call_eq_some hcall
          rw [hr]
          exact .control rfl (by simp) hwrite _
  | interrupt =>
      simp only [answering, Answering.step] at h
      cases hcall : s.call wcfg .close closeNormalClosure with
      | none => simp only [hcall, reduceCtorEq] at h
      | some r =>
          simp only [hcall, Option.some.injEq, Prod.mk.injEq] at h
          obtain ⟨rfl, rfl⟩ := h
          obtain ⟨k, hwrite, hr⟩ := Answering.call_eq_some hcall
          rw [hr]
          exact .control rfl (by decide) hwrite _
  | flush key room =>
      simp only [answering, Answering.step] at h
      cases hwrite : (sender wcfg).step s.ws (.flush key room) with
      | none => simp only [hwrite, reduceCtorEq] at h
      | some r =>
          simp only [hwrite, Option.some.injEq, Prod.mk.injEq] at h
          obtain ⟨rfl, rfl⟩ := h
          exact .ws rfl hwrite _
  | writeControl ft data key room =>
      simp only [answering, Answering.step] at h
      cases hwrite : (sender wcfg).step s.ws (.writeControl ft data key room) with
      | none => simp only [hwrite, reduceCtorEq] at h
      | some r =>
          simp only [hwrite, Option.some.injEq, Prod.mk.injEq] at h
          obtain ⟨rfl, rfl⟩ := h
          exact .ws rfl hwrite _
  | closeConn =>
      simp only [answering, Answering.step] at h
      cases hwrite : (sender wcfg).step s.ws .closeConn with
      | none => simp only [hwrite, reduceCtorEq] at h
      | some r =>
          simp only [hwrite, Option.some.injEq, Prod.mk.injEq] at h
          obtain ⟨rfl, rfl⟩ := h
          exact .ws rfl hwrite _

/-- The write side runs in it, and its calls are those that are seen. -/
theorem answering_sender (wcfg : WriteConfig) (unread : List WebSocket.Message) :
    (answering wcfg unread).IsPart (sender wcfg) Answering.ws AnsweringEvent.ws? callTold
      AnsweringEvent.said where
  init := rfl
  step s a t o h := by
    have hself := fun k => Machine.flatMap_map_self (f := AnsweringEvent.ws)
      (g := AnsweringEvent.ws?) (fun _ => rfl) k
    have hsaid := fun k => Machine.flatMap_map_nil (f := AnsweringEvent.ws)
      (g := AnsweringEvent.said) (fun _ => rfl) k
    cases Answering.step_cases h with
    | panic => exact ⟨[], rfl, rfl⟩
    | silent => exact ⟨[], rfl, rfl⟩
    | @answer _ data m _ w k _ _ hwrite b =>
        refine ⟨[.writeMessage .text data], ?_, ?_⟩
        · rw [List.flatMap_cons, List.flatMap_cons, hself]
          exact (sender wcfg).execFrom_single hwrite
        · exact (congrArg ([(FrameType.text, data)] ++ ·) (hsaid k)).symm
    | @control _ ft data w k _ _ hwrite b =>
        refine ⟨[.writeMessage ft data], ?_, ?_⟩
        · rw [List.flatMap_cons, hself]
          exact (sender wcfg).execFrom_single hwrite
        · exact (congrArg ([(ft, data)] ++ ·) (hsaid k)).symm
    | @ws _ x w k hx hwrite b =>
        refine ⟨[x], by rw [hself]; exact (sender wcfg).execFrom_single hwrite, ?_⟩
        rw [hsaid, List.flatMap_cons, hx]
        rfl

/-! ## Reading and answering in turn -/

/-- The messages that were read, each with its answer. -/
def readsOf (l : List AnsweringEvent) : List (WebSocket.Message × Option (List UInt8)) :=
  l.flatMap AnsweringEvent.read?

/-- The calls of `WriteMessage`. -/
def saidOf (l : List AnsweringEvent) : List (FrameType × List UInt8) :=
  l.flatMap AnsweringEvent.said

/-- The text message that an answer becomes. -/
def ackText (data : List UInt8) : WebSocket.Message := (.text, data)

theorem answerOf_push {hd : Header} {n : ℕ} {body : Option (List UInt8)} {data : List UInt8}
    (h : answerOf (.push hd n body) = some data) :
    hd.msgType = 1 ∧ data = ackToServer hd.ackSeq := by
  obtain ⟨htype, h⟩ := Option.ite_none_right_eq_some.mp h
  exact ⟨htype, (Option.some.inj h).symm⟩

theorem answerOf_length {r : ClientRead} {data : List UInt8} (h : answerOf r = some data) :
    data.length = 5 := by
  cases r with
  | ack => exact absurd h (by simp [answerOf])
  | push hd n body =>
      rw [(answerOf_push h).2]
      rfl

/-- An answer is made of what the reader finds. -/
theorem answer_eq_some {m : WebSocket.Message} {spare data : List UInt8}
    (h : answer m spare = .ok (some data)) :
    m.1 = .text ∧ ∃ r, clientRead ⟨m.2, spare⟩ = .ok r ∧ answerOf r = some data := by
  obtain ⟨t, q⟩ := m
  cases t with
  | binary => exact absurd h (by simp [answer])
  | text =>
      simp only [answer] at h
      cases hr : clientRead ⟨q, spare⟩ with
      | error e =>
          rw [hr] at h
          exact absurd h (by simp [Except.map])
      | ok r =>
          rw [hr] at h
          exact ⟨rfl, r, rfl, Except.ok.inj h⟩

/-- The reader reads from the front on, and what is written besides control messages are its
answers, in order. -/
structure InTurn (unread : List WebSocket.Message) (s : Answering) (l : List AnsweringEvent) :
    Prop where
  front : (readsOf l).map (·.1) ++ s.unread <+: unread
  answered : ∀ p ∈ readsOf l, ∃ spare, answer p.1 spare = .ok p.2
  calls : (saidOf l).filterMap dataOf = ((readsOf l).filterMap (·.2)).map ackText
  short : ∀ c ∈ saidOf l, c.2.length ≤ 5

theorem InTurn.append (h : InTurn unread s l)
    (hfront : (readsOf o).map (·.1) ++ t.unread <+: s.unread)
    (hanswered : ∀ p ∈ readsOf o, ∃ spare, answer p.1 spare = .ok p.2)
    (hcalls : (saidOf o).filterMap dataOf = ((readsOf o).filterMap (·.2)).map ackText)
    (hshort : ∀ c ∈ saidOf o, c.2.length ≤ 5) : InTurn unread t (l ++ o) := by
  have hreads : readsOf (l ++ o) = readsOf l ++ readsOf o := List.flatMap_append
  have hsaid : saidOf (l ++ o) = saidOf l ++ saidOf o := List.flatMap_append
  constructor
  · rw [hreads, List.map_append, List.append_assoc]
    exact ((List.prefix_append_right_inj _).mpr hfront).trans h.front
  · intro p hp
    rw [hreads] at hp
    exact (List.mem_append.mp hp).elim (h.answered p) (hanswered p)
  · rw [hsaid, hreads, List.filterMap_append, List.filterMap_append, List.map_append, h.calls,
      hcalls]
  · intro c hc
    rw [hsaid] at hc
    exact (List.mem_append.mp hc).elim (h.short c) (hshort c)

theorem InTurn.step {a : AnsweringAction} (h : InTurn unread s l)
    (hstep : (answering wcfg unread).step s a = some (t, o)) : InTurn unread t (l ++ o) := by
  have hreads : ∀ k : List WriteEvent, readsOf (k.map .ws) = [] :=
    Machine.flatMap_map_nil (f := AnsweringEvent.ws) (g := AnsweringEvent.read?) fun _ => rfl
  have hsaid : ∀ k : List WriteEvent, saidOf (k.map .ws) = [] :=
    Machine.flatMap_map_nil (f := AnsweringEvent.ws) (g := AnsweringEvent.said) fun _ => rfl
  cases Answering.step_cases hstep with
  | panic => exact h.append (List.nil_prefix) (by simp [readsOf]) rfl (by simp [saidOf])
  | @silent spare m rest hunread hanswer =>
      refine h.append ?_ ?_ rfl (by simp [saidOf, AnsweringEvent.said])
      · rw [hunread]
        exact List.prefix_refl _
      · intro p hp
        rw [List.mem_singleton.mp hp]
        exact ⟨spare, hanswer⟩
  | @answer spare data m rest w k hunread hanswer _ b =>
      have hr : readsOf (.read m (some data) :: .called .text data :: k.map .ws) =
          [(m, some data)] := congrArg ([(m, some data)] ++ ·) (hreads k)
      have hs : saidOf (.read m (some data) :: .called .text data :: k.map .ws) =
          [(.text, data)] := congrArg ([(FrameType.text, data)] ++ ·) (hsaid k)
      refine h.append ?_ ?_ ?_ ?_
      · rw [hr, hunread]
        exact List.prefix_refl _
      · intro p hp
        rw [hr] at hp
        rw [List.mem_singleton.mp hp]
        exact ⟨spare, hanswer⟩
      · rw [hr, hs]
        rfl
      · intro c hc
        rw [hs] at hc
        obtain ⟨-, r, -, hdata⟩ := answer_eq_some hanswer
        rw [List.mem_singleton.mp hc]
        exact Nat.le_of_eq (answerOf_length hdata)
  | @control _ ft data w k hft hlen _ b =>
      have hr : readsOf (.called ft data :: k.map .ws) = [] := hreads k
      have hs : saidOf (.called ft data :: k.map .ws) = [(ft, data)] :=
        congrArg ([(ft, data)] ++ ·) (hsaid k)
      refine h.append ?_ ?_ ?_ ?_
      · rw [hr]
        exact List.prefix_refl _
      · simp [hr]
      · rw [hr, hs]
        simp [dataOf, hft]
      · intro c hc
        rw [hs] at hc
        rw [List.mem_singleton.mp hc]
        exact hlen.trans (by omega)
  | @ws _ x w k _ _ b =>
      refine h.append ?_ ?_ ?_ ?_
      · rw [hreads]
        exact List.prefix_refl _
      · simp [hreads]
      · rw [hreads, hsaid]
        rfl
      · simp [hsaid]

theorem inTurn_exec {as : List AnsweringAction}
    (hexec : (answering wcfg unread).exec as = some (s, l)) : InTurn unread s l :=
  Machine.invariant_of_exec (I := fun s l => InTurn unread s l)
    ⟨List.prefix_refl _, by simp [readsOf], rfl, by simp [saidOf]⟩
    (fun _ _ _ _ _ h hstep => h.step hstep) hexec

end Run

/-! ## The messages that are answered -/

/-- The ack for a message that was put on `c.send`. -/
def ackFor (m : PushMsg) : List UInt8 := ackToServer (m.msgId % 2 ^ 32)

/-- The messages that the client answers; one to all has another type. -/
def answeredOf (ms : List PushMsg) : List PushMsg := ms.filter fun m => !m.isBrAll

theorem answerOf_readOf (m : PushMsg) :
    answerOf (readOf m) = if m.isBrAll then none else some (ackFor m) := by
  cases h : m.isBrAll with
  | false => simp [answerOf, readOf, ackFor, h]
  | true => simp [answerOf, readOf, h]

theorem filterMap_answerOf (ms : List PushMsg) :
    (ms.map readOf).filterMap answerOf = (answeredOf ms).map ackFor := by
  induction ms with
  | nil => rfl
  | cons m ms ih =>
      rw [List.map_cons, List.filterMap_cons, answerOf_readOf, ih, answeredOf, answeredOf]
      cases h : m.isBrAll with
      | false => simp [h]
      | true => simp [h]

/-- A message that comes whole is answered as it is read. -/
theorem answer_whole {m : WebSocket.Message} {spare : List UInt8} {ack : Option (List UInt8)}
    (hm : m.1 = .text ∧ ∃ r, clientRead ⟨m.2, []⟩ = .ok r) (h : answer m spare = .ok ack) :
    ack = (pushRead m).bind answerOf := by
  obtain ⟨htext, r, hr⟩ := hm
  have hspare := clientRead_spare hr spare
  simp only [answer, htext, hspare, Except.map] at h
  obtain rfl := Except.ok.inj h
  rw [pushRead, hr]
  cases r with
  | ack => rfl
  | push => rfl

theorem answers_whole {ms : List WebSocket.Message}
    {ps : List (WebSocket.Message × Option (List UInt8))}
    (hms : ∀ m ∈ ms, m.1 = .text ∧ ∃ r, clientRead ⟨m.2, []⟩ = .ok r)
    (hps : ps.map (·.1) <+: ms) (hanswer : ∀ p ∈ ps, ∃ spare, answer p.1 spare = .ok p.2) :
    ps.filterMap (·.2) = ((ps.map (·.1)).filterMap pushRead).filterMap answerOf := by
  rw [List.filterMap_filterMap, List.filterMap_map]
  apply List.filterMap_congr
  intro p hp
  obtain ⟨spare, h⟩ := hanswer p hp
  exact answer_whole (hms p.1 (hps.subset (List.mem_map_of_mem hp))) h

/-- The header of a front of a frame, if there is enough of it for a header. -/
theorem readHeader_front {ackSeq : ℕ} {b4 : UInt8} {rest q spare : List UInt8} {hd : Header}
    (hq : q <+: putUint32 ackSeq ++ b4 :: rest) (h : readHeader ⟨q, spare⟩ = .ok hd) :
    hd = ⟨ackSeq % 2 ^ 32, b4 >>> 4, msgTypeOf b4, b4 &&& 0x1⟩ := by
  have hfive : 5 ≤ q.length := by
    by_contra hlt
    obtain ⟨e, he⟩ := @exists_readHeader_error ⟨q, spare⟩ (Nat.lt_of_not_le hlt)
    exact absurd (he.symm.trans h) (by simp)
  have hfront : putUint32 ackSeq ++ [b4] <+: putUint32 ackSeq ++ b4 :: rest :=
    ⟨rest, by rw [List.append_assoc, List.singleton_append]⟩
  obtain ⟨tail, rfl⟩ := List.prefix_of_prefix_length_le hfront hq hfive
  rw [List.append_assoc, List.singleton_append, readHeader_frame] at h
  exact (Except.ok.inj h).symm

/-- A front of a push is answered as the push is. -/
theorem answer_push_front {m : PushMsg} {q spare data : List UInt8}
    (hq : q <+: pushFrame m.msgId m.msgBody m.isBrAll)
    (h : answer (.text, q) spare = .ok (some data)) : m.isBrAll = false ∧ data = ackFor m := by
  obtain ⟨-, r, hr, hdata⟩ := answer_eq_some h
  rw [pushFrame_eq] at hq
  have hhd := readHeader_front hq (readHeader_of_clientRead hr)
  cases r with
  | ack => exact absurd hdata (by simp [answerOf])
  | push hd n body =>
      obtain rfl : hd = _ := hhd
      obtain ⟨htype, rfl⟩ := answerOf_push hdata
      cases hbr : m.isBrAll with
      | false => exact ⟨rfl, rfl⟩
      | true =>
          rw [hbr] at htype
          exact absurd htype (show msgTypeOf brAllByte ≠ 1 by decide)

/-- A front of an ack is not answered. -/
theorem answer_ack_front {ackSeq : ℕ} {q spare data : List UInt8} (hq : q <+: ackToPeer ackSeq) :
    answer (.text, q) spare ≠ .ok (some data) := by
  intro h
  obtain ⟨-, r, hr, hdata⟩ := answer_eq_some h
  have hhd := readHeader_front hq (readHeader_of_clientRead hr)
  cases r with
  | ack => exact absurd hdata (by simp [answerOf])
  | push hd n body =>
      obtain rfl : hd = _ := hhd
      exact absurd (answerOf_push hdata).1 (show msgTypeOf svrAckByte ≠ 1 by decide)

/-! ## The circle -/

section Circle

variable {cfg : EndpointConfig} {wcfg : WriteConfig} {env : ReadEnv} {s : Answering}
  {l : List AnsweringEvent} {input : List UInt8} {queue : List PushMsg}
  {ms cut : List WebSocket.Message} {sent : List (Bool × PushMsg)}

/-- A push of which the client has read only a front, if any. -/
def PartlyRead (queue : List PushMsg) (cut : List WebSocket.Message) (last : List PushMsg) : Prop :=
  last = [] ∨ ∃ q m, cut = [(.text, q)] ∧ last = [m] ∧ m ∈ queue ∧
    q <+: pushFrame m.msgId m.msgBody m.isBrAll

/-- The client answers the pushes that it decodes, in order, and perhaps one that it has not read to
the end. -/
theorem answers_front (h : DecodesQueue env input queue ms cut sent)
    (hturn : InTurn (readMessages env (newReadSide input)).messages s l) :
    ∃ last, PartlyRead queue cut last ∧
      (readsOf l).filterMap (·.2) <+: (answeredOf (sent.map (·.2) ++ last)).map ackFor := by
  have hall : (ms.filterMap pushRead).filterMap answerOf =
      (answeredOf (sent.map (·.2))).map ackFor := by
    rw [h.pushes, ← filterMap_answerOf, List.map_map]
    rfl
  have hfront : (readsOf l).map (·.1) <+: ms ++ cut := by
    rw [← h.messages]
    exact (List.prefix_append _ _).trans hturn.front
  have hwhole : (readsOf l).map (·.1) <+: ms → ∃ last, PartlyRead queue cut last ∧
      (readsOf l).filterMap (·.2) <+: (answeredOf (sent.map (·.2) ++ last)).map ackFor := by
    intro hms
    refine ⟨[], .inl rfl, ?_⟩
    rw [answers_whole h.whole hms hturn.answered, List.append_nil, ← hall]
    exact (hms.filterMap pushRead).filterMap answerOf
  obtain rfl | ⟨-, q, rfl, hq⟩ := h.cut_cases
  · rw [List.append_nil] at hfront
    exact hwhole hfront
  · obtain hfull | hms := List.prefix_concat_iff.mp hfront
    · -- the part is read as well, and may be answered
      obtain ⟨ps, ps', hps, hmap, hlast⟩ := List.map_eq_append_iff.mp hfull
      obtain ⟨⟨m, ack⟩, rfl, hm⟩ := List.map_eq_singleton_iff.mp hlast
      obtain rfl : m = (.text, q) := hm
      obtain ⟨spare, hack⟩ := hturn.answered ((.text, q), ack) (by rw [hps]; simp)
      have hfirst : ps.filterMap (·.2) = (answeredOf (sent.map (·.2))).map ackFor := by
        have hwhole := answers_whole h.whole (by rw [hmap])
          fun p hp => hturn.answered p (by rw [hps]; exact List.mem_append_left _ hp)
        rw [hwhole, hmap, hall]
      cases ack with
      | none =>
          refine ⟨[], .inl rfl, ?_⟩
          rw [hps, List.filterMap_append, hfirst, List.append_nil]
          exact (List.append_nil _).symm ▸ List.prefix_refl _
      | some data =>
          obtain ⟨m, hm, hq⟩ | ⟨ackSeq, hq⟩ := hq
          · obtain ⟨hbr, rfl⟩ := answer_push_front hq hack
            refine ⟨[m], .inr ⟨q, m, rfl, rfl, hm, hq⟩, ?_⟩
            have hone : answeredOf (sent.map (·.2) ++ [m]) =
                answeredOf (sent.map (·.2)) ++ [m] := by
              rw [answeredOf, List.filter_append]
              simp [answeredOf, hbr]
            rw [hps, List.filterMap_append, hfirst, hone, List.map_append]
            exact List.prefix_refl _
          · exact absurd hack (answer_ack_front hq)
    · exact hwhole hms

/-- What the server reads: the acks of `acked`, which it hands over. If the client's connection is
closed within the payload of a frame there is one more message, and it panics unless nothing of the
ack is missing. -/
structure AcksRead (env : ReadEnv) (input : List UInt8) (answered acked : List PushMsg)
    (cut : List WebSocket.Message) : Prop where
  messages : (readMessages env (newReadSide input)).messages =
    acked.map (fun m => ackText (ackFor m)) ++ cut
  front : acked <+: answered
  handed : ∀ m ∈ acked, ∀ verbose spare, handleMessage verbose .text ⟨ackFor m, spare⟩ =
    .ok [.recvAckSeq (m.msgId % 2 ^ 32), .recvAckCh (m.msgId % 2 ^ 32)]
  cut_cases : cut = [] ∨ env.ends = .eof ∧ ∃ q m, cut = [ackText q] ∧ acked ++ [m] <+: answered ∧
    q <+: ackFor m ∧ (q = ackFor m ∨
      ∀ verbose spare, ∃ e, handleMessage verbose .text ⟨q, spare⟩ = .error e)

theorem handleMessage_ackFor (m : PushMsg) (verbose : ℤ) (spare : List UInt8) :
    handleMessage verbose .text ⟨ackFor m, spare⟩ =
      .ok [.recvAckSeq (m.msgId % 2 ^ 32), .recvAckCh (m.msgId % 2 ^ 32)] := by
  rw [ackFor, handleMessage_ackToServer, Nat.mod_mod]

/-- What the server reads of the bytes that have come from a client. -/
theorem acks_read {ccfg : WriteConfig} {senv : ReadEnv} {unread : List WebSocket.Message}
    {answered : List PushMsg} (hclient : ccfg.isServer = false) (hserver : senv.isServer = true)
    (hlimit : WithinLimit senv 5) {as : List AnsweringAction}
    (hexec : (answering ccfg unread).exec as = some (s, l))
    (hfront : (readsOf l).filterMap (·.2) <+: (answeredOf answered).map ackFor)
    (hpre : input <+: wireOf (l.flatMap AnsweringEvent.ws?)) :
    ∃ acked cut, AcksRead senv input (answeredOf answered) acked cut := by
  have hturn := inTurn_exec hexec
  obtain ⟨bs, hws, htell⟩ := (answering_sender ccfg unread).exec hexec
  have hfits : ∀ data : List UInt8, data.length ≤ 5 → Fits senv data := by
    intro data hlen
    refine ⟨by omega, hlimit.imp_right fun hfive => ?_⟩
    omega
  have hok : ∀ a ∈ bs, a.Ok senv := by
    intro a ha
    cases a with
    | writeMessage ft data =>
        apply hfits
        apply hturn.short (ft, data)
        show (ft, data) ∈ l.flatMap AnsweringEvent.said
        rw [← htell]
        exact List.mem_flatMap.mpr ⟨_, ha, List.mem_singleton_self _⟩
    | flush | writeControl | closeConn => trivial
  obtain ⟨ms, cut, hmessages, hsent, hcalls, hcut⟩ :=
    readMessages_prefix senv (by rw [hserver, hclient]; rfl) hok hws hpre
  have hacks : dataCalls bs <+: (answeredOf answered).map fun m => ackText (ackFor m) := by
    have hsaid := hturn.calls
    rw [dataCalls_eq, htell]
    show (saidOf l).filterMap dataOf <+: _
    rw [hsaid]
    simpa only [List.map_map, Function.comp_def] using hfront.map ackText
  rcases hcut with rfl | ⟨heof, t, q, data, rfl, hnext, hq⟩
  · obtain ⟨acked, hacked, rfl⟩ := List.prefix_map_iff.mp ((hsent.trans hcalls).trans hacks)
    exact ⟨acked, [], hmessages, hacked, fun m _ => handleMessage_ackFor m, .inl rfl⟩
  · obtain ⟨all, hall, heq⟩ := List.prefix_map_iff.mp (hnext.trans hacks)
    obtain ⟨acked, last, rfl, rfl, hlast⟩ := List.append_eq_map_iff.mp heq
    obtain ⟨m, rfl, hm⟩ := List.map_eq_singleton_iff.mp hlast
    obtain ⟨rfl, rfl⟩ := Prod.mk.inj hm
    refine ⟨acked, _, hmessages, (List.prefix_append _ _).trans hall,
      fun m _ => handleMessage_ackFor m, .inr ⟨heof, q, m, rfl, hall, hq, ?_⟩⟩
    by_cases hfive : 5 ≤ q.length
    · exact .inl (hq.eq_of_length (Nat.le_antisymm hq.length_le hfive))
    · exact .inr fun verbose spare =>
        @exists_handleMessage_error verbose ⟨q, spare⟩ (Nat.lt_of_not_le hfive)

theorem DecodesQueue.mem_queue (h : DecodesQueue env input queue ms cut sent) :
    ∀ m ∈ sent.map (·.2), m ∈ queue := by
  have hfirst : ∀ m, (true, m) ∈ sent → m ∈ queue := by
    intro m hm
    apply h.first.subset
    exact List.mem_map.mpr ⟨_, List.mem_filter.mpr ⟨hm, rfl⟩, rfl⟩
  intro m hm
  obtain ⟨⟨b, m⟩, hp, rfl⟩ := List.mem_map.mp hm
  cases b with
  | true => exact hfirst m hp
  | false =>
      obtain ⟨ps, qs, rfl⟩ := List.append_of_mem hp
      exact hfirst m (List.mem_append_left _ (h.again ps m qs rfl))

/-- What comes back of a queue: the client decodes `sent`, and the server reads the acks of
`acked`. -/
structure AcksReturn (env senv : ReadEnv) (input back : List UInt8) (queue : List PushMsg)
    (sent : List (Bool × PushMsg)) (acked : List PushMsg) : Prop where
  turned : ∃ ms cut last cut', DecodesQueue env input queue ms cut sent ∧
    PartlyRead queue cut last ∧
    AcksRead senv back (answeredOf (sent.map (·.2) ++ last)) acked cut'
  queued : ∀ m ∈ acked, m ∈ queue ∧ m.isBrAll = false

/-- **With acks, whatever the goroutines of the server and of a client do, and whatever part of
their bytes the network brings to the other side: the server reads the acks of the first pushes that
the client has decoded, in this order, and hands them over. Each is of a message to single peers
that was placed on the queue of the connection. It panics only if the connection ends within the
payload of an ack.** -/
theorem acks_return {cfg : ServerConfig} {ccfg : WriteConfig} {senv : ReadEnv} {t : WholeServer}
    {k : List ServerEvent} (hrto : cfg.conn.enableAckRto > 0)
    (hserver : cfg.write.isServer = true) (hclient : env.isServer = false)
    {as : List ServerAction} (hexec : (server cfg).exec as = some (t, k)) (c : Connection)
    (hfits : ∀ m ∈ placed c (hubOf k), Fits env (pushFrame m.msgId m.msgBody m.isBrAll))
    (hlimit : WithinLimit env 5) (hpre : input <+: wireOf (wsOf (peerOf c k)))
    (hclient' : ccfg.isServer = false) (hserver' : senv.isServer = true)
    (hlimit' : WithinLimit senv 5) {bs : List AnsweringAction}
    (hexec' : (answering ccfg (readMessages env (newReadSide input)).messages).exec bs =
      some (s, l)) {back : List UInt8}
    (hpre' : back <+: wireOf (l.flatMap AnsweringEvent.ws?)) :
    ∃ sent acked, AcksReturn env senv input back (placed c (hubOf k)) sent acked := by
  obtain ⟨⟨cs, hcs⟩, hqueue⟩ := server_peer hexec c
  rw [← hqueue] at hfits ⊢
  obtain ⟨ms, cut, sent, hdecodes⟩ :=
    client_reads_frames hrto hserver hclient hcs hfits hlimit hpre
  obtain ⟨last, hlast, hfront⟩ := answers_front hdecodes (inTurn_exec hexec')
  obtain ⟨acked, cut', hacks⟩ := acks_read hclient' hserver' hlimit' hexec' hfront hpre'
  refine ⟨sent, acked, ⟨ms, cut, last, cut', hdecodes, hlast, hacks⟩, fun m hm => ?_⟩
  obtain ⟨hmem, hbr⟩ := List.mem_filter.mp (hacks.front.subset hm)
  refine ⟨?_, by simpa using hbr⟩
  obtain hmem | hmem := List.mem_append.mp hmem
  · exact hdecodes.mem_queue m hmem
  · obtain rfl | ⟨q, m', -, rfl, hm', -⟩ := hlast
    · exact absurd hmem List.not_mem_nil
    · rwa [List.mem_singleton.mp hmem]

/-- A peer connects, and a message is sent to it alone. -/
def callA : List ServerAction :=
  [.rooms (.life peerA .accept), .rooms (.register peerA), .rooms (.life peerA .countUp),
    .rooms (.life peerA .posted), .peer peerA (.conn .goWriter),
    .rooms (.start 0 (.peers ["a"] [104, 105])), .rooms (.acquire 0 []), .rooms (.lookup 0),
    .rooms (.sendPeer 0), .peer peerA (.conn (.takeMessage true)), .peer peerA .emit,
    .peer peerA (.flush (fun _ => 0) 100)]

def pushA : PushMsg := ⟨1, [104, 105], false⟩

def frameA : List UInt8 := pushFrame 1 [104, 105] false

/-- What the server's websocket shows of it. -/
def sentA : List WriteEvent := [.bytes (0x81 :: 11 :: frameA), .returned .text frameA]

def calledA : List ServerEvent :=
  [.hub (.registered peerA), .hub (.direct peerA pushA), .peer peerA (.conn (.put pushA)),
    .hub (.drained peerA pushA), .peer peerA (.conn (.out (some pushA) (.push 1 frameA))),
    .peer peerA (.called true .text frameA)] ++ sentA.map fun e => .peer peerA (.ws e)

/-- The client reads the message and answers it. -/
def answeredA : List AnsweringEvent :=
  [.read (.text, frameA) (some (ackToServer 1)), .called .text (ackToServer 1),
    .ws (.bytes ([0x81, 0x85, 0, 0, 0, 0] ++ ackToServer 1)),
    .ws (.returned .text (ackToServer 1))]

theorem callA_exec : ∃ s, (server (smallServer 1)).exec callA = some (s, calledA) := ⟨_, rfl⟩

theorem readMessages_sentA :
    (readMessages (clientReads id .failed) (newReadSide (wireOf sentA))).messages =
      [(.text, frameA)] := by
  have hok : ∀ a ∈ [WebSocket.WriteAction.writeMessage .text frameA,
      .flush (fun _ => 0) 100],
      a.Ok (clientReads id .failed) := by
    intro a ha
    rcases List.mem_cons.mp ha with rfl | ha
    · exact ⟨by decide, .inr (by decide : ((11 : ℕ) : ℤ) ≤ 16384)⟩
    · rw [List.mem_singleton.mp ha]
      trivial
  have hexec : ∃ s, (sender (smallServer 1).write).exec
      [.writeMessage .text frameA, .flush (fun _ => 0) 100] = some (s, sentA) := ⟨_, rfl⟩
  obtain ⟨s, hexec⟩ := hexec
  obtain h | ⟨heof, -⟩ := readMessages_wire (clientReads id .failed) rfl
    (fun _ _ => ⟨rfl, rfl⟩) hok hexec
  · exact h
  · exact absurd heof (by decide)

theorem answeredA_exec : ∃ s, (answering clientWrites [(.text, frameA)]).exec
    [.readMessage [], .flush (fun _ => 0) 100] = some (s, answeredA) := ⟨_, rfl⟩

theorem acks_return_callA : ∃ sent acked, AcksReturn (clientReads id .failed) (hubReads id .eof)
    (wireOf sentA) (wireOf (answeredA.flatMap AnsweringEvent.ws?)) (placed peerA (hubOf calledA))
    sent acked := by
  obtain ⟨t, hexec⟩ := callA_exec
  obtain ⟨s, hexec'⟩ := answeredA_exec
  rw [← readMessages_sentA] at hexec'
  refine acks_return (by decide) rfl rfl hexec peerA (fun m hm => ?_) (.inr (by decide))
    (List.prefix_refl (wireOf sentA)) rfl rfl (.inr (by decide)) hexec' (List.prefix_refl _)
  obtain rfl : m = pushA := by simpa [hubOf, calledA, ServerEvent.hub?, placed] using hm
  exact ⟨by decide, .inr (by decide : ((11 : ℕ) : ℤ) ≤ 16384)⟩

end Circle

end Skytime
