/-
# Skytime.Conn.ClientReads — the client reads what was put on `c.send`.

Every frame with a body that the writer sends is the first of a message, or the message had one
before. Without acks there is only the first. The websocket brings the frames that are sent to the
client in their order, as far as the network delivers its bytes, so the client reads the messages
from the front of the queue on.
-/
import Skytime.Conn.Online

namespace Skytime

open Process WebSocket

/-! ## Without acks -/

section Pump

variable {cfg : EndpointConfig}

/-- `writePump` records nothing, and only its case for a message has a body to send. -/
structure Pumping (s : Drain) (l : List DrainEvent) : Prop where
  queue : ∀ o, ¬ s.conn.writer.queue.Holds o
  pending : s.current = none → ∀ o ∈ s.conn.pending, o.isData = false
  outs : ∀ o, .out none o ∈ l → o.isData = false

theorem firstFrame_pump (hrto : ¬ cfg.enableAckRto > 0) (m : PushMsg) :
    firstFrame cfg m = .text m.msgBody := by
  rw [firstFrame, if_neg hrto]

theorem Pumping.step (hrto : ¬ cfg.enableAckRto > 0) {s t : Drain} {l o : List DrainEvent}
    {a : EndpointAction} (h : Pumping s l) (hstep : (drain cfg).step s a = some (t, o)) :
    Pumping t (l ++ o) := by
  obtain ⟨outs, hend, hcurrent, rfl⟩ := Drain.step_iff.mp hstep
  have hold : ∀ (e : List DrainEvent), (∀ o, .out none o ∉ e) →
      ∀ o, .out none o ∈ l ++ e → o.isData = false := by
    intro e he o ho
    exact h.outs o ((List.mem_append.mp ho).resolve_right (he o))
  cases Endpoint.effect_of_step hend with
  | put _ _ hwriter hpending =>
      refine ⟨by rw [hwriter]; exact h.queue, ?_, hold _ (by simp [Drain.see])⟩
      rw [hpending, hcurrent]
      exact h.pending
  | close _ _ hwriter hpending =>
      refine ⟨by rw [hwriter]; exact h.queue, ?_, hold _ (by simp [Drain.see])⟩
      rw [hpending, hcurrent]
      exact h.pending
  | take hnone hrun hbuf houts =>
      refine ⟨?_, ?_, hold _ (by simp [Drain.see])⟩
      · intro o hholds
        rcases houts.2 o hholds with ho | ho
        · exact h.queue o ho
        · obtain ⟨msgId, msg, -, rfl⟩ := hholds
          rw [firstFrame_pump hrto] at ho
          exact absurd ho (by simp [resendFrame])
      · rw [hcurrent, Drain.next, hbuf]
        simp
  | ended hnone hrun hbuf hclosed hsend hreturned houts =>
      refine ⟨fun o ho => h.queue o (houts.2 o ho), ?_, hold _ (by simp [Drain.see])⟩
      intro _
      rw [houts.1]
      simp [WriterOut.isData]
  | emit hpending hsend hwriter =>
      refine ⟨by rw [hwriter]; exact h.queue, ?_, ?_⟩
      · intro hnone o ho
        refine h.pending (hcurrent.symm.trans hnone) o ?_
        rw [hpending]
        exact List.mem_cons_of_mem _ ho
      · intro o ho
        rcases List.mem_append.mp ho with ho | ho
        · exact h.outs o ho
        · simp only [Drain.see, List.map_cons, List.map_nil, List.mem_singleton,
            DrainEvent.out.injEq] at ho
          obtain ⟨hcur, rfl⟩ := ho
          exact h.pending hcur.symm _ (by rw [hpending]; exact List.mem_cons_self)
  | between ha hnone hrun hsend houts hkeep =>
      refine ⟨fun o ho => h.queue o (hkeep o ho), ?_, ?_⟩
      · intro _ o ho
        by_contra hdata
        exact h.queue o (houts.2 o ho (by simpa using hdata))
      · exact hold _ (by cases a <;> simp [Drain.see])
  | aside ha hsend hwriter hpending =>
      refine ⟨by rw [hwriter]; exact h.queue, ?_, ?_⟩
      · rw [hpending, hcurrent, Drain.next_of_isAside ha]
        exact h.pending
      · exact hold _ (by cases a <;> simp [Drain.see])

theorem pumping_exec (hrto : ¬ cfg.enableAckRto > 0) {as : List EndpointAction} {s : Drain}
    {l : List DrainEvent} (hexec : (drain cfg).exec as = some (s, l)) : Pumping s l := by
  refine Machine.invariant_of_exec ⟨?_, ?_, ?_⟩ (fun _ _ _ _ _ h hstep => h.step hrto hstep) hexec
  · rintro o ⟨msgId, msg, hlookup, -⟩
    exact absurd hlookup (by simp [drain, endpoint])
  · simp [drain, endpoint]
  · simp

end Pump

/-! ## The frames with a body -/

section Transmits

variable {cfg : EndpointConfig} {s : Drain} {k : List DrainEvent}

/-- The frames with a body that the writer has sent, each with its message; those marked `true` are
the first of theirs. -/
structure Transmits (cfg : EndpointConfig) (k : List DrainEvent) (sent : List (Bool × PushMsg)) :
    Prop where
  frames : (outsOf k).filter WriterOut.isData = sent.map fun p => firstFrame cfg p.2
  first : (sent.filter (·.1)).map (·.2) = issued k
  again : ∀ p m q, sent = p ++ (false, m) :: q → (true, m) ∈ p
  outside : ∀ m, (false, m) ∈ sent → ∃ o, .out none o ∈ k ∧ o.isData = true

theorem Transmits.mem_issued {sent : List (Bool × PushMsg)} (h : Transmits cfg k sent)
    {m : PushMsg} : m ∈ issued k ↔ (true, m) ∈ sent := by
  rw [← h.first]
  constructor
  · intro hm
    obtain ⟨⟨b, m'⟩, hmem, rfl⟩ := List.mem_map.mp hm
    obtain ⟨hmem, rfl⟩ := List.mem_filter.mp hmem
    exact hmem
  · intro hm
    exact List.mem_map.mpr ⟨_, List.mem_filter.mpr ⟨hm, rfl⟩, rfl⟩

/-- Events that are no frames with a body. -/
theorem Transmits.quiet {sent : List (Bool × PushMsg)} (h : Transmits cfg k sent)
    {e : List DrainEvent} (houts : (outsOf e).filter WriterOut.isData = [])
    (hissued : issued e = []) : Transmits cfg (k ++ e) sent where
  frames := by rw [outsOf_append, List.filter_append, houts, List.append_nil, h.frames]
  first := by rw [issued_append, hissued, List.append_nil, h.first]
  again := h.again
  outside m hm := by
    obtain ⟨o, ho, hdata⟩ := h.outside m hm
    exact ⟨o, List.mem_append_left _ ho, hdata⟩

/-- A frame with a body is the first of its message, or the message had one before. -/
theorem Transmits.out {sent : List (Bool × PushMsg)} (h : Transmits cfg k sent)
    {current : Option PushMsg} {m : PushMsg} (hcurrent : current = some m ∨
      current = none ∧ m ∈ issued k) :
    Transmits cfg (k ++ [.out current (firstFrame cfg m)])
      (sent ++ [(current.isSome, m)]) where
  frames := by
    rw [outsOf_append, List.filter_append, h.frames, List.map_append]
    simp [outsOf, isData_firstFrame]
  first := by
    rw [issued_append, List.filter_append, List.map_append, h.first]
    rcases hcurrent with rfl | ⟨rfl, -⟩
    · simp [issued, isData_firstFrame]
    · simp [issued]
  again p m' q heq := by
    rcases List.append_eq_append_iff.mp heq with ⟨x, hp, hx⟩ | ⟨x, hsent, hx⟩
    · cases x with
      | nil =>
          obtain ⟨hflag, -⟩ := List.cons.inj hx
          obtain ⟨hflag, rfl⟩ := Prod.mk.inj hflag
          rcases hcurrent with rfl | ⟨rfl, hm⟩
          · exact absurd hflag (by simp)
          · rw [hp, List.append_nil]
            exact h.mem_issued.mp hm
      | cons y x =>
          obtain ⟨-, hnil⟩ := List.cons.inj hx
          exact absurd hnil.symm (by simp)
    · cases x with
      | nil =>
          obtain ⟨hflag, -⟩ := List.cons.inj hx
          obtain ⟨hflag, rfl⟩ := Prod.mk.inj hflag
          rcases hcurrent with rfl | ⟨rfl, hm⟩
          · exact absurd hflag (by simp)
          · rw [List.append_nil] at hsent
            rw [← hsent]
            exact h.mem_issued.mp hm
      | cons y x =>
          obtain ⟨rfl, -⟩ := List.cons.inj hx
          exact h.again p m' x hsent
  outside m' hm' := by
    rcases List.mem_append.mp hm' with hm' | hm'
    · obtain ⟨o, ho, hdata⟩ := h.outside m' hm'
      exact ⟨o, List.mem_append_left _ ho, hdata⟩
    · obtain ⟨hflag, rfl⟩ := Prod.mk.inj (List.mem_singleton.mp hm')
      rcases hcurrent with rfl | ⟨rfl, -⟩
      · exact absurd hflag (by simp)
      · exact ⟨_, List.mem_append_right _ (List.mem_singleton_self _), isData_firstFrame cfg _⟩

/-- A step is seen as one event at most. -/
theorem Drain.see_cases {t : Drain} {a : EndpointAction} {outs : List WriterOut}
    (h : s.conn.Effect cfg t.conn a outs) :
    (outsOf (s.see a outs) = [] ∧ issued (s.see a outs) = []) ∨
      ∃ o, s.see a outs = [.out s.current o] := by
  cases h with
  | emit => exact .inr ⟨_, rfl⟩
  | between ha | aside ha => exact .inl (by cases a <;> exact ⟨rfl, rfl⟩)
  | put | close | take | ended => exact .inl ⟨rfl, rfl⟩

theorem transmits_exec {as : List EndpointAction} (hexec : (drain cfg).exec as = some (s, k)) :
    (s.Inv cfg k ∧ s.Repeats cfg k) ∧ ∃ sent, Transmits cfg k sent := by
  refine Machine.invariant_of_exec (I := fun s k =>
    (s.Inv cfg k ∧ s.Repeats cfg k) ∧ ∃ sent, Transmits cfg k sent)
    ⟨⟨Drain.Inv.init cfg, Drain.Repeats.init cfg⟩, [], rfl, rfl, by simp, by simp⟩ ?_ hexec
  rintro s k a t o ⟨⟨hinv, hrepeats⟩, sent, hsent⟩ hstep
  have hinv' := hinv.step hstep
  have hrepeats' := hrepeats.step hinv hstep
  refine ⟨⟨hinv', hrepeats'⟩, ?_⟩
  obtain ⟨outs, hend, -, rfl⟩ := Drain.step_iff.mp hstep
  rcases Drain.see_cases (Endpoint.effect_of_step hend) with ⟨houts, hissued⟩ | ⟨o, ho⟩
  · exact ⟨sent, hsent.quiet (by rw [houts]; rfl) hissued⟩
  · rw [ho] at hinv' hrepeats' ⊢
    have hlast : DrainEvent.out s.current o ∈ k ++ [.out s.current o] :=
      List.mem_append_right _ (List.mem_singleton_self _)
    cases hdata : o.isData with
    | false =>
        refine ⟨sent, hsent.quiet (by simp [outsOf, hdata]) ?_⟩
        cases hcur : s.current <;> simp [issued, hdata]
    | true =>
        cases hcur : s.current with
        | some m =>
            rw [hcur] at hlast
            obtain rfl := hinv'.frames m o (hcur ▸ hlast) hdata
            exact ⟨_, hsent.out (.inl rfl)⟩
        | none =>
            rw [hcur] at hlast
            obtain ⟨m, hm, rfl⟩ := hrepeats'.again o (hcur ▸ hlast) hdata
            rw [hcur, issued_append] at hm
            exact ⟨_, hsent.out (.inr ⟨rfl, by simpa [issued] using hm⟩)⟩

end Transmits

/-! ## What the client reads -/

section Client

variable {cfg : EndpointConfig} {wcfg : WriteConfig} {env : ReadEnv} {s : Online}
  {l : List OnlineEvent}

/-- The messages of the outputs. -/
theorem dataOuts_eq {k : List DrainEvent} {sent : List (Bool × PushMsg)}
    (h : Transmits cfg k sent) :
    ((outsOf k).filterMap WriterOut.call).filterMap dataOf =
      sent.filterMap fun p => (firstFrame cfg p.2).call.bind dataOf := by
  have hnone : ∀ o : WriterOut, o.isData = false → o.call.bind dataOf = none := by
    intro o ho
    cases o with
    | push | text => exact absurd ho (by simp [WriterOut.isData])
    | report | pingMessage | closeMessage | ticked => rfl
  have hdata : ∀ outs : List WriterOut, outs.filterMap (fun o => o.call.bind dataOf) =
      (outs.filter WriterOut.isData).filterMap fun o => o.call.bind dataOf := by
    intro outs
    rw [List.filterMap_filter]
    apply List.filterMap_congr
    intro o _
    cases ho : o.isData with
    | false => simp [hnone o ho]
    | true => simp
  rw [List.filterMap_filterMap, hdata, h.frames, List.filterMap_map]
  rfl

/-- The connection of a run. -/
theorem online_transmits {as : List OnlineAction}
    (hexec : (online cfg wcfg).exec as = some (s, l)) :
    (issued (connOf l) <+: enqueued (connOf l)) ∧
      (¬ cfg.enableAckRto > 0 → Pumping s.conn (connOf l)) ∧
      ∃ sent, Transmits cfg (connOf l) sent := by
  obtain ⟨cs, hconn, -⟩ := (online_drain cfg wcfg).exec hexec
  obtain ⟨⟨hinv, -⟩, hsent⟩ := transmits_exec hconn
  exact ⟨⟨_, by rw [← List.append_assoc]; exact hinv.balance⟩,
    fun hnot => pumping_exec hnot hconn, hsent⟩

/-- What the client reads of the bytes that have come, when every call fits. -/
theorem client_reads_calls (hserver : wcfg.isServer = true) (hclient : env.isServer = false)
    {as : List OnlineAction} (hexec : (online cfg wcfg).exec as = some (s, l))
    (hfits : ∀ c ∈ callsOf l, Fits env c.2.2) {input : List UInt8}
    (hpre : input <+: wireOf (wsOf l)) :
    ∃ ms cut, (readMessages env (newReadSide input)).messages = ms ++ cut ∧
      ms <+: ((callsOf l).map (·.2)).filterMap dataOf ∧
      (cut = [] ∨ env.ends = .eof ∧ ∃ t q data, cut = [(t, q)] ∧ q <+: data ∧
        ms ++ [(t, data)] <+: ((callsOf l).map (·.2)).filterMap dataOf) := by
  obtain ⟨bs, hws, htell⟩ := (online_sender cfg wcfg).exec hexec
  have hok : ∀ a ∈ bs, a.Ok env := by
    intro a ha
    cases a with
    | writeMessage ft data =>
        obtain ⟨b, hb⟩ := mem_callsOf htell ha
        exact hfits _ hb
    | flush | writeControl | closeConn => trivial
  obtain ⟨ms, cut, hmessages, hsent, hcalls, hcut⟩ :=
    readMessages_prefix env (by rw [hserver, hclient]; rfl) hok hws hpre
  rw [dataCalls_eq, htell, said_eq] at hcalls hcut
  refine ⟨ms, cut, hmessages, hsent.trans hcalls, hcut.imp_right ?_⟩
  rintro ⟨heof, t, q, data, rfl, hnext, hq⟩
  exact ⟨heof, t, q, data, rfl, hq, hnext⟩

theorem fits_nil : Fits env [] := by
  refine ⟨by simp, ?_⟩
  show WithinLimit env (0 : ℕ)
  simp only [WithinLimit]
  omega

/-- A call is an ack, or the frame of a message, or a control message without a body. -/
theorem call_cases {sent : List (Bool × PushMsg)} (hmatch : CallsMatch cfg l)
    (h : Transmits cfg (connOf l) sent) {c : Bool × FrameType × List UInt8}
    (hc : c ∈ callsOf l) :
    (cfg.enableAckRto = 1 ∧ ∃ ackSeq, c.2 = (.text, ackToPeer ackSeq)) ∨
      (∃ p ∈ sent, (firstFrame cfg p.2).call = some c.2) ∨ dataOf c.2 = none ∧ c.2.2 = [] := by
  obtain ⟨b, ft, data⟩ := c
  cases b with
  | false => exact .inl (hmatch.acks _ hc rfl)
  | true =>
      have hmem : (ft, data) ∈ (outsOf (connOf l)).filterMap WriterOut.call := by
        rw [← hmatch.writer]
        exact List.mem_map.mpr ⟨_, List.mem_filter.mpr ⟨hc, rfl⟩, rfl⟩
      obtain ⟨o, ho, hcall⟩ := List.mem_filterMap.mp hmem
      cases hdata : o.isData with
      | true =>
          have hframes : o ∈ (outsOf (connOf l)).filter WriterOut.isData :=
            List.mem_filter.mpr ⟨ho, hdata⟩
          rw [h.frames] at hframes
          obtain ⟨p, hp, rfl⟩ := List.mem_map.mp hframes
          exact .inr (.inl ⟨p, hp, hcall⟩)
      | false =>
          cases o with
          | push | text => exact absurd hdata (by simp [WriterOut.isData])
          | report | ticked => exact absurd hcall (by simp [WriterOut.call])
          | pingMessage | closeMessage =>
              obtain ⟨rfl, rfl⟩ := Prod.mk.inj (Option.some.inj hcall)
              exact .inr (.inr ⟨rfl, rfl⟩)

/-- Every call fits when the frames of the messages do, and the acks. -/
theorem fits_calls {sent : List (Bool × PushMsg)}
    (hmatch : CallsMatch cfg l) (h : Transmits cfg (connOf l) sent)
    (hframe : ∀ p ∈ sent, ∀ c, (firstFrame cfg p.2).call = some c → Fits env c.2)
    (hack : ∀ ackSeq, cfg.enableAckRto = 1 → Fits env (ackToPeer ackSeq)) :
    ∀ c ∈ callsOf l, Fits env c.2.2 := by
  intro c hc
  rcases call_cases hmatch h hc with ⟨hrto, ackSeq, heq⟩ | ⟨p, hp, hcall⟩ | ⟨-, hnil⟩
  · rw [heq]
    exact hack ackSeq hrto
  · exact hframe p hp c.2 hcall
  · rw [hnil]
    exact fits_nil

/-- The text that a message becomes without acks. -/
def pumpText (m : PushMsg) : WebSocket.Message := (.text, m.msgBody)

/-- What a client reads without acks: the bodies of `sent`, which is the front of the queue, and
perhaps a front of the next one as if it were the whole. -/
structure ReadsQueue (env : ReadEnv) (input : List UInt8) (queue sent : List PushMsg)
    (cut : List WebSocket.Message) : Prop where
  messages : (readMessages env (newReadSide input)).messages = sent.map pumpText ++ cut
  front : sent <+: queue
  cut_cases : cut = [] ∨ env.ends = .eof ∧ ∃ q m, cut = [(.text, q)] ∧ q <+: m.msgBody ∧
    sent ++ [m] <+: queue

/-- Without acks the client reads what was put on `c.send`, whatever the goroutines of the
connection do and however much of its bytes the network delivers. -/
theorem client_reads_queue (hrto : cfg.enableAckRto ≤ 0) (hserver : wcfg.isServer = true)
    (hclient : env.isServer = false) {as : List OnlineAction}
    (hexec : (online cfg wcfg).exec as = some (s, l))
    (hfits : ∀ m ∈ enqueued (connOf l), Fits env m.msgBody) {input : List UInt8}
    (hpre : input <+: wireOf (wsOf l)) :
    ∃ sent cut, ReadsQueue env input (enqueued (connOf l)) sent cut := by
  have hnot : ¬ cfg.enableAckRto > 0 := by omega
  obtain ⟨hissued, hpumping, sent, hsent⟩ := online_transmits hexec
  have hmatch := callsMatch_exec hexec
  -- nothing is sent twice
  have hfirst : ∀ p ∈ sent, p.1 = true := by
    rintro ⟨b, m⟩ hp
    cases b with
    | true => rfl
    | false =>
        obtain ⟨o, ho, hdata⟩ := hsent.outside m hp
        have hplain := (hpumping hnot).outs o ho
        exact absurd (hplain.symm.trans hdata) (by simp)
  have hall : sent.map (·.2) = issued (connOf l) := by
    rw [← hsent.first, List.filter_eq_self.mpr hfirst]
  have htext : ∀ m, (firstFrame cfg m).call = some (.text, m.msgBody) := by
    intro m
    rw [firstFrame_pump hnot]
    rfl
  -- and every call is the writer's
  have hwriter : ∀ c ∈ callsOf l, c.1 = true := by
    intro c hc
    by_contra hfalse
    have hone := (hmatch.acks c hc (by simpa using hfalse)).1
    omega
  have hcalls : ((callsOf l).map (·.2)).filterMap dataOf = (issued (connOf l)).map pumpText := by
    rw [← List.filter_eq_self.mpr hwriter, hmatch.writer, dataOuts_eq hsent, ← hall, List.map_map,
      ← List.filterMap_eq_map]
    apply List.filterMap_congr
    intro p _
    rw [htext]
    rfl
  have hfits' : ∀ c ∈ callsOf l, Fits env c.2.2 := by
    refine fits_calls hmatch hsent (fun p hp c hc => ?_) (fun _ hone => absurd hone (by omega))
    obtain rfl := Option.some.inj ((htext p.2).symm.trans hc)
    apply hfits
    apply hissued.subset
    rw [← hall]
    exact List.mem_map_of_mem hp
  obtain ⟨ms, cut, hmessages, hms, hcut⟩ :=
    client_reads_calls hserver hclient hexec hfits' hpre
  rw [hcalls] at hms hcut
  have hqueue : (issued (connOf l)).map pumpText <+: (enqueued (connOf l)).map pumpText :=
    hissued.map pumpText
  rcases hcut with rfl | ⟨heof, t, q, data, rfl, hq, hnext⟩
  · obtain ⟨sent', hsent', rfl⟩ := List.prefix_map_iff.mp (hms.trans hqueue)
    exact ⟨sent', [], hmessages, hsent', .inl rfl⟩
  · obtain ⟨all, hall', heq⟩ := List.prefix_map_iff.mp (hnext.trans hqueue)
    obtain ⟨sent', last, rfl, rfl, hlast⟩ := List.append_eq_map_iff.mp heq
    obtain ⟨m, rfl, hm⟩ := List.map_eq_singleton_iff.mp hlast
    obtain ⟨rfl, rfl⟩ := Prod.mk.inj hm
    exact ⟨sent', _, hmessages, (List.prefix_append _ _).trans hall',
      .inr ⟨heof, q, m, rfl, hq, hall'⟩⟩

/-! ### With acks -/

/-- What the client makes of a message, unless it is an ack. -/
def pushRead (m : WebSocket.Message) : Option ClientRead :=
  match clientRead ⟨m.2, []⟩ with
  | .ok (.push h bodyLen body) => some (.push h bodyLen body)
  | _ => none

/-- What the client is to make of a message that was put on `c.send`. -/
def readOf (m : PushMsg) : ClientRead :=
  .push ⟨m.msgId % 2 ^ 32, 1, if m.isBrAll then 0 else 1, 1⟩ (m.msgBody.length % 2 ^ 32)
    (if m.isBrAll then none else some m.msgBody)

theorem pushRead_frame (m : PushMsg) :
    pushRead (.text, pushFrame m.msgId m.msgBody m.isBrAll) = some (readOf m) := by
  rw [pushRead, clientRead_pushFrame]
  rfl

theorem pushRead_ack (ackSeq : ℕ) : pushRead (.text, ackToPeer ackSeq) = none := by
  rw [pushRead, clientRead_ackToPeer]

/-- The acks aside, the client reads the frames with a body. -/
theorem pushesRead_eq (hrto : cfg.enableAckRto > 0) {sent : List (Bool × PushMsg)}
    (hmatch : CallsMatch cfg l) (h : Transmits cfg (connOf l) sent) :
    (((callsOf l).map (·.2)).filterMap dataOf).filterMap pushRead =
      sent.map fun p => readOf p.2 := by
  have hwriter : (((callsOf l).map (·.2)).filterMap dataOf).filterMap pushRead =
      ((((callsOf l).filter (·.1)).map (·.2)).filterMap dataOf).filterMap pushRead := by
    simp only [List.filterMap_filterMap, List.filterMap_map, List.filterMap_filter]
    apply List.filterMap_congr
    intro c hc
    cases hb : c.1 with
    | true => simp
    | false =>
        obtain ⟨-, ackSeq, heq⟩ := hmatch.acks c hc hb
        simp [heq, dataOf, dataType, pushRead_ack]
  rw [hwriter, hmatch.writer, dataOuts_eq h, List.filterMap_filterMap, ← List.filterMap_eq_map]
  apply List.filterMap_congr
  intro p _
  rw [firstFrame, if_pos hrto]
  simp [WriterOut.call, dataOf, dataType, pushRead_frame]

/-- What a client reads with acks: it decodes every message that comes whole. The pushes among them
are the front of the queue, in order, and in between pushes that it has decoded before. If the
connection is closed within a frame there is one more message, a front of a frame. -/
structure DecodesQueue (env : ReadEnv) (input : List UInt8) (queue : List PushMsg)
    (ms cut : List WebSocket.Message) (sent : List (Bool × PushMsg)) : Prop where
  messages : (readMessages env (newReadSide input)).messages = ms ++ cut
  whole : ∀ m ∈ ms, m.1 = .text ∧ ∃ r, clientRead ⟨m.2, []⟩ = .ok r
  pushes : ms.filterMap pushRead = sent.map fun p => readOf p.2
  first : (sent.filter (·.1)).map (·.2) <+: queue
  again : ∀ p m q, sent = p ++ (false, m) :: q → (true, m) ∈ p
  cut_cases : cut = [] ∨ env.ends = .eof ∧ ∃ q, cut = [(.text, q)] ∧
    ((∃ m ∈ queue, q <+: pushFrame m.msgId m.msgBody m.isBrAll) ∨ ∃ ackSeq, q <+: ackToPeer ackSeq)

/-- With acks the client decodes what was put on `c.send`. -/
theorem client_reads_frames (hrto : cfg.enableAckRto > 0) (hserver : wcfg.isServer = true)
    (hclient : env.isServer = false) {as : List OnlineAction}
    (hexec : (online cfg wcfg).exec as = some (s, l))
    (hfits : ∀ m ∈ enqueued (connOf l), Fits env (pushFrame m.msgId m.msgBody m.isBrAll))
    (hlimit : WithinLimit env 5) {input : List UInt8} (hpre : input <+: wireOf (wsOf l)) :
    ∃ ms cut sent, DecodesQueue env input (enqueued (connOf l)) ms cut sent := by
  obtain ⟨hissued, -, sent, hsent⟩ := online_transmits hexec
  have hmatch := callsMatch_exec hexec
  have hframe : ∀ m, (firstFrame cfg m).call =
      some (.text, pushFrame m.msgId m.msgBody m.isBrAll) := by
    intro m
    rw [firstFrame, if_pos hrto]
    rfl
  have hqueued : ∀ p ∈ sent, p.2 ∈ enqueued (connOf l) := by
    rintro ⟨b, m⟩ hp
    apply hissued.subset
    rw [hsent.mem_issued]
    cases b with
    | true => exact hp
    | false =>
        obtain ⟨x, y, hxy⟩ := List.append_of_mem hp
        rw [hxy]
        exact List.mem_append_left _ (hsent.again x m y hxy)
  have hfits' : ∀ c ∈ callsOf l, Fits env c.2.2 := by
    refine fits_calls hmatch hsent (fun p hp c hc => ?_) (fun ackSeq _ => ⟨?_, hlimit⟩)
    · obtain rfl := Option.some.inj ((hframe p.2).symm.trans hc)
      exact hfits p.2 (hqueued p hp)
    · show (5 : ℕ) < 2 ^ 63
      omega
  obtain ⟨ms, cut, hmessages, hms, hcut⟩ :=
    client_reads_calls hserver hclient hexec hfits' hpre
  -- a data message is a frame of the queue or an ack
  have hkind : ∀ m ∈ ((callsOf l).map (·.2)).filterMap dataOf, m.1 = .text ∧
      ((∃ p ∈ enqueued (connOf l), m.2 = pushFrame p.msgId p.msgBody p.isBrAll) ∨
        ∃ ackSeq, m.2 = ackToPeer ackSeq) := by
    intro m hm
    obtain ⟨_, hcall, hdata⟩ := List.mem_filterMap.mp hm
    obtain ⟨c, hc, rfl⟩ := List.mem_map.mp hcall
    rcases call_cases hmatch hsent hc with ⟨-, ackSeq, heq⟩ | ⟨p, hp, hfirst⟩ | ⟨hnone, -⟩
    · rw [heq] at hdata
      obtain rfl := Option.some.inj hdata
      exact ⟨rfl, .inr ⟨ackSeq, rfl⟩⟩
    · have heq := Option.some.inj ((hframe p.2).symm.trans hfirst)
      rw [← heq] at hdata
      obtain rfl := Option.some.inj hdata
      exact ⟨rfl, .inl ⟨p.2, hqueued p hp, rfl⟩⟩
    · exact absurd (hnone.symm.trans hdata) (by simp)
  have hread := hms.filterMap pushRead
  rw [pushesRead_eq hrto hmatch hsent] at hread
  obtain ⟨sent', hsent', hreads⟩ := List.prefix_map_iff.mp hread
  refine ⟨ms, cut, sent', hmessages, ?_, hreads, ?_, ?_, hcut.imp_right ?_⟩
  · intro m hm
    obtain ⟨htext, ⟨p, -, hp⟩ | ⟨ackSeq, hack⟩⟩ := hkind m (hms.subset hm)
    · exact ⟨htext, _, by rw [hp]; exact clientRead_pushFrame _ _ _ []⟩
    · exact ⟨htext, _, by rw [hack]; exact clientRead_ackToPeer _ []⟩
  · have hfirst := (hsent'.filter (·.1)).map (·.2)
    rw [hsent.first] at hfirst
    exact hfirst.trans hissued
  · rintro p m q rfl
    obtain ⟨z, hz⟩ := hsent'
    refine hsent.again p m (q ++ z) ?_
    rw [← hz, List.append_assoc, List.cons_append]
  · rintro ⟨heof, t, q, data, rfl, hq, hnext⟩
    obtain ⟨htext, hdata⟩ :=
      hkind _ (hnext.subset (List.mem_append_right _ (List.mem_singleton_self _)))
    obtain rfl : t = .text := htext
    refine ⟨heof, q, rfl, ?_⟩
    rcases hdata with ⟨p, hp, rfl⟩ | ⟨ackSeq, rfl⟩
    · exact .inl ⟨p, hp, hq⟩
    · exact .inr ⟨ackSeq, hq⟩

end Client

end Skytime
