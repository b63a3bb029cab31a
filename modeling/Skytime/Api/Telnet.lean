/-
# Skytime.Api.Telnet — the chunks of a telnet connection on their way to `broadcast`.

`telnetHandler` reads into one buffer. Each chunk goes on as a slice of it: a goroutine that sleeps
first puts the slice on `broadcast_Q`, `broadcast` takes it off, waits for its token and only then
copies the bytes. A chunk is never lost or repeated on this way, but it is broadcast with what the
buffer holds at the end of it.
-/
import Mathlib.Data.List.Nodup
import Skytime.Api.Requests

namespace Skytime

open Process

/-! ## The buffer and its slices -/

/-- Size of `buf` in `telnetHandler`. -/
def telnetBufSize : ℕ := 4096

structure ReadBuf where
  bytes : List UInt8
  length_eq : bytes.length = telnetBufSize

def ReadBuf.make : ReadBuf := ⟨List.replicate telnetBufSize 0, List.length_replicate⟩

/-- `c.Read(buf)` overwrites the buffer from its beginning. -/
def ReadBuf.fill (b : ReadBuf) (data : List UInt8) (h : data.length ≤ telnetBufSize) : ReadBuf where
  bytes := data ++ b.bytes.drop data.length
  length_eq := by
    rw [List.length_append, List.length_drop, b.length_eq]
    omega

/-- `buf[0:n]` of one read: the slice has no bytes of its own. -/
structure Chunk where
  id : ℕ
  n : ℕ
  deriving DecidableEq, Repr

/-- What stands on `broadcast_Q`. -/
inductive QueueItem where
  | chunk (c : Chunk)
  /-- a body of another producer -/
  | body (bytes : List UInt8)
  deriving DecidableEq, Repr

def QueueItem.chunk? : QueueItem → Option Chunk
  | .chunk c => some c
  | .body _ => none

/-- Where `broadcast` stands. -/
inductive Broadcaster where
  | idle
  /-- at `<-hr.broadcast_mu`, with `bmsg` -/
  | waiting (bmsg : QueueItem)
  /-- the message is made and goes to the rooms -/
  | pushing
  deriving DecidableEq, Repr

/-- What `broadcast` has taken and not copied yet. -/
def Broadcaster.taken : Broadcaster → List QueueItem
  | .waiting bmsg => [bmsg]
  | _ => []

/-! ## The machine -/

structure Telnet where
  /-- the loop of `telnetHandler` goes on -/
  reading : Bool
  buf : ReadBuf
  /-- how many chunks have been read -/
  reads : ℕ
  /-- the chunks whose goroutines have not sent them yet -/
  delayed : List Chunk
  broadcastQ : Chan QueueItem broadcastQCap
  broadcaster : Broadcaster

inductive TelnetAction where
  | read (data : List UInt8)
  /-- `c.Read` fails or returns nothing -/
  | readFails
  /-- the goroutine of a chunk sends `buf[0:n]` -/
  | enqueue (c : Chunk)
  /-- another producer sends a body -/
  | other (bytes : List UInt8)
  /-- `broadcast` receives from `broadcast_Q` -/
  | take
  /-- `broadcast` takes the token and copies `bmsg` -/
  | copy
  /-- `broadcast` has pushed its message and returned the token -/
  | pushed
  deriving DecidableEq, Repr

inductive TelnetEvent where
  | read (id : ℕ) (bytes : List UInt8)
  /-- a message is made of the chunk -/
  | broadcast (id : ℕ) (payload : List UInt8)
  /-- a message is made of a body of another producer -/
  | other (payload : List UInt8)
  deriving DecidableEq, Repr

namespace Telnet

/-- The bytes that a slice shows now. -/
def shows (s : Telnet) (c : Chunk) : List UInt8 := s.buf.bytes.take c.n

/-- `copy(push_msg.msg_body, bmsg)`. -/
def copied (s : Telnet) : QueueItem → TelnetEvent
  | .chunk c => .broadcast c.id (s.shows c)
  | .body bytes => .other bytes

def step (s : Telnet) : TelnetAction → Option (Telnet × List TelnetEvent)
  | .read data =>
    if h : s.reading = true ∧ 0 < data.length ∧ data.length ≤ telnetBufSize then
      some ({ s with
        buf := s.buf.fill data h.2.2
        reads := s.reads + 1
        delayed := s.delayed ++ [⟨s.reads, data.length⟩] }, [.read s.reads data])
    else none
  | .readFails => if s.reading then some ({ s with reading := false }, []) else none
  | .enqueue c =>
    if c ∈ s.delayed then
      match s.broadcastQ.send (.chunk c) with
      | .sent ch => some ({ s with delayed := s.delayed.erase c, broadcastQ := ch }, [])
      -- the goroutine waits
      | _ => none
    else none
  | .other bytes =>
    match s.broadcastQ.send (.body bytes) with
    | .sent ch => some ({ s with broadcastQ := ch }, [])
    | _ => none
  | .take =>
    match s.broadcaster, s.broadcastQ.recv with
    | .idle, .got bmsg ch => some ({ s with broadcastQ := ch, broadcaster := .waiting bmsg }, [])
    | _, _ => none
  | .copy =>
    match s.broadcaster with
    | .waiting bmsg => some ({ s with broadcaster := .pushing }, [s.copied bmsg])
    | _ => none
  | .pushed =>
    if s.broadcaster = .pushing then some ({ s with broadcaster := .idle }, []) else none
end Telnet

/-- A connection at the start of its loop, and `broadcast` at its receive. -/
def telnet : Machine Telnet TelnetAction TelnetEvent where
  init := ⟨true, .make, 0, [], Chan.make, .idle⟩
  step := Telnet.step

/-! ## What has been read and broadcast -/

/-- The chunks that have been read, with their numbers. -/
def chunksRead (l : List TelnetEvent) : List (ℕ × List UInt8) :=
  l.filterMap fun
    | .read id bytes => some (id, bytes)
    | _ => none

/-- The payloads that have been made of chunks, with the numbers of the chunks. -/
def chunksBroadcast (l : List TelnetEvent) : List (ℕ × List UInt8) :=
  l.filterMap fun
    | .broadcast id payload => some (id, payload)
    | _ => none

@[simp] theorem chunksRead_append (l o : List TelnetEvent) :
    chunksRead (l ++ o) = chunksRead l ++ chunksRead o := List.filterMap_append

@[simp] theorem chunksBroadcast_append (l o : List TelnetEvent) :
    chunksBroadcast (l ++ o) = chunksBroadcast l ++ chunksBroadcast o := List.filterMap_append

namespace Telnet

/-- The chunks that are on their way. -/
def outstanding (s : Telnet) : List Chunk :=
  s.delayed ++ (s.broadcaster.taken ++ s.broadcastQ.buf).filterMap QueueItem.chunk?

/-- The chunks read are numbered, and each has been broadcast once with the bytes it was read with,
or is still on its way. -/
structure Integrity (s : Telnet) (l : List TelnetEvent) : Prop where
  numbered : (chunksRead l).map Prod.fst = List.range s.reads
  once : ∃ rest, rest.map Prod.fst = s.outstanding.map Chunk.id ∧
    (chunksBroadcast l ++ rest).Perm (chunksRead l)

/-- A read leaves what the slices on their way show as it is. -/
def Spares (s : Telnet) (_ : List TelnetEvent) : TelnetAction → Prop
  | .read data =>
    ∀ c ∈ s.outstanding, (data ++ s.buf.bytes.drop data.length).take c.n = s.shows c
  | _ => True

/-! ## Every chunk is on one way -/

/-- What the slices on their way show completes what has been broadcast to what has been read. -/
structure Inv (s : Telnet) (l : List TelnetEvent) : Prop where
  numbered : (chunksRead l).map Prod.fst = List.range s.reads
  shown : (chunksBroadcast l ++ s.outstanding.map fun c => (c.id, s.shows c)).Perm (chunksRead l)
  queue_open : s.broadcastQ.closed = false

theorem Inv.init : telnet.init.Inv [] := ⟨rfl, List.Perm.refl _, rfl⟩

theorem Inv.integrity {s : Telnet} {l : List TelnetEvent} (h : s.Inv l) : s.Integrity l := by
  refine ⟨h.numbered, s.outstanding.map fun c => (c.id, s.shows c), ?_, h.shown⟩
  rw [List.map_map]
  rfl

variable {s t : Telnet} {l o : List TelnetEvent}

/-- A step that moves chunks on without reading or copying one. -/
theorem Inv.quiet (h : s.Inv l) (hmoved : t.outstanding.Perm s.outstanding) (hbuf : t.buf = s.buf)
    (hreads : t.reads = s.reads) (hopen : t.broadcastQ.closed = false) (hr : chunksRead o = [])
    (hb : chunksBroadcast o = []) : t.Inv (l ++ o) := by
  have hshows : (fun c => (c.id, t.shows c)) = fun c : Chunk => (c.id, s.shows c) := by
    funext c
    rw [shows, shows, hbuf]
  refine ⟨?_, ?_, hopen⟩
  · rw [chunksRead_append, hr, List.append_nil, hreads]
    exact h.numbered
  · rw [chunksRead_append, chunksBroadcast_append, hr, hb, List.append_nil, List.append_nil, hshows]
    exact ((hmoved.map _).append_left _).trans h.shown

/-- A read that spares the slices on their way adds one. -/
theorem Inv.read (h : s.Inv l) {data : List UInt8} (hlen : data.length ≤ telnetBufSize)
    (hspares : s.Spares l (.read data)) :
    Inv { s with
      buf := s.buf.fill data hlen
      reads := s.reads + 1
      delayed := s.delayed ++ [⟨s.reads, data.length⟩] } (l ++ [.read s.reads data]) := by
  refine ⟨?_, ?_, h.queue_open⟩
  · rw [chunksRead_append, List.map_append, h.numbered, List.range_succ]
    rfl
  · set t : Telnet := { s with
      buf := s.buf.fill data hlen
      reads := s.reads + 1
      delayed := s.delayed ++ [⟨s.reads, data.length⟩] } with ht
    have hnew : t.shows ⟨s.reads, data.length⟩ = data := by
      show (data ++ s.buf.bytes.drop data.length).take data.length = data
      rw [List.take_left]
    have hold : s.outstanding.map (fun c => (c.id, t.shows c)) =
        s.outstanding.map fun c => (c.id, s.shows c) := by
      apply List.map_congr_left
      intro c hc
      rw [show t.shows c = s.shows c from hspares c hc]
    have hmoved : t.outstanding.Perm (s.outstanding ++ [⟨s.reads, data.length⟩]) := by
      simp only [ht, outstanding, List.append_assoc]
      exact List.perm_append_comm.append_left _
    have hshown := h.shown.append_right [(s.reads, data)]
    rw [← hold, List.append_assoc] at hshown
    rw [chunksRead_append, chunksBroadcast_append]
    refine List.Perm.trans ?_ hshown
    have hall := hmoved.map fun c => (c.id, t.shows c)
    rw [List.map_append, List.map_singleton, hnew] at hall
    exact (hall.append_left _).trans (by simp [chunksBroadcast])

/-- A copied chunk has been broadcast. -/
theorem Inv.copy (h : s.Inv l) {bmsg : QueueItem} (hwait : s.broadcaster = .waiting bmsg) :
    Inv { s with broadcaster := .pushing } (l ++ [s.copied bmsg]) := by
  cases bmsg with
  | body bytes =>
      refine h.quiet (List.Perm.of_eq ?_) rfl rfl h.queue_open rfl rfl
      simp [outstanding, hwait, Broadcaster.taken, List.filterMap_cons, QueueItem.chunk?]
  | chunk c =>
      have hmoved : s.outstanding.Perm
          (c :: outstanding { s with broadcaster := .pushing }) := by
        simp only [outstanding, hwait, Broadcaster.taken, List.singleton_append, List.nil_append,
          List.filterMap_cons, QueueItem.chunk?]
        exact List.perm_middle
      refine ⟨?_, ?_, h.queue_open⟩
      · rw [chunksRead_append]
        simpa [chunksRead, copied] using h.numbered
      · have hshown := ((hmoved.map fun c => (c.id, s.shows c)).append_left
          (chunksBroadcast l)).symm.trans h.shown
        rw [chunksRead_append, chunksBroadcast_append]
        simpa [chunksRead, chunksBroadcast, copied, shows] using hshown

theorem Inv.step {a : TelnetAction} (h : s.Inv l) (hspares : s.Spares l a)
    (hstep : telnet.step s a = some (t, o)) : t.Inv (l ++ o) := by
  simp only [telnet] at hstep
  cases a with
  | read data =>
      simp only [Telnet.step] at hstep
      split at hstep
      · rename_i hlen
        obtain ⟨rfl, rfl⟩ := Prod.mk.inj (Option.some.inj hstep)
        exact h.read hlen.2.2 hspares
      · exact absurd hstep (by simp)
  | readFails =>
      obtain ⟨-, heq⟩ := Machine.guard_eq_some_iff.mp hstep
      obtain ⟨rfl, rfl⟩ := Prod.mk.inj heq
      exact h.quiet (List.Perm.refl _) rfl rfl h.queue_open rfl rfl
  | enqueue c =>
      obtain ⟨hmem, hstep⟩ := Option.ite_none_right_eq_some.mp hstep
      split at hstep
      · rename_i ch hsend
        obtain ⟨rfl, rfl⟩ := Prod.mk.inj (Option.some.inj hstep)
        obtain ⟨-, -, hbuf, hopen⟩ := Chan.send_eq_sent_iff.mp hsend
        refine h.quiet ?_ rfl rfl hopen rfl rfl
        simp only [outstanding, hbuf, List.filterMap_append, List.filterMap_cons,
          QueueItem.chunk?, List.filterMap_nil]
        -- the chunk goes from its goroutine to the end of the queue
        rw [← List.append_assoc, ← List.append_assoc]
        refine List.perm_append_comm.trans ?_
        rw [List.append_assoc]
        exact ((List.perm_cons_erase hmem).symm.append_right _).trans (by simp)
      · exact absurd hstep (by simp)
  | other bytes =>
      simp only [Telnet.step] at hstep
      split at hstep
      · rename_i ch hsend
        obtain ⟨rfl, rfl⟩ := Prod.mk.inj (Option.some.inj hstep)
        obtain ⟨-, -, hbuf, hopen⟩ := Chan.send_eq_sent_iff.mp hsend
        refine h.quiet (List.Perm.of_eq ?_) rfl rfl hopen rfl rfl
        simp [outstanding, hbuf, QueueItem.chunk?]
      · exact absurd hstep (by simp)
  | take =>
      simp only [Telnet.step] at hstep
      split at hstep
      · rename_i bmsg ch hidle hrecv
        obtain ⟨rfl, rfl⟩ := Prod.mk.inj (Option.some.inj hstep)
        obtain ⟨hbuf, hch⟩ := Chan.recv_eq_got_iff.mp hrecv
        refine h.quiet (List.Perm.of_eq ?_) rfl rfl (hch.trans h.queue_open) rfl rfl
        simp [outstanding, hidle, hbuf, Broadcaster.taken]
      · exact absurd hstep (by simp)
  | copy =>
      simp only [Telnet.step] at hstep
      split at hstep
      · rename_i bmsg hwait
        obtain ⟨rfl, rfl⟩ := Prod.mk.inj (Option.some.inj hstep)
        exact h.copy hwait
      · exact absurd hstep (by simp)
  | pushed =>
      obtain ⟨hpush, heq⟩ := Machine.guard_eq_some_iff.mp hstep
      obtain ⟨rfl, rfl⟩ := Prod.mk.inj heq
      refine h.quiet (List.Perm.of_eq ?_) rfl rfl h.queue_open rfl rfl
      simp [outstanding, hpush, Broadcaster.taken]

/-! ## A chunk on its way is broadcast -/

/-- Steps that read nothing lead to `t`, and the chunks of the goroutines stay where they are. -/
structure Forwards (s t : Telnet) (l : List TelnetEvent) : Prop where
  exec : ∃ as, telnet.execFrom s as = some (t, l)
  buf : t.buf = s.buf
  delayed : t.delayed = s.delayed
  closed : t.broadcastQ.closed = s.broadcastQ.closed
  read : chunksRead l = []

theorem Forwards.refl (s : Telnet) : s.Forwards s [] := ⟨⟨[], rfl⟩, rfl, rfl, rfl, rfl⟩

theorem Forwards.trans {u : Telnet} (h : s.Forwards t l) (h' : t.Forwards u o) :
    s.Forwards u (l ++ o) := by
  obtain ⟨as, hexec⟩ := h.exec
  obtain ⟨bs, hexec'⟩ := h'.exec
  exact ⟨⟨as ++ bs, telnet.execFrom_append_iff.mpr ⟨t, l, o, hexec, hexec', rfl⟩⟩,
    h'.buf.trans h.buf, h'.delayed.trans h.delayed, h'.closed.trans h.closed,
    by rw [chunksRead_append, h.read, h'.read]; rfl⟩

/-- `broadcast` copies what it has taken and comes back to its receive. -/
theorem exists_idle (s : Telnet) : ∃ t l, s.Forwards t l ∧ t.broadcaster = .idle ∧
    t.broadcastQ = s.broadcastQ ∧
    ∀ c, .chunk c ∈ s.broadcaster.taken → (c.id, s.shows c) ∈ chunksBroadcast l := by
  cases hb : s.broadcaster with
  | idle => exact ⟨s, [], .refl s, hb, rfl, fun c hc => absurd hc List.not_mem_nil⟩
  | pushing =>
      refine ⟨{ s with broadcaster := .idle }, [], ⟨⟨[.pushed], ?_⟩, rfl, rfl, rfl, rfl⟩, rfl, rfl,
        fun c hc => absurd hc List.not_mem_nil⟩
      simp [Machine.execFrom, telnet, Telnet.step, hb]
  | waiting bmsg =>
      refine ⟨{ s with broadcaster := .idle }, [s.copied bmsg],
        ⟨⟨[.copy, .pushed], ?_⟩, rfl, rfl, rfl, ?_⟩, rfl, rfl, fun c hc => ?_⟩
      · simp [Machine.execFrom, telnet, Telnet.step, hb]
      · cases bmsg <;> rfl
      · obtain rfl := List.mem_singleton.mp hc
        exact List.mem_singleton_self _

/-- `broadcast` works off its queue. -/
theorem exists_drained (hidle : s.broadcaster = .idle) : ∃ t l, s.Forwards t l ∧
    t.broadcaster = .idle ∧ t.broadcastQ.buf = [] ∧
    ∀ c, .chunk c ∈ s.broadcastQ.buf → (c.id, s.shows c) ∈ chunksBroadcast l := by
  generalize hq : s.broadcastQ.buf = queue
  induction queue generalizing s with
  | nil => exact ⟨s, [], .refl s, hidle, hq, fun c hc => absurd hc List.not_mem_nil⟩
  | cons bmsg queue ih =>
      obtain ⟨ch, hrecv, hch, hclosed⟩ : ∃ ch, s.broadcastQ.recv = .got bmsg ch ∧
          ch.buf = queue ∧ ch.closed = s.broadcastQ.closed := by
        have hle : queue.length ≤ broadcastQCap := by
          have := s.broadcastQ.le_cap
          rw [hq, List.length_cons] at this
          omega
        exact ⟨⟨queue, s.broadcastQ.closed, hle⟩, Chan.recv_eq_got_iff.mpr ⟨hq, rfl⟩, rfl, rfl⟩
      have htake : s.Forwards { s with broadcastQ := ch, broadcaster := .waiting bmsg } [] :=
        ⟨⟨[.take], by simp [Machine.execFrom, telnet, Telnet.step, hidle, hrecv]⟩, rfl, rfl,
          hclosed, rfl⟩
      obtain ⟨t, l, hcopy, htidle, htq, htaken⟩ :=
        exists_idle { s with broadcastQ := ch, broadcaster := .waiting bmsg }
      obtain ⟨u, k, hrest, huidle, huq, hqueue⟩ := ih htidle (by rw [htq]; exact hch)
      refine ⟨u, [] ++ l ++ k, (htake.trans hcopy).trans hrest, huidle, huq, fun c hc => ?_⟩
      have hshows : t.shows c = s.shows c := by
        rw [shows, hcopy.buf]
        rfl
      rw [chunksBroadcast_append]
      rcases List.mem_cons.mp hc with rfl | hc
      · exact List.mem_append_left _ (htaken c (List.mem_singleton_self _))
      · exact List.mem_append_right _ (hshows ▸ hqueue c hc)

/-- The chunk of a goroutine that finds the queue empty. -/
theorem exists_sent (hidle : s.broadcaster = .idle) (hempty : s.broadcastQ.buf = [])
    (hopen : s.broadcastQ.closed = false) {c : Chunk} (hc : c ∈ s.delayed) :
    ∃ t l, (∃ as, telnet.execFrom s as = some (t, l)) ∧ chunksRead l = [] ∧
      (c.id, s.shows c) ∈ chunksBroadcast l := by
  have hroom : ¬ s.broadcastQ.Full := by
    simp [Chan.Full, hempty, broadcastQCap]
  obtain ⟨ch, hsend⟩ := Chan.exists_send_eq_sent (QueueItem.chunk c) hopen hroom
  have hbuf : ch.buf = [.chunk c] := by
    rw [(Chan.send_eq_sent_iff.mp hsend).2.2.1, hempty]
    rfl
  set t : Telnet := { s with delayed := s.delayed.erase c, broadcastQ := ch } with ht
  have henqueue : telnet.execFrom s [.enqueue c] = some (t, []) := by
    simp [Machine.execFrom, telnet, Telnet.step, hc, hsend, ht]
  obtain ⟨u, l, hlast, -, -, hdone⟩ := exists_drained (s := t) hidle
  obtain ⟨as, hexec⟩ := hlast.exec
  refine ⟨u, l, ⟨[.enqueue c] ++ as, ?_⟩, hlast.read, ?_⟩
  · exact telnet.execFrom_append_iff.mpr ⟨t, [], l, henqueue, hexec, rfl⟩
  · apply hdone c
    rw [ht, hbuf]
    exact List.mem_singleton_self _

/-- Without further reads a chunk on its way can be broadcast with what its slice shows now. -/
theorem exists_broadcast (hopen : s.broadcastQ.closed = false) {c : Chunk}
    (hc : c ∈ s.outstanding) : ∃ t l, (∃ as, telnet.execFrom s as = some (t, l)) ∧
      chunksRead l = [] ∧ (c.id, s.shows c) ∈ chunksBroadcast l := by
  obtain ⟨t, l, hfirst, htidle, htq, htaken⟩ := exists_idle s
  obtain ⟨u, k, hrest, huidle, huq, hqueue⟩ := exists_drained htidle
  have hall := hfirst.trans hrest
  rcases List.mem_append.mp hc with hdelayed | hqueued
  · obtain ⟨v, m, ⟨bs, hexec'⟩, hread, hsent⟩ :=
      exists_sent huidle huq (hall.closed.trans hopen) (hall.delayed ▸ hdelayed)
    have hshows : u.shows c = s.shows c := by rw [shows, shows, hall.buf]
    obtain ⟨as, hexec⟩ := hall.exec
    refine ⟨v, l ++ k ++ m, ⟨as ++ bs, ?_⟩, ?_, ?_⟩
    · exact telnet.execFrom_append_iff.mpr ⟨u, l ++ k, m, hexec, hexec', rfl⟩
    · rw [chunksRead_append, hall.read, hread]
      rfl
    · rw [chunksBroadcast_append, ← hshows]
      exact List.mem_append_right _ hsent
  · -- the chunk has been taken or stands on the queue
    have hshows : t.shows c = s.shows c := by rw [shows, shows, hfirst.buf]
    obtain ⟨item, hitem, hchunk⟩ := List.mem_filterMap.mp hqueued
    refine ⟨u, l ++ k, hall.exec, hall.read, ?_⟩
    cases item with
    | body => exact absurd hchunk (by simp [QueueItem.chunk?])
    | chunk c' =>
        obtain rfl := Option.some.inj hchunk
        rw [chunksBroadcast_append]
        rcases List.mem_append.mp hitem with hitem | hitem
        · exact List.mem_append_left _ (htaken c' hitem)
        · exact List.mem_append_right _ (hshows ▸ hqueue c' (htq ▸ hitem))

end Telnet

/-- **In every run in which no read changes what a slice on its way shows, the payloads broadcast
are the chunks read: each is broadcast once with the bytes it was read with, or is still on its way.
After a read that changes one, the run can go on, without further reads, to a payload that is not
the chunk read.** -/
theorem telnet_integrity (r : telnet.Run) (h : r.EachStep Telnet.Spares) :
    r.Always Telnet.Integrity ∧
      ∀ data t o, telnet.step r.last (.read data) = some (t, o) →
        ¬ r.last.Spares r.log (.read data) →
        ∃ as u l, telnet.execFrom t as = some (u, l) ∧ chunksRead l = [] ∧
          ¬ u.Integrity (r.log ++ o ++ l) := by
  have hinv : r.Always Telnet.Inv := r.always_of_eachStep Telnet.Inv.init
    (fun _ _ _ _ _ hi hspares hstep => hi.step hspares hstep) h
  refine ⟨hinv.mono fun _ _ hi => hi.integrity, fun data t o hstep hbad => ?_⟩
  simp only [Telnet.Spares, not_forall] at hbad
  obtain ⟨c, hc, hne⟩ := hbad
  simp only [telnet, Telnet.step] at hstep
  split at hstep
  · obtain ⟨ht, rfl⟩ := Prod.mk.inj (Option.some.inj hstep)
    have hout : c ∈ t.outstanding := by
      rw [← ht]
      rcases List.mem_append.mp hc with hc | hc
      · exact List.mem_append_left _ (List.mem_append_left _ hc)
      · exact List.mem_append_right _ hc
    have hopen : t.broadcastQ.closed = false := by
      rw [← ht]
      exact hinv.last.queue_open
    have hshows : t.shows c = (data ++ r.last.buf.bytes.drop data.length).take c.n := by
      rw [← ht]
      rfl
    -- the changed slice is on its way and is broadcast as it is now
    obtain ⟨u, l, ⟨as, hexec⟩, hread, hsent⟩ := Telnet.exists_broadcast hopen hout
    refine ⟨as, u, l, hexec, hread, fun hint => ?_⟩
    obtain ⟨rest, -, hperm⟩ := hint.once
    have hnow := hperm.subset (List.mem_append_left rest (by
      rw [chunksBroadcast_append]
      exact List.mem_append_right _ hsent))
    have hthen : (c.id, r.last.shows c) ∈ chunksRead r.log := by
      apply hinv.last.shown.subset
      exact List.mem_append_right _ (List.mem_map.mpr ⟨c, hc, rfl⟩)
    -- one number has been given to one chunk
    have hnodup : ((chunksRead (r.log ++ [.read r.last.reads data] ++ l)).map Prod.fst).Nodup := by
      rw [hint.numbered]
      exact List.nodup_range
    have hthen' : (c.id, r.last.shows c) ∈
        chunksRead (r.log ++ [.read r.last.reads data] ++ l) := by
      rw [chunksRead_append, chunksRead_append]
      exact List.mem_append_left _ (List.mem_append_left _ hthen)
    have hsame := List.inj_on_of_nodup_map hnodup hnow hthen' rfl
    exact hne (hshows.symm.trans (Prod.mk.inj hsame).2)
  · exact absurd hstep (by simp)

/-! ## Two chunks in one buffer -/

/-- The chunk `"A"` is broadcast before `"B"` is read. -/
def oneByOne : telnet.Run :=
  .ofActs [.read [0x41], .enqueue ⟨0, 1⟩, .take, .copy, .pushed] (by decide +kernel)

theorem oneByOne_integrity :
    oneByOne.EachStep Telnet.Spares ∧ oneByOne.Always Telnet.Integrity ∧
      oneByOne.log = [.read 0 [0x41], .broadcast 0 [0x41]] := by
  have hspares : oneByOne.EachStep Telnet.Spares := by
    intro pre a hpre s l hs
    cases a with
    | read data =>
        cases pre with
        | nil =>
            obtain ⟨rfl, rfl⟩ := Prod.mk.inj (Option.some.inj hs)
            intro c hc
            exact absurd hc List.not_mem_nil
        | cons b pre =>
            -- the run reads in its first step only
            have hmem : TelnetAction.read data ∈ oneByOne.acts.tail :=
              ((List.cons_prefix_cons.mp hpre).2).subset (by simp)
            exact absurd hmem (by simp [oneByOne, Machine.Run.ofActs])
    | readFails | enqueue | other | take | copy | pushed => trivial
  exact ⟨hspares, (telnet_integrity oneByOne hspares).1, by decide +kernel⟩

/-- The chunk `"B"` is read before the chunk `"A"` is copied. -/
def twoAtOnce : telnet.Run :=
  .ofActs [.read [0x41], .read [0x42], .enqueue ⟨0, 1⟩, .enqueue ⟨1, 1⟩, .take, .copy, .pushed,
    .take, .copy, .pushed] (by decide +kernel)

/-- `"B"` is broadcast twice and `"A"` never. -/
theorem twoAtOnce_garbled :
    twoAtOnce.log =
      [.read 0 [0x41], .read 1 [0x42], .broadcast 0 [0x42], .broadcast 1 [0x42]] ∧
      ¬ twoAtOnce.Always Telnet.Integrity := by
  have hlog : twoAtOnce.log =
      [.read 0 [0x41], .read 1 [0x42], .broadcast 0 [0x42], .broadcast 1 [0x42]] := by
    decide +kernel
  refine ⟨hlog, fun hall => ?_⟩
  obtain ⟨rest, hrest, hperm⟩ := hall.last.once
  have hsent : (0, [0x42]) ∈ chunksRead twoAtOnce.log := by
    apply hperm.subset
    rw [hlog]
    exact List.mem_append_left _ List.mem_cons_self
  rw [hlog] at hsent
  exact absurd hsent (by decide)

end Skytime
