/-
# Skytime.Api.Requests — the requests that broadcast: what they reply and what they set going.

`httpHandler` serves `/push`, the four `apiBroadcast…` handlers serve the console. Each hands its
work to a goroutine that starts after a delay, so a handler is a function to a reply and the job of
that goroutine. The address filters and `json.Unmarshal` are parameters; the latter returns the
struct as far as it has filled it, also when it fails.
-/
import Skytime.Rooms.State

namespace Skytime

open Process

/-! ## Requests and replies -/

inductive Route where
  | push
  | broadcastAll
  | broadcastRange
  | broadcastSet
  | broadcastPeers
  deriving DecidableEq, Repr

/-- What a handler sees of a request. -/
structure HttpRequest where
  remoteAddr : String
  /-- the response writer is an `http.Flusher` -/
  flusher : Bool
  /-- what `ioutil.ReadAll` returns -/
  body : List UInt8
  readFails : Bool
  deriving DecidableEq, Repr

inductive ReplyBody where
  | empty
  /-- `http.Error` -/
  | text (text : String)
  /-- `jsonRet` of the keys `ret` and `msg` -/
  | jsonRet (ret : ℤ) (msg : String)
  deriving DecidableEq, Repr

structure Reply where
  status : ℕ
  body : ReplyBody
  deriving DecidableEq, Repr

/-- A handler that returns without writing, or that flushes. -/
def emptyReply : Reply := ⟨200, .empty⟩

def jsonRetFail (errCode : ℤ) (msg : String) : Reply := ⟨200, .jsonRet errCode msg⟩

def jsonRetSucc : Reply := ⟨200, .jsonRet 0 "OK"⟩

/-- `/push` answers by the status alone, the console handlers by `ret`. -/
def Reply.Success (reply : Reply) : Route → Prop
  | .push => reply.status = 200
  | _ => reply = jsonRetSucc

/-- What the goroutine of a request is to do. -/
inductive Job where
  /-- `hrooms.broadcast_Q <- body` -/
  | enqueue (body : List UInt8)
  /-- `hrooms.broadcast_rooms` -/
  | broadcastRooms (roomIds : List String) (brMsg : List UInt8)
  /-- `hrooms.broadcast_peers` -/
  | broadcastPeers (peerIds : List String) (brMsg : List UInt8)
  deriving DecidableEq, Repr

structure Outcome where
  reply : Reply
  job : Option Job
  deriving DecidableEq, Repr

/-! ## Bodies -/

/-- `range_br_msg`. -/
structure RangeBrMsg where
  fromRoom : ℤ
  toRoom : ℤ
  msg : String
  deriving DecidableEq, Repr

/-- `set_br_msg`. -/
structure SetBrMsg where
  fromRooms : String
  msg : String
  deriving DecidableEq, Repr

/-- `peers_br_msg`. -/
structure PeersBrMsg where
  peers : String
  msg : String
  deriving DecidableEq, Repr

/-- What the handlers use of other packages: whether an address may send requests, and the struct
that `json.Unmarshal` fills, with whether it returns no error. -/
structure HttpEnv where
  checkClientIpf : String → Bool
  checkConsoleIpf : String → Bool
  unmarshalRange : List UInt8 → RangeBrMsg × Bool
  unmarshalSet : List UInt8 → SetBrMsg × Bool
  unmarshalPeers : List UInt8 → PeersBrMsg × Bool

/-- `unicode.IsSpace`. -/
def isSpace (c : Char) : Bool :=
  c.toNat ∈ [0x09, 0x0a, 0x0b, 0x0c, 0x0d, 0x20, 0x85, 0xa0, 0x1680, 0x2028, 0x2029, 0x202f, 0x205f,
    0x3000] ∨ 0x2000 ≤ c.toNat ∧ c.toNat ≤ 0x200a

/-- `strings.TrimSpace`. -/
def trimSpace (s : String) : String :=
  String.ofList ((s.toList.dropWhile isSpace).reverse.dropWhile isSpace).reverse

/-- `[]byte(s)`. -/
def bytesOf (s : String) : List UInt8 := s.toUTF8.toList

/-- What `for i := st; i <= et; i++` collects, if it ends. -/
def rangeRoomIds (st et : ℤ) : List String :=
  (List.range (et - st + 1).toNat).map fun k => "room_" ++ toString (st + k)

/-- The rooms named in a list with commas. -/
def setRoomIds (rooms : String) : List String :=
  (rooms.splitOn ",").map fun v => trimSpace ("room_" ++ v)

/-- The peers named in a list with commas. -/
def splitPeerIds (peers : String) : List String := (peers.splitOn ",").map trimSpace

/-- An error of `json.Unmarshal` leaves the ids empty; the message is what has been filled in. -/
def rangeJob (env : HttpEnv) (body : List UInt8) : Job :=
  let (dat, ok) := env.unmarshalRange body
  .broadcastRooms (if ok then rangeRoomIds dat.fromRoom dat.toRoom else []) (bytesOf dat.msg)

def setJob (env : HttpEnv) (body : List UInt8) : Job :=
  let (dat, ok) := env.unmarshalSet body
  .broadcastRooms (if ok then setRoomIds dat.fromRooms else []) (bytesOf dat.msg)

def peersJob (env : HttpEnv) (body : List UInt8) : Job :=
  let (dat, ok) := env.unmarshalPeers body
  .broadcastPeers (if ok then splitPeerIds dat.peers else []) (bytesOf dat.msg)

/-! ## Handlers -/

/-- `httpHandler`, which is routed for `/push`. An error of `ReadAll` is only printed. -/
def httpHandler (env : HttpEnv) (req : HttpRequest) : Outcome :=
  if ¬ env.checkClientIpf req.remoteAddr then
    ⟨⟨909, .text (req.remoteAddr ++ " is not allow to access skytime")⟩, none⟩
  else if ¬ req.flusher then
    ⟨⟨500, .text "Streaming not supported!"⟩, none⟩
  else ⟨emptyReply, some (.enqueue req.body)⟩

/-- The common part of the console handlers. -/
def apiBroadcast (env : HttpEnv) (job : List UInt8 → Job) (req : HttpRequest) : Outcome :=
  if ¬ env.checkConsoleIpf req.remoteAddr then ⟨emptyReply, none⟩
  else if req.readFails then ⟨jsonRetFail 400 "Read Body failed", none⟩
  else ⟨jsonRetSucc, some (job req.body)⟩

def apiBroadcastAll (env : HttpEnv) : HttpRequest → Outcome := apiBroadcast env .enqueue

def apiBroadcastRange (env : HttpEnv) : HttpRequest → Outcome := apiBroadcast env (rangeJob env)

def apiBroadcastSet (env : HttpEnv) : HttpRequest → Outcome := apiBroadcast env (setJob env)

def apiBroadcastPeers (env : HttpEnv) : HttpRequest → Outcome := apiBroadcast env (peersJob env)

/-- The handler of a route. -/
def Route.handle (env : HttpEnv) : Route → HttpRequest → Outcome
  | .push => httpHandler env
  | .broadcastAll => apiBroadcastAll env
  | .broadcastRange => apiBroadcastRange env
  | .broadcastSet => apiBroadcastSet env
  | .broadcastPeers => apiBroadcastPeers env

/-- The body cannot be read completely, or `json.Unmarshal` rejects it. -/
def Route.BadBody (env : HttpEnv) (e : Route) (req : HttpRequest) : Prop :=
  req.readFails = true ∨
    match e with
    | .push | .broadcastAll => False
    | .broadcastRange => (env.unmarshalRange req.body).2 = false
    | .broadcastSet => (env.unmarshalSet req.body).2 = false
    | .broadcastPeers => (env.unmarshalPeers req.body).2 = false

/-! ## What a job does -/

/-- Capacity of `hub_rooms.broadcast_Q`. -/
def broadcastQCap : ℕ := 40960

/-- The server with the queue of whole-server broadcasts. -/
structure Server where
  hrooms : HubRooms
  broadcastQ : Chan (List UInt8) broadcastQCap

/-- The step is one of broadcast call `i`. -/
def RoomsAction.OfCall (i : ℕ) : RoomsAction → Prop
  | .acquire j _ | .push j | .lookup j | .sendPeer j | .finish j _ => j = i
  | _ => False

/-- The server after some steps of a new call for `req` alone. -/
def Server.Calls (d : Deployment) (s : Server) (req : Request) (t : Server) : Prop :=
  ∃ i as l, (∀ a ∈ as, RoomsAction.OfCall i a) ∧
    (hubRooms d).execFrom s.hrooms (.start i req :: as) = some (t.hrooms, l) ∧
    t.broadcastQ = s.broadcastQ

/-- The server after some steps of a job. -/
def Job.Leads (d : Deployment) (s : Server) : Job → Server → Prop
  | .enqueue body, t => ∃ ch, s.broadcastQ.send body = .sent ch ∧ t = { s with broadcastQ := ch }
  | .broadcastRooms roomIds brMsg, t => s.Calls d (.rooms roomIds brMsg) t
  | .broadcastPeers peerIds brMsg, t => s.Calls d (.peers peerIds brMsg) t

/-- No message has been queued and no message id has been consumed. -/
structure Server.Unchanged (s t : Server) : Prop where
  broadcastQ : t.broadcastQ = s.broadcastQ
  stats : t.hrooms.stats = s.hrooms.stats
  msgStats : t.hrooms.msgStats = s.hrooms.msgStats
  rooms : ∀ r, (t.hrooms.rooms r).broadcast = (s.hrooms.rooms r).broadcast
  send : t.hrooms.send = s.hrooms.send

/-- The request changes nothing, wherever its goroutine runs, and does not report success. -/
def FailsCleanly (d : Deployment) (e : Route) (outcome : Outcome) : Prop :=
  (∀ job, outcome.job = some job → ∀ s t, job.Leads d s t → s.Unchanged t) ∧
    ¬ outcome.reply.Success e

/-- The server at its start. -/
def freshServer (d : Deployment) : Server := ⟨(hubRooms d).init, Chan.make⟩

/-- A new call takes the token and a message id, whatever it is asked to send. -/
theorem Server.exists_calls (d : Deployment) (req : Request) (horder : req.VisitOrder d []) :
    ∃ t, (freshServer d).Calls d req t ∧ t.hrooms.stats.totalMsgCnt = 1 := by
  have hacquire : ∃ u, (hubRooms d).step ((hubRooms d).init.setCall 0 (.waiting req))
      (.acquire 0 []) = some (u, []) ∧ u.stats.totalMsgCnt = 1 := by
    simp [hubRooms, HubRooms.step, HubRooms.stepRunning, HubRooms.acquire, HubRooms.setCall,
      horder]
  obtain ⟨u, hacquire, hcnt⟩ := hacquire
  have hexec : (hubRooms d).execFrom (hubRooms d).init [.start 0 req, .acquire 0 []] =
      some (u, []) :=
    (hubRooms d).execFrom_cons_iff.mpr ⟨_, [], [], rfl,
      (hubRooms d).execFrom_cons_iff.mpr ⟨u, [], [], hacquire, rfl, rfl⟩, rfl⟩
  refine ⟨⟨u, Chan.make⟩, ⟨0, [.acquire 0 []], [], ?_, hexec, rfl⟩, hcnt⟩
  intro a ha
  obtain rfl := List.mem_singleton.mp ha
  rfl

/-- Every job can change something. -/
theorem Job.exists_changed (d : Deployment) (job : Job) :
    ∃ t, job.Leads d (freshServer d) t ∧ ¬ (freshServer d).Unchanged t := by
  -- a call for rooms or peers consumes an id
  have hcall : ∀ req : Request, req.VisitOrder d [] →
      ∃ t, (freshServer d).Calls d req t ∧ ¬ (freshServer d).Unchanged t := by
    intro req horder
    obtain ⟨t, ht, hcnt⟩ := Server.exists_calls d req horder
    refine ⟨t, ht, fun hsame => ?_⟩
    have hzero : t.hrooms.stats.totalMsgCnt = 0 := congrArg HubRoomStat.totalMsgCnt hsame.stats
    omega
  cases job with
  | enqueue body =>
      have hroom : ¬ (Chan.make : Chan (List UInt8) broadcastQCap).Full := by decide
      obtain ⟨ch, hch⟩ := Chan.exists_send_eq_sent body Chan.make_closed hroom
      refine ⟨_, ⟨ch, hch, rfl⟩, fun hsame => ?_⟩
      have hbuf : ch.buf = [body] := (Chan.send_eq_sent_iff.mp hch).2.2.1
      have hnil : ch.buf = [] := congrArg Chan.buf hsame.broadcastQ
      exact absurd (hbuf.symm.trans hnil) (by simp)
  | broadcastRooms roomIds brMsg => exact hcall (.rooms roomIds brMsg) trivial
  | broadcastPeers peerIds brMsg => exact hcall (.peers peerIds brMsg) trivial

/-! ## Which bad requests fail cleanly -/

/-- The request does not get as far as its job: an address filter rejects it, or `/push` cannot
flush, or a console handler cannot read its body. -/
def Route.TurnedAway (env : HttpEnv) (e : Route) (req : HttpRequest) : Prop :=
  match e with
  | .push => env.checkClientIpf req.remoteAddr = false ∨ req.flusher = false
  | _ => env.checkConsoleIpf req.remoteAddr = false ∨ req.readFails = true

/-- A handler sets a job going and reports success, or does neither. -/
theorem handle_cases (env : HttpEnv) (e : Route) (req : HttpRequest) :
    (e.TurnedAway env req ∧ (e.handle env req).job = none ∧
      ¬ (e.handle env req).reply.Success e) ∨
    (¬ e.TurnedAway env req ∧ (∃ job, (e.handle env req).job = some job) ∧
      (e.handle env req).reply.Success e) := by
  -- the console handlers differ in their jobs only
  have hconsole : ∀ job : List UInt8 → Job,
      ((env.checkConsoleIpf req.remoteAddr = false ∨ req.readFails = true) ∧
        (apiBroadcast env job req).job = none ∧
        (apiBroadcast env job req).reply ≠ jsonRetSucc) ∨
      (¬ (env.checkConsoleIpf req.remoteAddr = false ∨ req.readFails = true) ∧
        (∃ j, (apiBroadcast env job req).job = some j) ∧
        (apiBroadcast env job req).reply = jsonRetSucc) := by
    intro job
    cases hipf : env.checkConsoleIpf req.remoteAddr <;> cases hread : req.readFails <;>
      simp [apiBroadcast, hipf, hread, emptyReply, jsonRetFail, jsonRetSucc]
  cases e with
  | push =>
      cases hipf : env.checkClientIpf req.remoteAddr <;> cases hflush : req.flusher <;>
        simp [Route.TurnedAway, Route.handle, httpHandler, Reply.Success, emptyReply, hipf,
          hflush]
  | broadcastAll => exact hconsole _
  | broadcastRange => exact hconsole _
  | broadcastSet => exact hconsole _
  | broadcastPeers => exact hconsole _

/-- A request fails without a trace exactly when it is turned away before its job. -/
theorem failsCleanly_iff (d : Deployment) (env : HttpEnv) (e : Route) (req : HttpRequest) :
    FailsCleanly d e (e.handle env req) ↔ e.TurnedAway env req := by
  rcases handle_cases env e req with ⟨haway, hnone, hreply⟩ | ⟨hnot, ⟨job, hjob⟩, hreply⟩
  · refine iff_of_true ⟨fun job hjob => ?_, hreply⟩ haway
    exact absurd (hnone.symm.trans hjob) (by simp)
  · refine iff_of_false (fun hclean => ?_) hnot
    obtain ⟨t, ht, hchanged⟩ := job.exists_changed d
    exact hchanged (hclean.1 job hjob _ t ht)

/-- **That a bad body leaves no trace and is not reported as a success holds of a request exactly
when a bad body makes its handler turn it away.** -/
theorem badBody_failsCleanly_iff (d : Deployment) (env : HttpEnv) (e : Route)
    (req : HttpRequest) :
    (e.BadBody env req → FailsCleanly d e (e.handle env req)) ↔
      (e.BadBody env req → e.TurnedAway env req) := by
  rw [failsCleanly_iff]

/-- Any bad body of `/api/broadcast_all` leaves no trace. -/
theorem broadcastAll_failsCleanly (d : Deployment) {env : HttpEnv} {req : HttpRequest}
    (hbad : Route.BadBody env .broadcastAll req) :
    FailsCleanly d .broadcastAll (apiBroadcastAll env req) := by
  apply (failsCleanly_iff d env .broadcastAll req).mpr
  rcases hbad with hread | hfalse
  · exact .inr hread
  · exact absurd hfalse id

/-! ## Two bad requests that succeed -/

/-- Anybody may send requests, with the body `wrongTypeBody`: the key `from` does not hold the
number that a range needs, but its message has been filled in when `json.Unmarshal` returns the
error. -/
def openEnv : HttpEnv where
  checkClientIpf := fun _ => true
  checkConsoleIpf := fun _ => true
  unmarshalRange := fun _ => (⟨0, 0, "hi"⟩, false)
  unmarshalSet := fun _ => (⟨"x", "hi"⟩, true)
  unmarshalPeers := fun _ => (⟨"", ""⟩, true)

/-- `{"from":"x","msg":"hi"}`. -/
def wrongTypeBody : List UInt8 :=
  [0x7b, 0x22, 0x66, 0x72, 0x6f, 0x6d, 0x22, 0x3a, 0x22, 0x78, 0x22, 0x2c, 0x22, 0x6d, 0x73, 0x67,
    0x22, 0x3a, 0x22, 0x68, 0x69, 0x22, 0x7d]

/-- `/push` with a body that breaks off after one byte queues that byte, and a range broadcast whose
JSON is rejected consumes a message id; both report success. -/
theorem badBodies_succeed :
    (Route.BadBody openEnv .push ⟨"10.0.0.1:4711", true, [0x68], true⟩ ∧
      (httpHandler openEnv ⟨"10.0.0.1:4711", true, [0x68], true⟩).job = some (.enqueue [0x68]) ∧
      ¬ FailsCleanly oneRoom .push
        (httpHandler openEnv ⟨"10.0.0.1:4711", true, [0x68], true⟩)) ∧
    Route.BadBody openEnv .broadcastRange ⟨"10.0.0.1:4711", true, wrongTypeBody, false⟩ ∧
      (apiBroadcastRange openEnv ⟨"10.0.0.1:4711", true, wrongTypeBody, false⟩).job =
        some (.broadcastRooms [] (bytesOf "hi")) ∧
      ¬ FailsCleanly oneRoom .broadcastRange
        (apiBroadcastRange openEnv ⟨"10.0.0.1:4711", true, wrongTypeBody, false⟩) := by
  refine ⟨⟨.inl rfl, rfl, fun hclean => ?_⟩, .inr rfl, rfl, fun hclean => ?_⟩
  · exact hclean.2 rfl
  · obtain ⟨t, ht, hchanged⟩ := Job.exists_changed oneRoom (.broadcastRooms [] (bytesOf "hi"))
    exact hchanged (hclean.1 _ rfl _ t ht)

end Skytime
