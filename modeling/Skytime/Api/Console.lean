/-
# Skytime.Api.Console — the handlers under `/api/` and the address filter in front of them.

Every handler has to call `check_console_ipf` itself before it looks at the server. What a handler
shows to a rejected address is stated over two servers with the same filter: the reply must be the
same, and the request must leave no trace. `json.Marshal` is not modelled: a reply is the value that
is marshalled. What the filter uses of the package `net` is a parameter.
-/
import Skytime.Api.Requests
import Skytime.Rooms.Partition

namespace Skytime

open Process

/-! ## The filter -/

/-- What the filter uses of the package `net`. -/
structure NetLib where
  IP : Type
  IPNet : Type
  parseIP : String → Option IP
  contains : IPNet → IP → Bool
  equal : IP → IP → Bool

structure IPFilter (net : NetLib) where
  ipnets : List net.IPNet
  ips : List net.IP

variable {net : NetLib}

def IPFilter.filterIP (f : IPFilter net) (ip : net.IP) : Bool :=
  f.ipnets.any (net.contains · ip) || f.ips.any (net.equal · ip)

def IPFilter.filterIPString (f : IPFilter net) (s : String) : Bool :=
  match net.parseIP s with
  | none => false
  | some ip => f.filterIP ip

/-- The runtime errors that end a handler. -/
inductive HandlerPanic where
  | sliceBounds
  | nilPointer
  deriving DecidableEq, Repr

/-- `s[:strings.LastIndex(s, c)]`; without `c` the slice is out of bounds. -/
def beforeLast (c : Char) (s : String) : Option String :=
  match s.toList.reverse.dropWhile (· ≠ c) with
  | [] => none
  | _ :: rest => some (String.ofList rest.reverse)

/-- `s[strings.LastIndex(s, c)+1:]`. -/
def afterLast (c : Char) (s : String) : String :=
  String.ofList (s.toList.reverse.takeWhile (· ≠ c)).reverse

/-- `console_ip_limit` and `console_ipf`. -/
structure ConsoleFilter (net : NetLib) where
  consoleIpLimit : String
  consoleIpf : IPFilter net

def ConsoleFilter.checkConsoleIpf (f : ConsoleFilter net) (remoteAddr : String) :
    Except HandlerPanic Bool :=
  if f.consoleIpLimit = "0.0.0.0" then .ok true
  else
    match beforeLast ':' remoteAddr with
    | none => .error .sliceBounds
    | some remotePeerIp => .ok (f.consoleIpf.filterIPString remotePeerIp)

/-! ## What the handlers see and reply -/

/-- What `apiOverview` asks the runtime for. -/
structure Runtime where
  numCPU : ℕ
  numGoroutine : ℕ
  version : String
  pid : ℕ
  deriving DecidableEq, Repr

/-- The process, as far as a handler can see it. -/
structure Console (net : NetLib) where
  filter : ConsoleFilter net
  deployment : Deployment
  server : Server
  /-- `c.ws.RemoteAddr().String()` -/
  remoteAddr : Connection → String
  runtime : Runtime
  /-- `time.Since(StartTime).String()` -/
  uptime : String

structure ConsoleRequest extends HttpRequest where
  path : String
  /-- the first write of the response fails -/
  writeFails : Bool
  deriving DecidableEq, Repr

/-- The handlers' use of `json.Unmarshal`, with that of `apiPeersIsOnline`. -/
structure ConsoleEnv extends HttpEnv where
  unmarshalOnline : List UInt8 → String × Bool

structure Overview where
  product : String
  hubRoomCnt : ℕ
  onlinePeerCnt : ℤ
  totalBrMsgCnt : ℕ
  totalBrMsgSize : ℕ
  brMsgAvgTime : ℕ
  ops : ℕ
  runtime : Runtime
  deriving DecidableEq, Repr

structure PeerInfo where
  peerId : String
  peerAddr : String
  peerStatus : String
  deriving DecidableEq, Repr

structure Room where
  roomId : String
  peerNum : ℕ
  deriving DecidableEq, Repr

inductive ConsoleBody where
  | plain (body : ReplyBody)
  | heartbeat (status build uptime : String)
  | overview (info : Overview)
  | rooms (rooms : List Room)
  | peers (peers : List PeerInfo)
  | isOnline (peers : String)
  deriving DecidableEq, Repr

structure ConsoleOutcome where
  status : ℕ
  body : ConsoleBody
  job : Option Job
  deriving DecidableEq, Repr

def Outcome.toConsole (o : Outcome) : ConsoleOutcome := ⟨o.reply.status, .plain o.reply.body, o.job⟩

/-- A handler that returns without writing. -/
def silent : ConsoleOutcome := ⟨200, .plain .empty, none⟩

/-! ## The handlers -/

namespace Console

variable (s : Console net) (env : ConsoleEnv) (req : ConsoleRequest)

/-- The check at the beginning of a handler that goes on with `k`. -/
def guarded (k : Except HandlerPanic ConsoleOutcome) : Except HandlerPanic ConsoleOutcome :=
  match s.filter.checkConsoleIpf req.remoteAddr with
  | .error e => .error e
  | .ok isOk => if ¬ isOk then .ok silent else k

/-- `hrooms.stats`. -/
def stats : HubRoomStat := s.server.hrooms.stats

def overview : Overview where
  product := "SkyTime"
  hubRoomCnt := s.deployment.roomsIds.length
  onlinePeerCnt := s.stats.totalPeerCnt
  totalBrMsgCnt := s.stats.totalMsgCnt
  totalBrMsgSize := s.stats.totalMsgSize
  brMsgAvgTime :=
    if s.stats.totalMsgCnt > 0 then s.stats.totalConsumeTime / s.stats.totalMsgCnt else 0
  ops :=
    if s.stats.totalMsgCnt > 0 ∧ s.stats.totalConsumeTime > 1000 then
      s.stats.totalMsgCnt / (s.stats.totalConsumeTime / 1000)
    else 0
  runtime := s.runtime

/-- The only handler that reads the server and calls no check. -/
def apiOverview : Except HandlerPanic ConsoleOutcome := .ok ⟨200, .overview s.overview, none⟩

/-- A room that does not exist is a nil pointer; `order` is the order of `range h.connections`. -/
def apiRoomview (order : List String) : Except HandlerPanic ConsoleOutcome :=
  s.guarded req
    (let roomId := afterLast '/' req.path
    if roomId ∈ s.deployment.roomsIds then
      .ok ⟨200, .peers (order.filterMap fun k =>
        ((s.server.hrooms.rooms roomId).connections.lookup k).map fun c =>
          ⟨c.peerId, s.remoteAddr c, "online"⟩), none⟩
    else .error .nilPointer)

def apiGetServerGroup : Except HandlerPanic ConsoleOutcome :=
  s.guarded req (.ok ⟨200, .rooms (s.deployment.roomsIds.map fun v =>
    ⟨v, (s.server.hrooms.rooms v).connections.len⟩), none⟩)

def apiPeersIsOnline : Except HandlerPanic ConsoleOutcome :=
  s.guarded req
    (if req.readFails then .ok (Outcome.toConsole ⟨jsonRetFail 400 "Read Body failed", none⟩)
    else
      let (peers, ok) := env.unmarshalOnline req.body
      .ok ⟨200, .isOnline (s.server.hrooms.peersIsOnline s.deployment
        (if ok then splitPeerIds peers else [])), none⟩)

def apiHeartbeat : Except HandlerPanic ConsoleOutcome :=
  s.guarded req
    (if req.writeFails then .ok ⟨200, .heartbeat "stopping" "OOM SkyTime" s.uptime, none⟩
    else .ok ⟨200, .heartbeat "running" "Hello SkyTime" s.uptime, none⟩)

/-- A broadcast handler with the filter of this server. -/
def apiBroadcast (handler : HttpEnv → HttpRequest → Outcome) :
    Except HandlerPanic ConsoleOutcome :=
  match s.filter.checkConsoleIpf req.remoteAddr with
  | .error e => .error e
  | .ok isOk =>
    .ok (handler { env.toHttpEnv with checkConsoleIpf := fun _ => isOk }
      req.toHttpRequest).toConsole

end Console

/-- The routes of `main` under `/api/`. -/
inductive ConsoleRoute where
  | heartbeat
  | overview
  | serverRooms
  | broadcastAll
  | broadcastRange
  | broadcastSet
  | broadcastPeers
  | room
  | peersIsOnline
  | syncBroadcastPeers
  deriving DecidableEq, Repr

def ConsoleRoute.handle (env : ConsoleEnv) (s : Console net) (req : ConsoleRequest)
    (order : List String) : ConsoleRoute → Except HandlerPanic ConsoleOutcome
  | .heartbeat => s.apiHeartbeat req
  | .overview => s.apiOverview
  | .serverRooms => s.apiGetServerGroup req
  | .broadcastAll => s.apiBroadcast env req apiBroadcastAll
  | .broadcastRange => s.apiBroadcast env req apiBroadcastRange
  | .broadcastSet => s.apiBroadcast env req apiBroadcastSet
  | .broadcastPeers => s.apiBroadcast env req apiBroadcastPeers
  | .room => s.apiRoomview req order
  | .peersIsOnline => s.apiPeersIsOnline env req
  -- `apiSyncBroadcastPeers` has no body
  | .syncBroadcastPeers => .ok silent

/-- The server after a request: a handler assigns nothing, but the goroutine of its job may have
taken some steps. -/
def Console.Serves (s : Console net) (outcome : ConsoleOutcome) (t : Console net) : Prop :=
  t = s ∨ ∃ job server, outcome.job = some job ∧ job.Leads s.deployment s.server server ∧
    t = { s with server := server }

/-! ## Rejected addresses -/

/-- A request from a rejected address gets the same reply from any two servers with the same filter,
in whatever order they list their peers, and leaves a server as it is. -/
def NonInterfering (net : NetLib) (env : ConsoleEnv) (route : ConsoleRoute) : Prop :=
  ∀ (s s' : Console net) (req : ConsoleRequest), s.filter = s'.filter →
    s.filter.checkConsoleIpf req.remoteAddr = .ok false → ∀ order order',
      route.handle env s req order = route.handle env s' req order' ∧
        ∀ outcome t, route.handle env s req order = .ok outcome → s.Serves outcome t → t = s

theorem Console.guarded_of_rejected {s : Console net} {req : ConsoleRequest}
    {k : Except HandlerPanic ConsoleOutcome}
    (h : s.filter.checkConsoleIpf req.remoteAddr = .ok false) : s.guarded req k = .ok silent := by
  simp [Console.guarded, h]

theorem Console.apiBroadcast_of_rejected {s : Console net} {env : ConsoleEnv}
    {req : ConsoleRequest} (job : HttpEnv → List UInt8 → Job)
    (h : s.filter.checkConsoleIpf req.remoteAddr = .ok false) :
    s.apiBroadcast env req (fun e => Skytime.apiBroadcast e (job e)) = .ok silent := by
  simp [Console.apiBroadcast, h, Skytime.apiBroadcast, Outcome.toConsole, emptyReply, silent]

/-- Every handler but one turns a rejected address away without a word. -/
theorem ConsoleRoute.handle_of_rejected {route : ConsoleRoute} (hroute : route ≠ .overview)
    {env : ConsoleEnv} {s : Console net} {req : ConsoleRequest} (order : List String)
    (h : s.filter.checkConsoleIpf req.remoteAddr = .ok false) :
    route.handle env s req order = .ok silent := by
  cases route with
  | overview => exact absurd rfl hroute
  | heartbeat | serverRooms | room | peersIsOnline => exact Console.guarded_of_rejected h
  | broadcastAll => exact Console.apiBroadcast_of_rejected (fun _ => .enqueue) h
  | broadcastRange => exact Console.apiBroadcast_of_rejected rangeJob h
  | broadcastSet => exact Console.apiBroadcast_of_rejected setJob h
  | broadcastPeers => exact Console.apiBroadcast_of_rejected peersJob h
  | syncBroadcastPeers => rfl

/-! ## The handler without a check -/

/-- A process with the given filter and rooms. -/
def consoleOf (filter : ConsoleFilter net) (hrooms : HubRooms) : Console net where
  filter := filter
  deployment := oneRoom
  server := ⟨hrooms, Chan.make⟩
  remoteAddr := fun _ => "10.0.0.2:5000"
  runtime := ⟨4, 20, "go1.5", 4242⟩
  uptime := "1h0m0s"

/-- The server after its first broadcast has taken a message id. -/
def firstBroadcast : (hubRooms oneRoom).Run :=
  .ofActs [.start 0 (.all []), .acquire 0 ["room_0"]] (by decide +kernel)

def overviewRequest : ConsoleRequest := ⟨⟨"10.0.0.1:4711", true, [], false⟩, "/api/overview", false⟩

/-- The overview tells two servers apart that have counted different numbers of messages. -/
theorem overview_ne (filter : ConsoleFilter net) :
    (consoleOf filter (hubRooms oneRoom).init).apiOverview ≠
      (consoleOf filter firstBroadcast.last).apiOverview := by
  intro h
  have hbody := congrArg ConsoleOutcome.body (Except.ok.inj h)
  have hcnt := congrArg Overview.totalBrMsgCnt (ConsoleBody.overview.inj hbody)
  have hzero : (consoleOf filter (hubRooms oneRoom).init).overview.totalBrMsgCnt = 0 := rfl
  have hone : (consoleOf filter firstBroadcast.last).overview.totalBrMsgCnt = 1 := by
    show firstBroadcast.last.stats.totalMsgCnt = 1
    decide +kernel
  omega

/-- An empty filter rejects an address, whatever the package `net` makes of it. -/
theorem rejected_of_empty :
    (⟨"127.0.0.1", ⟨[], []⟩⟩ : ConsoleFilter net).checkConsoleIpf overviewRequest.remoteAddr =
      .ok false := by
  have haddr : beforeLast ':' overviewRequest.remoteAddr = some "10.0.0.1" := by decide
  simp only [ConsoleFilter.checkConsoleIpf, haddr, IPFilter.filterIPString, IPFilter.filterIP,
    List.any_nil, Bool.or_false]
  rw [if_neg (by decide)]
  split <;> rfl

/-- **Of the handlers under `/api/`, those that show a rejected address nothing of the server and
leave it unchanged are all but `apiOverview`.** -/
theorem nonInterfering_iff (net : NetLib) (env : ConsoleEnv) (route : ConsoleRoute) :
    NonInterfering net env route ↔ route ≠ .overview := by
  constructor
  · rintro h rfl
    exact overview_ne _ (h (consoleOf ⟨"127.0.0.1", ⟨[], []⟩⟩ (hubRooms oneRoom).init)
      (consoleOf ⟨"127.0.0.1", ⟨[], []⟩⟩ firstBroadcast.last) overviewRequest rfl
      rejected_of_empty [] []).1
  · intro hroute s s' req hfilter hrejected order order'
    have hs : route.handle env s req order = .ok silent :=
      ConsoleRoute.handle_of_rejected hroute order hrejected
    have hs' : route.handle env s' req order' = .ok silent :=
      ConsoleRoute.handle_of_rejected hroute order' (hfilter ▸ hrejected)
    refine ⟨hs.trans hs'.symm, fun outcome t hout hserves => ?_⟩
    obtain rfl := Except.ok.inj (hs.symm.trans hout)
    rcases hserves with rfl | ⟨job, server, hjob, -⟩
    · rfl
    · exact absurd hjob (by simp [silent])

/-! ## A rejected address that reads the counters -/

/-- The package `net`, for two addresses. -/
def twoAddresses : NetLib where
  IP := List ℕ
  IPNet := Empty
  parseIP := fun s =>
    if s = "127.0.0.1" then some [127, 0, 0, 1]
    else if s = "10.0.0.1" then some [10, 0, 0, 1]
    else none
  contains := fun item _ => nomatch item
  equal := fun ip ip' => ip == ip'

/-- The console is open to the local address only. -/
def localOnly : ConsoleFilter twoAddresses := ⟨"127.0.0.1", ⟨[], [[127, 0, 0, 1]]⟩⟩

/-- A rejected address learns from `/api/overview` whether the server has sent a message. -/
theorem rejected_overview :
    localOnly.checkConsoleIpf "10.0.0.1:4711" = .ok false ∧
      (consoleOf localOnly (hubRooms oneRoom).init).overview.totalBrMsgCnt = 0 ∧
      (consoleOf localOnly firstBroadcast.last).overview.totalBrMsgCnt = 1 ∧
      ∀ env, ¬ NonInterfering twoAddresses env .overview := by
  have hrejected : localOnly.checkConsoleIpf "10.0.0.1:4711" = .ok false := by
    have haddr : beforeLast ':' "10.0.0.1:4711" = some "10.0.0.1" := by decide
    simp only [ConsoleFilter.checkConsoleIpf, haddr]
    decide
  refine ⟨hrejected, rfl, ?_, fun env h => ?_⟩
  · show firstBroadcast.last.stats.totalMsgCnt = 1
    decide +kernel
  · exact overview_ne localOnly (h (consoleOf localOnly (hubRooms oneRoom).init)
      (consoleOf localOnly firstBroadcast.last) overviewRequest rfl hrejected [] []).1

end Skytime
