/-
# Skytime.Rooms.Detect — the pass that reports every connected peer to the application server.

`xheartbeat` calls `cron_detect_all_peers` at intervals and ignores what it returns. The pass goes
through the rooms in the order of their ids and through the connections of each in any order, and
posts `client_online` for one peer at a time. The first post that fails ends the whole pass, so the
peers that it has not come to are not reported.
-/
import Skytime.Rooms.Partition

namespace Skytime

open Process

/-! ## One post -/

/-- What becomes of the request of one `callApi`. -/
inductive ApiReply where
  /-- `http.NewRequest` returns an error -/
  | noRequest
  /-- `client.Do` returns an error -/
  | noResponse
  /-- `ioutil.ReadAll` returns an error -/
  | unread
  | response (statusCode : ℕ) (body : List UInt8)
  deriving DecidableEq, Repr

inductive ApiError where
  /-- `api path must starts with /` -/
  | apiPath
  | newRequest
  | clientDo
  | readAll
  | unmarshal
  /-- `http status code %d, %s` -/
  | status (statusCode : ℕ) (body : List UInt8)
  deriving DecidableEq, Repr

/-- `callApi`; `unmarshal` says which bodies `json.Unmarshal` accepts. The parameters of all calls
are structures that can be marshalled. -/
def callApi (unmarshal : List UInt8 → Bool) (apiPath : String) : ApiReply → Option ApiError
  | reply =>
    if apiPath.toList.head? ≠ some '/' then some .apiPath
    else
      match reply with
      | .noRequest => some .newRequest
      | .noResponse => some .clientDo
      | .unread => some .readAll
      | .response statusCode body =>
        if statusCode = 200 then if unmarshal body then none else some .unmarshal
        else some (.status statusCode body)

/-! ## The pass -/

/-- What a pass has done: the peers it has posted, in order, and the error it has returned. -/
structure Pass where
  posts : List String
  err : Option ApiError
  deriving DecidableEq, Repr

section Pass

-- `call n` is the outcome of post number `n` of the pass
variable (call : ℕ → Option ApiError)

/-- `for _, c := range room.connections`. -/
def detectRoom : List Connection → List String → Pass
  | [], posts => ⟨posts, none⟩
  | c :: conns, posts =>
    match call posts.length with
    | some e => ⟨posts ++ [c.peerId], some e⟩
    | none => detectRoom conns (posts ++ [c.peerId])

/-- `for _, v := range hr.rooms_ids`, with the connections of each room. -/
def detectRooms : List (List Connection) → List String → Pass
  | [], posts => ⟨posts, none⟩
  | conns :: rooms, posts =>
    match detectRoom call conns posts with
    | ⟨posts, some e⟩ => ⟨posts, some e⟩
    | ⟨posts, none⟩ => detectRooms rooms posts

end Pass

/-- The connections of a room in the order of `range room.connections`. -/
def HubRooms.connsOf (s : HubRooms) (room : String) (order : List String) : List Connection :=
  order.filterMap fun k => (s.rooms room).connections.lookup k

/-- `cron_detect_all_peers`, over rooms that do not change; `order` gives the order in which each
map is iterated. -/
def HubRooms.cronDetectAllPeers (d : Deployment) (s : HubRooms) (order : String → List String)
    (unmarshal : List UInt8 → Bool) (reply : ℕ → ApiReply) : Pass :=
  detectRooms (fun n => callApi unmarshal "/api/client_online.json" (reply n))
    (d.roomsIds.map fun room => s.connsOf room (order room)) []

/-! ## How far a pass gets -/

section Pass

variable (call : ℕ → Option ApiError)

/-- The rooms make no difference: the pass is one loop over all connections. -/
theorem detectRooms_eq (rooms : List (List Connection)) (posts : List String) :
    detectRooms call rooms posts = detectRoom call rooms.flatten posts := by
  have happend : ∀ (conns rest : List Connection) (posts : List String),
      detectRoom call (conns ++ rest) posts =
        match detectRoom call conns posts with
        | ⟨posts, some e⟩ => ⟨posts, some e⟩
        | ⟨posts, none⟩ => detectRoom call rest posts := by
    intro conns rest
    induction conns with
    | nil => exact fun _ => rfl
    | cons c conns ih =>
        intro posts
        rw [List.cons_append, detectRoom, detectRoom]
        cases call posts.length with
        | some e => rfl
        | none => exact ih _
  induction rooms generalizing posts with
  | nil => rfl
  | cons conns rooms ih =>
      rw [List.flatten_cons, happend, detectRooms]
      split
      · rfl
      · exact ih _

/-- The posts of a loop are those made before it, and after them those for a first part of its
connections. -/
theorem detectRoom_prefix (conns : List Connection) (posts : List String) :
    ∃ k, k ≤ conns.length ∧
      (detectRoom call conns posts).posts = posts ++ (conns.map Connection.peerId).take k := by
  induction conns generalizing posts with
  | nil => exact ⟨0, Nat.le_refl _, (List.append_nil _).symm⟩
  | cons c conns ih =>
      rw [detectRoom]
      cases call posts.length with
      | some e => exact ⟨1, by simp, by simp⟩
      | none =>
          obtain ⟨k, hk, hposts⟩ := ih (posts ++ [c.peerId])
          refine ⟨k + 1, by simpa using hk, ?_⟩
          show (detectRoom call conns (posts ++ [c.peerId])).posts = _
          rw [hposts, List.map_cons, List.take_succ_cons, List.append_assoc]
          rfl

/-- A loop comes to all its connections exactly when no post fails, but perhaps the last. -/
theorem detectRoom_posts_iff (conns : List Connection) (posts : List String) :
    (detectRoom call conns posts).posts = posts ++ conns.map Connection.peerId ↔
      ∀ n, n + 1 < conns.length → call (posts.length + n) = none := by
  induction conns generalizing posts with
  | nil => simp [detectRoom]
  | cons c conns ih =>
      rw [detectRoom]
      cases hcall : call posts.length with
      | some e =>
          -- the loop ends here
          show posts ++ [c.peerId] = _ ↔ _
          rw [List.map_cons, List.append_cancel_left_eq, List.cons.injEq]
          constructor
          · rintro ⟨-, hnil⟩ n hn
            have hlen : conns.length = 0 := by
              rw [← List.length_map (f := Connection.peerId), ← hnil]
              rfl
            rw [List.length_cons] at hn
            omega
          · intro hall
            have hlen : ¬ 0 + 1 < (c :: conns).length := by
              intro hlt
              exact absurd ((hall 0 hlt).symm.trans hcall) (by simp)
            rw [List.length_cons] at hlen
            have hnil : conns = [] := List.length_eq_zero_iff.mp (by omega)
            exact ⟨rfl, by rw [hnil]; rfl⟩
      | none =>
          show (detectRoom call conns (posts ++ [c.peerId])).posts = _ ↔ _
          have hassoc : posts ++ (c :: conns).map Connection.peerId =
              (posts ++ [c.peerId]) ++ conns.map Connection.peerId := by simp
          rw [hassoc, ih, List.length_append, List.length_singleton, List.length_cons]
          constructor
          · intro hall n hn
            cases n with
            | zero => exact hcall
            | succ n =>
                have h := hall n (by omega)
                rwa [Nat.add_assoc, Nat.add_comm 1] at h
          · intro hall n hn
            have h := hall (n + 1) (by omega)
            rwa [Nat.add_comm n, ← Nat.add_assoc] at h

end Pass

/-! ## All connected peers -/

namespace HubRooms

variable {d : Deployment} {s : HubRooms} {order : String → List String}

/-- The ids of the connections of a room are its keys. -/
theorem map_peerId_connsOf (hok : s.RoomsOk d) {room : String} {keys : List String}
    (hkeys : (s.rooms room).connections.Range keys) :
    (s.connsOf room keys).map Connection.peerId = keys := by
  have hkey : ∀ k ∈ keys,
      ((s.rooms room).connections.lookup k).map Connection.peerId = some k := by
    intro k hk
    obtain ⟨c, hc⟩ := hkeys.mem_iff.mp hk
    rw [hc]
    exact congrArg some ((hok.sound room).peer hc)
  unfold connsOf
  rw [List.map_filterMap, List.filterMap_congr hkey, List.filterMap_some]

/-- The connected peers, in the order in which a pass comes to them. -/
def peersInOrder (d : Deployment) (order : String → List String) : List String :=
  d.roomsIds.flatMap order

section InOrder

variable (hok : s.RoomsOk d)
  (horder : ∀ room ∈ d.roomsIds, (s.rooms room).connections.Range (order room))

include hok horder

theorem nodup_peersInOrder (hnodup : d.roomsIds.Nodup) : (peersInOrder d order).Nodup := by
  refine List.nodup_flatMap.mpr ⟨fun room hroom => (horder room hroom).nodup, ?_⟩
  refine List.Pairwise.imp_of_mem ?_ hnodup
  intro room room' hroom hroom' hne k hk hk'
  obtain ⟨c, hc⟩ := (horder room hroom).mem_iff.mp hk
  obtain ⟨c', hc'⟩ := (horder room' hroom').mem_iff.mp hk'
  exact hne (hok.partitioned.one_room hc hc')

theorem mem_peersInOrder {p : String} : p ∈ peersInOrder d order ↔ s.peerIsOnline d p = true := by
  rw [hok.partitioned.online_iff, peersInOrder, List.mem_flatMap]
  refine exists_congr fun room => and_congr_right fun hroom => ?_
  exact (horder room hroom).mem_iff

omit hok in
theorem length_peersInOrder : (peersInOrder d order).length =
    (d.roomsIds.map fun room => (s.rooms room).connections.len).sum := by
  have hlen : ∀ room ∈ d.roomsIds, (order room).length = (s.rooms room).connections.len := by
    intro room hroom
    have hkeys := congrArg Multiset.card (horder room hroom)
    rwa [Multiset.coe_card] at hkeys
  rw [peersInOrder, List.length_flatMap, List.map_congr_left hlen]

theorem map_peerId_conns :
    (d.roomsIds.map fun room => s.connsOf room (order room)).flatten.map Connection.peerId =
      peersInOrder d order := by
  rw [List.map_flatten, List.map_map, peersInOrder, ← List.flatMap_def]
  apply List.flatMap_congr
  intro room hroom
  exact map_peerId_connsOf hok (horder room hroom)

/-- A pass reports every connected peer once exactly when no post fails before the last one. -/
theorem detects_all_iff (hnodup : d.roomsIds.Nodup) (unmarshal : List UInt8 → Bool)
    (reply : ℕ → ApiReply) :
    (∀ p, s.peerIsOnline d p = true →
      (s.cronDetectAllPeers d order unmarshal reply).posts.count p = 1) ↔
    ∀ n, n + 1 < (d.roomsIds.map fun room => (s.rooms room).connections.len).sum →
      callApi unmarshal "/api/client_online.json" (reply n) = none := by
  have hpeers := nodup_peersInOrder hok horder hnodup
  have hconns := map_peerId_conns hok horder
  have hlen := congrArg List.length hconns
  rw [List.length_map, length_peersInOrder horder] at hlen
  have hiff := detectRoom_posts_iff
    (fun n => callApi unmarshal "/api/client_online.json" (reply n))
    (d.roomsIds.map fun room => s.connsOf room (order room)).flatten []
  simp only [← detectRooms_eq, hconns, hlen, List.length_nil, Nat.zero_add, List.nil_append] at hiff
  refine Iff.trans ?_ hiff
  show _ ↔ (s.cronDetectAllPeers d order unmarshal reply).posts = _
  obtain ⟨k, -, hprefix⟩ := detectRoom_prefix
    (fun n => callApi unmarshal "/api/client_online.json" (reply n))
    (d.roomsIds.map fun room => s.connsOf room (order room)).flatten []
  rw [← detectRooms_eq, hconns, List.nil_append] at hprefix
  constructor
  · intro hall
    -- a peer that the pass has not come to would not have been posted
    have hle : (peersInOrder d order).length ≤ k := by
      by_contra hlt
      rw [Nat.not_le] at hlt
      have hmem : (peersInOrder d order)[k] ∈ (peersInOrder d order).take k := by
        have hcount := hall _ ((mem_peersInOrder hok horder).mp (List.getElem_mem hlt))
        rw [cronDetectAllPeers, hprefix] at hcount
        exact List.count_pos_iff.mp (by omega)
      obtain ⟨i, hi, heq⟩ := List.mem_take_iff_getElem.mp hmem
      have hik := (List.Nodup.getElem_inj_iff hpeers).mp heq
      omega
    exact hprefix.trans (List.take_of_length_le hle)
  · intro hposts p hp
    rw [hposts]
    exact List.count_eq_one_of_mem hpeers ((mem_peersInOrder hok horder).mpr hp)

end InOrder

end HubRooms

/-- **In every reachable state, whatever the iteration orders of the maps, a pass posts every
connected peer exactly once if and only if no post fails, except perhaps the one that would be the
last.** -/
theorem detectAllPeers_iff (config : Config) (hash : ConsistentHash) (maxConnLimit : ℤ)
    (r : (hubRooms (config.deployment hash maxConnLimit)).Run) {order : String → List String}
    (horder : ∀ room ∈ config.run.roomsIds, (r.last.rooms room).connections.Range (order room))
    (unmarshal : List UInt8 → Bool) (reply : ℕ → ApiReply) :
    (∀ p, r.last.peerIsOnline (config.deployment hash maxConnLimit) p = true →
      (r.last.cronDetectAllPeers (config.deployment hash maxConnLimit) order unmarshal
        reply).posts.count p = 1) ↔
    ∀ n, n + 1 < (config.run.roomsIds.map fun room => (r.last.rooms room).connections.len).sum →
      callApi unmarshal "/api/client_online.json" (reply n) = none := by
  have hok := (HubRooms.inv_of_exec r.exec_eq).rooms
  have hnodup := nodup_roomsIds config
  rw [← deployment_roomsIds config hash maxConnLimit] at horder hnodup ⊢
  exact HubRooms.detects_all_iff hok horder hnodup unmarshal reply

/-! ## A post that fails before another one -/

/-- A configuration that leaves everything at its default. -/
def defaults : Config := ⟨.absent, .absent, .absent, .absent⟩

/-- Two peers connect. -/
def twoPeers : (hubRooms (defaults.deployment default 100000)).Run :=
  .ofActs (connect ⟨0, "a"⟩ ++ connect ⟨1, "b"⟩) (by decide +kernel)

/-- Both are in the first room, and `"a"` is visited first. -/
def firstRoomOrder (room : String) : List String := if room = "room_0" then ["a", "b"] else []

/-- The application server refuses the first connection and accepts everything after it. -/
def firstRefused : ℕ → ApiReply
  | 0 => .noResponse
  | _ => .response 200 []

/-- The post for the first peer fails, and the second peer is not reported. -/
theorem firstRefused_hides_second :
    (∀ room ∈ defaults.run.roomsIds,
      (twoPeers.last.rooms room).connections.Range (firstRoomOrder room)) ∧
    twoPeers.last.peerIsOnline (defaults.deployment default 100000) "b" = true ∧
    twoPeers.last.cronDetectAllPeers (defaults.deployment default 100000) firstRoomOrder
      (fun _ => true) firstRefused = ⟨["a"], some .clientDo⟩ := by
  decide +kernel

/-- It refuses the second connection only. -/
def lastRefused (n : ℕ) : ApiReply := if n = 1 then .noResponse else .response 200 []

/-- A failure of the last post hides nobody. -/
theorem lastRefused_reports :
    (twoPeers.last.cronDetectAllPeers (defaults.deployment default 100000) firstRoomOrder
        (fun _ => true) lastRefused).posts.count "a" = 1 ∧
      (twoPeers.last.cronDetectAllPeers (defaults.deployment default 100000) firstRoomOrder
        (fun _ => true) lastRefused).posts.count "b" = 1 := by
  have horder : ∀ room ∈ defaults.run.roomsIds,
      (twoPeers.last.rooms room).connections.Range (firstRoomOrder room) := by decide +kernel
  have hsum : (defaults.run.roomsIds.map fun room =>
      (twoPeers.last.rooms room).connections.len).sum = 2 := by decide +kernel
  have hall := (detectAllPeers_iff defaults default 100000 twoPeers horder (fun _ => true)
    lastRefused).mpr fun n hn => by
      obtain rfl : n = 0 := by omega
      rfl
  exact ⟨hall "a" (by decide +kernel), hall "b" (by decide +kernel)⟩

end Skytime
