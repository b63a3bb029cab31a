/-
# Skytime.Rooms.Partition — every peer has one room, and the lookups by peer id find it there.

`hub_rooms.run` makes the rooms and adds them to the hash circle before anything else happens, and
nothing changes the circle afterwards, so `get_room_id` is one function of the peer id. A
connection is registered in the room of its peer and nowhere else. The lookups by peer id look in
that room only: one of them returns the connection, one says whether there is one, and one goes
through a list and returns the peers that it finds, joined by commas.
-/
import Mathlib.Algebra.GroupWithZero.Nat
import Skytime.Process.Text
import Skytime.Rooms.Invariant
import Skytime.Rooms.Startup

namespace Skytime

open Process

/-! ## The rooms of a configuration -/

/-- What is used of the consistent-hash package: on a circle with members, `Get` returns one of
them, and the same one whenever it is asked for the same name. -/
structure ConsistentHash where
  get : List String → String → String
  get_mem : ∀ {members}, members ≠ [] → ∀ name, get members name ∈ members

/-- A circle that answers with its first member. -/
instance : Inhabited ConsistentHash :=
  ⟨⟨fun members _ => members.headD "", fun {members} h _ => by
    obtain ⟨m, ms, rfl⟩ := List.exists_cons_of_ne_nil h
    exact List.mem_cons_self⟩⟩

/-- There are at least ten rooms and at most a hundred, whatever the configuration says. -/
theorem roomLimit_bounds (field : ConfigField) :
    10 ≤ (roomLimit field).toInt ∧ (roomLimit field).toInt ≤ 100 := by
  have hmax : maxRoomNum.toInt = 100 := by decide
  have hreserved : reservedRoomNum.toInt = 10 := by decide
  simp only [roomLimit]
  split
  · split
    · rw [hreserved]
      omega
    · rw [hmax]
      omega
  · split
    · rw [hreserved]
      omega
    · rename_i hle hge
      rw [gt_iff_lt, Int64.lt_iff_toInt_lt, hmax] at hle
      rw [Int64.lt_iff_toInt_lt, hreserved] at hge
      omega

theorem length_roomsIds (config : Config) :
    (config.run.roomsIds.length : ℤ) = (roomLimit config.maxRoomLimit).toInt := by
  have h := roomLimit_bounds config.maxRoomLimit
  simp only [Config.run, roomIdsBelow, List.length_map, List.length_range, Int64.toNatClampNeg]
  omega

theorem roomsIds_ne_nil (config : Config) : config.run.roomsIds ≠ [] := by
  intro hnil
  have hlen := length_roomsIds config
  have h := roomLimit_bounds config.maxRoomLimit
  rw [hnil, List.length_nil] at hlen
  omega

theorem nodup_roomsIds (config : Config) : config.run.roomsIds.Nodup := by
  apply List.Nodup.map ?_ List.nodup_range
  intro i j h
  exact room_inj h

/-- The server that is started with a configuration: the rooms are the members of the circle. -/
def Config.deployment (config : Config) (hash : ConsistentHash) (maxConnLimit : ℤ) :
    Deployment where
  roomsIds := config.run.roomsIds
  getRoomId := hash.get config.run.roomsIds
  getRoomId_mem := hash.get_mem (roomsIds_ne_nil config)
  maxConnLimit := maxConnLimit

theorem deployment_roomsIds (config : Config) (hash : ConsistentHash) (maxConnLimit : ℤ) :
    (config.deployment hash maxConnLimit).roomsIds = config.run.roomsIds := rfl

/-! ## Lookups by peer id -/

variable (d : Deployment)

/-- `get_connection_by_peer_id`. -/
def HubRooms.getConnectionByPeerId (s : HubRooms) (peerId : String) : Option Connection :=
  (s.rooms (d.getRoomId peerId)).connections.lookup peerId

/-- `peer_is_online`. -/
def HubRooms.peerIsOnline (s : HubRooms) (peerId : String) : Bool :=
  match (s.rooms (d.getRoomId peerId)).connections.lookup peerId with
  | some _ => true
  | none => false

/-- The buffer of `peers_is_online`, with a comma after every peer that is found. -/
def HubRooms.onlineBuffer (s : HubRooms) (peerIds : List String) : String :=
  peerIds.foldl (fun buf peerId =>
    match (s.rooms (d.getRoomId peerId)).connections.lookup peerId with
    | some _ => buf ++ (peerId ++ ",")
    | none => buf) ""

/-- `peers_is_online`. A buffer of up to 32 bytes is not returned. -/
def HubRooms.peersIsOnline (s : HubRooms) (peerIds : List String) : String :=
  let buf := s.onlineBuffer d peerIds
  if buf.utf8ByteSize > 32 then trimSuffix buf "," else ""

/-! ## One room for every peer -/

/-- Every entry stands under the peer id of its connection in the room of this peer, and the lookups
find exactly what stands in some room. -/
structure HubRooms.Partitioned (s : HubRooms) : Prop where
  entry : ∀ {r k c}, (s.rooms r).connections.lookup k = some c → c.peerId = k ∧ d.getRoomId k = r
  one_room : ∀ {r r' k c c'}, (s.rooms r).connections.lookup k = some c →
    (s.rooms r').connections.lookup k = some c' → r = r'
  hits : ∀ k, d.getRoomId k ∈ d.roomsIds
  get_iff : ∀ k c, s.getConnectionByPeerId d k = some c ↔
    ∃ r ∈ d.roomsIds, (s.rooms r).connections.lookup k = some c
  online_iff : ∀ k, s.peerIsOnline d k = true ↔
    ∃ r ∈ d.roomsIds, ∃ c, (s.rooms r).connections.lookup k = some c

variable {d} {s : HubRooms}

theorem HubRooms.peerIsOnline_iff {k : String} :
    s.peerIsOnline d k = true ↔ ∃ c, s.getConnectionByPeerId d k = some c := by
  unfold HubRooms.peerIsOnline HubRooms.getConnectionByPeerId
  split
  · rename_i c hc
    exact iff_of_true rfl ⟨c, hc⟩
  · rename_i hnone
    simp [hnone]

theorem HubRooms.RoomsOk.partitioned (h : s.RoomsOk d) : s.Partitioned d := by
  have hentry : ∀ {r k c}, (s.rooms r).connections.lookup k = some c →
      c.peerId = k ∧ d.getRoomId k = r := by
    intro r k c hk
    have hpeer : c.peerId = k := (h.sound r).peer hk
    exact ⟨hpeer, hpeer ▸ h.home hk⟩
  have hget : ∀ k c, s.getConnectionByPeerId d k = some c ↔
      ∃ r ∈ d.roomsIds, (s.rooms r).connections.lookup k = some c := by
    intro k c
    constructor
    · exact fun hk => ⟨d.getRoomId k, d.getRoomId_mem k, hk⟩
    · rintro ⟨r, -, hk⟩
      rw [← (hentry hk).2] at hk
      exact hk
  refine ⟨hentry, ?_, d.getRoomId_mem, hget, fun k => ?_⟩
  · intro r r' k c c' hk hk'
    rw [← (hentry hk).2, ← (hentry hk').2]
  · rw [HubRooms.peerIsOnline_iff]
    constructor
    · rintro ⟨c, hc⟩
      obtain ⟨r, hr, hk⟩ := (hget k c).mp hc
      exact ⟨r, hr, c, hk⟩
    · rintro ⟨r, hr, c, hk⟩
      exact ⟨c, (hget k c).mpr ⟨r, hr, hk⟩⟩

/-- **With any configuration and any consistent hash, in every reachable state a peer is listed in
its own room only, and the lookups by peer id find it exactly when some room lists it.** -/
theorem always_partitioned (config : Config) (hash : ConsistentHash) (maxConnLimit : ℤ)
    (r : (hubRooms (config.deployment hash maxConnLimit)).Run) :
    r.Always fun s _ => s.Partitioned (config.deployment hash maxConnLimit) := by
  intro as _ s l hexec
  exact (HubRooms.inv_of_exec hexec).rooms.partitioned

/-! ## The batch query -/

/-- The buffer holds the peers that are online, in the order of the request. -/
theorem HubRooms.onlineBuffer_eq (peerIds : List String) :
    s.onlineBuffer d peerIds =
      String.join ((peerIds.filter (s.peerIsOnline d)).map (· ++ ",")) := by
  have hfold : ∀ buf, peerIds.foldl (fun buf peerId =>
      match (s.rooms (d.getRoomId peerId)).connections.lookup peerId with
      | some _ => buf ++ (peerId ++ ",")
      | none => buf) buf =
        buf ++ String.join ((peerIds.filter (s.peerIsOnline d)).map (· ++ ",")) := by
    induction peerIds with
    | nil => simp
    | cons p peerIds ih =>
        intro buf
        rw [List.foldl_cons, ih, List.filter_cons]
        unfold HubRooms.peerIsOnline
        split
        · simp [String.append_assoc]
        · simp
  rw [HubRooms.onlineBuffer, hfold, String.empty_append]

/-- The bytes of a list with a comma after each member. -/
theorem utf8ByteSize_join_comma (l : List String) :
    (String.join (l.map (· ++ ","))).utf8ByteSize = (l.map fun p => p.utf8ByteSize + 1).sum := by
  have hcomma : (",").utf8ByteSize = 1 := by decide
  induction l with
  | nil => rfl
  | cons p l ih =>
      rw [List.map_cons, String.join_cons, String.utf8ByteSize_append, String.utf8ByteSize_append,
        ih, hcomma, List.map_cons, List.sum_cons]

/-- **`peers_is_online` returns the peers of the list that are online, joined by commas, exactly
when none is or when their ids with a comma after each have more than 32 bytes.** -/
theorem peersIsOnline_iff (d : Deployment) (s : HubRooms) {peerIds : List String}
    (hids : ∀ p ∈ peerIds, p ≠ "") :
    s.peersIsOnline d peerIds = (",").intercalate (peerIds.filter (s.peerIsOnline d)) ↔
      (∀ p ∈ peerIds, s.peerIsOnline d p = false) ∨
        32 < ((peerIds.filter (s.peerIsOnline d)).map fun p => p.utf8ByteSize + 1).sum := by
  have hids' : ∀ p ∈ peerIds.filter (s.peerIsOnline d), p ≠ "" :=
    fun p hp => hids p (List.mem_filter.mp hp).1
  have hnone : (∀ p ∈ peerIds, s.peerIsOnline d p = false) ↔
      peerIds.filter (s.peerIsOnline d) = [] := by
    rw [List.filter_eq_nil_iff]
    simp
  rw [hnone, HubRooms.peersIsOnline, HubRooms.onlineBuffer_eq]
  generalize peerIds.filter (s.peerIsOnline d) = online at hids' ⊢
  simp only [utf8ByteSize_join_comma, gt_iff_lt]
  cases online with
  | nil => simp
  | cons p online =>
      have hne : p :: online ≠ [] := List.cons_ne_nil _ _
      split
      · rename_i hlong
        rw [join_map_append "," hne, trimSuffix_append]
        exact iff_of_true rfl (.inr hlong)
      · rename_i hshort
        refine iff_of_false (fun heq => ?_) (not_or.mpr ⟨hne, hshort⟩)
        -- a joined list that starts with a peer is not empty
        have hp : p ≠ "" := hids' p List.mem_cons_self
        cases online with
        | nil =>
            rw [String.intercalate_singleton] at heq
            exact hp heq.symm
        | cons q online =>
            rw [String.intercalate_cons_cons] at heq
            simp [hp] at heq

/-- A server with one peer, whose id has one byte. -/
def shortPeer : (hubRooms oneRoom).Run := .ofActs (connect ⟨0, "a"⟩) (by decide +kernel)

/-- The peer is online, but the batch query does not name it. -/
theorem shortPeer_missing :
    shortPeer.last.peerIsOnline oneRoom "a" = true ∧
      shortPeer.last.peersIsOnline oneRoom ["a"] = "" ∧
      shortPeer.last.peersIsOnline oneRoom ["a"] ≠
        (",").intercalate (["a"].filter (shortPeer.last.peerIsOnline oneRoom)) := by
  decide +kernel

/-- The query for a peer that is not connected. -/
theorem absentPeer_query :
    (∀ p ∈ ["b"], p ≠ "") ∧
      shortPeer.last.peersIsOnline oneRoom ["b"] =
        (",").intercalate (["b"].filter (shortPeer.last.peerIsOnline oneRoom)) := by
  have hids : ∀ p ∈ ["b"], p ≠ "" := by decide
  exact ⟨hids, (peersIsOnline_iff oneRoom shortPeer.last hids).mpr (.inl (by decide +kernel))⟩

end Skytime
