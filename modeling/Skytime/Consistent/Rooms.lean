/-
# Skytime.Consistent.Rooms — the rooms on the circle.

`hub_rooms.run` adds the rooms to a new circle one after the other, and `get_room_id` asks the
circle. Points may fall together here: a room that is added takes the point over, so nothing is
asked of the hash. When the server is started with another number of rooms, a peer stays in its room
or its room under one of the configurations is none that the other one has.
-/
import Skytime.Consistent.Circle
import Skytime.Rooms.Partition

namespace Skytime

open Process

namespace Consistent

variable {c : Consistent} {replicas : ℕ+} {elt name e : String}

/-- A new member answers, or the one that answered before. -/
theorem answers_add (h : (c.add elt).Answers name e) :
    e = elt ∨ c.Answers name e := by
  obtain ⟨x, hx, hlook⟩ := h
  rw [lookup_add] at hlook
  split_ifs at hlook with hpoint
  · exact .inl (Option.some.inj hlook).symm
  · right
    refine ⟨x, hx.of_subset ?_ (Finmap.mem_iff.mpr ⟨e, hlook⟩), hlook⟩
    intro y hy
    obtain ⟨e', he'⟩ := Finmap.mem_iff.mp hy
    show y ∈ (c.add elt).circle
    rw [Finmap.mem_iff, lookup_add]
    split_ifs
    · exact ⟨elt, rfl⟩
    · exact ⟨e', he'⟩

theorem inv_foldl_add (hc : Inv replicas c) (l : List String) :
    Inv replicas (l.foldl Consistent.add c) :=
  List.foldlRecOn _ _ hc fun _ hd elt _ => hd.add elt

theorem answers_foldl_add (l : List String)
    (h : (l.foldl Consistent.add c).Answers name e) : e ∈ l ∨ c.Answers name e := by
  induction l generalizing c with
  | nil => exact .inr h
  | cons elt l ih =>
      rcases ih h with hmem | hanswer
      · exact .inl (List.mem_cons_of_mem elt hmem)
      · rcases answers_add hanswer with rfl | hanswer
        · exact .inl List.mem_cons_self
        · exact .inr hanswer

theorem mem_members_foldl_add (l : List String) :
    e ∈ (l.foldl Consistent.add c).members ↔ e ∈ l ∨ e ∈ c.members := by
  induction l generalizing c with
  | nil => simp
  | cons elt l ih =>
      rw [List.foldl_cons, ih, mem_members_add, List.mem_cons]
      tauto

/-- A circle to which a member has been added is not empty. -/
theorem circle_add_ne_empty (c : Consistent) (elt : String) : (c.add elt).circle ≠ ∅ := by
  intro hempty
  have hlook : (c.add elt).circle.lookup (point elt 0) = some elt := by
    rw [lookup_add, if_pos]
    exact List.mem_map.mpr ⟨0, List.mem_range.mpr c.numberOfReplicas.pos, rfl⟩
  rw [hempty, Finmap.lookup_empty] at hlook
  exact absurd hlook (by simp)

/-- The circle that `hub_rooms.run` makes. -/
def ofRooms (roomsIds : List String) : Consistent := roomsIds.foldl Consistent.add Consistent.new

theorem inv_new : Inv 20 new := hashCircle_init 20

/-- `get_room_id`; where `Get` returns an error the room id is empty. -/
def getRoomId (c : Consistent) (peerId : String) : String :=
  match c.get peerId with
  | .ok (some roomId) => roomId
  | _ => ""

/-- A circle with rooms has an answer to every peer id. -/
theorem answers_getRoomId {roomsIds : List String} (hne : roomsIds ≠ []) (peerId : String) :
    (ofRooms roomsIds).Answers peerId ((ofRooms roomsIds).getRoomId peerId) := by
  have hinv : Inv 20 (ofRooms roomsIds) := inv_foldl_add inv_new roomsIds
  rcases hinv.get_cases peerId with ⟨hempty, -⟩ | ⟨e, -, hanswer, hget⟩
  · obtain ⟨l, elt, rfl⟩ := (List.eq_nil_or_concat roomsIds).resolve_left hne
    rw [ofRooms, List.concat_eq_append, List.foldl_append] at hempty
    exact absurd hempty (circle_add_ne_empty _ elt)
  · rw [getRoomId, hget]
    exact hanswer

theorem getRoomId_mem {roomsIds : List String} (hne : roomsIds ≠ []) (peerId : String) :
    (ofRooms roomsIds).getRoomId peerId ∈ roomsIds := by
  rcases answers_foldl_add roomsIds (answers_getRoomId hne peerId) with hmem | hnew
  · exact hmem
  · obtain ⟨h, -, hlook⟩ := hnew
    exact absurd hlook (by simp [new])

/-- Rooms that are added take peers over, and no other peer moves. -/
theorem getRoomId_append {l : List String} (hne : l ≠ []) (k : List String) (peerId : String) :
    (ofRooms (l ++ k)).getRoomId peerId ∈ k ∨
      (ofRooms (l ++ k)).getRoomId peerId = (ofRooms l).getRoomId peerId := by
  have hall : l ++ k ≠ [] := List.append_ne_nil_of_left_ne_nil hne k
  have hanswer := answers_getRoomId hall peerId
  rw [ofRooms, List.foldl_append] at hanswer
  rcases answers_foldl_add k hanswer with hmem | hold
  · left
    rwa [ofRooms, List.foldl_append]
  · right
    rw [ofRooms, List.foldl_append]
    exact hold.unique (answers_getRoomId hne peerId)

end Consistent

/-- The package `consistent`, as far as the server uses it. -/
def consistent : ConsistentHash where
  get roomsIds peerId := (Consistent.ofRooms roomsIds).getRoomId peerId
  get_mem := Consistent.getRoomId_mem

theorem roomIdsBelow_add (m n : ℕ) : roomIdsBelow (m + n) =
    roomIdsBelow m ++ (List.range n).map fun i => "room_" ++ toString (m + i) := by
  rw [roomIdsBelow, roomIdsBelow, List.range_add, List.map_append, List.map_map]
  rfl

/-- With more rooms, a peer stays where it is or goes to a new room. -/
theorem getRoomId_below {m n : ℕ} (hpos : 0 < m) (hle : m ≤ n) (peerId : String) :
    (Consistent.ofRooms (roomIdsBelow n)).getRoomId peerId =
        (Consistent.ofRooms (roomIdsBelow m)).getRoomId peerId ∨
      (Consistent.ofRooms (roomIdsBelow n)).getRoomId peerId ∉ roomIdsBelow m := by
  obtain ⟨k, rfl⟩ := Nat.exists_eq_add_of_le hle
  have hne : roomIdsBelow m ≠ [] := by
    rw [← List.length_pos_iff, roomIdsBelow, List.length_map, List.length_range]
    exact hpos
  rw [roomIdsBelow_add]
  refine (Consistent.getRoomId_append hne _ peerId).symm.imp id fun hnew hold => ?_
  obtain ⟨i, -, hi⟩ := List.mem_map.mp hnew
  obtain ⟨j, hj, hji⟩ := List.mem_map.mp hold
  have heq := room_inj (hji.trans hi.symm)
  rw [List.mem_range] at hj
  omega

/-- The number of rooms. -/
def Config.roomCount (config : Config) : ℕ := (roomLimit config.maxRoomLimit).toNatClampNeg

theorem Config.roomCount_pos (config : Config) : 0 < config.roomCount := by
  have h := roomLimit_bounds config.maxRoomLimit
  rw [Config.roomCount, Int64.toNatClampNeg]
  omega

theorem Config.run_roomsIds (config : Config) :
    config.run.roomsIds = roomIdsBelow config.roomCount := by
  rw [Config.run, Config.roomCount]

theorem consistent_get (roomsIds : List String) (peerId : String) :
    consistent.get roomsIds peerId = (Consistent.ofRooms roomsIds).getRoomId peerId := by
  rw [consistent]

theorem deployment_getRoomId (config : Config) (maxConnLimit : ℤ) (peerId : String) :
    (config.deployment consistent maxConnLimit).getRoomId peerId =
      (Consistent.ofRooms (roomIdsBelow config.roomCount)).getRoomId peerId := by
  simp only [Config.deployment, consistent_get, Config.run_roomsIds]

/-- **Whatever two configurations the server is started with, a peer has the same room under both,
unless one of its rooms is none of the other configuration's.** -/
theorem getRoomId_agree (config config' : Config) (maxConnLimit : ℤ) (peerId : String) :
    (config.deployment consistent maxConnLimit).getRoomId peerId =
        (config'.deployment consistent maxConnLimit).getRoomId peerId ∨
      (config.deployment consistent maxConnLimit).getRoomId peerId ∉ config'.run.roomsIds ∨
      (config'.deployment consistent maxConnLimit).getRoomId peerId ∉ config.run.roomsIds := by
  rw [deployment_getRoomId, deployment_getRoomId, Config.run_roomsIds, Config.run_roomsIds]
  rcases Nat.le_total config.roomCount config'.roomCount with hle | hle
  · rcases getRoomId_below config.roomCount_pos hle peerId with hsame | hnew
    · exact .inl hsame.symm
    · exact .inr (.inr hnew)
  · rcases getRoomId_below config'.roomCount_pos hle peerId with hsame | hnew
    · exact .inl hsame
    · exact .inr (.inl hnew)

end Skytime
