/-
# Skytime.Api.RoomLists — the two ways to name rooms in a broadcast: a range and a set.

`apiBroadcastRange` counts from one bound to the other in machine integers and writes each number;
`apiBroadcastSet` cuts a text at its commas and trims each piece, with the prefix `room_` already in
front of it. Both hand the ids to `broadcast_rooms`, which skips those that name no room.
-/
import Mathlib.Data.List.Nodup
import Skytime.Api.Requests
import Skytime.Process.Text
import Skytime.Rooms.Pushes
import Skytime.Rooms.Startup

namespace Skytime

open Process

/-! ## Ranges -/

/-- `for i := st; i <= et; i++`, where `i` is a 64-bit integer that wraps; `none` when the loop has
not ended within `fuel` tests of its condition. -/
def rangeLoop : ℕ → Int64 → Int64 → List String → Option (List String)
  | 0, _, _, _ => none
  | fuel + 1, i, et, roomIds =>
    if i ≤ et then rangeLoop fuel (i + 1) et (roomIds ++ ["room_" ++ toString i.toInt])
    else some roomIds

theorem rangeRoomIds_eq_map (st et : ℤ) :
    rangeRoomIds st et =
      (List.range (et - st + 1).toNat).map fun k : ℕ => "room_" ++ toString (st + (k : ℤ)) := by
  simp only [rangeRoomIds, List.bind_eq_flatMap, List.pure_def, List.map_flatMap, List.map_cons,
    List.map_nil]
  exact List.map_eq_flatMap.symm

theorem mem_rangeRoomIds {st et : ℤ} {roomId : String} :
    roomId ∈ rangeRoomIds st et ↔ ∃ i, st ≤ i ∧ i ≤ et ∧ roomId = "room_" ++ toString i := by
  simp only [rangeRoomIds_eq_map, List.mem_map, List.mem_range]
  constructor
  · rintro ⟨k, hk, rfl⟩
    exact ⟨st + k, by omega, by omega, rfl⟩
  · rintro ⟨i, hst, het, rfl⟩
    refine ⟨(i - st).toNat, by omega, ?_⟩
    rw [show st + ((i - st).toNat : ℤ) = i by omega]

/-- No room is listed twice. -/
theorem nodup_rangeRoomIds (st et : ℤ) : (rangeRoomIds st et).Nodup := by
  rw [rangeRoomIds_eq_map]
  apply List.Nodup.map_on ?_ List.nodup_range
  intro j _ k _ h
  have hint := int_toString_inj.mp ((String.append_right_inj "room_").mp h)
  omega

theorem rangeRoomIds_of_lt {st et : ℤ} (h : et < st) : rangeRoomIds st et = [] := by
  rw [rangeRoomIds, show (et - st + 1).toNat = 0 by omega]
  rfl

theorem rangeRoomIds_of_le {st et : ℤ} (h : st ≤ et) :
    rangeRoomIds st et = ("room_" ++ toString st) :: rangeRoomIds (st + 1) et := by
  rw [rangeRoomIds_eq_map, rangeRoomIds_eq_map,
    show (et - st + 1).toNat = (et - (st + 1) + 1).toNat + 1 by omega, List.range_succ_eq_map,
    List.map_cons, List.map_map]
  congr 1
  · simp
  · apply List.map_congr_left
    intro k _
    rw [Function.comp_apply, show st + ((k.succ : ℕ) : ℤ) = st + 1 + k by omega]

/-- Below the greatest integer the loop ends, and it has collected the rooms of the range. -/
theorem rangeLoop_eq {et : Int64} (het : et ≠ Int64.maxValue) {fuel : ℕ} {i : Int64}
    (hfuel : (et.toInt - i.toInt + 1).toNat < fuel) (roomIds : List String) :
    rangeLoop fuel i et roomIds = some (roomIds ++ rangeRoomIds i.toInt et.toInt) := by
  induction fuel generalizing i roomIds with
  | zero => omega
  | succ fuel ih =>
      unfold rangeLoop
      split
      · rename_i hle
        rw [Int64.le_iff_toInt_le] at hle
        -- there is an integer above `i`, so the counter does not wrap
        have hlt : et.toInt < 2 ^ 63 - 1 := by
          have hmax := et.toInt_lt
          have hne : et.toInt ≠ 2 ^ 63 - 1 :=
            fun h => het (Int64.toInt_inj.mp (h.trans Int64.toInt_maxValue.symm))
          omega
        have hi := i.le_toInt
        have hnext : (i + 1).toInt = i.toInt + 1 := by
          rw [Int64.toInt_add, Int64.toInt_one, Int.bmod_eq_of_le] <;> omega
        rw [ih (by omega), hnext, rangeRoomIds_of_le hle, List.append_assoc]
        rfl
      · rename_i hlt
        rw [Int64.le_iff_toInt_le] at hlt
        rw [rangeRoomIds_of_lt (by omega), List.append_nil]

/-- Up to the greatest integer the loop has no end, since no integer is greater. -/
theorem rangeLoop_maxValue (fuel : ℕ) (i : Int64) (roomIds : List String) :
    rangeLoop fuel i Int64.maxValue roomIds = none := by
  induction fuel generalizing i roomIds with
  | zero => rfl
  | succ fuel ih =>
      unfold rangeLoop
      rw [if_pos (Int64.le_iff_toInt_le.mpr i.toInt_le)]
      exact ih _ _

/-! ## What a range reaches -/

theorem mem_existing {d : Deployment} {roomIds : List String} {r : String} :
    r ∈ d.existing roomIds ↔ r ∈ roomIds ∧ r ∈ d.roomsIds := by
  simp [Deployment.existing, List.mem_filter]

/-- The rooms of a range that exist. -/
theorem mem_existing_range {d : Deployment} {N : ℕ} (hd : d.roomsIds = roomIdsBelow N) {st et : ℤ}
    {r : String} : r ∈ d.existing (rangeRoomIds st et) ↔
      ∃ i : ℕ, i < N ∧ st ≤ i ∧ i ≤ et ∧ r = "room_" ++ toString i := by
  rw [mem_existing, mem_rangeRoomIds, hd, roomIdsBelow]
  simp only [List.mem_map, List.mem_range]
  constructor
  · rintro ⟨⟨i, hst, het, rfl⟩, j, hj, heq⟩
    obtain rfl : (j : ℤ) = i := int_toString_inj.mp ((String.append_right_inj "room_").mp heq)
    exact ⟨j, hj, hst, het, rfl⟩
  · rintro ⟨i, hi, hst, het, rfl⟩
    exact ⟨⟨i, hst, het, rfl⟩, i, hi, rfl⟩

/-- The loop over the range ends, and a call of `broadcast_rooms` for the ids that it has collected
can finish and then has queued its message once in each room of the range that exists, and in no
other. -/
def RangeQueued (N : ℕ) (st et : Int64) : Prop :=
  ∃ fuel roomIds, rangeLoop fuel st et [] = some roomIds ∧
    ∀ d : Deployment, d.roomsIds = roomIdsBelow N →
      (∃ (r : (roomPushes d).Run) (n : ℕ), .began roomIds n ∈ r.log ∧ .ended n ∈ r.log) ∧
      ∀ (r : (roomPushes d).Run) (n : ℕ), .began roomIds n ∈ r.log → .ended n ∈ r.log →
        (pushedRooms n r.log).Nodup ∧ ∀ roomId, roomId ∈ pushedRooms n r.log ↔
          ∃ i : ℕ, i < N ∧ st.toInt ≤ i ∧ i ≤ et.toInt ∧ roomId = "room_" ++ toString i

/-- **For any number of rooms and any two integers, a range broadcast ends and reaches the rooms of
the range once each exactly when its upper bound is not the greatest integer.** -/
theorem rangeQueued_iff (N : ℕ) (st et : Int64) : RangeQueued N st et ↔ et ≠ Int64.maxValue := by
  constructor
  · rintro ⟨fuel, roomIds, hloop, -⟩ rfl
    rw [rangeLoop_maxValue] at hloop
    exact absurd hloop (by simp)
  · intro het
    refine ⟨_, _, rangeLoop_eq het (Nat.lt_succ_self _) [], fun d hd => ⟨?_, ?_⟩⟩
    · exact exists_pushes d (nodup_rangeRoomIds _ _)
    · intro r n hbegan hended
      rw [pushedRooms_of_ended r hbegan hended]
      exact ⟨(nodup_rangeRoomIds _ _).filter _, fun roomId => mem_existing_range hd⟩

/-- The range from the greatest integer to itself has one room, which does not exist, and the loop
over it has no end. -/
theorem greatest_not_queued :
    (∀ fuel, rangeLoop fuel Int64.maxValue Int64.maxValue [] = none) ∧
      ¬ RangeQueued 10 Int64.maxValue Int64.maxValue := by
  refine ⟨fun fuel => rangeLoop_maxValue fuel _ _, ?_⟩
  rintro ⟨fuel, roomIds, hloop, -⟩
  rw [rangeLoop_maxValue] at hloop
  exact absurd hloop (by simp)

/-! ## Sets -/

/-- A room number as it stands between two commas, with blanks around it. -/
structure ListedRoom where
  before : String
  num : ℕ
  after : String
  before_blank : ∀ c ∈ before.toList, isSpace c = true
  after_blank : ∀ c ∈ after.toList, isSpace c = true

def ListedRoom.text (x : ListedRoom) : String := x.before ++ toString x.num ++ x.after

/-- The text of a list of rooms. -/
def fromRooms (l : List ListedRoom) : String := (",").intercalate (l.map ListedRoom.text)

/-- A digit is not a blank. -/
theorem isDigit_of_isSpace {c : Char} (h : isSpace c = true) : c.isDigit = false := by
  by_contra hd
  have hd : c.isDigit = true := by simpa using hd
  simp only [Char.isDigit, Bool.and_eq_true, decide_eq_true_eq, ge_iff_le,
    UInt32.le_iff_toNat_le] at hd
  have hnat : c.toNat = c.val.toNat := rfl
  simp only [isSpace, List.mem_cons, List.not_mem_nil, or_false, decide_eq_true_eq] at h
  have h48 : '0'.val.toNat = 48 := rfl
  have h57 : '9'.val.toNat = 57 := rfl
  omega

/-- What does not begin or end with a blank is what is left of it when blanks are trimmed. -/
theorem trimSpace_append_blanks {s t : String} (ht : ∀ c ∈ t.toList, isSpace c = true)
    (hhead : ∃ c r, s.toList = c :: r ∧ isSpace c = false)
    (hlast : ∃ c r, s.toList = r ++ [c] ∧ isSpace c = false) : trimSpace (s ++ t) = s := by
  obtain ⟨c, r, hs, hc⟩ := hhead
  obtain ⟨z, q, hs', hz⟩ := hlast
  have hleft : (s ++ t).toList.dropWhile isSpace = s.toList ++ t.toList := by
    rw [String.toList_append, hs, List.cons_append]
    exact List.dropWhile_cons_of_neg (by simp [hc])
  have hright : (s.toList ++ t.toList).reverse.dropWhile isSpace = s.toList.reverse := by
    rw [List.reverse_append, List.dropWhile_append_of_pos (by simpa using ht), hs',
      List.reverse_append, List.reverse_singleton, List.singleton_append]
    exact List.dropWhile_cons_of_neg (by simp [hz])
  rw [trimSpace, hleft, hright, List.reverse_reverse, String.ofList_toList]

/-- The id that a listed room gets: the blanks behind it are trimmed, those before it are not. -/
theorem trimSpace_listed (x : ListedRoom) :
    trimSpace ("room_" ++ x.text) = "room_" ++ x.before ++ toString x.num := by
  have hdigits : (toString x.num).toList ≠ [] := by
    rw [show toString x.num = Nat.repr x.num from rfl, Nat.toList_repr]
    exact Nat.toDigits_ne_nil
  obtain ⟨q, z, hq⟩ := (List.eq_nil_or_concat (toString x.num).toList).resolve_left hdigits
  have hz : isSpace z = false := by
    by_contra h
    have hmem : z ∈ (toString x.num).toList := by
      rw [hq, List.concat_eq_append]
      exact List.mem_append_right _ (List.mem_singleton_self z)
    have hdigit := isDigit_of_mem_toString hmem
    rw [isDigit_of_isSpace (by simpa using h)] at hdigit
    exact absurd hdigit (by simp)
  rw [ListedRoom.text, ← String.append_assoc, ← String.append_assoc]
  refine trimSpace_append_blanks x.after_blank ⟨'r', _, by simp; rfl, by decide⟩ ?_
  refine ⟨z, ("room_" ++ x.before).toList ++ q, ?_, hz⟩
  rw [String.toList_append, hq, List.append_assoc, List.concat_eq_append]

theorem setRoomIds_fromRooms {l : List ListedRoom} (hl : l ≠ []) :
    setRoomIds (fromRooms l) = l.map fun x => "room_" ++ x.before ++ toString x.num := by
  have hcomma : ∀ s ∈ l.map ListedRoom.text, ',' ∉ s.toList := by
    intro s hs
    obtain ⟨x, -, rfl⟩ := List.mem_map.mp hs
    simp only [ListedRoom.text, String.toList_append, List.mem_append, not_or]
    refine ⟨⟨fun hc => ?_, fun hc => ?_⟩, fun hc => ?_⟩
    · exact absurd (x.before_blank _ hc) (by decide)
    · exact absurd (isDigit_of_mem_toString hc) (by decide)
    · exact absurd (x.after_blank _ hc) (by decide)
  have hsplit : (fromRooms l).splitOn "," = l.map ListedRoom.text :=
    splitOn_intercalate (c := ',') (by simpa using hl) hcomma
  rw [setRoomIds, hsplit, List.map_map]
  exact List.map_congr_left fun x _ => trimSpace_listed x

/-- Text with a blank in front of a number names no room. -/
theorem before_eq_of_room {x : ListedRoom} {i : ℕ}
    (h : "room_" ++ toString i = "room_" ++ x.before ++ toString x.num) :
    x.before = "" ∧ i = x.num := by
  rw [String.append_assoc] at h
  have h := (String.append_right_inj "room_").mp h
  have hbefore : x.before = "" := by
    by_contra hne
    obtain ⟨c, r, hc⟩ := List.exists_cons_of_ne_nil (String.toList_eq_nil_iff.not.mpr hne)
    have hblank := x.before_blank c (by simp [hc])
    have hdigit : c.isDigit = true := by
      apply isDigit_of_mem_toString (n := i)
      rw [h, String.toList_append, hc]
      exact List.mem_cons_self
    rw [isDigit_of_isSpace hblank] at hdigit
    exact absurd hdigit (by simp)
  rw [hbefore, String.empty_append] at h
  exact ⟨hbefore, toString_inj.mp h⟩

/-- The rooms of a set that exist: those that are listed without a blank in front of them. -/
theorem mem_existing_set {d : Deployment} {N : ℕ} (hd : d.roomsIds = roomIdsBelow N)
    {l : List ListedRoom} {r : String} : r ∈ d.existing (setRoomIds (fromRooms l)) ↔
      ∃ x ∈ l, x.before = "" ∧ x.num < N ∧ r = "room_" ++ toString x.num := by
  rw [mem_existing, hd, roomIdsBelow]
  simp only [List.mem_map, List.mem_range]
  by_cases hl : l = []
  · -- the empty text is one empty piece
    subst hl
    have hempty : setRoomIds (fromRooms []) = ["room_"] := by
      have hsplit : ("" : String).splitOn "," = [""] := splitOn_char "" ','
      rw [setRoomIds, show fromRooms [] = "" from rfl, hsplit]
      decide
    rw [hempty]
    constructor
    · rintro ⟨hr, i, -, rfl⟩
      have hnil : toString i = "" :=
        (String.append_right_inj "room_").mp ((List.mem_singleton.mp hr).trans (by simp))
      exact absurd hnil Nat.repr_ne_empty
    · rintro ⟨x, hx, -⟩
      exact absurd hx List.not_mem_nil
  · rw [setRoomIds_fromRooms hl]
    constructor
    · rintro ⟨hr, i, hi, rfl⟩
      obtain ⟨x, hx, heq⟩ := List.mem_map.mp hr
      obtain ⟨hbefore, rfl⟩ := before_eq_of_room heq.symm
      exact ⟨x, hx, hbefore, hi, rfl⟩
    · rintro ⟨x, hx, hbefore, hlt, rfl⟩
      refine ⟨List.mem_map.mpr ⟨x, hx, ?_⟩, x.num, hlt, rfl⟩
      rw [hbefore, String.append_empty]

/-- What a finished set broadcast has reached. -/
theorem pushedRooms_set {d : Deployment} {N : ℕ} (hd : d.roomsIds = roomIdsBelow N)
    {l : List ListedRoom} (r : (roomPushes d).Run) {k : ℕ}
    (hbegan : .began (setRoomIds (fromRooms l)) k ∈ r.log) (hended : .ended k ∈ r.log)
    (roomId : String) : roomId ∈ pushedRooms k r.log ↔
      ∃ x ∈ l, x.before = "" ∧ x.num < N ∧ roomId = "room_" ++ toString x.num := by
  rw [pushedRooms_of_ended r hbegan hended]
  exact mem_existing_set hd

/-- What a finished range broadcast has reached, by a list of its numbers. -/
theorem pushedRooms_range {d : Deployment} {N : ℕ} (hd : d.roomsIds = roomIdsBelow N)
    {l : List ListedRoom} {m n : ℕ} (hnums : l.map ListedRoom.num = List.range' m (n + 1 - m))
    (r : (roomPushes d).Run) {k : ℕ} (hbegan : .began (rangeRoomIds m n) k ∈ r.log)
    (hended : .ended k ∈ r.log) (roomId : String) : roomId ∈ pushedRooms k r.log ↔
      ∃ x ∈ l, x.num < N ∧ roomId = "room_" ++ toString x.num := by
  rw [pushedRooms_of_ended r hbegan hended, mem_existing_range hd]
  have hmem : ∀ i : ℕ, (∃ x ∈ l, x.num = i) ↔ m ≤ i ∧ i ≤ n := by
    intro i
    rw [← List.mem_map (f := ListedRoom.num), hnums, List.mem_range'_1]
    omega
  constructor
  · rintro ⟨i, hi, hst, het, rfl⟩
    obtain ⟨x, hx, rfl⟩ := (hmem i).mpr ⟨by omega, by omega⟩
    exact ⟨x, hx, hi, rfl⟩
  · rintro ⟨x, hx, hlt, rfl⟩
    obtain ⟨hst, het⟩ := (hmem x.num).mp ⟨x, hx, rfl⟩
    exact ⟨x.num, hlt, by omega, by omega, rfl⟩

/-- **A set broadcast that has finished has reached the listed rooms that exist exactly when each of
them is listed once without a blank in front of it; and a set with the numbers from `m` to `n` has
reached the rooms of the range from `m` to `n` exactly when no room that exists has a blank in
front of it.** -/
theorem setBroadcast_iff {d : Deployment} {N : ℕ} (hd : d.roomsIds = roomIdsBelow N)
    (l : List ListedRoom) (r : (roomPushes d).Run) {k : ℕ}
    (hbegan : .began (setRoomIds (fromRooms l)) k ∈ r.log) (hended : .ended k ∈ r.log) :
    ((∀ roomId, roomId ∈ pushedRooms k r.log ↔
        ∃ x ∈ l, x.num < N ∧ roomId = "room_" ++ toString x.num) ↔
      ∀ x ∈ l, x.num < N → ∃ y ∈ l, y.num = x.num ∧ y.before = "") ∧
    ∀ m n : ℕ, l.map ListedRoom.num = List.range' m (n + 1 - m) →
      ∀ (r' : (roomPushes d).Run) (k' : ℕ), .began (rangeRoomIds m n) k' ∈ r'.log →
        .ended k' ∈ r'.log →
        ((∀ roomId, roomId ∈ pushedRooms k r.log ↔ roomId ∈ pushedRooms k' r'.log) ↔
          ∀ x ∈ l, x.num < N → x.before = "") := by
  have hset := pushedRooms_set hd r hbegan hended
  refine ⟨⟨fun hall x hx hlt => ?_, fun hall roomId => ?_⟩,
    fun m n hnums r' k' hbegan' hended' => ?_⟩
  · obtain ⟨y, hy, hbefore, -, heq⟩ := (hset _).mp ((hall _).mpr ⟨x, hx, hlt, rfl⟩)
    exact ⟨y, hy, (room_inj heq).symm, hbefore⟩
  · rw [hset]
    constructor
    · rintro ⟨x, hx, -, hlt, rfl⟩
      exact ⟨x, hx, hlt, rfl⟩
    · rintro ⟨x, hx, hlt, rfl⟩
      obtain ⟨y, hy, hnum, hbefore⟩ := hall x hx hlt
      exact ⟨y, hy, hbefore, hnum ▸ hlt, by rw [hnum]⟩
  · have hrange := pushedRooms_range hd hnums r' hbegan' hended'
    constructor
    · intro hsame x hx hlt
      have hreached := (hsame _).mpr ((hrange _).mpr ⟨x, hx, hlt, rfl⟩)
      obtain ⟨y, hy, hbefore, -, heq⟩ := (hset _).mp hreached
      -- no number is listed twice
      have hnodup : (l.map ListedRoom.num).Nodup := hnums ▸ List.nodup_range'
      rw [List.inj_on_of_nodup_map hnodup hx hy (room_inj heq)]
      exact hbefore
    · intro hall roomId
      rw [hset, hrange]
      constructor
      · rintro ⟨x, hx, -, hlt, rfl⟩
        exact ⟨x, hx, hlt, rfl⟩
      · rintro ⟨x, hx, hlt, rfl⟩
        exact ⟨x, hx, hall x hx hlt, hlt, rfl⟩

/-! ## A blank after a comma -/

def tenRooms : Deployment := ⟨roomIdsBelow 10, fun _ => "room_0", fun _ => by decide, 100000⟩

/-- One call for two rooms on a fresh server. -/
def pushTwo (roomIds : List String) : List RoomsAction :=
  [.start 0 (.rooms roomIds []), .acquire 0 [], .push 0, .push 0, .finish 0 0]

/-- `"1 ,2"`. -/
def blankAfter : List ListedRoom :=
  [⟨"", 1, " ", by simp, by simp [isSpace]⟩, ⟨"", 2, "", by simp, by simp⟩]

/-- The set `"1 ,2"` reaches both rooms. -/
theorem blankAfter_reached :
    ∃ r : (roomPushes tenRooms).Run, ∀ roomId, roomId ∈ pushedRooms 1 r.log ↔
      ∃ x ∈ blankAfter, x.num < 10 ∧ roomId = "room_" ++ toString x.num := by
  have hids : setRoomIds (fromRooms blankAfter) = ["room_1", "room_2"] :=
    (setRoomIds_fromRooms (by simp [blankAfter])).trans (by decide)
  have hrun : ∃ r : (roomPushes tenRooms).Run,
      .began (setRoomIds (fromRooms blankAfter)) 1 ∈ r.log ∧ .ended 1 ∈ r.log := by
    rw [hids]
    exact ⟨.ofActs (pushTwo ["room_1", "room_2"]) (by decide +kernel), by decide +kernel⟩
  obtain ⟨r, hbegan, hended⟩ := hrun
  refine ⟨r, (setBroadcast_iff rfl blankAfter r hbegan hended).1.mpr fun x hx _ => ⟨x, hx, rfl, ?_⟩⟩
  rcases List.mem_cons.mp hx with rfl | hx
  · rfl
  · rw [List.mem_singleton.mp hx]

/-- The set `"1, 2"` reaches one of its two rooms, which the range from 1 to 2 reaches both. -/
theorem blankBefore_lost :
    (∃ r : (roomPushes tenRooms).Run,
      .began (setRoomIds "1, 2") 1 ∈ r.log ∧ .ended 1 ∈ r.log ∧
        pushedRooms 1 r.log = ["room_1"]) ∧
    ∃ r : (roomPushes tenRooms).Run,
      .began (rangeRoomIds 1 2) 1 ∈ r.log ∧ .ended 1 ∈ r.log ∧
        pushedRooms 1 r.log = ["room_1", "room_2"] := by
  have hset : setRoomIds "1, 2" = ["room_1", "room_ 2"] := by
    have hsplit : ("1, 2" : String).splitOn "," = ["1", " 2"] :=
      splitOn_intercalate (c := ',') (l := ["1", " 2"]) (by decide) (by decide)
    rw [setRoomIds, hsplit]
    decide
  have hrange : rangeRoomIds 1 2 = ["room_1", "room_2"] := by decide
  rw [hset, hrange]
  exact ⟨⟨.ofActs (pushTwo ["room_1", "room_ 2"]) (by decide +kernel), by decide +kernel⟩,
    .ofActs (pushTwo ["room_1", "room_2"]) (by decide +kernel), by decide +kernel⟩

end Skytime
