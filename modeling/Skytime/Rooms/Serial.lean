/-
# Skytime.Rooms.Serial — broadcast calls are serialised by `broadcast_mu`.

Any number of calls of `broadcast`, `broadcast_rooms` and `broadcast_peers` run at a time. The run
is observed through two events: a call takes the token and makes its message, a call gives the token
back. In between only this call changes the message counters, so the ids are handed out in order and
the counters are exact whenever the token is free.
-/
import Mathlib.Algebra.GroupWithZero.Nat
import Mathlib.Data.List.Range
import Skytime.Rooms.Invariant

namespace Skytime

open Process

/-! ## Taking and returning the token -/

inductive TokenEvent where
  /-- call `i` has taken the token and made the message `m` -/
  | began (i : ℕ) (m : PushMsg)
  /-- call `i` has returned the token after its message `m` -/
  | ended (i : ℕ) (m : PushMsg)
  deriving DecidableEq, Repr

/-- What a step shows of the token. -/
def seeToken (s : HubRooms) (a : RoomsAction) (_ : HubRooms) : List TokenEvent :=
  match a with
  | .acquire i _ =>
    match s.calls i with
    | .waiting req => [.began i (s.nextMsg req)]
    | _ => []
  | .finish i _ =>
    match (s.calls i).held with
    | some m => [.ended i m]
    | none => []
  | _ => []

/-- The messages whose calls have taken the token, in this order. -/
def begun : List TokenEvent → List PushMsg :=
  List.filterMap fun
    | .began _ m => some m
    | .ended _ _ => none

/-- The messages whose calls have completed, in this order. -/
def completed : List TokenEvent → List PushMsg :=
  List.filterMap fun
    | .began _ _ => none
    | .ended _ m => some m

@[simp] theorem begun_append (l k : List TokenEvent) : begun (l ++ k) = begun l ++ begun k :=
  List.filterMap_append

@[simp] theorem completed_append (l k : List TokenEvent) :
    completed (l ++ k) = completed l ++ completed k :=
  List.filterMap_append

namespace HubRooms

variable {d : Deployment} {s t : HubRooms} {a : RoomsAction} {o : List Event}

/-! ## What a step does to the counters -/

/-- Neither the token nor the messages nor their counters differ. -/
structure SameMessages (s t : HubRooms) : Prop where
  mu : t.broadcastMu = s.broadcastMu
  cnt : t.stats.totalMsgCnt = s.stats.totalMsgCnt
  size : t.stats.totalMsgSize = s.stats.totalMsgSize
  msgStats : t.msgStats = s.msgStats
  held : ∀ i, (t.calls i).held = (s.calls i).held

/-- A call that moves on with the same message, or without one, changes no other. -/
theorem SameMessages.setCall {i : ℕ} {x : Call} (hmu : t.broadcastMu = s.broadcastMu)
    (hstats : t.stats = s.stats) (hmsgs : t.msgStats = s.msgStats)
    (hcalls : t.calls = Function.update s.calls i x) (hx : x.held = (s.calls i).held) :
    s.SameMessages t := by
  refine ⟨hmu, by rw [hstats], by rw [hstats], hmsgs, fun j => ?_⟩
  rw [hcalls, Function.update_apply]
  split
  · rename_i hj
    rw [hj, hx]
  · rfl

/-- A step takes the token, returns it, or leaves the messages as they are and shows nothing. -/
theorem Step.messages (h : s.Step d a t o) :
    (∃ i req x, s.calls i = .waiting req ∧ s.broadcastMu = true ∧
      x.held = some (s.nextMsg req) ∧ t.calls = Function.update s.calls i x ∧
      t.broadcastMu = false ∧ t.stats.totalMsgCnt = s.stats.totalMsgCnt + 1 ∧
      t.stats.totalMsgSize = s.stats.totalMsgSize ∧
      t.msgStats = s.msgStats.insert (s.stats.totalMsgCnt + 1) ⟨0, 0⟩ ∧
      seeToken s a t = [.began i (s.nextMsg req)]) ∨
    (∃ i m, (s.calls i).held = some m ∧ t.calls = Function.update s.calls i .idle ∧
      t.broadcastMu = true ∧ t.stats.totalMsgCnt = s.stats.totalMsgCnt ∧
      t.stats.totalMsgSize = s.stats.totalMsgSize + m.msgBody.length ∧
      t.msgStats = s.msgStats ∧ seeToken s a t = [.ended i m]) ∨
    (s.SameMessages t ∧ seeToken s a t = []) := by
  cases h with
  | life | register | unregister | hub | drain | sendPanic =>
      exact .inr (.inr ⟨⟨rfl, rfl, rfl, rfl, fun _ => rfl⟩, rfl⟩)
  | start hcall | skipRoom hcall | push hcall | absent hcall | found hcall | sendPeer hcall =>
      exact .inr (.inr ⟨.setCall rfl rfl rfl rfl (by rw [hcall]; rfl), rfl⟩)
  | @acquire i order req hcall htoken horder =>
      refine .inl ⟨i, req, _, hcall, htoken, held_begin _ order req, rfl, rfl, rfl, rfl, rfl, ?_⟩
      simp only [seeToken, hcall]
  | @finish i diff m hcall =>
      have hheld : (s.calls i).held = some m := by
        rcases hcall with hcall | hcall <;> rw [hcall] <;> rfl
      refine .inr (.inl ⟨i, m, hheld, rfl, rfl, rfl, rfl, rfl, ?_⟩)
      simp only [seeToken, hheld]

/-! ## The invariant -/

/-- The counters agree with what has been shown; `pending` is the message of the call that holds
the token. -/
structure Serial (s : HubRooms) (l : List TokenEvent) : Prop where
  cnt : s.stats.totalMsgCnt = (begun l).length
  ids : (begun l).map PushMsg.msgId = List.range' 1 (begun l).length
  size : s.stats.totalMsgSize = ((completed l).map fun m => m.msgBody.length).sum
  keys : ∀ k, k ∈ s.msgStats ↔ 1 ≤ k ∧ k ≤ s.stats.totalMsgCnt
  pending : ∃ p, begun l = completed l ++ p ∧ (s.broadcastMu = true → p = []) ∧
    ∀ i m, (s.calls i).held = some m → p = [m]

theorem Serial.init (d : Deployment) : (hubRooms d).init.Serial [] := by
  refine ⟨rfl, rfl, rfl, fun k => ?_, [], rfl, fun _ => rfl, ?_⟩
  · show k ∈ (∅ : GoMap ℕ MsgStat) ↔ 1 ≤ k ∧ k ≤ 0
    have hnot : k ∉ (∅ : GoMap ℕ MsgStat) := Finmap.notMem_empty
    constructor
    · intro hk
      exact absurd hk hnot
    · intro hk
      omega
  · intro i m hm
    exact absurd hm (by simp [Call.held, hubRooms])

/-- Nobody holds the token while it is free. -/
theorem CallsOk.held_eq_none (h : s.CallsOk) (hmu : s.broadcastMu = true) (i : ℕ) :
    (s.calls i).held = none := by
  by_contra hne
  exact absurd (h.token.not_free (i := i) hne) (by simp [hmu])

theorem Serial.step {l : List TokenEvent} (h : s.Serial l) (hc : s.CallsOk)
    (hstep : s.Step d a t o) : t.Serial (l ++ seeToken s a t) := by
  obtain ⟨p, hp, hfree, hheld⟩ := h.pending
  rcases hstep.messages with ⟨i, req, x, -, hmu, hx, hcalls, hmu', hcnt, hsize, hmsgs, hsee⟩ |
    ⟨i, m, hm, hcalls, hmu, hcnt, hsize, hmsgs, hsee⟩ | ⟨hsame, hsee⟩
  · -- the token is taken: one message more has begun, and it is the only one pending
    obtain rfl := hfree hmu
    have hbegun : begun (l ++ seeToken s a t) = begun l ++ [s.nextMsg req] := by
      rw [begun_append, hsee]
      rfl
    have hcomp : completed (l ++ seeToken s a t) = completed l := by
      rw [completed_append, hsee]
      exact List.append_nil _
    have hid : (s.nextMsg req).msgId = (begun l).length + 1 := congrArg (· + 1) h.cnt
    constructor
    · rw [hbegun, hcnt, h.cnt, List.length_append, List.length_singleton]
    · rw [hbegun, List.map_append, h.ids, List.length_append, List.length_singleton,
        List.range'_concat, List.map_singleton, hid]
      simp [Nat.add_comm]
    · rw [hcomp, hsize, h.size]
    · intro k
      rw [hmsgs, hcnt, Finmap.mem_insert, h.keys]
      omega
    · refine ⟨[s.nextMsg req], ?_, fun hfree' => ?_, fun j m hj => ?_⟩
      · rw [hbegun, hcomp, hp, List.append_nil]
      · rw [hmu'] at hfree'
        exact absurd hfree' (by simp)
      · rw [hcalls, Function.update_apply] at hj
        split at hj
        · rw [hx] at hj
          rw [Option.some.inj hj]
        · rw [hc.held_eq_none hmu j] at hj
          exact absurd hj (by simp)
  · -- the token is returned: the pending message is completed
    obtain rfl := hheld i m hm
    have hbegun : begun (l ++ seeToken s a t) = begun l := by
      rw [begun_append, hsee]
      exact List.append_nil _
    have hcomp : completed (l ++ seeToken s a t) = completed l ++ [m] := by
      rw [completed_append, hsee]
      rfl
    constructor
    · rw [hbegun, hcnt, h.cnt]
    · rw [hbegun, h.ids]
    · rw [hcomp, hsize, h.size, List.map_append, List.sum_append]
      rfl
    · intro k
      rw [hmsgs, hcnt, h.keys]
    · refine ⟨[], ?_, fun _ => rfl, fun j m' hj => ?_⟩
      · rw [hbegun, hcomp, hp, List.append_nil]
      · rw [hcalls, Function.update_apply] at hj
        split at hj
        · exact absurd hj (by simp [Call.held])
        · rename_i hne
          exact absurd (hc.unique hj hm) hne
  · rw [hsee, List.append_nil]
    refine ⟨hsame.cnt.trans h.cnt, h.ids, hsame.size.trans h.size, fun k => ?_, p, hp, ?_, ?_⟩
    · rw [hsame.msgStats, hsame.cnt, h.keys]
    · rw [hsame.mu]
      exact hfree
    · intro j m hj
      rw [hsame.held] at hj
      exact hheld j m hj

end HubRooms

/-- **Broadcasts are serialised: one call at most is between taking and returning the token, the
ids are `1, 2, 3, …` in the order in which the token is taken, and while the token is free the
counters and the keys of `msg_stats` are those of the completed calls.** -/
theorem broadcasts_serial (d : Deployment) (r : ((hubRooms d).observe seeToken).Run) :
    r.Always fun s l =>
      (∀ i j, (s.calls i).Holds → (s.calls j).Holds → i = j) ∧
      (begun l).map PushMsg.msgId = List.range' 1 (begun l).length ∧
      (s.broadcastMu = true →
        completed l = begun l ∧
        s.stats.totalMsgCnt = (completed l).length ∧
        s.stats.totalMsgSize = ((completed l).map fun m => m.msgBody.length).sum ∧
        ∀ k, k ∈ s.msgStats ↔ 1 ≤ k ∧ k ≤ s.stats.totalMsgCnt) := by
  have hinv : r.Always fun s l => s.Inv d ∧ s.Serial l := by
    refine Machine.Run.always_observe (J := HubRooms.Inv d) (HubRooms.Inv.init d) ?_
      ⟨HubRooms.Inv.init d, HubRooms.Serial.init d⟩ ?_ r
    · intro s a t k hJ ha
      exact hJ.step (HubRooms.step_cases ha).2
    · intro s l a t k hJ hI ha
      have hstep := (HubRooms.step_cases ha).2
      exact ⟨hJ.step hstep, hI.2.step hJ.calls hstep⟩
  refine hinv.mono fun s l h => ?_
  obtain ⟨hinv, hserial⟩ := h
  obtain ⟨p, hp, hfree, -⟩ := hserial.pending
  refine ⟨fun i j hi hj => hinv.calls.token.unique hi hj, hserial.ids, fun hmu => ?_⟩
  have hall : completed l = begun l := by
    rw [hp, hfree hmu, List.append_nil]
  exact ⟨hall, by rw [hall, hserial.cnt], hserial.size, hserial.keys⟩

end Skytime
