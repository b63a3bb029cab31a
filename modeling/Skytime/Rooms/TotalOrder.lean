/-
# Skytime.Rooms.TotalOrder — all connections see room broadcasts in one order.

A message gets its id from the holder of the token, which pushes it to its rooms before it gives the
token back. So every queue on the way carries ids that never decrease: for each connection, what was
put on its queue, followed by what the hub of its room has still to finish, is in order, and no id
in it is newer than the counter. Two lists in one order agree on every two messages they share.
-/
import Skytime.Rooms.Pipeline

namespace Skytime

open Process

/-! ## Lists in order -/

/-- The ids of a list of messages never decrease. -/
def InOrder (ms : List PushMsg) : Prop := ms.Pairwise (fun m m' => m.msgId ≤ m'.msgId)

/-- Two lists have the messages they share in the same relative order. -/
def SameOrder (ms ms' : List PushMsg) : Prop :=
  ∀ m m', m.msgId ≠ m'.msgId → [m, m'].Sublist ms → m ∈ ms' → m' ∈ ms' →
    [m, m'].Sublist ms' ∧ ¬ [m', m].Sublist ms'

theorem InOrder.le_of_sublist {ms : List PushMsg} (h : InOrder ms) {m m' : PushMsg}
    (hsub : [m, m'].Sublist ms) : m.msgId ≤ m'.msgId := by
  have hpair : InOrder [m, m'] := h.sublist hsub
  exact List.rel_of_pairwise_cons hpair (List.mem_singleton_self m')

/-- Of two members of a list one comes first. -/
theorem pair_sublist_or {ms : List PushMsg} {m m' : PushMsg} (hm : m ∈ ms) (hm' : m' ∈ ms)
    (hne : m ≠ m') : [m, m'].Sublist ms ∨ [m', m].Sublist ms := by
  induction ms with
  | nil => exact absurd hm (by simp)
  | cons x ms ih =>
      rcases List.mem_cons.mp hm with rfl | hin
      · have hin' := List.mem_of_ne_of_mem (Ne.symm hne) hm'
        exact .inl (List.cons_sublist_cons.mpr (List.singleton_sublist.mpr hin'))
      · rcases List.mem_cons.mp hm' with rfl | hin'
        · exact .inr (List.cons_sublist_cons.mpr (List.singleton_sublist.mpr hin))
        · rcases ih hin hin' with h | h
          · exact .inl (h.cons x)
          · exact .inr (h.cons x)

/-- Lists in order agree. -/
theorem InOrder.sameOrder {ms ms' : List PushMsg} (h : InOrder ms) (h' : InOrder ms') :
    SameOrder ms ms' := by
  intro m m' hne hsub hm hm'
  have hle := h.le_of_sublist hsub
  have hnot : ¬ [m', m].Sublist ms' := by
    intro hsub'
    exact hne (Nat.le_antisymm hle (h'.le_of_sublist hsub'))
  have hor := pair_sublist_or hm hm' (fun heq => hne (congrArg PushMsg.msgId heq))
  exact ⟨hor.resolve_right hnot, hnot⟩

/-- A copy of a message may stand before it. -/
theorem InOrder.repeat {ms ms' : List PushMsg} {m : PushMsg} (h : InOrder (ms ++ m :: ms')) :
    InOrder ((ms ++ [m]) ++ m :: ms') := by
  obtain ⟨hms, hcons, hcross⟩ := List.pairwise_append.mp h
  rw [List.append_assoc, List.singleton_append]
  refine List.pairwise_append.mpr ⟨hms, List.pairwise_cons.mpr ⟨fun m' hm' => ?_, hcons⟩, ?_⟩
  · rcases List.mem_cons.mp hm' with rfl | hm'
    · exact Nat.le_refl _
    · exact List.rel_of_pairwise_cons hcons hm'
  · intro x hx y hy
    rcases List.mem_cons.mp hy with rfl | hy
    · exact hcross x hx y List.mem_cons_self
    · exact hcross x hx y hy

/-- A newest message may be added at the end. -/
theorem InOrder.concat {ms : List PushMsg} {m : PushMsg} (h : InOrder ms)
    (hle : ∀ x ∈ ms, x.msgId ≤ m.msgId) : InOrder (ms ++ [m]) :=
  List.pairwise_append.mpr ⟨h, List.pairwise_singleton _ _, fun x hx y hy => by
    rw [List.mem_singleton.mp hy]
    exact hle x hx⟩

/-! ## Every way is in order -/

namespace HubRooms

variable {d : Deployment} {s t : HubRooms} {a : RoomsAction} {l o : List Event}

/-- What was put on the queue of `c`, and what the hub of its room has still to finish. -/
def way (d : Deployment) (s : HubRooms) (l : List Event) (c : Connection) : List PushMsg :=
  puts c l ++ (s.rooms (d.getRoomId c.peerId)).pipeline

/-- Every way is in order, and carries no id newer than the counter. -/
structure Ordered (d : Deployment) (s : HubRooms) (l : List Event) : Prop where
  inOrder : ∀ c, InOrder (s.way d l c)
  le_cnt : ∀ c, ∀ m ∈ s.way d l c, m.msgId ≤ s.stats.totalMsgCnt

/-- A step that only takes messages off the ways. -/
theorem Ordered.sublist (h : s.Ordered d l) (hway : ∀ c, (t.way d (l ++ o) c).Sublist (s.way d l c))
    (hcnt : s.stats.totalMsgCnt ≤ t.stats.totalMsgCnt) : t.Ordered d (l ++ o) :=
  ⟨fun c => (h.inOrder c).sublist (hway c),
    fun c m hm => (h.le_cnt c m ((hway c).subset hm)).trans hcnt⟩

/-- A step that puts nothing and changes no hub's pipeline. -/
theorem Ordered.quiet (h : s.Ordered d l) (hputs : ∀ c, puts c o = [])
    (hrooms : ∀ r, (t.rooms r).pipeline = (s.rooms r).pipeline)
    (hcnt : s.stats.totalMsgCnt ≤ t.stats.totalMsgCnt) : t.Ordered d (l ++ o) := by
  refine h.sublist (fun c => ?_) hcnt
  rw [way, way, puts_append, hputs, List.append_nil, hrooms]

theorem Ordered.hub (hi : s.Inv d) (h : s.Ordered d l) {r : String} {ha : HubAction}
    {v : HubView} (hv : (s.view r).Act ha v o) : (s.putView r v).Ordered d (l ++ o) := by
  rcases hv.pipeline with ⟨hsuffix, hputs⟩ | ⟨hpipe, c, m, rest, k, hfirst, hkey, hputs⟩
  · refine h.sublist (fun c => ?_) (Nat.le_refl _)
    rw [way, way, puts_append, hputs, List.append_nil, putView_rooms]
    split
    · rename_i hr
      rw [hr]
      exact hsuffix.sublist.append_left _
    · exact List.Sublist.refl _
  · -- the oldest message of the pipeline is put on a queue and stays in front of the pipeline
    have hrooms : ∀ r', ((s.putView r v).rooms r').pipeline = (s.rooms r').pipeline := by
      intro r'
      rw [putView_rooms]
      split
      · rename_i hr
        rw [hr]
        exact hpipe
      · rfl
    have hhome : d.getRoomId c.peerId = r := hi.rooms.home hkey
    have hway : ∀ c', (s.putView r v).way d (l ++ o) c' =
        (puts c' l ++ if c = c' then [m] else []) ++
          (s.rooms (d.getRoomId c'.peerId)).pipeline := by
      intro c'
      rw [way, puts_append, hputs, hrooms]
    have hc : s.way d l c = puts c l ++ m :: rest := by
      rw [way, hhome]
      exact congrArg _ hfirst
    constructor
    · intro c'
      rw [hway]
      split
      · rename_i hcc
        subst hcc
        have hpipe' : (s.rooms (d.getRoomId c.peerId)).pipeline = m :: rest := hhome ▸ hfirst
        rw [hpipe']
        exact (hc ▸ h.inOrder c).repeat
      · rw [List.append_nil]
        exact h.inOrder c'
    · intro c' x hx
      rw [hway] at hx
      split at hx
      · rename_i hcc
        subst hcc
        apply h.le_cnt c x
        have hm : m ∈ s.way d l c := by
          rw [hc]
          simp
        simp only [List.mem_append, List.mem_singleton] at hx
        rcases hx with (hx | rfl) | hx
        · exact List.mem_append_left _ hx
        · exact hm
        · exact List.mem_append_right _ hx
      · rw [List.append_nil] at hx
        exact h.le_cnt c' x hx

/-- A call pushes its message, which is the newest, to a room. -/
theorem Ordered.push (hi : s.Inv d) (h : s.Ordered d l) {i : ℕ} {m : PushMsg} {r : String}
    {ch : Chan PushMsg broadcastCap} (hheld : (s.calls i).held = some m)
    (hbuf : ch.buf = (s.rooms r).broadcast.buf ++ [m])
    (hrooms : t.rooms = Function.update s.rooms r { s.rooms r with broadcast := ch })
    (hcnt : t.stats = s.stats) : t.Ordered d (l ++ []) := by
  have hm : m.msgId = s.stats.totalMsgCnt := hi.calls.held_id hheld
  have hpipe : ∀ r', (t.rooms r').pipeline =
      (s.rooms r').pipeline ++ if r' = r then [m] else [] := by
    intro r'
    rw [hrooms, Function.update_apply]
    split
    · rename_i hr
      rw [hr]
      simp only [Hub.pipeline, hbuf, List.append_assoc]
    · rw [List.append_nil]
  have hway : ∀ c, t.way d (l ++ []) c =
      s.way d l c ++ if d.getRoomId c.peerId = r then [m] else [] := by
    intro c
    rw [way, way, List.append_nil, hpipe, List.append_assoc]
  constructor
  · intro c
    rw [hway]
    split
    · exact (h.inOrder c).concat (fun x hx => hm ▸ h.le_cnt c x hx)
    · rw [List.append_nil]
      exact h.inOrder c
  · intro c x hx
    rw [hway] at hx
    rw [hcnt]
    split at hx
    · rcases List.mem_append.mp hx with hx | hx
      · exact h.le_cnt c x hx
      · rw [List.mem_singleton.mp hx, hm]
    · rw [List.append_nil] at hx
      exact h.le_cnt c x hx

theorem Ordered.step (hi : s.Inv d) (h : s.Ordered d l) (hstep : s.Step d a t o) :
    t.Ordered d (l ++ o) := by
  cases hstep with
  | life | start | skipRoom | absent | found | sendPanic | finish | drain | sendPeer =>
      exact h.quiet (fun _ => rfl) (fun _ => rfl) (Nat.le_refl _)
  | register hreg hloop hv =>
      subst hv
      refine h.quiet (fun _ => rfl) (fun r => ?_) (Nat.le_refl _)
      simp only [setConn, putView_rooms]
      split
      · rename_i hr
        rw [hr]
        rfl
      · rfl
  | unregister hreader hloop hv =>
      have hputs : ∀ c, puts c o = [] := by
        intro c
        cases hv <;> rfl
      refine h.quiet hputs (fun r => ?_) (Nat.le_refl _)
      simp only [setConn, putView_rooms]
      split
      · rename_i hr
        rw [hr]
        exact hv.kindOk.1
      · rfl
  | hub hr hv => exact h.hub hi hv
  | acquire => exact h.quiet (fun _ => rfl) (fun _ => rfl) (Nat.le_succ _)
  | @push i m r roomIds ch hcall hr hbuf =>
      exact h.push hi (by rw [hcall]; rfl) hbuf rfl rfl

/-! ## Agreement -/

/-- The room broadcasts put on every queue come in the order of their ids, and any two connections
agree on the order of those put on their queues and of those they receive. -/
def Agreement (_ : HubRooms) (l : List Event) : Prop :=
  (∀ c, ((puts c l).map PushMsg.msgId).Pairwise (· ≤ ·)) ∧
    ∀ c c', SameOrder (puts c l) (puts c' l) ∧ SameOrder (received c l) (received c' l)

theorem Ordered.agreement (h : s.Ordered d l) (hk : s.KindOk l) (hf : s.Fifo l) :
    s.Agreement l := by
  have hputs : ∀ c, InOrder (puts c l) := fun c => (List.pairwise_append.mp (h.inOrder c)).1
  have hreceived : ∀ c, InOrder (received c l) := by
    intro c
    -- what has been received is a prefix of what has been placed
    refine (hputs c).sublist ?_
    rw [← filter_placed hk.events, hf c, List.filter_append]
    exact List.sublist_append_left _ _
  exact ⟨fun c => List.pairwise_map.mpr (hputs c),
    fun c c' => ⟨(hputs c).sameOrder (hputs c'), (hreceived c).sameOrder (hreceived c')⟩⟩

end HubRooms

/-- **In every run the ids of the room broadcasts put on a queue never decrease, and any two
connections, in one room or in two, have the room broadcasts they share in the same order.** -/
theorem always_agreement (d : Deployment) (r : (hubRooms d).Run) :
    r.Always HubRooms.Agreement := by
  have hinit : (hubRooms d).init.Ordered d [] ∧ (hubRooms d).init.KindOk [] ∧
      (hubRooms d).init.Fifo [] := by
    refine ⟨⟨fun c => List.Pairwise.nil, ?_⟩, ⟨?_, ?_, fun i => trivial⟩, fun c => rfl⟩
    · intro c m hm
      exact absurd hm (List.not_mem_nil)
    · intro e he
      exact absurd he (List.not_mem_nil)
    · intro r m hm
      exact absurd hm (List.not_mem_nil)
  have hall : r.Always fun s l => s.Inv d ∧ s.Ordered d l ∧ s.KindOk l ∧ s.Fifo l := by
    refine Machine.Run.always ⟨.init d, hinit⟩ ?_ r
    rintro s l a t o ⟨hi, ho, hk, hf⟩ hstep
    have hcases := (HubRooms.step_cases hstep).2
    exact ⟨hi.step hcases, ho.step hi hcases, hk.step hcases, hf.step hcases⟩
  exact hall.mono fun s l h => h.2.1.agreement h.2.2.1 h.2.2.2

end Skytime
