/-
# Skytime.Rooms.Admission — how many connections `max_conn_limit` lets in.

`websocketHandler` compares `total_peer_cnt` with the limit and registers the connection later. The
comparison is `>`, and `total_peer_cnt` does not count the handshakes between the check and the
`++`. What keeps the limit is a check on the connections that have been let in and not yet been
unregistered, whether they are counted or not.
-/
import Skytime.Rooms.Counters

namespace Skytime

open Process

/-- The check has let the connection in, and its hub has not unregistered it. -/
def ConnState.LetIn (x : ConnState) : Prop :=
  (x.handler ≠ .fresh ∧ x.handler ≠ .refused) ∧ ¬ x.Left

/-- `hrooms.register` has returned, and the hub has not unregistered the connection. -/
def ConnState.Registered (x : ConnState) : Prop :=
  (x.handler = .goWriter ∨ x.handler = .goReader ∨ x.handler = .finished) ∧ ¬ x.Left

instance (x : ConnState) : Decidable x.Registered := inferInstanceAs (Decidable (_ ∧ ¬ (_ ∨ _)))

theorem ConnState.Registered.letIn {x : ConnState} (h : x.Registered) : x.LetIn := by
  refine ⟨?_, h.2⟩
  rcases h.1 with hx | hx | hx <;> simp [hx]

/-- Only the check lets a connection in. -/
theorem ConnState.Step.letIn_iff {x x' : ConnState} {a : LifeAction} (h : x.Step a x')
    (hok : x.ReaderOk) (ha : a ≠ .accept) : x'.LetIn ↔ x.LetIn := by
  rw [LetIn, LetIn, h.left_iff hok]
  cases h with
  | refuse | accept => exact absurd rfl ha
  | countUp hx | posted hx | goWriter hx | goReader hx => simp [hx]
  | writerFails | writerEnds | readerStops | countDown | postedOff => exact Iff.rfl

namespace HubRooms

variable {d : Deployment} {s t : HubRooms} {a : RoomsAction} {o : List Event}

/-- The check refuses the connection, or lets it in because `total_peer_cnt` does not exceed the
limit. -/
theorem lifeStep_accept {c : Connection} (h : s.lifeStep d c .accept = some t) :
    (s.conn c).handler = .fresh ∧
      (t.conn = Function.update s.conn c { s.conn c with handler := .refused } ∨
        s.stats.totalPeerCnt ≤ d.maxConnLimit ∧
          t.conn = Function.update s.conn c { s.conn c with handler := .registering }) := by
  obtain ⟨hx, h⟩ := Option.ite_none_right_eq_some.mp h
  split at h
  · obtain rfl := Option.some.inj h
    exact ⟨hx, .inl rfl⟩
  · rename_i hle
    obtain rfl := Option.some.inj h
    exact ⟨hx, .inr ⟨Int.not_lt.mp hle, rfl⟩⟩

/-- When the check lets a connection in, fewer connections than the limit are in already. -/
def AdmitsBelowLimit (d : Deployment) (s : HubRooms) (a : RoomsAction) : Prop :=
  ∀ c, a = .life c .accept → s.stats.totalPeerCnt ≤ d.maxConnLimit →
    ({c' | (s.conn c').LetIn}.ncard : ℤ) < d.maxConnLimit

/-- At most as many connections as the limit says have been let in. -/
def WithinLimit (d : Deployment) (s : HubRooms) : Prop :=
  ∃ n : ℕ, Census ConnState.LetIn s.conn n ∧ (n : ℤ) ≤ d.maxConnLimit

theorem WithinLimit.init (hlimit : 0 ≤ d.maxConnLimit) : (hubRooms d).init.WithinLimit d :=
  ⟨0, .start (fun _ => by simp [ConnState.LetIn, hubRooms, ConnState.fresh]), hlimit⟩

/-- A connection that moves on without being let in. -/
theorem WithinLimit.keep (h : s.WithinLimit d) {c : Connection} {x : ConnState}
    (hx : x.LetIn ↔ (s.conn c).LetIn) (hconn : t.conn = Function.update s.conn c x) :
    t.WithinLimit d := by
  obtain ⟨n, hn, hle⟩ := h
  refine ⟨n, ?_, hle⟩
  rw [hconn]
  exact hn.keep hx

theorem WithinLimit.life (h : s.WithinLimit d) (hok : s.RoomsOk d) {c : Connection}
    {la : LifeAction} (hC : AdmitsBelowLimit d s (.life c la))
    (hstep : s.lifeStep d c la = some t) : t.WithinLimit d := by
  by_cases hla : la = .accept
  · subst hla
    obtain ⟨hx, hconn | ⟨hle, hconn⟩⟩ := lifeStep_accept hstep
    · exact h.keep (by simp [ConnState.LetIn, hx]) hconn
    · -- the connection comes in, below the limit
      obtain ⟨n, hn, _⟩ := h
      have hlt : (n : ℤ) < d.maxConnLimit := hn.card ▸ hC c rfl hle
      have hreader : (s.conn c).reader = .notStarted := by
        by_contra hr
        exact absurd ((hok.readerOk c hr).symm.trans hx) (by simp)
      refine ⟨n + 1, ?_, by omega⟩
      rw [hconn]
      exact hn.enter (by simp [ConnState.LetIn, hx])
        (by simp [ConnState.LetIn, ConnState.Left, hreader])
  · obtain ⟨x, hx, hconn, _⟩ := lifeStep_total hstep
    exact h.keep (hx.letIn_iff (hok.readerOk c) hla) hconn

theorem WithinLimit.step (h : s.WithinLimit d) (hok : s.RoomsOk d) (hC : AdmitsBelowLimit d s a)
    (hstep : (hubRooms d).step s a = some (t, o)) : t.WithinLimit d := by
  have hcases := (step_cases hstep).2
  cases hcases with
  | life =>
      simp only [hubRooms, HubRooms.step] at hstep
      split at hstep
      · exact absurd hstep (by simp)
      · obtain ⟨hlife, _⟩ := Machine.silent_eq_some_iff.mp hstep
        exact h.life hok hC hlife
  | register hreg =>
      exact h.keep (by simp [ConnState.LetIn, ConnState.Left, hreg]) rfl
  | @unregister c v o hreader =>
      -- the hub has unregistered the connection, which was in
      have hfin := hok.readerOk c (by rw [hreader]; simp)
      obtain ⟨n, hn, hle⟩ := h
      obtain ⟨k, rfl, hk⟩ := hn.leave (i := c)
        (by simp [ConnState.LetIn, ConnState.Left, hfin, hreader])
        (x := { s.conn c with reader := .counting }) (by simp [ConnState.LetIn, ConnState.Left])
      exact ⟨k, hk, by omega⟩
  | hub | drain | start | acquire | push | skipRoom | absent | found | sendPeer | sendPanic |
    finish => exact h

end HubRooms

/-- **The number of registered connections stays within the limit in every run in which a connection
is let in only while fewer connections than the limit are in.** -/
theorem registered_le_limit {d : Deployment} (hlimit : 0 ≤ d.maxConnLimit) (r : (hubRooms d).Run)
    (hC : r.EachStep fun s _ a => HubRooms.AdmitsBelowLimit d s a) :
    r.Always fun s _ => {c | (s.conn c).Registered}.Finite ∧
      ({c | (s.conn c).Registered}.ncard : ℤ) ≤ d.maxConnLimit := by
  have hinv : r.Always fun s _ => s.Inv d ∧ s.WithinLimit d := by
    refine r.always_of_eachStep ⟨HubRooms.Inv.init d, HubRooms.WithinLimit.init hlimit⟩ ?_ hC
    intro s l a t o hI hC ha
    exact ⟨hI.1.step (HubRooms.step_cases ha).2, hI.2.step hI.1.rooms hC ha⟩
  refine hinv.mono fun s l h => ?_
  obtain ⟨n, hn, hle⟩ := h.2
  obtain ⟨hfin, hcard⟩ := hn.ncard_le (Q := ConnState.Registered) fun c hc => hc.letIn
  refine ⟨hfin, ?_⟩
  omega

/-- A first connection is let in, below the limit. -/
theorem registered_le_limit_one :
    ∃ r : (hubRooms oneRoom).Run, r.acts = connect ⟨1, "p"⟩ ∧
      (r.last.conn ⟨1, "p"⟩).handler = .finished ∧
      ({c | (r.last.conn c).Registered}.ncard : ℤ) ≤ oneRoom.maxConnLimit := by
  let r : (hubRooms oneRoom).Run := .ofActs (connect ⟨1, "p"⟩) (by decide)
  refine ⟨r, rfl, by decide, (registered_le_limit (by decide) r ?_).last.2⟩
  rintro pre a ⟨rest, hrest⟩ s l hs c rfl _
  cases pre with
  | nil =>
      -- the only check of the run is its first step
      obtain ⟨rfl, rfl⟩ := Prod.mk.inj (Option.some.inj hs)
      have hnone : {c' | ((hubRooms oneRoom).init.conn c').LetIn} = ∅ :=
        Set.eq_empty_of_forall_notMem fun c' hc' => hc'.1.1 rfl
      rw [hnone, Set.ncard_empty]
      decide
  | cons b pre =>
      have htail : pre ++ [.life c .accept] ++ rest = (connect ⟨1, "p"⟩).tail :=
        (List.cons.inj hrest).2
      have hmem : RoomsAction.life c .accept ∈ (connect ⟨1, "p"⟩).tail := by
        rw [← htail]
        simp
      exact absurd hmem (by simp [connect])

/-- More registered connections than the limit. -/
theorem not_registered_le {d : Deployment} {s : HubRooms} {L : List Connection} (hnodup : L.Nodup)
    (hL : ∀ c ∈ L, (s.conn c).Registered) (hlen : d.maxConnLimit < L.length) :
    ¬ ({c | (s.conn c).Registered}.Finite ∧
      ({c | (s.conn c).Registered}.ncard : ℤ) ≤ d.maxConnLimit) := by
  rintro ⟨hfin, hle⟩
  have hsub : (L.toFinset : Set Connection) ⊆ {c | (s.conn c).Registered} := fun c hc =>
    hL c (List.mem_toFinset.mp hc)
  have hcard := Set.ncard_le_ncard hsub hfin
  rw [Set.ncard_coe_finset, List.toFinset_card_of_nodup hnodup] at hcard
  omega

/-- A server for one connection. -/
def oneSeat : Deployment := { oneRoom with maxConnLimit := 1 }

/-- Two connections one after the other exceed a limit of one; three whose checks come before the
first `++` exceed it as well. -/
theorem limit_exceeded :
    (∃ r : (hubRooms oneSeat).Run, r.acts = connect ⟨1, "p"⟩ ++ connect ⟨2, "q"⟩ ∧
      ¬ r.Always fun s _ => {c | (s.conn c).Registered}.Finite ∧
        ({c | (s.conn c).Registered}.ncard : ℤ) ≤ oneSeat.maxConnLimit) ∧
    ∃ r : (hubRooms oneSeat).Run,
      r.acts = [.life ⟨1, "p"⟩ .accept, .life ⟨2, "q"⟩ .accept, .life ⟨3, "r"⟩ .accept] ++
        (connect ⟨1, "p"⟩).tail ++ (connect ⟨2, "q"⟩).tail ++ (connect ⟨3, "r"⟩).tail ∧
      ¬ r.Always fun s _ => {c | (s.conn c).Registered}.Finite ∧
        ({c | (s.conn c).Registered}.ncard : ℤ) ≤ oneSeat.maxConnLimit := by
  constructor
  · refine ⟨.ofActs _ (by decide), rfl, fun hall => ?_⟩
    refine not_registered_le (L := [⟨1, "p"⟩, ⟨2, "q"⟩]) (by decide) ?_ (by decide) hall.last
    decide
  · refine ⟨.ofActs _ (by decide), rfl, fun hall => ?_⟩
    refine not_registered_le (L := [⟨1, "p"⟩, ⟨2, "q"⟩, ⟨3, "r"⟩]) (by decide) ?_ (by decide)
      hall.last
    decide

end Skytime
