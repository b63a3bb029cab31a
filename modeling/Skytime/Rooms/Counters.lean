/-
# Skytime.Rooms.Counters — `total_peer_cnt`, the rooms' `peercnt` and the entries of their maps.

Three counts are kept by different goroutines. Each of them is right about something: `peercnt`
counts registrations less removals, `total_peer_cnt` counts the connections between their `++` and
their `--`, and the length of a map counts peer ids. They agree while every registration finds its
key absent; a registration that overwrites an entry makes `peercnt` drift away from the length, and
no later step takes the drift back.
-/
import Mathlib.Algebra.BigOperators.Ring.Finset
import Skytime.Process.Census
import Skytime.Rooms.Invariant

namespace Skytime

open Process

/-! ## The drift of a room -/

/-- By how much `peercnt` exceeds the number of entries. -/
def Hub.drift (h : Hub) : ℤ := h.peercnt - h.connections.len

namespace HubView

theorem register_drift_of_absent {v : HubView} {c : Connection}
    (h : v.hub.connections.lookup c.peerId = none) : (v.register c).1.hub.drift = v.hub.drift := by
  simp only [register, Hub.drift, GoMap.len_insert_of_absent h]
  omega

/-- A registration that overwrites an entry counts it once more. -/
theorem register_drift_of_present {v : HubView} {c c' : Connection}
    (h : v.hub.connections.lookup c.peerId = some c') :
    (v.register c).1.hub.drift = v.hub.drift + 1 := by
  simp only [register, Hub.drift, GoMap.len_insert_of_present h]
  omega

/-- An unregister request that does not panic removes an entry and counts it, or does neither. -/
theorem Unregister.drift {v v' : HubView} {c : Connection} {o : List Event}
    (h : v.Unregister c v' o) (hp : v'.panicked = false) : v'.hub.drift = v.hub.drift := by
  cases h with
  | absent => rfl
  | panic => exact absurd hp (by simp)
  | close hkey =>
      have hlen := GoMap.len_erase_of_present hkey
      simp only [Hub.drift]
      omega

theorem Act.drift {v v' : HubView} {a : HubAction} {o : List Event} (hs : v.Sound)
    (h : v.Act a v' o) : v'.hub.drift = v.hub.drift := by
  cases h with
  | take | skip | panic | put | rangeDone | tick => rfl
  | overflow hloop hkey =>
      have hlen := GoMap.len_erase_of_present ((hs.peer hkey).symm ▸ hkey)
      simp only [Hub.drift]
      omega

end HubView

namespace HubRooms

variable {d : Deployment} {s t : HubRooms} {a : RoomsAction} {o : List Event}

/-- A step that registers a connection finds its key absent. -/
def KeyFree (d : Deployment) (s : HubRooms) (a : RoomsAction) : Prop :=
  ∀ c, a = .register c → (s.rooms (d.getRoomId c.peerId)).connections.lookup c.peerId = none

theorem drift_update {rooms : String → Hub} {r : String} {h : Hub}
    (hd : h.drift = (rooms r).drift) (r' : String) :
    (Function.update rooms r h r').drift = (rooms r').drift := by
  rw [Function.update_apply]
  split
  · rename_i hr
    rw [hr, hd]
  · rfl

/-- Only a registration that overwrites an entry changes a drift, by one. -/
theorem Step.drift (hok : s.RoomsOk d) (h : s.Step d a t o) (hp : t.panicked = false) :
    (KeyFree d s a ∧ ∀ r, (t.rooms r).drift = (s.rooms r).drift) ∨
      ∃ c, a = .register c ∧ (¬ KeyFree d s a) ∧ ∀ r, (t.rooms r).drift =
        (s.rooms r).drift + if r = d.getRoomId c.peerId then 1 else 0 := by
  cases h with
  | @register c v hreg hloop hv =>
      subst hv
      cases hkey : (s.rooms (d.getRoomId c.peerId)).connections.lookup c.peerId with
      | none =>
          refine .inl ⟨?_, drift_update (HubView.register_drift_of_absent hkey)⟩
          intro c' hc'
          obtain rfl := RoomsAction.register.inj hc'
          exact hkey
      | some c' =>
          refine .inr ⟨c, rfl, fun hfree => ?_, fun r => ?_⟩
          · exact absurd ((hfree c rfl).symm.trans hkey) (by simp)
          · show (Function.update s.rooms _ _ r).drift = _
            rw [Function.update_apply]
            split
            · rename_i hr
              rw [hr]
              exact HubView.register_drift_of_present hkey
            · exact (add_zero _).symm
  | unregister hreader hloop hv => exact .inl ⟨by simp [KeyFree], drift_update (hv.drift hp)⟩
  | hub hr hv => exact .inl ⟨by simp [KeyFree], drift_update (hv.drift (hok.sound _))⟩
  | push => exact .inl ⟨by simp [KeyFree], drift_update rfl⟩
  | life | drain | start | acquire | skipRoom | absent | found | sendPeer | sendPanic | finish =>
      exact .inl ⟨by simp [KeyFree], fun _ => rfl⟩

/-- No step reduces a drift. -/
theorem Step.drift_le (hok : s.RoomsOk d) (h : s.Step d a t o) (hp : t.panicked = false)
    (r : String) : (s.rooms r).drift ≤ (t.rooms r).drift := by
  rcases h.drift hok hp with ⟨_, heq⟩ | ⟨c, _, _, heq⟩
  · exact (heq r).ge
  · rw [heq r]
    split <;> omega

end HubRooms

/-! ## The total -/

/-- The connection is between `total_peer_cnt++` and `total_peer_cnt--`. -/
def ConnState.Counted (x : ConnState) : Prop :=
  (x.handler = .posting ∨ x.handler = .goWriter ∨ x.handler = .goReader ∨ x.handler = .finished) ∧
    x.reader ≠ .posting ∧ x.reader ≠ .returned

/-- The hub of its room has processed the unregister request of the connection. -/
def ConnState.Left (x : ConnState) : Prop :=
  x.reader = .counting ∨ x.reader = .posting ∨ x.reader = .returned

/-- The hub of its room has processed the register request of the connection and not its
unregister request. -/
def ConnState.Handed (x : ConnState) : Prop := x.Entered ∧ ¬ x.Left

/-- What a step of a connection's goroutines adds to `total_peer_cnt`. -/
def LifeAction.peers : LifeAction → ℤ
  | .countUp => 1
  | .countDown => -1
  | _ => 0

/-- A step adds to `total_peer_cnt` when the connection becomes counted, subtracts when it is
counted no more, and leaves it alone otherwise. -/
theorem ConnState.Step.counted {x x' : ConnState} {a : LifeAction} (h : x.Step a x')
    (hok : x.ReaderOk) :
    (a.peers = 1 ∧ ¬ x.Counted ∧ x'.Counted) ∨ (a.peers = -1 ∧ x.Counted ∧ ¬ x'.Counted) ∨
      (a.peers = 0 ∧ (x'.Counted ↔ x.Counted)) := by
  have hstart : x.handler ≠ .finished → x.reader = .notStarted := fun hne => by
    by_contra hr
    exact hne (hok hr)
  cases h with
  | refuse hx | accept hx => exact .inr (.inr ⟨rfl, by simp [Counted, hx]⟩)
  | countUp hx =>
      have hr := hstart (by rw [hx]; simp)
      exact .inl ⟨rfl, by simp [Counted, hx], by simp [Counted, hr]⟩
  | posted hx | goWriter hx => exact .inr (.inr ⟨rfl, by simp [Counted, hx]⟩)
  | goReader hx =>
      have hr := hstart (by rw [hx]; simp)
      exact .inr (.inr ⟨rfl, by simp [Counted, hx, hr]⟩)
  | writerFails | writerEnds => exact .inr (.inr ⟨rfl, Iff.rfl⟩)
  | readerStops hx => exact .inr (.inr ⟨rfl, by simp [Counted, hx]⟩)
  | countDown hx =>
      have hfin := hok (by rw [hx]; simp)
      exact .inr (.inl ⟨rfl, by simp [Counted, hx, hfin], by simp [Counted]⟩)
  | postedOff hx => exact .inr (.inr ⟨rfl, by simp [Counted, hx]⟩)

theorem ConnState.Step.left_iff {x x' : ConnState} {a : LifeAction} (h : x.Step a x')
    (hok : x.ReaderOk) : x'.Left ↔ x.Left := by
  cases h with
  | refuse | accept | countUp | posted | goWriter | writerFails | writerEnds => exact Iff.rfl
  | goReader hx =>
      have hr : x.reader = .notStarted := by
        by_contra hr
        exact absurd ((hok hr).symm.trans hx) (by simp)
      simp [Left, hr]
  | readerStops hx | countDown hx | postedOff hx => simp [Left, hx]

theorem ConnState.Step.handed_iff {x x' : ConnState} {a : LifeAction} (h : x.Step a x')
    (hok : x.ReaderOk) : x'.Handed ↔ x.Handed := by
  rw [Handed, Handed, h.entered_iff, h.left_iff hok]

namespace HubRooms

variable {d : Deployment} {s t : HubRooms} {a : RoomsAction} {o : List Event}

/-- A step of a connection's goroutines with what it does to `total_peer_cnt`. -/
theorem lifeStep_total {c : Connection} {la : LifeAction} (h : s.lifeStep d c la = some t) :
    ∃ x, (s.conn c).Step la x ∧ t.conn = Function.update s.conn c x ∧
      t.stats.totalPeerCnt = s.stats.totalPeerCnt + la.peers := by
  have hsame : s.stats.totalPeerCnt = s.stats.totalPeerCnt + 0 := (add_zero _).symm
  cases la with
  | accept =>
      obtain ⟨hx, h⟩ := Option.ite_none_right_eq_some.mp h
      split at h
      · obtain rfl := Option.some.inj h
        exact ⟨_, .refuse hx, rfl, hsame⟩
      · obtain rfl := Option.some.inj h
        exact ⟨_, .accept hx, rfl, hsame⟩
  | countUp =>
      obtain ⟨hx, rfl⟩ := Machine.guard_eq_some_iff.mp h
      exact ⟨_, .countUp hx, rfl, rfl⟩
  | posted =>
      obtain ⟨hx, rfl⟩ := Machine.guard_eq_some_iff.mp h
      exact ⟨_, .posted hx, rfl, hsame⟩
  | goWriter =>
      obtain ⟨hx, rfl⟩ := Machine.guard_eq_some_iff.mp h
      exact ⟨_, .goWriter hx, rfl, hsame⟩
  | goReader =>
      obtain ⟨hx, rfl⟩ := Machine.guard_eq_some_iff.mp h
      exact ⟨_, .goReader hx, rfl, hsame⟩
  | writerFails =>
      obtain ⟨hx, rfl⟩ := Machine.guard_eq_some_iff.mp h
      exact ⟨_, .writerFails hx, rfl, hsame⟩
  | writerEnds =>
      simp only [lifeStep] at h
      split at h
      · rename_i hx hrecv
        obtain rfl := Option.some.inj h
        exact ⟨_, .writerEnds hx, rfl, hsame⟩
      · exact absurd h (by simp)
  | readerStops =>
      obtain ⟨hx, rfl⟩ := Machine.guard_eq_some_iff.mp h
      exact ⟨_, .readerStops hx, rfl, hsame⟩
  | countDown =>
      obtain ⟨hx, rfl⟩ := Machine.guard_eq_some_iff.mp h
      exact ⟨_, .countDown hx, rfl, rfl⟩
  | postedOff =>
      obtain ⟨hx, rfl⟩ := Machine.guard_eq_some_iff.mp h
      exact ⟨_, .postedOff hx, rfl, hsame⟩

/-- `total_peer_cnt` is the number of counted connections. -/
def TotalOk (s : HubRooms) : Prop :=
  ∃ n : ℕ, Census ConnState.Counted s.conn n ∧ s.stats.totalPeerCnt = n

theorem TotalOk.init (d : Deployment) : (hubRooms d).init.TotalOk :=
  ⟨0, .start (fun _ => by simp [ConnState.Counted, hubRooms, ConnState.fresh]), rfl⟩

/-- A connection that moves on without becoming or ceasing to be counted. -/
theorem TotalOk.keep (h : s.TotalOk) {c : Connection} {x : ConnState}
    (hx : x.Counted ↔ (s.conn c).Counted) (hconn : t.conn = Function.update s.conn c x)
    (htotal : t.stats.totalPeerCnt = s.stats.totalPeerCnt) : t.TotalOk := by
  obtain ⟨n, hn, hcnt⟩ := h
  refine ⟨n, ?_, htotal.trans hcnt⟩
  rw [hconn]
  exact hn.keep hx

theorem TotalOk.life (h : s.TotalOk) (hok : s.RoomsOk d) {c : Connection} {la : LifeAction}
    (hstep : s.lifeStep d c la = some t) : t.TotalOk := by
  obtain ⟨x, hx, hconn, htotal⟩ := lifeStep_total hstep
  rcases hx.counted (hok.readerOk c) with ⟨hp, hout, hin⟩ | ⟨hp, hin, hout⟩ | ⟨hp, hsame⟩
  · obtain ⟨n, hn, hcnt⟩ := h
    refine ⟨n + 1, ?_, ?_⟩
    · rw [hconn]
      exact hn.enter hout hin
    · rw [htotal, hp, hcnt, Nat.cast_add, Nat.cast_one]
  · obtain ⟨n, hn, hcnt⟩ := h
    obtain ⟨k, rfl, hk⟩ := hn.leave hin hout
    refine ⟨k, ?_, ?_⟩
    · rw [hconn]
      exact hk
    · rw [htotal, hp, hcnt, Nat.cast_add, Nat.cast_one]
      omega
  · exact h.keep hsame hconn (by rw [htotal, hp, add_zero])

theorem TotalOk.step (h : s.TotalOk) (hok : s.RoomsOk d)
    (hstep : (hubRooms d).step s a = some (t, o)) : t.TotalOk := by
  have hcases := (step_cases hstep).2
  cases hcases with
  | life =>
      simp only [hubRooms, HubRooms.step] at hstep
      split at hstep
      · exact absurd hstep (by simp)
      · obtain ⟨hlife, _⟩ := Machine.silent_eq_some_iff.mp hstep
        exact h.life hok hlife
  | register hreg => exact h.keep (by simp [ConnState.Counted, hreg]) rfl rfl
  | unregister hreader => exact h.keep (by simp [ConnState.Counted, hreader]) rfl rfl
  | hub | drain | start | acquire | push | skipRoom | absent | found | sendPeer | sendPanic |
    finish => exact h

/-! ## Connections and entries -/

/-- The entry of its peer is the connection itself. -/
def Listed (d : Deployment) (s : HubRooms) (c : Connection) : Prop :=
  (s.rooms (d.getRoomId c.peerId)).connections.lookup c.peerId = some c

/-- What the log says of connections that a hub has dropped or unregistered, and who is listed. -/
structure EntriesOk (d : Deployment) (s : HubRooms) (l : List Event) : Prop where
  left : ∀ {c}, Event.unregistered c ∈ l → (s.conn c).Left
  handed : ∀ {c}, s.Listed d c → (s.conn c).Handed
  /-- without overwriting, a connection loses its entry only when it leaves or is dropped -/
  listed : s.panicked = false → ∀ {c}, (s.conn c).Handed →
    s.Listed d c ∨ (s.send c).closed = true ∧ ∃ m, Event.overflow c m ∈ l

theorem EntriesOk.init (d : Deployment) : (hubRooms d).init.EntriesOk d [] := by
  refine ⟨fun h => absurd h (by simp), fun h => ?_, fun _ {c} h => ?_⟩
  · exact absurd h (by simp [Listed, hubRooms, newHub, Finmap.lookup_empty])
  · exact absurd rfl h.1.1

/-- A step that changes no entry, closes no queue and changes no position beyond what `Handed` and
`Left` allow. -/
theorem EntriesOk.congr {l : List Event} (h : s.EntriesOk d l)
    (hrooms : ∀ r, (t.rooms r).connections = (s.rooms r).connections)
    (hclosed : ∀ c, (s.send c).closed = true → (t.send c).closed = true)
    (hleft : ∀ c, (t.conn c).Left ↔ (s.conn c).Left)
    (hhanded : ∀ c, (t.conn c).Handed ↔ (s.conn c).Handed)
    (hp : t.panicked = false → s.panicked = false)
    (ho : ∀ c, Event.unregistered c ∉ o) : t.EntriesOk d (l ++ o) := by
  have hlisted : ∀ c, t.Listed d c ↔ s.Listed d c := fun c => by
    rw [Listed, Listed, hrooms]
  constructor
  · intro c hc
    rcases List.mem_append.mp hc with hc | hc
    · exact (hleft c).mpr (h.left hc)
    · exact absurd hc (ho c)
  · intro c hc
    exact (hhanded c).mpr (h.handed ((hlisted c).mp hc))
  · intro hrun c hc
    rcases h.listed (hp hrun) ((hhanded c).mp hc) with hl | ⟨hcl, m, hm⟩
    · exact .inl ((hlisted c).mpr hl)
    · exact .inr ⟨hclosed c hcl, m, List.mem_append_left _ hm⟩

/-- Who is listed after a step of the hub of room `r`. -/
theorem listed_putView {r : String} {v : HubView} {x : Connection → ConnState}
    (c : Connection) :
    Listed d { s.putView r v with conn := x } c ↔
      if d.getRoomId c.peerId = r then v.hub.connections.lookup c.peerId = some c
      else s.Listed d c := by
  simp only [Listed, putView, Function.update_apply]
  split <;> rfl

/-- Under a key that is free, a connection is added and the others stay as they are. -/
theorem listed_register {c : Connection} {x : Connection → ConnState}
    (hkey : (s.rooms (d.getRoomId c.peerId)).connections.lookup c.peerId = none)
    (c' : Connection) :
    Listed d { s.putView (d.getRoomId c.peerId)
      ((s.view (d.getRoomId c.peerId)).register c).1 with conn := x } c' ↔
        c' = c ∨ s.Listed d c' := by
  rw [listed_putView]
  by_cases hcc : c' = c
  · subst hcc
    rw [if_pos rfl]
    exact iff_of_true (Finmap.lookup_insert _) (.inl rfl)
  · rw [or_iff_right hcc]
    split
    · rename_i hroom
      rw [Listed, hroom]
      simp only [HubView.register, GoMap.lookup_insert]
      split
      · -- the key was free
        rename_i hpeer
        have hfree : (s.rooms (d.getRoomId c.peerId)).connections.lookup c'.peerId = none :=
          hpeer ▸ hkey
        rw [hfree]
        exact iff_of_false (fun heq => hcc (Option.some.inj heq).symm) (by simp)
      · rfl
    · rfl

/-- Who is listed after `c` has been unregistered is another connection and was listed before. -/
theorem of_listed_unregister (hok : s.RoomsOk d) {c c' : Connection} {v : HubView}
    {x : Connection → ConnState} (hv : (s.view (d.getRoomId c.peerId)).Unregister c v o)
    (hl : Listed d { s.putView (d.getRoomId c.peerId) v with conn := x } c') :
    c' ≠ c ∧ s.Listed d c' := by
  rw [listed_putView] at hl
  split at hl
  · rename_i hroom
    obtain ⟨hne, hl⟩ := hv.lookup (hok.sound _) hl
    exact ⟨hne, by rw [Listed, hroom]; exact hl⟩
  · rename_i hroom
    refine ⟨?_, hl⟩
    rintro rfl
    exact hroom rfl

/-- Unregistering a connection that is listed itself, or whose queue has been closed before, takes
no entry from another one. -/
theorem listed_unregister {c c' : Connection} {v : HubView} {x : Connection → ConnState}
    (hv : (s.view (d.getRoomId c.peerId)).Unregister c v o) (hrun : v.panicked = false)
    (hown : s.Listed d c ∨ (s.send c).closed = true) (hcc : c' ≠ c) (hl : s.Listed d c') :
    Listed d { s.putView (d.getRoomId c.peerId) v with conn := x } c' := by
  rw [listed_putView]
  split
  · rename_i hroom
    rw [Listed, hroom] at hl
    cases hv with
    | absent hkey => exact hl
    | panic => exact absurd hrun (by simp)
    | @close c'' ch hkey hopen =>
        simp only [GoMap.lookup_erase]
        split
        · -- the entry deleted would be that of `c'`, but `c` has its own
          rename_i hpeer
          rcases hown with hself | hcl
          · rw [hpeer, hself] at hl
            exact absurd (Option.some.inj hl).symm hcc
          · exact absurd (hopen.symm.trans hcl) (by simp)
        · exact hl
  · exact hl

/-- A connection whose handler is at `register` is not listed, and its reader has not started. -/
theorem EntriesOk.of_registering {l : List Event} (h : s.EntriesOk d l) (hok : s.RoomsOk d)
    {c : Connection} (hreg : (s.conn c).handler = .registering) :
    ¬ s.Listed d c ∧ (s.conn c).reader = .notStarted := by
  constructor
  · intro hl
    exact (h.handed hl).1.2.2 hreg
  · by_contra hr
    exact absurd ((hok.readerOk c hr).symm.trans hreg) (by simp)

theorem EntriesOk.register {l : List Event} (h : s.EntriesOk d l) (hok : s.RoomsOk d)
    {c : Connection} (hreg : (s.conn c).handler = .registering)
    (hkey : (s.rooms (d.getRoomId c.peerId)).connections.lookup c.peerId = none) :
    EntriesOk d ((s.putView (d.getRoomId c.peerId)
      ((s.view (d.getRoomId c.peerId)).register c).1).setConn c
        { s.conn c with handler := .counting }) (l ++ [.registered c]) := by
  obtain ⟨hnot, hreader⟩ := h.of_registering hok hreg
  have hself : ConnState.Handed { s.conn c with handler := .counting } := by
    simp [ConnState.Handed, ConnState.Entered, ConnState.Left, hreader]
  constructor
  · intro c' hc'
    have hold : (s.conn c').Left := by
      rcases List.mem_append.mp hc' with hc' | hc'
      · exact h.left hc'
      · exact absurd hc' (by simp)
    show (Function.update s.conn c _ c').Left
    rw [Function.update_apply]
    split
    · rename_i hcc
      exact hcc ▸ hold
    · exact hold
  · intro c' hc'
    show (Function.update s.conn c _ c').Handed
    rcases (listed_register hkey c').mp hc' with rfl | hl
    · rw [Function.update_self]
      exact hself
    · have hcc : c' ≠ c := by
        rintro rfl
        exact hnot hl
      rw [Function.update_of_ne hcc]
      exact h.handed hl
  · intro hp c' hc'
    by_cases hcc : c' = c
    · exact .inl ((listed_register hkey c').mpr (.inl hcc))
    · have hold : (s.conn c').Handed := by
        have hc' : (Function.update s.conn c _ c').Handed := hc'
        rwa [Function.update_of_ne hcc] at hc'
      rcases h.listed hp hold with hl | ⟨hcl, m, hm⟩
      · exact .inl ((listed_register hkey c').mpr (.inr hl))
      · exact .inr ⟨hcl, m, List.mem_append_left _ hm⟩

theorem EntriesOk.unregister {l : List Event} (h : s.EntriesOk d l) (hok : s.RoomsOk d)
    (hrun : s.panicked = false) {c : Connection} {v : HubView}
    (hreader : (s.conn c).reader = .unregistering)
    (hv : (s.view (d.getRoomId c.peerId)).Unregister c v o) :
    EntriesOk d ((s.putView (d.getRoomId c.peerId) v).setConn c
      { s.conn c with reader := .counting }) (l ++ o) := by
  constructor
  · intro c' hc'
    show (Function.update s.conn c _ c').Left
    rw [Function.update_apply]
    split
    · exact .inl rfl
    · rename_i hcc
      rcases List.mem_append.mp hc' with hc' | hc'
      · exact h.left hc'
      · -- the request processed is that of `c`
        cases hv with
        | absent | panic | close => exact absurd hc' (by simp [hcc])
  · intro c' hc'
    obtain ⟨hcc, hl⟩ := of_listed_unregister hok hv hc'
    show (Function.update s.conn c _ c').Handed
    rw [Function.update_of_ne hcc]
    exact h.handed hl
  · intro hp c' hc'
    have hc' : (Function.update s.conn c _ c').Handed := hc'
    by_cases hcc : c' = c
    · rw [hcc, Function.update_self] at hc'
      exact absurd (.inl rfl) hc'.2
    · rw [Function.update_of_ne hcc] at hc'
      -- `c` has been handed over too, so it is listed or was dropped
      have hown : s.Listed d c ∨ (s.send c).closed = true := by
        have hfin := hok.readerOk c (by rw [hreader]; simp)
        have hhanded : (s.conn c).Handed := by
          simp [ConnState.Handed, ConnState.Entered, ConnState.Left, hfin, hreader]
        exact (h.listed hrun hhanded).imp_right And.left
      rcases h.listed hrun hc' with hl | ⟨hcl, m, hm⟩
      · exact .inl (listed_unregister hv hp hown hcc hl)
      · refine .inr ⟨?_, m, List.mem_append_left _ hm⟩
        show (v.send c').closed = true
        rw [hv.send hcc]
        exact hcl

theorem EntriesOk.hub {l : List Event} (h : s.EntriesOk d l) (hok : s.RoomsOk d)
    (hrun : s.panicked = false) {r : String} {ha : HubAction} {v : HubView}
    (hv : (s.view r).Act ha v o) : EntriesOk d (s.putView r v) (l ++ o) := by
  constructor
  · intro c hc
    rcases List.mem_append.mp hc with hc | hc
    · exact h.left hc
    · cases hv <;> exact absurd hc (by simp)
  · intro c hc
    have hl := (listed_putView (x := s.conn) c).mp hc
    split at hl
    · rename_i hroom
      exact h.handed (by rw [Listed, hroom]; exact hv.lookup hl)
    · exact h.handed hl
  · intro hp c hc
    rcases h.listed hrun hc with hl | ⟨hcl, m, hm⟩
    · by_cases hroom : d.getRoomId c.peerId = r
      · have hkey : (s.rooms r).connections.lookup c.peerId = some c := hroom ▸ hl
        have hstay : v.hub.connections.lookup c.peerId = some c → (s.putView r v).Listed d c := by
          intro hv'
          apply (listed_putView (x := s.conn) c).mpr
          rwa [if_pos hroom]
        cases hv with
        | take | skip | put | rangeDone | tick | panic => exact .inl (hstay hkey)
        | @overflow m k rest c' ch hloop hkey' hopen hfull hbuf hch =>
            by_cases hpeer : c.peerId = c'.peerId
            · -- the connection that is dropped is `c` itself
              have hk : k = c.peerId := ((hok.sound r).peer hkey').symm.trans hpeer.symm
              have hcc : c = c' := Option.some.inj (hkey.symm.trans (hk ▸ hkey'))
              refine .inr ⟨?_, m, List.mem_append_right _ (by simp [hcc])⟩
              show (Function.update s.send c' ch c).closed = true
              rw [hcc, Function.update_self, hch]
            · refine .inl (hstay ?_)
              simp only [GoMap.lookup_erase, if_neg hpeer]
              exact hkey
      · refine .inl ((listed_putView (x := s.conn) c).mpr ?_)
        rwa [if_neg hroom]
    · refine .inr ⟨?_, m, List.mem_append_left _ hm⟩
      have hnot : (s.rooms r).connections.lookup c.peerId ≠ some c := by
        intro hk
        have hopen : (s.send c).closed = false := (hok.sound r).entry_open hk
        exact absurd (hopen.symm.trans hcl) (by simp)
      show (v.send c).closed = true
      rw [(hok.sound r).act_send hv hnot]
      exact hcl

theorem EntriesOk.step {l : List Event} (h : s.EntriesOk d l) (hok : s.RoomsOk d)
    (hrun : s.panicked = false) (hfree : KeyFree d s a) (hstep : s.Step d a t o) :
    t.EntriesOk d (l ++ o) := by
  cases hstep with
  | @life c la x n hx hend =>
      have hconn : ∀ {P : ConnState → Prop}, (P x ↔ P (s.conn c)) → ∀ c',
          P (Function.update s.conn c x c') ↔ P (s.conn c') := by
        intro P hP c'
        rw [Function.update_apply]
        split
        · rename_i hc
          rw [hc, hP]
        · rfl
      exact h.congr (fun _ => rfl) (fun _ hcl => hcl) (hconn (hx.left_iff (hok.readerOk c)))
        (hconn (hx.handed_iff (hok.readerOk c))) id (by simp)
  | register hreg hloop hv =>
      subst hv
      exact h.register hok hreg (hfree _ rfl)
  | unregister hreader hloop hv => exact h.unregister hok hrun hreader hv
  | hub hr hv => exact h.hub hok hrun hv
  | drain hdrain hbuf hch =>
      exact h.congr (fun _ => rfl) (fun c hcl => (closed_update hch c).trans hcl)
        (fun _ => Iff.rfl) (fun _ => Iff.rfl) id (by simp)
  | sendPeer hcall hopen hbuf hch =>
      exact h.congr (fun _ => rfl)
        (fun c hcl => (closed_update (hch.trans hopen.symm) c).trans hcl)
        (fun _ => Iff.rfl) (fun _ => Iff.rfl) id (by simp)
  | @push i m r roomIds ch hcall hr hbuf =>
      refine h.congr (fun r' => ?_) (fun _ hcl => hcl) (fun _ => Iff.rfl) (fun _ => Iff.rfl) id
        (by simp)
      simp only [setCall, Function.update_apply]
      split
      · rename_i hr'
        rw [hr']
      · rfl
  | start | acquire | skipRoom | absent | found | finish =>
      exact h.congr (fun _ => rfl) (fun _ hcl => hcl) (fun _ => Iff.rfl) (fun _ => Iff.rfl) id
        (by simp)
  | sendPanic =>
      exact h.congr (fun _ => rfl) (fun _ hcl => hcl) (fun _ => Iff.rfl) (fun _ => Iff.rfl)
        (fun hp => absurd hp (by simp)) (by simp)

/-! ## When the counters agree -/

/-- `total_peer_cnt` is the sum of `peercnt`, and `peercnt` is the number of entries. -/
def CountersAgree (d : Deployment) (s : HubRooms) : Prop :=
  s.stats.totalPeerCnt = ∑ r ∈ d.roomsIds.toFinset, (s.rooms r).peercnt ∧
    ∀ r ∈ d.roomsIds, (s.rooms r).peercnt = (s.rooms r).connections.len

/-- The process runs, no connection is in the middle of `register` or `unregister`, and the
connections that a hub has dropped have been unregistered. -/
structure Quiescent (s : HubRooms) (l : List Event) : Prop where
  running : s.panicked = false
  settled : ∀ c, (s.conn c).Settled
  dropped : ∀ c m, Event.overflow c m ∈ l → Event.unregistered c ∈ l

/-- With nothing in progress the counted connections are those that a hub has. -/
theorem Quiescent.counted_iff {l : List Event} (h : s.Quiescent l) (c : Connection) :
    (s.conn c).Counted ↔ (s.conn c).Handed := by
  obtain ⟨⟨hreg, hcnt, hpost⟩, hunreg, hcnt', hpost'⟩ := h.settled c
  rw [ConnState.Handed, ConnState.Entered, ConnState.Left, ConnState.Counted]
  cases hx : (s.conn c).handler <;> simp_all

/-- The rooms have as many entries as there are listed connections. -/
theorem sum_len (hok : s.RoomsOk d) {L : Finset Connection} (hL : ∀ c, c ∈ L ↔ s.Listed d c) :
    L.card = ∑ r ∈ d.roomsIds.toFinset, (s.rooms r).connections.len := by
  have hmaps : ∀ c ∈ L, d.getRoomId c.peerId ∈ d.roomsIds.toFinset := fun c _ =>
    List.mem_toFinset.mpr (d.getRoomId_mem c.peerId)
  rw [Finset.card_eq_sum_card_fiberwise hmaps]
  apply Finset.sum_congr rfl
  intro r _
  -- the entries of a room are its listed connections, by their peer ids
  refine Finset.card_bij (fun c _ => c.peerId) ?_ ?_ ?_
  · intro c hc
    obtain ⟨hc, hr⟩ := Finset.mem_filter.mp hc
    have hl : (s.rooms r).connections.lookup c.peerId = some c := hr ▸ (hL c).mp hc
    exact Finmap.mem_keys.mpr (Finmap.mem_iff.mpr ⟨c, hl⟩)
  · intro c hc c' hc' hpeer
    obtain ⟨hc, hr⟩ := Finset.mem_filter.mp hc
    obtain ⟨hc', hr'⟩ := Finset.mem_filter.mp hc'
    have hl : (s.rooms r).connections.lookup c.peerId = some c := hr ▸ (hL c).mp hc
    have hl' : (s.rooms r).connections.lookup c'.peerId = some c' := hr' ▸ (hL c').mp hc'
    have hpeer : c.peerId = c'.peerId := hpeer
    rw [hpeer, hl'] at hl
    exact (Option.some.inj hl).symm
  · intro k hk
    obtain ⟨c, hc⟩ := Finmap.mem_iff.mp (Finmap.mem_keys.mp hk)
    have hpeer : c.peerId = k := (hok.sound r).peer hc
    have hroom : d.getRoomId c.peerId = r := hok.home hc
    refine ⟨c, Finset.mem_filter.mpr ⟨(hL c).mpr ?_, hroom⟩, hpeer⟩
    rw [Listed, hroom, hpeer]
    exact hc

/-- Without drift, and with every connection of a hub listed, the counters agree. -/
theorem Quiescent.countersAgree {l : List Event} (h : s.Quiescent l) (hok : s.RoomsOk d)
    (htotal : s.TotalOk) (hentries : s.EntriesOk d l) (hdrift : ∀ r, (s.rooms r).drift = 0) :
    s.CountersAgree d := by
  have hcnt : ∀ r, (s.rooms r).peercnt = (s.rooms r).connections.len := fun r => by
    have hr := hdrift r
    rw [Hub.drift] at hr
    omega
  refine ⟨?_, fun r _ => hcnt r⟩
  obtain ⟨n, hn, htotal⟩ := htotal
  have hlisted : ∀ c, c ∈ hn.finite.toFinset ↔ s.Listed d c := by
    intro c
    rw [Set.Finite.mem_toFinset]
    refine (h.counted_iff c).trans ⟨fun hc => ?_, hentries.handed⟩
    rcases hentries.listed h.running hc with hl | ⟨_, m, hm⟩
    · exact hl
    · exact absurd (hentries.left (h.dropped c m hm)) hc.2
  calc s.stats.totalPeerCnt = (n : ℤ) := htotal
    _ = (hn.finite.toFinset.card : ℤ) :=
      congrArg Nat.cast (hn.card.symm.trans (Set.ncard_eq_toFinset_card _ hn.finite))
    _ = ∑ r ∈ d.roomsIds.toFinset, ((s.rooms r).connections.len : ℤ) := by
      rw [sum_len hok hlisted, Nat.cast_sum]
    _ = ∑ r ∈ d.roomsIds.toFinset, (s.rooms r).peercnt :=
      Finset.sum_congr rfl (fun r _ => (hcnt r).symm)

end HubRooms

/-- **In a state without a registration in progress, `total_peer_cnt`, the sum of `peercnt` and the
numbers of entries agree exactly when no registration of the run has overwritten an entry.** -/
theorem countersAgree_iff {d : Deployment} (r : (hubRooms d).Run)
    (hq : r.last.Quiescent r.log) :
    r.last.CountersAgree d ↔ r.EachStep fun s _ a => HubRooms.KeyFree d s a := by
  constructor
  · intro hagree
    refine r.eachStep_of_last
      (I := fun s _ => s.Inv d ∧ (s.panicked = false → ∀ r, 0 ≤ (s.rooms r).drift))
      (B := fun s _ => s.panicked = true ∨ ∃ r ∈ d.roomsIds, 0 < (s.rooms r).drift)
      ⟨HubRooms.Inv.init d, fun _ _ => le_refl _⟩ ?_ ?_ ?_ ?_
    · intro s l a t o hI ha
      obtain ⟨hrun, hstep⟩ := HubRooms.step_cases ha
      exact ⟨hI.1.step hstep, fun hp r => (hI.2 hrun r).trans (hstep.drift_le hI.1.rooms hp r)⟩
    · intro s l a t o hI hnot ha
      obtain ⟨hrun, hstep⟩ := HubRooms.step_cases ha
      by_cases hp : t.panicked = false
      · rcases hstep.drift hI.1.rooms hp with ⟨hfree, _⟩ | ⟨c, _, _, heq⟩
        · exact absurd hfree hnot
        · refine .inr ⟨d.getRoomId c.peerId, d.getRoomId_mem _, ?_⟩
          have hle := hI.2 hrun (d.getRoomId c.peerId)
          rw [heq, if_pos rfl]
          omega
      · exact .inl (by simpa using hp)
    · intro s l a t o hI hmark ha
      obtain ⟨hrun, hstep⟩ := HubRooms.step_cases ha
      by_cases hp : t.panicked = false
      · rcases hmark with hs | ⟨r, hr, hlt⟩
        · exact absurd (hrun.symm.trans hs) (by simp)
        · exact .inr ⟨r, hr, hlt.trans_le (hstep.drift_le hI.1.rooms hp r)⟩
      · exact .inl (by simpa using hp)
    · rintro (hp | ⟨r', hr', hlt⟩)
      · exact absurd (hq.running.symm.trans hp) (by simp)
      · have hcnt := hagree.2 r' hr'
        rw [Hub.drift] at hlt
        omega
  · intro hfree
    have hI := (r.always_of_eachStep
      (I := fun s l => s.Inv d ∧ s.TotalOk ∧ s.EntriesOk d l ∧
        (s.panicked = false → ∀ r, (s.rooms r).drift = 0))
      ⟨HubRooms.Inv.init d, HubRooms.TotalOk.init d, HubRooms.EntriesOk.init d, fun _ _ => rfl⟩
      (fun s l a t o hI hC ha => ?_) hfree).last
    · exact hq.countersAgree hI.1.rooms hI.2.1 hI.2.2.1 (hI.2.2.2 hq.running)
    · obtain ⟨hinv, htotal, hentries, hdrift⟩ := hI
      obtain ⟨hrun, hstep⟩ := HubRooms.step_cases ha
      refine ⟨hinv.step hstep, htotal.step hinv.rooms ha,
        hentries.step hinv.rooms hrun hC hstep, fun hp r => ?_⟩
      rcases hstep.drift hinv.rooms hp with ⟨_, heq⟩ | ⟨_, _, hnot, _⟩
      · rw [heq, hdrift hrun]
      · exact absurd hC hnot

/-! ## One peer that connects twice -/

/-- A peer connects and leaves again. -/
def connectAndLeave (c : Connection) : List RoomsAction :=
  connect c ++ [.life c .readerStops, .unregister c, .life c .countDown, .life c .postedOff]

/-- A peer that leaves before it connects again leaves the counters in agreement, so it has
overwritten no entry. -/
theorem countersAgree_reconnect :
    ∃ r : (hubRooms oneRoom).Run, r.acts = connectAndLeave ⟨1, "p"⟩ ++ connect ⟨2, "p"⟩ ∧
      r.last.CountersAgree oneRoom ∧ r.EachStep fun s _ a => HubRooms.KeyFree oneRoom s a := by
  let r : (hubRooms oneRoom).Run :=
    .ofActs (connectAndLeave ⟨1, "p"⟩ ++ connect ⟨2, "p"⟩) (by decide)
  have hagree : r.last.CountersAgree oneRoom := ⟨by decide, by decide⟩
  refine ⟨r, rfl, hagree, (countersAgree_iff r ⟨by decide, ?_, ?_⟩).mp hagree⟩
  · exact HubRooms.settled_of_exec r.exec_eq (by decide)
  · intro c m hm
    have hlog : Event.overflow c m ∈ [.registered ⟨1, "p"⟩, .unregistered ⟨1, "p"⟩,
      .closed ⟨1, "p"⟩, .registered ⟨2, "p"⟩] := hm
    exact absurd hlog (by simp)

/-- Two overlapping connections of one peer: the map has one entry, `peercnt` is two. -/
theorem countersDisagree_twoConnections :
    ∃ r : (hubRooms oneRoom).Run, r.acts = connect ⟨1, "p"⟩ ++ connect ⟨2, "p"⟩ ∧
      r.last.Quiescent r.log ∧ ¬ r.last.CountersAgree oneRoom := by
  let r : (hubRooms oneRoom).Run := .ofActs (connect ⟨1, "p"⟩ ++ connect ⟨2, "p"⟩) (by decide)
  refine ⟨r, rfl, ⟨by decide, HubRooms.settled_of_exec r.exec_eq (by decide), ?_⟩, ?_⟩
  · intro c m hm
    have hlog : Event.overflow c m ∈ [.registered ⟨1, "p"⟩, .registered ⟨2, "p"⟩] := hm
    exact absurd hlog (by simp)
  · intro hagree
    have hcnt := hagree.2 "room_0" (by decide)
    exact absurd hcnt (by decide)

end Skytime
