/-
# Skytime.Hub.Entries — what the connection map of a hub holds, whatever the loop does.

`HubView.Sound` says that every entry stands under its own peer id and has an open send queue. It
needs no assumption on the order of registrations: both branches that close a queue delete the key
of the connection they close. A sound hub never panics in its broadcast branch; the only panic
left is the `close` of the unregister branch.
-/
import Skytime.Hub.Loop

namespace Skytime

open Process

namespace HubView

/-- Entries stand under their own peer id and their send queues are open. -/
structure Sound (v : HubView) : Prop where
  peer : ∀ {k c}, v.hub.connections.lookup k = some c → c.peerId = k
  entry_open : ∀ {k c}, v.hub.connections.lookup k = some c → (v.send c).closed = false

/-! ## Every step of the loop keeps the entries sound -/

theorem Sound.register {v : HubView} (hs : v.Sound) {c : Connection}
    (hopen : (v.send c).closed = false) : (v.register c).1.Sound := by
  constructor
  · intro k c' hk
    simp only [HubView.register, GoMap.lookup_insert] at hk
    split at hk
    · rename_i hkc
      rw [hkc, ← Option.some.inj hk]
    · exact hs.peer hk
  · intro k c' hk
    simp only [HubView.register, GoMap.lookup_insert] at hk ⊢
    split at hk
    · rwa [← Option.some.inj hk]
    · exact hs.entry_open hk

/-- What is left after deleting the key of `c` is not `c`. -/
theorem Sound.ne_of_erase {v : HubView} (hs : v.Sound) {c c' : Connection} {k : String}
    (hk : Finmap.lookup k (v.hub.connections.erase c.peerId) = some c') :
    c' ≠ c ∧ v.hub.connections.lookup k = some c' := by
  rw [GoMap.lookup_erase] at hk
  split at hk
  · exact absurd hk (by simp)
  · rename_i hne
    refine ⟨?_, hk⟩
    rintro rfl
    exact hne (hs.peer hk).symm

/-- Closing the queue of `c` and deleting its key keeps the rest sound. -/
theorem Sound.erase_close {v : HubView} (hs : v.Sound) {c : Connection}
    {ch : Chan PushMsg sendCap} {h : Hub} {p : Bool}
    (hconn : h.connections = v.hub.connections.erase c.peerId) :
    Sound ⟨h, Function.update v.send c ch, p⟩ := by
  constructor
  · intro k c' hk
    simp only [hconn] at hk
    exact hs.peer (hs.ne_of_erase hk).2
  · intro k c' hk
    simp only [hconn] at hk
    obtain ⟨hne, hk'⟩ := hs.ne_of_erase hk
    simp only [Function.update_of_ne hne]
    exact hs.entry_open hk'

theorem Sound.unregister {v v' : HubView} {c : Connection} {o : List Event} (hs : v.Sound)
    (h : v.Unregister c v' o) : v'.Sound := by
  cases h with
  | absent => exact hs
  | panic hkey hclosed =>
      constructor
      · intro k c' hk
        exact hs.peer (hs.ne_of_erase hk).2
      · intro k c' hk
        exact hs.entry_open (hs.ne_of_erase hk).2
  | close => exact hs.erase_close rfl

theorem Sound.act {v v' : HubView} {a : HubAction} {o : List Event} (hs : v.Sound)
    (h : v.Act a v' o) : v'.Sound := by
  cases h with
  | take | skip | panic | rangeDone | tick => exact ⟨hs.peer, hs.entry_open⟩
  | @put m k rest c ch hloop hkey hopen hroom hbuf hch =>
      refine ⟨hs.peer, ?_⟩
      intro k' c' hk
      simp only [Function.update_apply]
      split
      · exact hch
      · exact hs.entry_open hk
  | overflow => exact hs.erase_close rfl

/-- The broadcast branch of a sound hub does not panic. -/
theorem Sound.act_panicked {v v' : HubView} {a : HubAction} {o : List Event} (hs : v.Sound)
    (h : v.Act a v' o) : v'.panicked = v.panicked := by
  cases h with
  | take | skip | put | overflow | rangeDone | tick => rfl
  | panic hloop hkey hclosed =>
      rw [hs.entry_open hkey] at hclosed
      exact absurd hclosed (by simp)

/-! ## What a step leaves alone -/

/-- A broadcast step touches the queue of a listed connection only. -/
theorem Sound.act_send {v v' : HubView} {a : HubAction} {o : List Event} (hs : v.Sound)
    (h : v.Act a v' o) {c : Connection} (hc : v.hub.connections.lookup c.peerId ≠ some c) :
    v'.send c = v.send c := by
  cases h with
  | take | skip | panic | rangeDone | tick => rfl
  | put hloop hkey | overflow hloop hkey =>
      apply Function.update_of_ne
      rintro rfl
      exact hc (hs.peer hkey ▸ hkey)

/-- An unregister request touches no other queue than that of its connection. -/
theorem Unregister.send {v v' : HubView} {c c' : Connection} {o : List Event}
    (h : v.Unregister c v' o) (hne : c' ≠ c) : v'.send c' = v.send c' := by
  cases h with
  | absent | panic => rfl
  | close => exact Function.update_of_ne hne _ _

/-- A broadcast step adds no entry. -/
theorem Act.lookup {v v' : HubView} {a : HubAction} {o : List Event} (h : v.Act a v' o)
    {k : String} {c : Connection} (hk : v'.hub.connections.lookup k = some c) :
    v.hub.connections.lookup k = some c := by
  cases h with
  | take | skip | panic | put | rangeDone | tick => exact hk
  | overflow =>
      simp only [GoMap.lookup_erase] at hk
      split at hk
      · exact absurd hk (by simp)
      · exact hk

/-- An unregister request adds no entry and leaves none of its own connection. -/
theorem Unregister.lookup {v v' : HubView} {c c' : Connection} {o : List Event} (hs : v.Sound)
    (h : v.Unregister c v' o) {k : String} (hk : v'.hub.connections.lookup k = some c') :
    c' ≠ c ∧ v.hub.connections.lookup k = some c' := by
  cases h with
  | absent hkey =>
      refine ⟨?_, hk⟩
      rintro rfl
      rw [hs.peer hk, hk] at hkey
      exact absurd hkey (by simp)
  | panic | close => exact hs.ne_of_erase hk

/-! ## The walk of a broadcast -/

/-- The keys still to be visited are distinct and present. -/
def WalkOk (v : HubView) : Prop :=
  ∀ m rest, v.hub.loop = .fanout m rest →
    rest.Nodup ∧ ∀ k ∈ rest, ∃ c, v.hub.connections.lookup k = some c

theorem WalkOk.act {v v' : HubView} {a : HubAction} {o : List Event} (hs : v.Sound)
    (hw : v.WalkOk) (h : v.Act a v' o) : v'.WalkOk := by
  intro m' rest' hloop'
  cases h with
  | @take order m ch hloop hbuf hch horder =>
      obtain ⟨rfl, rfl⟩ := Loop.fanout.inj hloop'
      exact ⟨horder.nodup, fun k hk => horder.mem_iff.mp hk⟩
  | skip hloop | panic hloop | put hloop =>
      obtain ⟨rfl, rfl⟩ := Loop.fanout.inj hloop'
      obtain ⟨hnd, hin⟩ := hw _ _ hloop
      exact ⟨(List.nodup_cons.mp hnd).2, fun k hk => hin k (List.mem_cons_of_mem _ hk)⟩
  | @overflow m k rest c ch hloop hkey =>
      obtain ⟨rfl, rfl⟩ := Loop.fanout.inj hloop'
      obtain ⟨hnd, hin⟩ := hw _ _ hloop
      refine ⟨(List.nodup_cons.mp hnd).2, fun k' hk' => ?_⟩
      -- the deleted key is the one just visited, so it is not among the rest
      have hne : k' ≠ c.peerId := by
        rw [hs.peer hkey]
        rintro rfl
        exact (List.nodup_cons.mp hnd).1 hk'
      simp only [GoMap.lookup_erase, if_neg hne]
      exact hin k' (List.mem_cons_of_mem _ hk')
  | rangeDone => exact absurd hloop' (by simp)
  | tick => exact hw _ _ hloop'

end HubView

end Skytime
