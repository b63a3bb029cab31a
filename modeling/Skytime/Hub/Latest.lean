/-
# Skytime.Hub.Latest — which connection of a peer the map lists.

A peer that reconnects is registered a second time while its first connection still waits for a
read timeout. `LatestListed` says that the entry of a peer is its newest connection as long as
that one has been neither unregistered nor dropped. The unregister branch looks the entry up by
peer id and does not compare it with the connection it unregisters, so the newest connection stays
listed along a run exactly when no unregister request meets the entry of another connection.
-/
import Skytime.Hub.Solo

namespace Skytime

open Process

/-! ## The newest connection of a peer -/

/-- The connection of peer `p` that a registration event names, if it names one. -/
def registeredAs (p : String) : Event → Option Connection
  | .registered c => if c.peerId = p then some c else none
  | _ => none

/-- The most recently registered connection of peer `p`. -/
def latest (p : String) (l : List Event) : Option Connection :=
  (l.filterMap (registeredAs p)).getLast?

theorem latest_append_of_none {p : String} {l o : List Event}
    (ho : ∀ e ∈ o, registeredAs p e = none) : latest p (l ++ o) = latest p l := by
  rw [latest, latest, List.filterMap_append, List.filterMap_eq_nil_iff.mpr ho, List.append_nil]

theorem latest_registered (p : String) (l : List Event) (c : Connection) :
    latest p (l ++ [.registered c]) = if c.peerId = p then some c else latest p l := by
  by_cases h : c.peerId = p <;> simp [latest, registeredAs, h]

/-- The entry of every peer is its newest connection, unless that has been unregistered or has been
dropped for a full queue. -/
def LatestListed (s : Solo) (l : List Event) : Prop :=
  ∀ p c, latest p l = some c → .unregistered c ∉ l → (∀ m, .overflow c m ∉ l) →
    s.view.hub.connections.lookup p = some c

/-- An unregister request finds under its peer id no other connection than its own. -/
def KeyIsOwn (s : Solo) (_ : List Event) : SoloAction → Prop
  | .unregister c => ∀ c', s.view.hub.connections.lookup c.peerId = some c' → c' = c
  | _ => True

/-! ## Entries are newest connections -/

/-- What is listed for a peer is its newest connection. -/
def EntriesLatest (s : Solo) (l : List Event) : Prop :=
  ∀ p c, s.view.hub.connections.lookup p = some c → latest p l = some c

/-- The events of one step of the loop, or of one unregister request, register nothing. -/
theorem HubView.Act.registeredAs_eq_none {v v' : HubView} {a : HubAction} {o : List Event}
    (h : v.Act a v' o) (p : String) : ∀ e ∈ o, registeredAs p e = none := by
  cases h <;> simp [registeredAs]

theorem HubView.Unregister.registeredAs_eq_none {v v' : HubView} {c : Connection}
    {o : List Event} (h : v.Unregister c v' o) (p : String) :
    ∀ e ∈ o, registeredAs p e = none := by
  cases h <;> simp [registeredAs]

theorem EntriesLatest.step {s t : Solo} {l o : List Event} {a : SoloAction} (hi : s.Inv l)
    (he : EntriesLatest s l) (h : s.Step a t o) : EntriesLatest t (l ++ o) := by
  intro p c hk
  cases h with
  | @register c' hlife hloop =>
      simp only [HubView.register, GoMap.lookup_insert] at hk
      rw [latest_registered]
      split at hk
      · rename_i hp
        rw [if_pos hp.symm, hk]
      · rename_i hp
        rw [if_neg (fun h => hp h.symm)]
        exact he p c hk
  | unregister hlife hloop hv =>
      rw [latest_append_of_none (hv.registeredAs_eq_none p)]
      exact he p c (hv.lookup hi.sound hk).2
  | hub hv =>
      rw [latest_append_of_none (hv.registeredAs_eq_none p)]
      exact he p c (hv.lookup hk)
  | enqueue | drain | direct =>
      rw [latest_append_of_none (by simp [registeredAs])]
      exact he p c hk

/-! ## Listed as long as the keys are own -/

/-- A listed connection has been neither unregistered nor dropped. -/
theorem Solo.Inv.entry_live {s : Solo} {l : List Event} (hi : s.Inv l) {k : String}
    {c : Connection} (hk : s.view.hub.connections.lookup k = some c) :
    .unregistered c ∉ l ∧ ∀ m, .overflow c m ∉ l := by
  constructor
  · rw [hi.logged.unregistered_iff, hi.entry_life hk]
    simp
  · intro m hm
    have hclosed := hi.logged.overflow_closed c m hm
    rw [hi.sound.entry_open hk] at hclosed
    exact absurd hclosed (by simp)

/-- A step that keeps the entry of `p` keeps the claim about `p`. -/
theorem LatestListed.keep {s t : Solo} {l o : List Event} (hl : LatestListed s l)
    {p : String} (hnone : ∀ e ∈ o, registeredAs p e = none)
    (hkeep : ∀ c, s.view.hub.connections.lookup p = some c → .unregistered c ∉ l ++ o →
      (∀ m, .overflow c m ∉ l ++ o) → t.view.hub.connections.lookup p = some c)
    {c : Connection} (hc : latest p (l ++ o) = some c) (hu : .unregistered c ∉ l ++ o)
    (hd : ∀ m, .overflow c m ∉ l ++ o) : t.view.hub.connections.lookup p = some c := by
  rw [latest_append_of_none hnone] at hc
  refine hkeep c (hl p c hc ?_ ?_) hu hd
  · exact fun h => hu (List.mem_append_left o h)
  · exact fun m h => hd m (List.mem_append_left o h)

theorem LatestListed.step {s t : Solo} {l o : List Event} {a : SoloAction} (hi : s.Inv l)
    (hl : LatestListed s l) (hown : KeyIsOwn s l a) (h : s.Step a t o) :
    LatestListed t (l ++ o) := by
  intro p c hc hu hd
  cases h with
  | @register c' hlife hloop =>
      rw [latest_registered] at hc
      simp only [HubView.register, GoMap.lookup_insert]
      split at hc
      · rename_i hp
        rw [if_pos hp.symm, hc]
      · rename_i hp
        rw [if_neg (fun h => hp h.symm)]
        exact hl p c hc (fun h => hu (List.mem_append_left _ h))
          (fun m h => hd m (List.mem_append_left _ h))
  | @unregister c' v o hlife hloop hv =>
      refine hl.keep (hv.registeredAs_eq_none p) (fun d hk hu' _ => ?_) hc hu hd
      -- the entry of `p` cannot be the request's own connection, which is now unregistered
      have hne : d ≠ c' := by
        rintro rfl
        exact hu' (List.mem_append_right l (by cases hv <;> simp))
      have hpeer : d.peerId = p := hi.sound.peer hk
      cases hv with
      | absent => exact hk
      | panic hkey | close hkey =>
          simp only [GoMap.lookup_erase]
          split
          · rename_i hp
            exact absurd (hown d (hp ▸ hk)) hne
          · exact hk
  | @hub a v o hv =>
      refine hl.keep (hv.registeredAs_eq_none p) (fun d hk _ hd' => ?_) hc hu hd
      cases hv with
      | take | skip | panic | put | rangeDone | tick => exact hk
      | @overflow m k rest c' ch hloop hkey =>
          simp only [GoMap.lookup_erase]
          split
          · rename_i hp
            -- the deleted entry is the dropped connection
            have hdc : d = c' := by
              rw [hp, hi.sound.peer hkey, hkey] at hk
              exact (Option.some.inj hk).symm
            exact absurd (List.mem_append_right l (by simp [hdc])) (hd' m)
          · exact hk
  | enqueue | drain | direct =>
      exact hl.keep (by simp [registeredAs]) (fun d hk _ _ => hk) hc hu hd

/-- An unregister request that meets the entry of another connection unlists that one, which is the
newest of its peer and still connected. -/
theorem not_latestListed_of_not_keyIsOwn {s t : Solo} {l o : List Event} {a : SoloAction}
    (hi : s.Inv l) (he : EntriesLatest s l) (hown : ¬ KeyIsOwn s l a) (h : s.Step a t o) :
    ¬ LatestListed t (l ++ o) := by
  intro hl
  cases h with
  | @unregister c v o hlife hloop hv =>
      simp only [KeyIsOwn, not_forall] at hown
      obtain ⟨c', hk, hne⟩ := hown
      obtain ⟨hu, hd⟩ := hi.entry_live hk
      have hlate : latest c.peerId (l ++ o) = some c' := by
        rw [latest_append_of_none (hv.registeredAs_eq_none _)]
        exact he _ _ hk
      have hlist := hl c.peerId c' hlate
        (by cases hv <;> simp [hu, hne]) (by intro m; cases hv <;> simp [hd m])
      cases hv with
      | absent hkey =>
          rw [hk] at hkey
          exact absurd hkey (by simp)
      | panic | close =>
          simp at hlist
  | register | hub | enqueue | drain | direct => exact hown trivial

/-- **The newest connection of every peer stays listed exactly as long as no unregister request
meets the entry of another connection.** -/
theorem always_latestListed_iff (r : solo.Run) :
    r.Always LatestListed ↔ r.EachStep KeyIsOwn := by
  refine r.always_iff_eachStep (I := fun s l => s.Inv l ∧ EntriesLatest s l ∧ LatestListed s l)
    ⟨Solo.Inv.init, ?_, ?_⟩ (fun s l h => h.2.2) ?_ ?_
  · intro p c hk
    simp [solo, newHub, Finmap.lookup_empty] at hk
  · intro p c hc
    simp [latest] at hc
  · rintro s l a t o ⟨hi, he, hl⟩ hown hstep
    have hcases := (Solo.step_cases hstep).2
    exact ⟨hi.step hcases, he.step hi hcases, hl.step hi hown hcases⟩
  · rintro s l a t o ⟨hi, he, hl⟩ hown hstep
    exact not_latestListed_of_not_keyIsOwn hi he hown (Solo.step_cases hstep).2

/-- A peer connects, reconnects, and its first connection is then unregistered. -/
def reconnect : List SoloAction :=
  [.register ⟨1, "p"⟩, .register ⟨2, "p"⟩, .unregister ⟨1, "p"⟩]

/-- After a reconnect the late unregister of the old connection unlists the new one, which has been
neither unregistered nor dropped. -/
theorem reconnect_unlists_newest :
    ∃ r : solo.Run, r.acts = reconnect ∧
      latest "p" r.log = some ⟨2, "p"⟩ ∧ .unregistered ⟨2, "p"⟩ ∉ r.log ∧
      r.last.view.hub.connections.lookup "p" = none ∧ ¬ r.Always LatestListed := by
  have hlog : (Machine.Run.ofActs (M := solo) reconnect (by decide)).log =
      [.registered ⟨1, "p"⟩, .registered ⟨2, "p"⟩, .unregistered ⟨1, "p"⟩,
        .closed ⟨1, "p"⟩] := by decide
  have hlast : (Machine.Run.ofActs (M := solo) reconnect
      (by decide)).last.view.hub.connections.lookup "p" = none := by decide
  refine ⟨.ofActs reconnect (by decide), rfl, ?_, ?_, hlast, ?_⟩
  · rw [hlog]
    decide
  · rw [hlog]
    decide
  · intro hall
    have hlist := hall.last "p" ⟨2, "p"⟩ (by rw [hlog]; decide) (by rw [hlog]; decide)
      (by rw [hlog]; simp)
    rw [hlast] at hlist
    exact absurd hlist (by simp)

end Skytime
