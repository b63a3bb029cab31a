/-
# Skytime.Rooms.RateLimit — how many attempts a hub can make in a window of time.

The throttle goroutine of `hub.run` takes a tick every millisecond and offers it to the channel
`throttle`, which holds `burstLimit` of them; a tick that finds the channel full is dropped. The
walk of a broadcast takes one for every connection that it visits. The channel is a budget for the
attempts: in any window the hub makes at most `burstLimit` attempts more than ticks were taken.
-/
import Skytime.Hub.Solo
import Skytime.Process.Budget
import Skytime.Rooms.Invariant

namespace Skytime

open Process

/-! ## Attempts and ticks -/

/-- A queue send or an overflow drop of a walk. -/
def Event.isAttempt : Event → Bool
  | .put _ _ | .overflow _ _ => true
  | _ => false

def HubAction.isTick : HubAction → Bool
  | .tick => true
  | _ => false

namespace HubView

variable {v v' : HubView} {o : List Event}

/-- A round of the walk that makes an attempt has taken a token; one that finds the entry deleted
has not. -/
theorem attempt_paid (h : v.attempt = some (v', o)) :
    o.countP Event.isAttempt + v'.hub.throttle ≤ v.hub.throttle := by
  unfold attempt at h
  split at h
  · rename_i m k rest hloop
    split at h
    · obtain ⟨rfl, rfl⟩ := Prod.mk.inj (Option.some.inj h)
      simp
    · rename_i c hkey
      split at h
      · exact absurd h (by simp)
      · rename_i htoken
        -- one token is gone, whatever becomes of the attempt
        have hone : 1 + (v.hub.throttle - 1) = v.hub.throttle := by omega
        simp only at h
        split at h
        · obtain ⟨rfl, rfl⟩ := Prod.mk.inj (Option.some.inj h)
          show 0 + (v.hub.throttle - 1) ≤ v.hub.throttle
          omega
        · obtain ⟨rfl, rfl⟩ := Prod.mk.inj (Option.some.inj h)
          show 1 + (v.hub.throttle - 1) ≤ v.hub.throttle
          exact hone.le
        · split at h
          · obtain ⟨rfl, rfl⟩ := Prod.mk.inj (Option.some.inj h)
            show 0 + (v.hub.throttle - 1) ≤ v.hub.throttle
            omega
          · obtain ⟨rfl, rfl⟩ := Prod.mk.inj (Option.some.inj h)
            show 1 + (v.hub.throttle - 1) ≤ v.hub.throttle
            exact hone.le
  · exact absurd h (by simp)

/-- A step of a hub's goroutines pays for its attempts, and only a tick adds a token. -/
theorem act_paid {a : HubAction} (h : v.act a = some (v', o)) :
    o.countP Event.isAttempt + v'.hub.throttle ≤
      v.hub.throttle + if a.isTick then 1 else 0 := by
  cases a with
  | attempt => exact attempt_paid h
  | tick =>
      obtain ⟨rfl, rfl⟩ := Prod.mk.inj (Option.some.inj h)
      show 0 + min (v.hub.throttle + 1) burstLimit ≤ v.hub.throttle + 1
      omega
  | take | rangeDone =>
      cases act_cases h
      simp [Event.isAttempt, HubAction.isTick]

/-- The channel holds no more tokens than it can. -/
theorem Act.throttle_le {a : HubAction} (h : v.Act a v' o) (hv : v.hub.throttle ≤ burstLimit) :
    v'.hub.throttle ≤ burstLimit := by
  cases h with
  | tick => exact Nat.min_le_right _ _
  | take | skip | rangeDone => exact hv
  | panic | put | overflow => exact (Nat.sub_le _ _).trans hv

theorem Unregister.throttle {c : Connection} (h : v.Unregister c v' o) :
    v'.hub.throttle = v.hub.throttle ∧ o.countP Event.isAttempt = 0 := by
  cases h <;> exact ⟨rfl, rfl⟩

end HubView

/-! ## One hub -/

def SoloAction.isTick : SoloAction → Bool
  | .hub a => a.isTick
  | _ => false

/-- A step of the hub's goroutines is one of its view. -/
theorem Solo.act_of_step {s t : Solo} {a : HubAction} {o : List Event}
    (h : solo.step s (.hub a) = some (t, o)) :
    ∃ v, s.view.act a = some (v, o) ∧ t = { s with view := v } := by
  have hrun := (Solo.step_cases h).1
  simp only [solo, Solo.step, hrun, Bool.false_eq_true, if_false, Solo.stepRunning] at h
  split at h
  · exact absurd h (by simp)
  · rename_i v o' hact
    obtain ⟨rfl, rfl⟩ := Prod.mk.inj (Option.some.inj h)
    exact ⟨v, hact, rfl⟩

theorem Solo.paid_step {s t : Solo} {a : SoloAction} {o : List Event}
    (h : solo.step s a = some (t, o)) :
    o.countP Event.isAttempt + t.view.hub.throttle ≤
      s.view.hub.throttle + if a.isTick then 1 else 0 := by
  cases a with
  | hub a =>
      obtain ⟨v, hact, rfl⟩ := Solo.act_of_step h
      exact HubView.act_paid hact
  | unregister c =>
      cases (Solo.step_cases h).2 with
      | unregister hlife hloop hv =>
          obtain ⟨hthrottle, hcount⟩ := hv.throttle
          show _ + _ ≤ s.view.hub.throttle
          rw [hthrottle, hcount, Nat.zero_add]
  | register | enqueue | drain | direct =>
      cases (Solo.step_cases h).2
      exact Nat.le_of_eq (Nat.zero_add _)

theorem Solo.throttle_le_step {s t : Solo} {a : SoloAction} {o : List Event}
    (hs : s.view.hub.throttle ≤ burstLimit) (h : solo.step s a = some (t, o)) :
    t.view.hub.throttle ≤ burstLimit := by
  cases (Solo.step_cases h).2 with
  | hub hv => exact hv.throttle_le hs
  | unregister hlife hloop hv =>
      show _ ≤ burstLimit
      rw [hv.throttle.1]
      exact hs
  | register | enqueue | drain | direct => exact hs

/-- The `throttle` channel is a budget for the attempts of the hub. -/
def soloThrottle : Budget solo where
  inv := fun s => s.view.hub.throttle ≤ burstLimit
  level := fun s => s.view.hub.throttle
  cap := burstLimit
  offered := SoloAction.isTick
  paid := Event.isAttempt
  inv_init := Nat.zero_le _
  inv_step := Solo.throttle_le_step
  level_le := id
  step_le := fun _ h => Solo.paid_step h

/-- **In every window of every run the hub makes at most `burstLimit` attempts more than its
throttle goroutine takes ticks in the window, and over the whole run at most as many as it takes
ticks.** -/
theorem attempts_le_ticks (r : solo.Run) :
    r.EachWindow (fun acts log =>
        log.countP Event.isAttempt ≤ burstLimit + acts.countP SoloAction.isTick) ∧
      r.log.countP Event.isAttempt ≤ r.acts.countP SoloAction.isTick := by
  refine ⟨soloThrottle.eachWindow r, ?_⟩
  have htotal := soloThrottle.run r
  -- the channel is empty at the start
  have hempty : soloThrottle.level solo.init = 0 := rfl
  rw [hempty, Nat.zero_add] at htotal
  exact htotal

/-! ## The rooms of a server -/

variable {d : Deployment} {room : String}

/-- An attempt of the hub that serves the peer of the connection. -/
def Event.isAttemptIn (d : Deployment) (room : String) : Event → Bool
  | .put c _ | .overflow c _ => d.getRoomId c.peerId = room
  | _ => false

def RoomsAction.isTickOf (room : String) : RoomsAction → Bool
  | .hub r a => r = room && a.isTick
  | _ => false

namespace HubRooms

variable {s t : HubRooms} {o : List Event}

/-- A step of the goroutines of a hub is one of its view. -/
theorem act_of_step {r : String} {a : HubAction}
    (h : (hubRooms d).step s (.hub r a) = some (t, o)) :
    ∃ v, (s.view r).act a = some (v, o) ∧ t = s.putView r v := by
  rw [step_of_running (step_cases h).1] at h
  simp only [stepRunning] at h
  obtain ⟨-, h⟩ := Option.ite_none_right_eq_some.mp h
  split at h
  · exact absurd h (by simp)
  · rename_i v o' hact
    obtain ⟨rfl, rfl⟩ := Prod.mk.inj (Option.some.inj h)
    exact ⟨v, hact, rfl⟩

/-- Only a hub attempts to send, and only its own goroutines change its tokens. -/
theorem Step.throttle {a : RoomsAction} (h : s.Step d a t o) (ha : ∀ r b, a ≠ .hub r b)
    (room : String) :
    (t.rooms room).throttle = (s.rooms room).throttle ∧
      o.countP (Event.isAttemptIn d room) = 0 := by
  -- a hub that is replaced by one with the same tokens
  have hkeep : ∀ {r : String} {x : Hub}, x.throttle = (s.rooms r).throttle →
      (Function.update s.rooms r x room).throttle = (s.rooms room).throttle := by
    intro r x hx
    rw [Function.update_apply]
    split
    · rename_i hr
      rw [hx, hr]
    · rfl
  cases h with
  | hub => exact absurd rfl (ha _ _)
  | register hreg hloop hv =>
      subst hv
      exact ⟨hkeep rfl, rfl⟩
  | unregister hreader hloop hv =>
      refine ⟨hkeep hv.throttle.1, ?_⟩
      cases hv <;> rfl
  | push => exact ⟨hkeep rfl, rfl⟩
  | life | drain | start | acquire | skipRoom | absent | found | sendPeer | sendPanic | finish =>
      exact ⟨rfl, rfl⟩

theorem paid_step (hok : s.RoomsOk d) {a : RoomsAction}
    (h : (hubRooms d).step s a = some (t, o)) :
    o.countP (Event.isAttemptIn d room) + (t.rooms room).throttle ≤
      (s.rooms room).throttle + if a.isTickOf room then 1 else 0 := by
  by_cases ha : ∀ r b, a ≠ .hub r b
  · obtain ⟨hthrottle, hcount⟩ := (step_cases h).2.throttle ha room
    omega
  · push Not at ha
    obtain ⟨r, b, rfl⟩ := ha
    obtain ⟨v, hact, rfl⟩ := act_of_step h
    rw [putView_rooms]
    split
    · rename_i hr
      subst hr
      have hpaid := HubView.act_paid hact
      -- an attempt for a peer of the room is an attempt
      have hmono : o.countP (Event.isAttemptIn d room) ≤ o.countP Event.isAttempt := by
        apply List.countP_mono_left
        intro e _ he
        cases e <;> simp_all [Event.isAttemptIn, Event.isAttempt]
      simp only [RoomsAction.isTickOf, decide_true, Bool.true_and]
      exact (Nat.add_le_add_right hmono _).trans hpaid
    · rename_i hr
      -- the hub of another room visits connections of its own room
      have hnone : o.countP (Event.isAttemptIn d room) = 0 := by
        cases HubView.act_cases hact with
        | put hloop hkey | overflow hloop hkey =>
            simp [Event.isAttemptIn, hok.home hkey, Ne.symm hr]
        | take | skip | panic | rangeDone | tick => rfl
      omega

/-- What holds of the server while it runs, with no hub holding more tokens than it can. -/
def Throttled (d : Deployment) (s : HubRooms) : Prop :=
  s.RoomsOk d ∧ ∀ r, (s.rooms r).throttle ≤ burstLimit

theorem Throttled.step (hs : s.Throttled d) {a : RoomsAction}
    (h : (hubRooms d).step s a = some (t, o)) : t.Throttled d := by
  refine ⟨hs.1.step (step_cases h).2, fun room => ?_⟩
  by_cases ha : ∀ r b, a ≠ .hub r b
  · rw [((step_cases h).2.throttle ha room).1]
    exact hs.2 room
  · push Not at ha
    obtain ⟨r, b, rfl⟩ := ha
    obtain ⟨v, hact, rfl⟩ := act_of_step h
    rw [putView_rooms]
    split
    · exact (HubView.act_cases hact).throttle_le (hs.2 r)
    · exact hs.2 room

end HubRooms

/-- The `throttle` channel of a room is a budget for the attempts of its hub. -/
def roomThrottle (d : Deployment) (room : String) : Budget (hubRooms d) where
  inv := HubRooms.Throttled d
  level := fun s => (s.rooms room).throttle
  cap := burstLimit
  offered := RoomsAction.isTickOf room
  paid := Event.isAttemptIn d room
  inv_init := ⟨(HubRooms.Inv.init d).rooms, fun _ => Nat.zero_le _⟩
  inv_step := fun hs h => hs.step h
  level_le := fun hs => hs.2 room
  step_le := fun hs h => HubRooms.paid_step hs.1 h

/-- Every room of a server keeps the bound, whatever the other rooms and the calls do. -/
theorem room_attempts_le_ticks (room : String) (r : (hubRooms d).Run) :
    r.EachWindow fun acts log => log.countP (Event.isAttemptIn d room) ≤
      burstLimit + acts.countP (RoomsAction.isTickOf room) :=
  (roomThrottle d room).eachWindow r

end Skytime
