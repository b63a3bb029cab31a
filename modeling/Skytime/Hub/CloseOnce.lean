/-
# Skytime.Hub.CloseOnce — how often the hub closes a send queue.

Two branches of the loop close `c.send`: the drop of a slow connection in a broadcast, and the
unregister branch. `ClosedOnce` says that neither a second `close` nor a send on a closed queue
has ended the process and that every unregistered connection has had its queue closed exactly once,
which its writer needs in order to return. The unregister branch decides by the presence of the
peer's key; that is right exactly when the key is present for an open queue and absent for a closed
one.
-/
import Skytime.Hub.Solo

namespace Skytime

open Process

/-- The loop has not panicked, and every connection whose unregister request has been processed
has had its queue closed once. -/
def ClosedOnce (s : Solo) (l : List Event) : Prop :=
  s.view.panicked = false ∧ ∀ c, .unregistered c ∈ l → l.count (.closed c) = 1

/-- An unregister request finds an entry under its peer id exactly when its connection's queue is
still open. -/
def KeyIffOpen (s : Solo) (_ : List Event) : SoloAction → Prop
  | .unregister c =>
    (∃ c', s.view.hub.connections.lookup c.peerId = some c') ↔ (s.view.send c).closed = false
  | _ => True

/-- Once a queue has been closed it has been closed once, whatever follows. -/
theorem Solo.Inv.count_closed_append {t : Solo} {l o : List Event} (hi : t.Inv (l ++ o))
    {c : Connection} (h : l.count (.closed c) = 1) : (l ++ o).count (.closed c) = 1 := by
  have hle : l.count (.closed c) ≤ (l ++ o).count (.closed c) := by
    rw [List.count_append]
    exact Nat.le_add_right _ _
  have hflag := hi.logged.closed_count c
  split at hflag
  · exact hflag
  · omega

/-- A step that neither panics nor unregisters keeps the property. -/
theorem ClosedOnce.keep {s t : Solo} {l o : List Event} (hc : ClosedOnce s l)
    (hi : t.Inv (l ++ o)) (hp : t.view.panicked = s.view.panicked)
    (ho : ∀ c, .unregistered c ∉ o) : ClosedOnce t (l ++ o) := by
  refine ⟨hp.trans hc.1, fun c hu => hi.count_closed_append (hc.2 c ?_)⟩
  exact (List.mem_append.mp hu).resolve_right (ho c)

theorem ClosedOnce.step {s t : Solo} {l o : List Event} {a : SoloAction} (hi : s.Inv l)
    (hc : ClosedOnce s l) (hkey : KeyIffOpen s l a) (h : s.Step a t o) :
    ClosedOnce t (l ++ o) := by
  have hit : t.Inv (l ++ o) := hi.step h
  cases h with
  | register | enqueue | drain | direct => exact hc.keep hit rfl (by simp)
  | hub hv =>
      exact hc.keep hit (hi.sound.act_panicked hv) (by intro c; cases hv <;> simp)
  | @unregister c v o hlife hloop hv =>
      have hold : ∀ c', .unregistered c' ∈ l → (l ++ o).count (.closed c') = 1 :=
        fun c' hu => hit.count_closed_append (hc.2 c' hu)
      cases hv with
      | absent habs =>
          -- no entry, so the queue was closed before
          have hclosed : (s.view.send c).closed = true := by
            by_contra hopen
            obtain ⟨c', hk⟩ := hkey.mpr (by simpa using hopen)
            rw [habs] at hk
            exact absurd hk (by simp)
          refine ⟨hc.1, fun c' hu => ?_⟩
          rcases List.mem_append.mp hu with hu | hu
          · exact hold c' hu
          · obtain rfl : c' = c := by simpa using hu
            apply hit.count_closed_append
            rw [hi.logged.closed_count, hclosed, if_pos rfl]
      | panic hk hclosed =>
          rw [hkey.mp ⟨_, hk⟩] at hclosed
          exact absurd hclosed (by simp)
      | close hk hopen hbuf hch =>
          refine ⟨hc.1, fun c' hu => ?_⟩
          rcases List.mem_append.mp hu with hu | hu
          · exact hold c' hu
          · obtain rfl : c' = c := by simpa using hu
            rw [List.count_append, hi.logged.closed_count, hopen]
            simp

/-- The two ways to miss the condition: a second close, or no close at all. -/
theorem not_closedOnce_of_not_keyIffOpen {s t : Solo} {l o : List Event} {a : SoloAction}
    (hi : s.Inv l) (hkey : ¬ KeyIffOpen s l a) (h : s.Step a t o) : ¬ ClosedOnce t (l ++ o) := by
  rintro ⟨hp, honce⟩
  cases h with
  | @unregister c v o hlife hloop hv =>
      cases hv with
      | absent habs =>
          have hopen : (s.view.send c).closed = false := by
            simpa [KeyIffOpen, habs] using hkey
          have hcount := honce c (by simp)
          rw [List.count_append, hi.logged.closed_count, hopen] at hcount
          simp at hcount
      | panic => exact absurd hp (by simp)
      | close hk hopen => exact hkey ⟨fun _ => hopen, fun _ => ⟨_, hk⟩⟩
  | register | hub | enqueue | drain | direct => exact hkey trivial

/-- **Along a run every queue is closed once and the loop never panics exactly when every
unregister request finds an entry just for an open queue.** -/
theorem always_closedOnce_iff (r : solo.Run) :
    r.Always ClosedOnce ↔ r.EachStep KeyIffOpen := by
  refine r.always_iff_eachStep (I := fun s l => s.Inv l ∧ ClosedOnce s l)
    ⟨Solo.Inv.init, rfl, by simp⟩ (fun s l h => h.2) ?_ ?_
  · rintro s l a t o ⟨hi, hc⟩ hkey hstep
    have hcases := (Solo.step_cases hstep).2
    exact ⟨hi.step hcases, hc.step hi hkey hcases⟩
  · rintro s l a t o ⟨hi, hc⟩ hkey hstep
    exact not_closedOnce_of_not_keyIffOpen hi hkey (Solo.step_cases hstep).2

/-- A peer connects, reconnects, and both connections are then unregistered in that order. -/
def reconnectAndLeave : List SoloAction :=
  [.register ⟨1, "p"⟩, .register ⟨2, "p"⟩, .unregister ⟨1, "p"⟩, .unregister ⟨2, "p"⟩]

/-- The unregister of the newer connection finds no entry any more and its queue stays open, so
its writer is never told to stop. -/
theorem reconnectAndLeave_leaves_open :
    ∃ r : solo.Run, r.acts = reconnectAndLeave ∧ .unregistered ⟨2, "p"⟩ ∈ r.log ∧
      r.log.count (.closed ⟨2, "p"⟩) = 0 ∧ ¬ r.Always ClosedOnce := by
  have hlog : (Machine.Run.ofActs (M := solo) reconnectAndLeave (by decide)).log =
      [.registered ⟨1, "p"⟩, .registered ⟨2, "p"⟩, .unregistered ⟨1, "p"⟩, .closed ⟨1, "p"⟩,
        .unregistered ⟨2, "p"⟩] := by decide
  have hmem : Event.unregistered ⟨2, "p"⟩ ∈
      (Machine.Run.ofActs (M := solo) reconnectAndLeave (by decide)).log := by
    rw [hlog]
    decide
  have hcount : (Machine.Run.ofActs (M := solo) reconnectAndLeave (by decide)).log.count
      (.closed ⟨2, "p"⟩) = 0 := by
    rw [hlog]
    decide
  refine ⟨.ofActs reconnectAndLeave (by decide), rfl, hmem, hcount, fun hall => ?_⟩
  have honce := hall.last.2 _ hmem
  rw [hcount] at honce
  exact absurd honce (by simp)

end Skytime
