/-
# Skytime.Process.Budget — what a machine can spend over any window of its runs.

A budget watches a level that never exceeds a cap. Some actions may raise the level by one, some
events are paid for with one unit of it. Then the events that are paid for in a window of a run are
at most the cap and the raising actions of the window, and from the start of the run the level at
the start takes the place of the cap.
-/
import Mathlib.Data.List.Count
import Skytime.Process.Machine

namespace Skytime.Process

variable {σ α ω : Type*}

/-- `P` holds of the actions and the events of every list of consecutive steps of the run. -/
def Machine.Run.EachWindow {M : Machine σ α ω} (r : M.Run) (P : List α → List ω → Prop) : Prop :=
  ∀ pre as, pre ++ as <+: r.acts → ∀ s l t k, M.exec pre = some (s, l) →
    M.execFrom s as = some (t, k) → P as k

/-- A level of the states of `M`, with its cap and what raises and lowers it. The invariant `inv` is
what the steps need to know of the states. -/
structure Budget (M : Machine σ α ω) where
  inv : σ → Prop
  level : σ → ℕ
  cap : ℕ
  /-- the action may raise the level -/
  offered : α → Bool
  /-- the event has been paid for -/
  paid : ω → Bool
  inv_init : inv M.init
  inv_step : ∀ {s a t o}, inv s → M.step s a = some (t, o) → inv t
  level_le : ∀ {s}, inv s → level s ≤ cap
  step_le : ∀ {s a t o}, inv s → M.step s a = some (t, o) →
    o.countP paid + level t ≤ level s + if offered a then 1 else 0

namespace Budget

variable {M : Machine σ α ω} (B : Budget M)

theorem inv_exec {as : List α} {s : σ} {l : List ω} (h : M.exec as = some (s, l)) : B.inv s :=
  Machine.invariant_of_exec (I := fun s _ => B.inv s) B.inv_init
    (fun _ _ _ _ _ hs hstep => B.inv_step hs hstep) h

/-- What is paid for along an execution and what is left at its end come out of the level at its
start and what is offered on the way. -/
theorem paid_add_level_le {as : List α} {s t : σ} {l : List ω} (hs : B.inv s)
    (h : M.execFrom s as = some (t, l)) :
    l.countP B.paid + B.level t ≤ B.level s + as.countP B.offered := by
  induction as generalizing s l with
  | nil =>
      obtain ⟨rfl, rfl⟩ := Prod.mk.inj (Option.some.inj h)
      simp
  | cons a as ih =>
      obtain ⟨u, o, k, ha, hrest, rfl⟩ := M.execFrom_cons_iff.mp h
      have hstep := B.step_le hs ha
      have hlater := ih (B.inv_step hs ha) hrest
      rw [List.countP_append, List.countP_cons]
      omega

/-- In a window of a run no more is paid for than the cap and what is offered in the window. -/
theorem eachWindow (r : M.Run) :
    r.EachWindow fun as l => l.countP B.paid ≤ B.cap + as.countP B.offered := by
  intro pre as _ s l t k hpre h
  have hs : B.inv s := B.inv_exec hpre
  have hle := B.paid_add_level_le hs h
  have hcap := B.level_le hs
  omega

/-- Over a whole run no more is paid for than the level at the start and what has been offered. -/
theorem run (r : M.Run) :
    r.log.countP B.paid ≤ B.level M.init + r.acts.countP B.offered := by
  have hle := B.paid_add_level_le B.inv_init r.exec_eq
  omega

end Budget

end Skytime.Process
