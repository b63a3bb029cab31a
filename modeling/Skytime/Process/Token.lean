/-
# Skytime.Process.Token — mutual exclusion by a channel that holds one token.

A goroutine receives the token before its critical section and sends it back after it. `Exclusive`
is the invariant: at most one holder, and none while the token is in the channel. The rules say how
taking the token, moving on with it and giving it back keep the invariant, for any type of
goroutine and any way to tell from a state whether one holds the token.
-/
import Mathlib.Logic.Function.Basic

namespace Skytime.Process

variable {ι γ : Type*} [DecidableEq ι] {holds : γ → Prop} {free : Bool} {g : ι → γ}

/-- At most one goroutine holds the token, and none while the token is free. -/
structure Exclusive (holds : γ → Prop) (free : Bool) (g : ι → γ) : Prop where
  unique : ∀ {i j}, holds (g i) → holds (g j) → i = j
  not_free : ∀ {i}, holds (g i) → free = false

namespace Exclusive

omit [DecidableEq ι] in
/-- At the start nobody holds the token. -/
theorem start (h : ∀ i, ¬ holds (g i)) : Exclusive holds free g :=
  ⟨fun hi => absurd hi (h _), fun hi => absurd hi (h _)⟩

/-- The free token is taken. -/
theorem take (h : Exclusive holds true g) (i : ι) (x : γ) :
    Exclusive holds false (Function.update g i x) := by
  have hnone : ∀ j, ¬ holds (g j) := fun j hj => absurd (h.not_free hj) (by simp)
  have honly : ∀ j, holds (Function.update g i x j) → j = i := by
    intro j hj
    by_contra hne
    rw [Function.update_of_ne hne] at hj
    exact hnone j hj
  exact ⟨fun hj hk => (honly _ hj).trans (honly _ hk).symm, fun _ => rfl⟩

/-- The holder moves on and keeps the token. -/
theorem move (h : Exclusive holds free g) {i : ι} (hi : holds (g i)) (x : γ) :
    Exclusive holds free (Function.update g i x) := by
  have honly : ∀ j, holds (Function.update g i x j) → j = i := by
    intro j hj
    by_contra hne
    rw [Function.update_of_ne hne] at hj
    exact hne (h.unique hj hi)
  exact ⟨fun hj hk => (honly _ hj).trans (honly _ hk).symm, fun _ => h.not_free hi⟩

/-- A goroutine without the token goes on without it. -/
theorem idle (h : Exclusive holds free g) {i : ι} {x : γ} (hx : ¬ holds x) :
    Exclusive holds free (Function.update g i x) := by
  have hkeep : ∀ j, holds (Function.update g i x j) → holds (g j) := by
    intro j hj
    by_cases hji : j = i
    · rw [hji, Function.update_self] at hj
      exact absurd hj hx
    · rwa [Function.update_of_ne hji] at hj
  exact ⟨fun hj hk => h.unique (hkeep _ hj) (hkeep _ hk), fun hj => h.not_free (hkeep _ hj)⟩

/-- The holder gives the token back. -/
theorem give (h : Exclusive holds free g) {i : ι} (hi : holds (g i)) {x : γ} (hx : ¬ holds x) :
    Exclusive holds true (Function.update g i x) := by
  apply start
  intro j hj
  by_cases hji : j = i
  · rw [hji, Function.update_self] at hj
    exact hx hj
  · rw [Function.update_of_ne hji] at hj
    exact hji (h.unique hj hi)

end Exclusive

end Skytime.Process
