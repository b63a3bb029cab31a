/-
# Skytime.Process.Census — how many goroutines are in a position of a certain kind.

`f i` is the position of goroutine `i`, and `Census P f n` says that finitely many goroutines, `n`
of them, are in a position with `P`. The rules say how the number changes when one goroutine moves.
-/
import Mathlib.Data.Set.Card

namespace Skytime.Process

variable {ι γ : Type*} [DecidableEq ι] {P Q : γ → Prop} {f : ι → γ} {n m : ℕ}

/-- Exactly `n` goroutines are in a position with `P`. -/
structure Census (P : γ → Prop) (f : ι → γ) (n : ℕ) : Prop where
  finite : {i | P (f i)}.Finite
  card : {i | P (f i)}.ncard = n

namespace Census

omit [DecidableEq ι] in
theorem start (h : ∀ i, ¬ P (f i)) : Census P f 0 := by
  have hempty : {i | P (f i)} = ∅ := Set.eq_empty_of_forall_notMem h
  constructor
  · rw [hempty]
    exact Set.finite_empty
  · rw [hempty, Set.ncard_empty]

/-- Who moves to a position of the same kind does not change the number. -/
theorem keep (h : Census P f n) {i : ι} {x : γ} (hx : P x ↔ P (f i)) :
    Census P (Function.update f i x) n := by
  have hset : {j | P (Function.update f i x j)} = {j | P (f j)} := by
    ext j
    by_cases hj : j = i
    · show P (Function.update f i x j) ↔ P (f j)
      rw [hj, Function.update_self, hx]
    · show P (Function.update f i x j) ↔ P (f j)
      rw [Function.update_of_ne hj]
  constructor
  · rw [hset]
    exact h.finite
  · rw [hset, h.card]

theorem enter (h : Census P f n) {i : ι} {x : γ} (hi : ¬ P (f i)) (hx : P x) :
    Census P (Function.update f i x) (n + 1) := by
  have hset : {j | P (Function.update f i x j)} = insert i {j | P (f j)} := by
    ext j
    by_cases hj : j = i
    · simp [hj, hx]
    · simp [hj]
  have hnot : i ∉ {j | P (f j)} := hi
  constructor
  · rw [hset]
    exact h.finite.insert i
  · rw [hset, Set.ncard_insert_of_notMem hnot h.finite, h.card]

theorem leave (h : Census P f n) {i : ι} {x : γ} (hi : P (f i)) (hx : ¬ P x) :
    ∃ k, n = k + 1 ∧ Census P (Function.update f i x) k := by
  have hset : {j | P (f j)} = insert i {j | P (Function.update f i x j)} := by
    ext j
    by_cases hj : j = i
    · simp [hj, hi]
    · simp [hj]
  have hnot : i ∉ {j | P (Function.update f i x j)} := by
    simpa using hx
  have hfin : {j | P (Function.update f i x j)}.Finite := by
    have hall := h.finite
    rw [hset] at hall
    exact hall.subset (Set.subset_insert i _)
  refine ⟨_, ?_, hfin, rfl⟩
  rw [← h.card, hset, Set.ncard_insert_of_notMem hnot hfin]

omit [DecidableEq ι] in
/-- There are no more goroutines of a narrower kind. -/
theorem ncard_le (h : Census P f n) (hQP : ∀ i, Q (f i) → P (f i)) :
    {i | Q (f i)}.Finite ∧ {i | Q (f i)}.ncard ≤ n := by
  have hsub : {i | Q (f i)} ⊆ {i | P (f i)} := fun i hi => hQP i hi
  exact ⟨h.finite.subset hsub, h.card ▸ Set.ncard_le_ncard hsub h.finite⟩

end Census

end Skytime.Process
