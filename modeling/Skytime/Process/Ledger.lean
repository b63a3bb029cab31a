/-
# Skytime.Process.Ledger — one log for many parties.

An entry of the log names the party it is about. What holds between two kinds of events of every
party holds between their total numbers.
-/
import Mathlib.Data.List.Perm.Subperm

namespace Skytime.Process

variable {ι ε : Type*} [DecidableEq ι]

/-- The events of party `i`, in order. -/
def eventsOf (i : ι) (l : List (ι × ε)) : List ε := (l.filter fun e => e.1 = i).map Prod.snd

@[simp] theorem eventsOf_append (i : ι) (l k : List (ι × ε)) :
    eventsOf i (l ++ k) = eventsOf i l ++ eventsOf i k := by
  rw [eventsOf, List.filter_append, List.map_append, eventsOf, eventsOf]

/-- The events of one step of party `i`. -/
@[simp] theorem eventsOf_map_self (i : ι) (o : List ε) : eventsOf i (o.map (Prod.mk i)) = o := by
  induction o with
  | nil => rfl
  | cons e o ih =>
      rw [eventsOf] at ih ⊢
      rw [List.map_cons, List.filter_cons_of_pos (by simp), List.map_cons, ih]

theorem eventsOf_map_of_ne {i j : ι} (h : i ≠ j) (o : List ε) :
    eventsOf i (o.map (Prod.mk j)) = [] := by
  rw [eventsOf, List.map_eq_nil_iff, List.filter_eq_nil_iff]
  intro e he
  obtain ⟨e', _, rfl⟩ := List.mem_map.mp he
  simpa using h.symm

/-- The events of a step that goes through several parties, once each. -/
theorem eventsOf_flatMap (i : ι) {order : List ι} (hnodup : order.Nodup) (g : ι → List ε) :
    eventsOf i (order.flatMap fun j => (g j).map (Prod.mk j)) = if i ∈ order then g i else [] := by
  induction order with
  | nil => rfl
  | cons j order ih =>
      obtain ⟨hj, hnodup⟩ := List.nodup_cons.mp hnodup
      rw [List.flatMap_cons, eventsOf_append, ih hnodup]
      by_cases hij : i = j
      · subst hij
        rw [eventsOf_map_self, if_neg hj, List.append_nil, if_pos List.mem_cons_self]
      · rw [eventsOf_map_of_ne hij, List.nil_append]
        simp only [List.mem_cons, hij, false_or]

/-- The parties of the events with `p`, once for each event. -/
def partiesOf (p : ε → Bool) (l : List (ι × ε)) : List ι :=
  (l.filter fun e => p e.2).map Prod.fst

omit [DecidableEq ι] in
theorem length_partiesOf (p : ε → Bool) (l : List (ι × ε)) :
    (partiesOf p l).length = l.countP fun e => p e.2 := by
  rw [partiesOf, List.length_map, List.countP_eq_length_filter]

theorem count_partiesOf (p : ε → Bool) (l : List (ι × ε)) (i : ι) :
    (partiesOf p l).count i = (eventsOf i l).countP p := by
  induction l with
  | nil => rfl
  | cons e l ih =>
      rw [partiesOf, eventsOf] at ih ⊢
      by_cases hi : e.1 = i <;> by_cases hp : p e.2 = true <;>
        simp [hi, hp, ih]

/-- An inequality of every party holds of the totals. -/
theorem countP_le_of_parties {p q : ε → Bool} {l : List (ι × ε)}
    (h : ∀ i, (eventsOf i l).countP p ≤ (eventsOf i l).countP q) :
    (l.countP fun e => p e.2) ≤ l.countP fun e => q e.2 := by
  have hsub : (partiesOf p l).Subperm (partiesOf q l) := by
    rw [List.subperm_iff_count]
    intro i
    rw [count_partiesOf, count_partiesOf]
    exact h i
  rw [← length_partiesOf, ← length_partiesOf]
  exact hsub.length_le

/-- An equation of every party holds of the totals. -/
theorem countP_eq_of_parties {p q : ε → Bool} {l : List (ι × ε)}
    (h : ∀ i, (eventsOf i l).countP p = (eventsOf i l).countP q) :
    (l.countP fun e => p e.2) = l.countP fun e => q e.2 :=
  Nat.le_antisymm (countP_le_of_parties fun i => Nat.le_of_eq (h i))
    (countP_le_of_parties fun i => Nat.le_of_eq (h i).symm)

end Skytime.Process
