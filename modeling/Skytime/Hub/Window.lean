/-
# Skytime.Hub.Window — the part of the history a connection is entitled to.

The events a hub shows are cut, for each connection, at its registration and at the first of its
unregistration and the first broadcast that finds its queue full. `window c l` is that part of `l`.
While the connection is connected its window grows with every event (`Growing`), afterwards it
stays as it is (`Frozen`). The messages the hub takes in the window are compared with what it puts
on the connection's queue.
-/
import Mathlib.Data.List.TakeWhile
import Skytime.Hub.Loop

namespace Skytime

/-! ## Windows -/

/-- The events that end the time of `c` with its hub. -/
def endsFor (c : Connection) : Event → Bool
  | .unregistered c' | .overflow c' _ => c' = c
  | _ => false

/-- The events between the registration of `c` and the first event that ends its time. -/
def window (c : Connection) : List Event → List Event
  | [] => []
  | e :: es => if e = .registered c then es.takeWhile (fun e => !endsFor c e) else window c es

/-- The window of `c` is still open: what follows belongs to it up to the first ending event. -/
def Growing (c : Connection) (l : List Event) : Prop :=
  ∀ o, window c (l ++ o) = window c l ++ o.takeWhile (fun e => !endsFor c e)

/-- The window of `c` is over: nothing that follows belongs to it. -/
def Frozen (c : Connection) (l : List Event) : Prop :=
  ∀ o, window c (l ++ o) = window c l

variable {c : Connection} {l o : List Event} {e : Event}

theorem window_append_of_not_mem (h : .registered c ∉ l) : window c (l ++ o) = window c o := by
  induction l with
  | nil => rfl
  | cons e es ih =>
      obtain ⟨hne, hes⟩ := not_or.mp (List.mem_cons.not.mp h)
      simp only [List.cons_append, window, if_neg (Ne.symm hne)]
      exact ih hes

theorem window_eq_nil (h : .registered c ∉ l) : window c l = [] := by
  simpa [window] using window_append_of_not_mem (o := []) h

/-- The registration opens the window. -/
theorem growing_registered (h : .registered c ∉ l) : Growing c (l ++ [.registered c]) := by
  intro o
  rw [List.append_assoc, window_append_of_not_mem h, window_append_of_not_mem h]
  simp [window]

theorem window_registered (h : .registered c ∉ l) : window c (l ++ [.registered c]) = [] := by
  rw [window_append_of_not_mem h]
  simp [window]

theorem Growing.window_append (hg : Growing c l) (ho : ∀ e ∈ o, endsFor c e = false) :
    window c (l ++ o) = window c l ++ o := by
  rw [hg, List.takeWhile_eq_self_iff.mpr (by simpa using ho)]

theorem Growing.append (hg : Growing c l) (ho : ∀ e ∈ o, endsFor c e = false) :
    Growing c (l ++ o) := by
  intro o'
  rw [List.append_assoc, hg, hg.window_append ho,
    List.takeWhile_append_of_pos (by simpa using ho), List.append_assoc]

/-- An ending event closes the window and does not belong to it. -/
theorem Growing.window_end (hg : Growing c l) (he : endsFor c e = true) :
    window c (l ++ e :: o) = window c l := by
  rw [hg]
  simp [he]

theorem Growing.frozen (hg : Growing c l) (he : endsFor c e = true) :
    Frozen c (l ++ e :: o) := by
  intro o'
  rw [List.append_assoc, List.cons_append, hg.window_end he, hg.window_end he]

theorem Frozen.append (hf : Frozen c l) : Frozen c (l ++ o) := by
  intro o'
  rw [List.append_assoc, hf, hf]

/-! ## Messages in the history -/

/-- The messages a hub has put on the queue of `c`, in order. -/
def puts (c : Connection) (l : List Event) : List PushMsg :=
  l.filterMap fun
    | .put c' m => if c' = c then some m else none
    | _ => none

/-- The messages whose attempt found the queue of `c` full. -/
def missed (c : Connection) (l : List Event) : List PushMsg :=
  l.filterMap fun
    | .overflow c' m => if c' = c then some m else none
    | _ => none

/-- The messages taken from `h.broadcast`, in order. -/
def taken (l : List Event) : List PushMsg :=
  l.filterMap fun
    | .took m => some m
    | _ => none

@[simp] theorem puts_append (c : Connection) (l o : List Event) :
    puts c (l ++ o) = puts c l ++ puts c o := List.filterMap_append

@[simp] theorem missed_append (c : Connection) (l o : List Event) :
    missed c (l ++ o) = missed c l ++ missed c o := List.filterMap_append

@[simp] theorem taken_append (l o : List Event) : taken (l ++ o) = taken l ++ taken o :=
  List.filterMap_append

/-- Events that say nothing about the delivery to `c`. -/
def Event.OfOthers (c : Connection) : Event → Bool
  | .registered c' | .unregistered c' | .put c' _ | .overflow c' _ => c' ≠ c
  | .took _ => false
  | .closed _ | .direct _ _ | .drained _ _ => true

section Others

variable (ho : ∀ e ∈ o, e.OfOthers c = true)

include ho

theorem puts_of_others : puts c o = [] := by
  apply List.filterMap_eq_nil_iff.mpr
  intro e he
  have h := ho e he
  cases e <;> simp_all [Event.OfOthers]

theorem missed_of_others : missed c o = [] := by
  apply List.filterMap_eq_nil_iff.mpr
  intro e he
  have h := ho e he
  cases e <;> simp_all [Event.OfOthers]

theorem taken_of_others : taken o = [] := by
  apply List.filterMap_eq_nil_iff.mpr
  intro e he
  have h := ho e he
  cases e <;> simp_all [Event.OfOthers]

theorem endsFor_of_others : ∀ e ∈ o, endsFor c e = false := by
  intro e he
  have h := ho e he
  cases e <;> simp_all [Event.OfOthers, endsFor]

theorem registered_not_mem_of_others : .registered c ∉ o := by
  intro he
  have h := ho _ he
  simp [Event.OfOthers] at h

/-- Whatever the phase of `c`, events of others leave the messages of its window alone. -/
theorem taken_window_of_others (hphase : .registered c ∉ l ∨ Growing c l ∨ Frozen c l) :
    taken (window c (l ++ o)) = taken (window c l) := by
  rcases hphase with hfresh | hg | hf
  · rw [window_append_of_not_mem hfresh, window_eq_nil hfresh,
      window_eq_nil (registered_not_mem_of_others ho)]
  · rw [hg.window_append (endsFor_of_others ho), taken_append, taken_of_others ho,
      List.append_nil]
  · rw [hf]

end Others

/-! ## Silence after the end -/

/-- Events that put something on the queue of `c`. -/
def Event.Gives (c : Connection) : Event → Bool
  | .put c' _ | .direct c' _ => c' = c
  | _ => false

/-- After the first event that ends the time of `c`, nothing is put on its queue. -/
def SilentAfterEnd (c : Connection) (l : List Event) : Prop :=
  ∀ e ∈ l.dropWhile (fun e => !endsFor c e), e.Gives c = false

theorem SilentAfterEnd.append (hl : SilentAfterEnd c l)
    (hafter : (∃ e ∈ l, endsFor c e = true) → ∀ e ∈ o, e.Gives c = false)
    (hself : (∃ e ∈ o, endsFor c e = true) → ∀ e ∈ o, e.Gives c = false) :
    SilentAfterEnd c (l ++ o) := by
  intro e he
  rw [List.dropWhile_append] at he
  split at he
  · -- `l` shows no end, so the silence starts in `o`
    have hmem : e ∈ o := (List.dropWhile_suffix _).subset he
    by_cases hend : ∃ e ∈ o, endsFor c e = true
    · exact hself hend e hmem
    · have hnil : o.dropWhile (fun e => !endsFor c e) = [] := by
        rw [List.dropWhile_eq_nil_iff]
        intro x hx
        simpa using fun h => hend ⟨x, hx, h⟩
      rw [hnil] at he
      exact absurd he (by simp)
  · rename_i hne
    rcases List.mem_append.mp he with he | he
    · exact hl e he
    · refine hafter ?_ e he
      by_contra hnone
      refine hne (List.isEmpty_iff.mpr (List.dropWhile_eq_nil_iff.mpr fun x hx => ?_))
      simpa using fun h => hnone ⟨x, hx, h⟩

end Skytime
