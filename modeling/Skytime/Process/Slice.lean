/-
# Skytime.Process.Slice — slices with the run-time checks of the Go language.

A slice is a window on an array: the elements up to its length, and behind them the spare part up
to its capacity. Indexing is checked against the length, but the upper bound of a slice expression
is checked against the capacity, so `s[lo:hi]` may reach elements that `s[hi-1]` may not.
-/
import Mathlib.Data.List.Basic

namespace Skytime.Process

/-- The run-time panics of indexing, slicing and integer division. -/
inductive RuntimeError where
  | indexOutOfRange
  | sliceOutOfRange
  | divide
  deriving DecidableEq, Repr

/-- What runs through has run through its first part. -/
theorem exists_of_bind {ε α β : Type} {x : Except ε α} {f : α → Except ε β} {b : β}
    (h : x >>= f = .ok b) : ∃ a, x = .ok a ∧ f a = .ok b := by
  cases x with
  | error e => exact absurd h (by simp [bind, Except.bind])
  | ok a => exact ⟨a, rfl, h⟩

/-- `[]α`: the elements within the length, and those between length and capacity. -/
structure Slice (α : Type*) where
  data : List α
  spare : List α
  deriving DecidableEq, Repr

namespace Slice

variable {α : Type*}

/-- `len(s)`. -/
def len (s : Slice α) : ℕ := s.data.length

/-- `cap(s)`. -/
def cap (s : Slice α) : ℕ := s.data.length + s.spare.length

theorem len_le_cap (s : Slice α) : s.len ≤ s.cap := Nat.le_add_right _ _

/-- `s[i]`. -/
def index (s : Slice α) (i : ℕ) : Except RuntimeError α :=
  match s.data[i]? with
  | none => .error .indexOutOfRange
  | some a => .ok a

/-- `s[lo:hi]`. -/
def slice (s : Slice α) (lo hi : ℕ) : Except RuntimeError (Slice α) :=
  if lo ≤ hi ∧ hi ≤ s.cap then
    .ok ⟨((s.data ++ s.spare).take hi).drop lo, (s.data ++ s.spare).drop hi⟩
  else .error .sliceOutOfRange

/-- `s[lo:]`. -/
def sliceFrom (s : Slice α) (lo : ℕ) : Except RuntimeError (Slice α) := s.slice lo s.len

/-! ## When the checks pass -/

theorem index_eq_ok_iff {s : Slice α} {i : ℕ} {a : α} :
    s.index i = .ok a ↔ s.data[i]? = some a := by
  unfold index
  split
  · rename_i h
    simp [h]
  · rename_i b h
    simp [h]

theorem index_eq_error_iff {s : Slice α} {i : ℕ} {e : RuntimeError} :
    s.index i = .error e ↔ s.len ≤ i ∧ e = .indexOutOfRange := by
  unfold index len
  split
  · rename_i h
    rw [List.getElem?_eq_none_iff] at h
    simp [h, eq_comm]
  · rename_i b h
    obtain ⟨hlt, _⟩ := List.getElem?_eq_some_iff.mp h
    simp only [reduceCtorEq, false_iff, not_and]
    omega

/-- An index below the length reads an element. -/
theorem exists_index {s : Slice α} {i : ℕ} (h : i < s.len) : ∃ a, s.index i = .ok a :=
  ⟨s.data.get ⟨i, h⟩, index_eq_ok_iff.mpr (List.getElem?_eq_getElem h)⟩

theorem slice_eq_error_iff {s : Slice α} {lo hi : ℕ} {e : RuntimeError} :
    s.slice lo hi = .error e ↔ ¬ (lo ≤ hi ∧ hi ≤ s.cap) ∧ e = .sliceOutOfRange := by
  unfold slice
  split
  · rename_i h
    simp [h]
  · rename_i h
    simp [h, eq_comm]

/-- A slice expression within the capacity has the length its bounds say. -/
theorem exists_slice {s : Slice α} {lo hi : ℕ} (hlo : lo ≤ hi) (hhi : hi ≤ s.cap) :
    ∃ t, s.slice lo hi = .ok t ∧ t.len = hi - lo := by
  refine ⟨_, if_pos ⟨hlo, hhi⟩, ?_⟩
  unfold cap at hhi
  simp only [len, List.length_drop, List.length_take, List.length_append]
  omega

/-- A slice expression that stays within the length finds the same whatever is behind it. -/
theorem slice_spare {data : List α} {lo hi : ℕ} {t : Slice α}
    (h : (⟨data, []⟩ : Slice α).slice lo hi = .ok t) (spare : List α) :
    (⟨data, spare⟩ : Slice α).slice lo hi = .ok ⟨t.data, t.spare ++ spare⟩ := by
  obtain ⟨⟨hlo, hhi⟩, rfl⟩ : (lo ≤ hi ∧ hi ≤ data.length) ∧
      ⟨((data ++ []).take hi).drop lo, (data ++ []).drop hi⟩ = t := by
    unfold slice cap at h
    split at h
    · rename_i hbounds
      exact ⟨hbounds, Except.ok.inj h⟩
    · exact absurd h (by simp)
  have hcap : lo ≤ hi ∧ hi ≤ (⟨data, spare⟩ : Slice α).cap :=
    ⟨hlo, Nat.le_trans hhi (Nat.le_add_right _ _)⟩
  rw [slice, if_pos hcap]
  simp only [List.append_nil, List.take_append_of_le_length hhi,
    List.drop_append_of_le_length hhi]

/-! ## Slices of concatenations -/

/-- A slice expression whose bounds enclose a part of the elements yields this part; what follows
becomes spare. -/
theorem slice_append (a b c spare : List α) :
    (⟨a ++ (b ++ c), spare⟩ : Slice α).slice a.length (a.length + b.length) =
      .ok ⟨b, c ++ spare⟩ := by
  have hcap : a.length ≤ a.length + b.length ∧
      a.length + b.length ≤ (⟨a ++ (b ++ c), spare⟩ : Slice α).cap := by
    simp only [cap, List.length_append]
    omega
  rw [slice, if_pos hcap]
  have hlen : a.length + b.length = (a ++ b).length := List.length_append.symm
  simp only [← List.append_assoc]
  rw [hlen, List.append_assoc, List.take_left, List.drop_left, List.drop_left]

theorem sliceFrom_append (a b spare : List α) :
    (⟨a ++ b, spare⟩ : Slice α).sliceFrom a.length = .ok ⟨b, spare⟩ := by
  have h := slice_append a b [] spare
  rw [List.append_nil, List.nil_append] at h
  rwa [sliceFrom, len, List.length_append]

theorem index_append (a : List α) (x : α) (c spare : List α) :
    (⟨a ++ x :: c, spare⟩ : Slice α).index a.length = .ok x := by
  rw [index_eq_ok_iff, List.getElem?_append_right (Nat.le_refl _), Nat.sub_self]
  rfl

end Slice

end Skytime.Process
