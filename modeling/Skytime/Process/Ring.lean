/-
# Skytime.Process.Ring — the next point on a ring, and how it is found by binary search.

The points of a linear order are arranged in a ring: after the last one comes the first. The next
point of a set after a key is the least one beyond the key, or the least of all. It is at the index
that a binary search for the first larger element of the sorted list of points returns. What the
next point is depends only on the points between: a set and a larger one have the same next point if
the larger one's is in both.
-/
import Mathlib.Data.Finset.Sort

namespace Skytime.Process

/-! ## Binary search -/

/-- The loop of `sort.Search`, between the bounds `i` and `j`. -/
def searchLoop (f : ℕ → Bool) (i j : ℕ) : ℕ :=
  if i < j then
    if f (i + (j - i) / 2) then searchLoop f i (i + (j - i) / 2)
    else searchLoop f (i + (j - i) / 2 + 1) j
  else i
termination_by j - i

/-- `sort.Search`. -/
def sortSearch (n : ℕ) (f : ℕ → Bool) : ℕ := searchLoop f 0 n

/-- Where a predicate changes from false to true, below `n`. -/
structure ChangesAt (n : ℕ) (f : ℕ → Bool) (r : ℕ) : Prop where
  le : r ≤ n
  before : ∀ a, a < r → f a = false
  after : ∀ a, r ≤ a → a < n → f a = true

theorem searchLoop_changesAt {n : ℕ} {f : ℕ → Bool}
    (hmono : ∀ a b, a ≤ b → b < n → f a = true → f b = true) (i j : ℕ) (hij : i ≤ j) (hjn : j ≤ n)
    (hbefore : ∀ a, a < i → f a = false) (hafter : ∀ a, j ≤ a → a < n → f a = true) :
    ChangesAt n f (searchLoop f i j) := by
  fun_induction searchLoop f i j with
  | case1 i j hlt hmid ih =>
      apply ih (by omega) (by omega) hbefore
      exact fun a ha hn => hmono _ a ha hn hmid
  | case2 i j hlt hmid ih =>
      apply ih (by omega) hjn ?_ hafter
      intro a ha
      -- a point below the middle where `f` holds would make it hold in the middle
      by_contra htrue
      exact hmid (hmono a _ (by omega) (by omega) (by simpa using htrue))
  | case3 i j hge =>
      obtain rfl : i = j := by omega
      exact ⟨hjn, hbefore, hafter⟩

theorem sortSearch_changesAt {n : ℕ} {f : ℕ → Bool}
    (hmono : ∀ a b, a ≤ b → b < n → f a = true → f b = true) :
    ChangesAt n f (sortSearch n f) :=
  searchLoop_changesAt hmono 0 n (Nat.zero_le n) le_rfl (fun _ ha => absurd ha (Nat.not_lt_zero _))
    fun _ ha hn => absurd hn (by omega)

/-! ## The next point -/

section Next

variable {α : Type*} [LinearOrder α]

/-- `x` is the next point of `s` after `key`. -/
def IsNext (s : Set α) (key x : α) : Prop :=
  x ∈ s ∧ (key < x ∧ (∀ y ∈ s, key < y → x ≤ y) ∨ (∀ y ∈ s, y ≤ key) ∧ ∀ y ∈ s, x ≤ y)

variable {s t : Set α} {key x y : α}

theorem IsNext.mem (h : IsNext s key x) : x ∈ s := h.1

theorem IsNext.unique (hx : IsNext s key x) (hy : IsNext s key y) : x = y := by
  obtain ⟨hxs, ⟨hkx, hxmin⟩ | ⟨hxall, hxmin⟩⟩ := hx
  · obtain ⟨hys, ⟨hky, hymin⟩ | ⟨hyall, -⟩⟩ := hy
    · exact le_antisymm (hxmin y hys hky) (hymin x hxs hkx)
    · exact absurd (hyall x hxs) (not_le.mpr hkx)
  · obtain ⟨hys, ⟨hky, -⟩ | ⟨-, hymin⟩⟩ := hy
    · exact absurd (hxall y hys) (not_le.mpr hky)
    · exact le_antisymm (hxmin y hys) (hymin x hxs)

/-- Points that are left out do not matter, unless the next point is one of them. -/
theorem IsNext.of_subset (h : IsNext t key x) (hst : s ⊆ t) (hx : x ∈ s) : IsNext s key x := by
  refine ⟨hx, h.2.imp (fun ⟨hlt, hmin⟩ => ⟨hlt, fun y hy => hmin y (hst hy)⟩) ?_⟩
  exact fun ⟨hall, hmin⟩ => ⟨fun y hy => hall y (hst hy), fun y hy => hmin y (hst hy)⟩

/-- Two sets agree on the next point if it is in both, from either side. -/
theorem IsNext.agree (hx : IsNext s key x) (hy : IsNext t key y) (hxt : x ∈ t) (hys : y ∈ s) :
    x = y :=
  (hx.of_subset Set.inter_subset_left ⟨hx.mem, hxt⟩).unique
    (hy.of_subset Set.inter_subset_right ⟨hys, hy.mem⟩)

/-! ## On a sorted list -/

/-- The index of the next point on a sorted list. -/
def nextIndex (l : List α) (key : α) : ℕ :=
  let i := sortSearch l.length fun x => decide (∃ h : x < l.length, key < l[x])
  if i ≥ l.length then 0 else i

variable {l : List α}

theorem nextIndex_isNext (hsorted : l.Pairwise (· < ·)) (hne : l ≠ []) (key : α) :
    ∃ h : nextIndex l key < l.length, IsNext {x | x ∈ l} key l[nextIndex l key] := by
  have hpos : 0 < l.length := List.length_pos_of_ne_nil hne
  have hle : ∀ a b (ha : a < l.length) (hb : b < l.length), a ≤ b → l[a] ≤ l[b] := by
    intro a b ha hb hab
    rcases Nat.lt_or_eq_of_le hab with hlt | rfl
    · exact (List.pairwise_iff_getElem.mp hsorted a b ha hb hlt).le
    · exact le_rfl
  set f : ℕ → Bool := fun x => decide (∃ h : x < l.length, key < l[x]) with hf
  have hfalse : ∀ a (ha : a < l.length), f a = false → l[a] ≤ key := by
    intro a ha h
    rw [hf, decide_eq_false_iff_not] at h
    exact not_lt.mp fun hlt => h ⟨ha, hlt⟩
  have hchange : ChangesAt l.length f (sortSearch l.length f) := by
    apply sortSearch_changesAt
    intro a b hab hb ha
    obtain ⟨ha', hlt⟩ := of_decide_eq_true ha
    exact decide_eq_true ⟨hb, hlt.trans_le (hle a b ha' hb hab)⟩
  have hindex : nextIndex l key = if sortSearch l.length f ≥ l.length then 0
      else sortSearch l.length f := rfl
  by_cases hend : sortSearch l.length f ≥ l.length
  · have hzero : nextIndex l key = 0 := by rw [hindex, if_pos hend]
    refine ⟨hzero ▸ hpos, ?_⟩
    simp only [hzero]
    refine ⟨List.getElem_mem hpos, .inr ⟨fun y hy => ?_, fun y hy => ?_⟩⟩
    · obtain ⟨a, ha, rfl⟩ := List.mem_iff_getElem.mp hy
      exact hfalse a ha (hchange.before a (by omega))
    · obtain ⟨a, ha, rfl⟩ := List.mem_iff_getElem.mp hy
      exact hle 0 a hpos ha (Nat.zero_le a)
  · have hsame : nextIndex l key = sortSearch l.length f := by rw [hindex, if_neg hend]
    have hlt : sortSearch l.length f < l.length := by omega
    refine ⟨hsame ▸ hlt, ?_⟩
    simp only [hsame]
    obtain ⟨_, hkey⟩ := of_decide_eq_true (hchange.after _ le_rfl hlt)
    refine ⟨List.getElem_mem hlt, .inl ⟨hkey, fun y hy hky => ?_⟩⟩
    obtain ⟨a, ha, rfl⟩ := List.mem_iff_getElem.mp hy
    by_cases hbelow : a < sortSearch l.length f
    · exact absurd (hfalse a ha (hchange.before a hbelow)) (not_le.mpr hky)
    · exact hle _ a hlt ha (by omega)

end Next

end Skytime.Process
