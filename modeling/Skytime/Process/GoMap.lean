/-
# Skytime.Process.GoMap — maps with the iteration of the Go language.

A map is a `Finmap`. `for k, v := range m` visits every entry that is not deleted before it is
reached, in an order the language leaves open: `Range m order` says that `order` lists the keys of
`m` once each, and a loop is modelled by a walk along such a list that looks every key up again.
-/
import Mathlib.Data.Finmap

namespace Skytime.Process

/-- `map[κ]ν`. -/
abbrev GoMap (κ ν : Type*) := Finmap fun _ : κ => ν

namespace GoMap

variable {κ ν : Type*}

/-- `order` is one of the orders in which `range m` may visit the keys of `m`. -/
def Range (m : GoMap κ ν) (order : List κ) : Prop := (order : Multiset κ) = m.keys.val

instance [DecidableEq κ] (m : GoMap κ ν) (order : List κ) : Decidable (m.Range order) :=
  inferInstanceAs (Decidable ((order : Multiset κ) = m.keys.val))

theorem Range.nodup {m : GoMap κ ν} {order : List κ} (h : m.Range order) : order.Nodup := by
  have hnd : (order : Multiset κ).Nodup := by
    unfold Range at h
    rw [h]
    exact m.keys.nodup
  exact Multiset.coe_nodup.mp hnd

theorem Range.mem_iff [DecidableEq κ] {m : GoMap κ ν} {order : List κ} (h : m.Range order)
    {k : κ} : k ∈ order ↔ ∃ v, m.lookup k = some v := by
  unfold Range at h
  calc k ∈ order ↔ k ∈ m.keys := by rw [← Finset.mem_val, ← h, Multiset.mem_coe]
    _ ↔ k ∈ m := Finmap.mem_keys
    _ ↔ ∃ v, m.lookup k = some v := Finmap.mem_iff

/-- A key without an entry is not visited. -/
theorem Range.notMem_of_absent [DecidableEq κ] {m : GoMap κ ν} {order : List κ}
    (h : m.Range order) {k : κ} (hk : m.lookup k = none) : k ∉ order := by
  intro hmem
  obtain ⟨v, hv⟩ := h.mem_iff.mp hmem
  exact absurd (hk.symm.trans hv) (by simp)

/-! ## Reading after a write -/

variable [DecidableEq κ]

/-- What a key holds after an assignment. -/
theorem lookup_insert (m : GoMap κ ν) (k k' : κ) (v : ν) :
    Finmap.lookup k' (Finmap.insert k v m) = if k' = k then some v else m.lookup k' := by
  split
  · rename_i h
    rw [h, Finmap.lookup_insert]
  · rename_i h
    exact Finmap.lookup_insert_of_ne m h

/-- What a key holds after a `delete`. -/
theorem lookup_erase (m : GoMap κ ν) (k k' : κ) :
    Finmap.lookup k' (Finmap.erase k m) = if k' = k then none else m.lookup k' := by
  split
  · rename_i h
    rw [h, Finmap.lookup_erase]
  · rename_i h
    exact Finmap.lookup_erase_ne h

/-- What a key holds after a loop that assigns to keys, or deletes them. -/
theorem lookup_foldl (write : GoMap κ ν → κ → GoMap κ ν) {r : Option ν}
    (hwrite : ∀ m k k', (write m k).lookup k' = if k' = k then r else m.lookup k')
    (ks : List κ) (m : GoMap κ ν) (k' : κ) :
    (ks.foldl write m).lookup k' = if k' ∈ ks then r else m.lookup k' := by
  induction ks generalizing m with
  | nil => simp
  | cons k ks ih =>
      rw [List.foldl_cons, ih, hwrite]
      by_cases hmem : k' ∈ ks
      · rw [if_pos hmem, if_pos (List.mem_cons_of_mem k hmem)]
      · by_cases hk : k' = k
        · rw [if_neg hmem, if_pos hk, if_pos (hk ▸ List.mem_cons_self)]
        · rw [if_neg hmem, if_neg hk, if_neg (by simp [hk, hmem])]

/-! ## The number of entries -/

/-- `len(m)`. -/
def len (m : GoMap κ ν) : ℕ := m.keys.card

omit [DecidableEq κ] in
@[simp] theorem len_empty : len (∅ : GoMap κ ν) = 0 := by
  rw [len, Finmap.keys_empty, Finset.card_empty]

/-- An assignment to an absent key adds an entry. -/
theorem len_insert_of_absent {m : GoMap κ ν} {k : κ} (h : m.lookup k = none) (v : ν) :
    len (Finmap.insert k v m) = m.len + 1 := by
  have hkeys : (Finmap.insert k v m).keys = insert k m.keys := by
    ext k'
    rw [Finmap.mem_keys, Finmap.mem_insert, Finset.mem_insert, Finmap.mem_keys]
  have hnot : k ∉ m.keys := by
    rw [Finmap.mem_keys]
    exact Finmap.lookup_eq_none.mp h
  rw [len, len, hkeys, Finset.card_insert_of_notMem hnot]

theorem keys_insert_of_present {m : GoMap κ ν} {k : κ} {w : ν} (h : m.lookup k = some w) (v : ν) :
    (Finmap.insert k v m).keys = m.keys := by
  have hmem : k ∈ m := Finmap.mem_iff.mpr ⟨w, h⟩
  ext k'
  rw [Finmap.mem_keys, Finmap.mem_insert, Finmap.mem_keys]
  constructor
  · rintro (rfl | hk')
    · exact hmem
    · exact hk'
  · exact Or.inr

/-- An assignment to a present key overwrites its entry. -/
theorem len_insert_of_present {m : GoMap κ ν} {k : κ} {w : ν} (h : m.lookup k = some w) (v : ν) :
    len (Finmap.insert k v m) = m.len := by
  rw [len, len, keys_insert_of_present h]

/-- An assignment to a present key leaves the orders of `range` as they are. -/
theorem Range.insert_of_present {m : GoMap κ ν} {order : List κ} (hm : m.Range order) {k : κ}
    {w : ν} (h : m.lookup k = some w) (v : ν) : Range (Finmap.insert k v m) order := by
  rw [Range, keys_insert_of_present h]
  exact hm

/-- A `delete` of a present key removes an entry. -/
theorem len_erase_of_present {m : GoMap κ ν} {k : κ} {w : ν} (h : m.lookup k = some w) :
    len (Finmap.erase k m) + 1 = m.len := by
  have hmem : k ∈ m.keys := Finmap.mem_keys.mpr (Finmap.mem_iff.mpr ⟨w, h⟩)
  rw [len, len, Finmap.keys_erase, Finset.card_erase_add_one hmem]

end GoMap

end Skytime.Process
