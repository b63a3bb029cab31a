/-
# Skytime.Consistent.Circle — the circle of the package `consistent`.

Every member has `NumberOfReplicas` points on the circle, at the checksums of its name with a number
before it. `Get` hashes the name it is asked for and returns the member at the next point. The
points are kept in a map, so where two members have the same point the one that was added last has
it; removing one removes the point from both.
-/
import Mathlib.Data.PNat.Basic
import Skytime.Process.GoMap
import Skytime.Process.Machine
import Skytime.Process.Ring
import Skytime.Process.Slice

namespace Skytime

open Process

/-! ## The checksum -/

/-- One bit of `crc32.ChecksumIEEE`. -/
def crcBit (crc : UInt32) : UInt32 :=
  if crc &&& 1 = 1 then (crc >>> 1) ^^^ 0xEDB88320 else crc >>> 1

def crcByte (crc : UInt32) (b : UInt8) : UInt32 :=
  Nat.iterate crcBit 8 (crc ^^^ b.toUInt32)

/-- `crc32.ChecksumIEEE`. -/
def checksumIEEE (data : List UInt8) : UInt32 :=
  data.foldl crcByte 0xFFFFFFFF ^^^ 0xFFFFFFFF

-- the check value of the polynomial, for the digits from one to nine
example : checksumIEEE [49, 50, 51, 52, 53, 54, 55, 56, 57] = 0xCBF43926 := by
  decide +kernel

instance instLinearOrderHash : LinearOrder UInt32 where
  le_refl := UInt32.le_refl
  le_trans _ _ _ := UInt32.le_trans
  le_antisymm _ _ := UInt32.le_antisymm
  le_total := UInt32.le_total
  lt_iff_le_not_ge a b := by
    rw [UInt32.not_le]
    exact ⟨fun h => ⟨UInt32.le_of_lt h, h⟩, And.right⟩
  toDecidableLE := inferInstance
  toDecidableEq := inferInstance

/-! ## The operations -/

/-- `Consistent`. -/
structure Consistent where
  circle : GoMap UInt32 String
  members : GoMap String Bool
  sortedHashes : List UInt32
  numberOfReplicas : ℕ+
  count : ℤ

/-- `eltKey`. -/
def eltKey (elt : String) (idx : ℕ) : String := toString idx ++ elt

/-- `hashKey`: a short key is hashed in an array of 64 bytes. -/
def hashKey (key : String) : UInt32 :=
  let b := key.toUTF8.toList
  if b.length < 64 then
    checksumIEEE ((b ++ List.replicate (64 - b.length) 0).take b.length)
  else checksumIEEE b

/-- A point of a member. -/
def point (elt : String) (idx : ℕ) : UInt32 := hashKey (eltKey elt idx)

namespace Consistent

/-- `New`. -/
def new : Consistent := ⟨∅, ∅, [], 20, 0⟩

/-- `updateSortedHashes`: the keys of the circle in any order, and then sorted. -/
def updateSortedHashes (c : Consistent) : Consistent :=
  { c with sortedHashes := c.circle.keys.sort }

/-- `add`. -/
def add (c : Consistent) (elt : String) : Consistent :=
  let d : Consistent :=
    { c with
      circle := (List.range c.numberOfReplicas).foldl
        (fun circle i => circle.insert (point elt i) elt) c.circle
      members := c.members.insert elt true }
  { d.updateSortedHashes with count := c.count + 1 }

/-- `remove`. -/
def remove (c : Consistent) (elt : String) : Consistent :=
  let d : Consistent :=
    { c with
      circle := (List.range c.numberOfReplicas).foldl
        (fun circle i => circle.erase (point elt i)) c.circle
      members := c.members.erase elt }
  { d.updateSortedHashes with count := c.count - 1 }

/-- `Set`, where `range` visits the members in this order. -/
def set (c : Consistent) (elts order : List String) : Consistent :=
  let d := order.foldl
    (fun c k => if k ∈ c.members ∧ k ∉ elts then c.remove k else c) c
  elts.foldl (fun c v => if v ∈ c.members then c else c.add v) d

/-- `search`. -/
def search (c : Consistent) (key : UInt32) : ℕ := nextIndex c.sortedHashes key

/-- `c.circle[c.sortedHashes[i]]`. -/
def at? (c : Consistent) (i : ℕ) : Except RuntimeError String :=
  match c.sortedHashes[i]? with
  | some h => .ok ((c.circle.lookup h).getD "")
  | none => .error .indexOutOfRange

/-- `Get`; `none` is `ErrEmptyCircle`. -/
def get (c : Consistent) (name : String) : Except RuntimeError (Option String) :=
  if c.circle.len = 0 then .ok none
  else (c.at? (c.search (hashKey name))).map some

end Consistent

/-! ## The machine -/

inductive CircleAction where
  | add (elt : String)
  | remove (elt : String)
  | set (elts order : List String)

/-- A circle that is used, with its number of replicas. -/
def hashCircle (replicas : ℕ+) : Machine Consistent CircleAction Unit where
  init := { Consistent.new with numberOfReplicas := replicas }
  step c
    | .add elt => some (c.add elt, [])
    | .remove elt => some (c.remove elt, [])
    | .set elts order => if c.members.Range order then some (c.set elts order, []) else none

/-! ## What the operations do -/

/-- The points of a member. -/
def points (replicas : ℕ+) (elt : String) : List UInt32 :=
  (List.range replicas).map (point elt)

namespace Consistent

variable {c : Consistent} {elt e : String} {h : UInt32}

@[simp] theorem lookup_add : (c.add elt).circle.lookup h =
    if h ∈ points c.numberOfReplicas elt then some elt else c.circle.lookup h := by
  have hfold := GoMap.lookup_foldl (fun m k => Finmap.insert k elt m)
    (fun m k k' => GoMap.lookup_insert m k k' elt) (points c.numberOfReplicas elt) c.circle h
  rw [points, List.foldl_map] at hfold
  exact hfold

@[simp] theorem lookup_remove : (c.remove elt).circle.lookup h =
    if h ∈ points c.numberOfReplicas elt then none else c.circle.lookup h := by
  have hfold := GoMap.lookup_foldl (fun m k => Finmap.erase k m)
    (fun m k k' => GoMap.lookup_erase m k k') (points c.numberOfReplicas elt) c.circle h
  rw [points, List.foldl_map] at hfold
  exact hfold

@[simp] theorem mem_members_add : e ∈ (c.add elt).members ↔ e = elt ∨ e ∈ c.members :=
  Finmap.mem_insert

@[simp] theorem mem_members_remove : e ∈ (c.remove elt).members ↔ e ≠ elt ∧ e ∈ c.members :=
  Finmap.mem_erase

@[simp] theorem numberOfReplicas_add : (c.add elt).numberOfReplicas = c.numberOfReplicas := rfl

@[simp] theorem numberOfReplicas_remove :
    (c.remove elt).numberOfReplicas = c.numberOfReplicas := rfl

theorem sortedHashes_add : (c.add elt).sortedHashes = (c.add elt).circle.keys.sort := rfl

theorem sortedHashes_remove : (c.remove elt).sortedHashes = (c.remove elt).circle.keys.sort := rfl

/-- What `add` and `remove` keep, `Set` keeps. -/
theorem set_induction {I : Consistent → Prop} {elts order : List String} (h : I c)
    (hadd : ∀ c, ∀ elt ∈ elts, I c → I (c.add elt))
    (hremove : ∀ c elt, elt ∈ c.members → I c → I (c.remove elt)) : I (c.set elts order) := by
  refine List.foldlRecOn _ _ (List.foldlRecOn _ _ h fun d hd k _ => ?_) fun d hd v hv => ?_
  · show I (if k ∈ d.members ∧ k ∉ elts then d.remove k else d)
    split_ifs with hk
    · exact hremove d k hk.1 hd
    · exact hd
  · show I (if v ∈ d.members then d else d.add v)
    split_ifs
    · exact hd
    · exact hadd d v hv hd

/-- After `Set` the members are the elements it was given. -/
theorem mem_members_set {elts order : List String} (horder : c.members.Range order) :
    e ∈ (c.set elts order).members ↔ e ∈ elts := by
  have hwalk : ∀ (order : List String) (c : Consistent), e ∈ (order.foldl
      (fun c k => if k ∈ c.members ∧ k ∉ elts then c.remove k else c) c).members ↔
        e ∈ c.members ∧ (e ∈ order → e ∈ elts) := by
    intro order
    induction order with
    | nil => simp
    | cons k order ih =>
        intro c
        rw [List.foldl_cons, ih, List.mem_cons]
        split_ifs with hk
        · rw [mem_members_remove]
          constructor
          · rintro ⟨⟨hne, hmem⟩, hrest⟩
            exact ⟨hmem, fun h => hrest (h.resolve_left hne)⟩
          · rintro ⟨hmem, hrest⟩
            refine ⟨⟨?_, hmem⟩, fun h => hrest (.inr h)⟩
            rintro rfl
            exact hk.2 (hrest (.inl rfl))
        · constructor
          · rintro ⟨hmem, hrest⟩
            refine ⟨hmem, ?_⟩
            rintro (rfl | h)
            · exact by_contra fun hnot => hk ⟨hmem, hnot⟩
            · exact hrest h
          · exact fun ⟨hmem, hrest⟩ => ⟨hmem, fun h => hrest (.inr h)⟩
  have hfill : ∀ (l : List String) (c : Consistent),
      e ∈ (l.foldl (fun c v => if v ∈ c.members then c else c.add v) c).members ↔
        e ∈ l ∨ e ∈ c.members := by
    intro l
    induction l with
    | nil => simp
    | cons v l ih =>
        intro c
        rw [List.foldl_cons, ih, List.mem_cons]
        split_ifs with hv
        · constructor
          · exact Or.imp_left .inr
          · rintro ((rfl | h) | h)
            · exact .inr hv
            · exact .inl h
            · exact .inr h
        · rw [mem_members_add]
          tauto
  rw [set, hfill, hwalk]
  have hmem : e ∈ order ↔ e ∈ c.members := by rw [horder.mem_iff, Finmap.mem_iff]
  tauto

/-! ## The invariant -/

/-- The hashes are those of the circle, and every point is a member's. -/
structure Inv (replicas : ℕ+) (c : Consistent) : Prop where
  replicas_eq : c.numberOfReplicas = replicas
  sorted : c.sortedHashes = c.circle.keys.sort
  owned : ∀ h e, c.circle.lookup h = some e → e ∈ c.members ∧ h ∈ points replicas e

variable {replicas : ℕ+}

theorem Inv.add (hc : Inv replicas c) (elt : String) : Inv replicas (c.add elt) where
  replicas_eq := hc.replicas_eq
  sorted := sortedHashes_add
  owned h e hlook := by
    rw [lookup_add, hc.replicas_eq] at hlook
    rw [mem_members_add]
    split_ifs at hlook with hpoint
    · obtain rfl := Option.some.inj hlook
      exact ⟨.inl rfl, hpoint⟩
    · exact (hc.owned h e hlook).imp_left .inr

theorem Inv.remove (hc : Inv replicas c) (elt : String) : Inv replicas (c.remove elt) where
  replicas_eq := hc.replicas_eq
  sorted := sortedHashes_remove
  owned h e hlook := by
    rw [lookup_remove, hc.replicas_eq] at hlook
    rw [mem_members_remove]
    split_ifs at hlook with hpoint
    obtain ⟨hmem, he⟩ := hc.owned h e hlook
    refine ⟨⟨?_, hmem⟩, he⟩
    rintro rfl
    exact hpoint he

theorem Inv.set (hc : Inv replicas c) (elts order : List String) :
    Inv replicas (c.set elts order) :=
  set_induction hc (fun _ elt _ hd => hd.add elt) (fun _ elt _ hd => hd.remove elt)

/-- The member at the next point after the hash of a name. -/
def Answers (c : Consistent) (name e : String) : Prop :=
  ∃ h, IsNext {h | h ∈ c.circle} (hashKey name) h ∧ c.circle.lookup h = some e

theorem Answers.unique {name e e' : String} (h : c.Answers name e) (h' : c.Answers name e') :
    e = e' := by
  obtain ⟨x, hx, hlook⟩ := h
  obtain ⟨y, hy, hlook'⟩ := h'
  rw [hx.unique hy] at hlook
  exact Option.some.inj (hlook.symm.trans hlook')

/-- `Get` finds the next point on a circle that has one. -/
theorem Inv.get_cases (hc : Inv replicas c) (name : String) :
    (c.circle = ∅ ∧ c.get name = .ok none) ∨
      ∃ e ∈ c.members, c.Answers name e ∧ c.get name = .ok (some e) := by
  by_cases hempty : c.circle.keys = ∅
  · left
    refine ⟨?_, by rw [get, GoMap.len, hempty, Finset.card_empty, if_pos rfl]⟩
    apply Finmap.ext_lookup
    intro h
    rw [Finmap.lookup_empty, Finmap.lookup_eq_none, ← Finmap.mem_keys, hempty]
    exact Finset.notMem_empty h
  · right
    have hlen : ¬ c.circle.len = 0 := by rwa [GoMap.len, Finset.card_eq_zero]
    have hsorted : c.sortedHashes.Pairwise (· < ·) := by
      rw [hc.sorted]
      exact Finset.sortedLT_sort _ |>.pairwise
    have hne : c.sortedHashes ≠ [] := by
      rw [hc.sorted, ← List.length_pos_iff, Finset.length_sort]
      exact Finset.card_pos.mpr (Finset.nonempty_iff_ne_empty.mpr hempty)
    have hset : {x | x ∈ c.sortedHashes} = {h | h ∈ c.circle} := by
      ext h
      rw [Set.mem_ofPred_eq, Set.mem_ofPred_eq, hc.sorted, Finset.mem_sort, Finmap.mem_keys]
    obtain ⟨hlt, hnext⟩ := nextIndex_isNext hsorted hne (hashKey name)
    rw [hset] at hnext
    obtain ⟨e, he⟩ := Finmap.mem_iff.mp hnext.mem
    refine ⟨e, (hc.owned _ _ he).1, ⟨_, hnext, he⟩, ?_⟩
    have hat : c.at? (c.search (hashKey name)) = .ok e := by
      simp only [at?, search, List.getElem?_eq_getElem hlt, he, Option.getD_some]
    rw [get, if_neg hlen, hat]
    rfl

theorem Inv.get_eq_iff (hc : Inv replicas c) {name e : String} :
    c.get name = .ok (some e) ↔ c.Answers name e := by
  rcases hc.get_cases name with ⟨hempty, hnone⟩ | ⟨e', -, hanswer, hsome⟩
  · rw [hnone]
    refine iff_of_false (by simp) ?_
    rintro ⟨h, -, hlook⟩
    rw [hempty, Finmap.lookup_empty] at hlook
    exact absurd hlook (by simp)
  · rw [hsome]
    constructor
    · intro heq
      obtain rfl := Option.some.inj (Except.ok.inj heq)
      exact hanswer
    · exact fun h => by rw [hanswer.unique h]

end Consistent

theorem hashCircle_init (replicas : ℕ+) : (hashCircle replicas).init.Inv replicas :=
  ⟨rfl, by simp [hashCircle, Consistent.new], fun h e hlook =>
    absurd hlook (by simp [hashCircle, Consistent.new])⟩

/-- Everything a step can do. -/
theorem hashCircle_step_cases {replicas : ℕ+} {c d : Consistent} {a : CircleAction} {o : List Unit}
    (hstep : (hashCircle replicas).step c a = some (d, o)) :
    (∃ elt, a = .add elt ∧ d = c.add elt) ∨ (∃ elt, a = .remove elt ∧ d = c.remove elt) ∨
      ∃ elts order, a = .set elts order ∧ c.members.Range order ∧ d = c.set elts order := by
  cases a with
  | add elt =>
      obtain ⟨rfl, -⟩ := Prod.mk.inj (Option.some.inj hstep)
      exact .inl ⟨elt, rfl, rfl⟩
  | remove elt =>
      obtain ⟨rfl, -⟩ := Prod.mk.inj (Option.some.inj hstep)
      exact .inr (.inl ⟨elt, rfl, rfl⟩)
  | set elts order =>
      obtain ⟨horder, hset⟩ := Option.ite_none_right_eq_some.mp hstep
      obtain ⟨rfl, -⟩ := Prod.mk.inj (Option.some.inj hset)
      exact .inr (.inr ⟨elts, order, rfl, horder, rfl⟩)

theorem hashCircle_inv {replicas : ℕ+} {c d : Consistent} {a : CircleAction} {o : List Unit}
    (hc : c.Inv replicas) (hstep : (hashCircle replicas).step c a = some (d, o)) :
    d.Inv replicas := by
  obtain ⟨elt, -, rfl⟩ | ⟨elt, -, rfl⟩ | ⟨elts, order, -, -, rfl⟩ := hashCircle_step_cases hstep
  · exact hc.add elt
  · exact hc.remove elt
  · exact hc.set elts order

/-- **In every reachable state `Get` returns the member at the next point after the hash of the
name, or says that the circle is empty; it never fails, and never answers with one that was
removed.** -/
theorem hashCircle_get (replicas : ℕ+) (r : (hashCircle replicas).Run) : r.Always fun c _ =>
    ∀ name, (c.circle = ∅ ∧ c.get name = .ok none) ∨
      ∃ e ∈ c.members, c.Answers name e ∧ c.get name = .ok (some e) := by
  have hinv := r.always (I := fun c _ => c.Inv replicas) (hashCircle_init replicas)
    fun _ _ _ _ _ hc hstep => hashCircle_inv hc hstep
  exact hinv.mono fun c _ hc name => hc.get_cases name

end Skytime
