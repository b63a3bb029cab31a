/-
# Skytime.Consistent.Agree — circles with common members agree on them.

If the points of the members are apart, a circle is determined by its members: it does not matter in
which order they were added, or what was added and removed in between. Two circles then give the
same answer to a name, unless one of them answers with a member that the other one does not have. So
a new member only takes names over, and the names of a member that leaves are the only ones that
move.
-/
import Skytime.Consistent.Circle

namespace Skytime

open Process

/-- No two of these names have a point in common. -/
def Apart (replicas : ℕ+) (U : Set String) : Prop :=
  ∀ a ∈ U, ∀ b ∈ U, ∀ h, h ∈ points replicas a → h ∈ points replicas b → a = b

/-- The names an action is about. -/
def CircleAction.names : CircleAction → List String
  | .add elt | .remove elt => [elt]
  | .set elts _ => elts

namespace Consistent

variable {c d : Consistent} {replicas : ℕ+} {U : Set String} {name e e' : String}

/-- Every member has all of its points. -/
structure Full (replicas : ℕ+) (U : Set String) (c : Consistent) : Prop where
  inv : Inv replicas c
  within : ∀ e ∈ c.members, e ∈ U
  full : ∀ e ∈ c.members, ∀ h ∈ points replicas e, c.circle.lookup h = some e

theorem Full.add (hU : Apart replicas U) (hc : Full replicas U c) {elt : String} (helt : elt ∈ U) :
    Full replicas U (c.add elt) where
  inv := hc.inv.add elt
  within e he := by
    rcases mem_members_add.mp he with rfl | he
    · exact helt
    · exact hc.within e he
  full e he h hpoint := by
    rw [lookup_add, hc.inv.replicas_eq]
    rcases mem_members_add.mp he with rfl | he
    · rw [if_pos hpoint]
    · split_ifs with hnew
      · rw [hU elt helt e (hc.within e he) h hnew hpoint]
      · exact hc.full e he h hpoint

theorem Full.remove (hU : Apart replicas U) (hc : Full replicas U c) {elt : String}
    (helt : elt ∈ U) : Full replicas U (c.remove elt) where
  inv := hc.inv.remove elt
  within e he := hc.within e (mem_members_remove.mp he).2
  full e he h hpoint := by
    obtain ⟨hne, he⟩ := mem_members_remove.mp he
    rw [lookup_remove, hc.inv.replicas_eq, if_neg]
    · exact hc.full e he h hpoint
    · exact fun hold => hne (hU e (hc.within e he) elt helt h hpoint hold)

theorem Full.set (hU : Apart replicas U) (hc : Full replicas U c) {elts order : List String}
    (helts : ∀ e ∈ elts, e ∈ U) : Full replicas U (c.set elts order) :=
  set_induction hc (fun _ elt helt hd => hd.add hU (helts elt helt))
    (fun _ elt helt hd => hd.remove hU (hd.within elt helt))

/-- The circle is empty when there are no members. -/
theorem Full.circle_eq_empty_iff (hc : Full replicas U c) :
    c.circle = ∅ ↔ ∀ e, e ∉ c.members := by
  constructor
  · intro hempty e he
    have hlook := hc.full e he (point e 0)
      (List.mem_map.mpr ⟨0, List.mem_range.mpr replicas.pos, rfl⟩)
    rw [hempty, Finmap.lookup_empty] at hlook
    exact absurd hlook (by simp)
  · intro hnone
    apply Finmap.ext_lookup
    intro h
    rw [Finmap.lookup_empty]
    cases hlook : c.circle.lookup h with
    | none => rfl
    | some e => exact absurd (hc.inv.owned h e hlook).1 (hnone e)

/-- Two circles on which the members have all of their points. -/
theorem Full.agree (hU : Apart replicas U) (hc : Full replicas U c) (hd : Full replicas U d)
    (he : c.Answers name e) (he' : d.Answers name e') (hed : e ∈ d.members)
    (hec : e' ∈ c.members) : e = e' := by
  obtain ⟨x, hx, hlook⟩ := he
  obtain ⟨y, hy, hlook'⟩ := he'
  obtain ⟨-, hpoint⟩ := hc.inv.owned x e hlook
  obtain ⟨-, hpoint'⟩ := hd.inv.owned y e' hlook'
  have hxd : x ∈ d.circle := Finmap.mem_iff.mpr ⟨e, hd.full e hed x hpoint⟩
  have hyc : y ∈ c.circle := Finmap.mem_iff.mpr ⟨e', hc.full e' hec y hpoint'⟩
  have hxy : x = y := hx.agree hy hxd hyc
  exact hU e (hd.within e hed) e' (hc.within e' hec) x hpoint (hxy ▸ hpoint')

end Consistent

/-- A run over names whose points are apart. -/
theorem hashCircle_full {replicas : ℕ+} {U : Set String} (hU : Apart replicas U)
    (r : (hashCircle replicas).Run) (hr : ∀ a ∈ r.acts, ∀ n ∈ a.names, n ∈ U) :
    r.last.Full replicas U := by
  have hinit : (hashCircle replicas).init.Full replicas U := by
    have hnone : ∀ e, e ∉ (hashCircle replicas).init.members := fun e => Finmap.notMem_empty
    exact ⟨hashCircle_init replicas, fun e he => absurd he (hnone e),
      fun e he => absurd he (hnone e)⟩
  refine (Machine.Run.always_of_eachStep (I := fun c _ => c.Full replicas U)
    (C := fun _ _ a => ∀ n ∈ a.names, n ∈ U) hinit ?_ r ?_).last
  · intro c l a d o hc ha hstep
    obtain ⟨elt, rfl, rfl⟩ | ⟨elt, rfl, rfl⟩ | ⟨elts, order, rfl, -, rfl⟩ :=
      hashCircle_step_cases hstep
    · exact hc.add hU (ha elt List.mem_cons_self)
    · exact hc.remove hU (ha elt List.mem_cons_self)
    · exact hc.set hU ha
  · intro pre a hpre c l _
    exact hr a (hpre.subset (List.mem_append_right _ (List.mem_singleton_self a)))

/-- **Two circles with any histories, over names whose points are apart: each has an answer unless
it has no members, and to a name they give the same answer, unless one of them answers with a member
that the other one does not have.** -/
theorem hashCircle_agree {replicas : ℕ+} {U : Set String} (hU : Apart replicas U)
    (r q : (hashCircle replicas).Run) (hr : ∀ a ∈ r.acts, ∀ n ∈ a.names, n ∈ U)
    (hq : ∀ a ∈ q.acts, ∀ n ∈ a.names, n ∈ U) (name : String) :
    (r.last.get name = .ok none ↔ ∀ e, e ∉ r.last.members) ∧
      ∀ e e', r.last.get name = .ok (some e) → q.last.get name = .ok (some e') →
        e ∈ q.last.members → e' ∈ r.last.members → e = e' := by
  have hc := hashCircle_full hU r hr
  have hd := hashCircle_full hU q hq
  refine ⟨?_, fun e e' he he' hed hec => ?_⟩
  · rw [← hc.circle_eq_empty_iff]
    rcases hc.inv.get_cases name with ⟨hempty, hnone⟩ | ⟨e, -, ⟨h, -, hlook⟩, hsome⟩
    · exact iff_of_true hnone hempty
    · refine iff_of_false (by rw [hsome]; simp) fun hempty => ?_
      rw [hempty, Finmap.lookup_empty] at hlook
      exact absurd hlook (by simp)
  · exact hc.agree hU hd (hc.inv.get_eq_iff.mp he) (hd.inv.get_eq_iff.mp he') hed hec

/-- Two members in either order, with one replica each. -/
def addTwo (a b : String) : (hashCircle 1).Run :=
  ⟨[.add a, .add b], _, _, rfl⟩

theorem apart_ab : Apart 1 {"a", "b"} := by
  have hne : point "a" 0 ≠ point "b" 0 := by decide +kernel
  have hpoints : ∀ (e : String) (h : UInt32), h ∈ points 1 e → h = point e 0 := by
    intro e h hmem
    simpa [points] using hmem
  rintro a (rfl | rfl) b (rfl | rfl) h ha hb
  · rfl
  · exact absurd ((hpoints _ h ha).symm.trans (hpoints _ h hb)) hne
  · exact absurd ((hpoints _ h hb).symm.trans (hpoints _ h ha)) hne
  · rfl

theorem hashCircle_agree_ab :
    ((addTwo "a" "b").last.get "peer" = .ok none ↔ ∀ e, e ∉ (addTwo "a" "b").last.members) ∧
      ∀ e e', (addTwo "a" "b").last.get "peer" = .ok (some e) →
        (addTwo "b" "a").last.get "peer" = .ok (some e') →
        e ∈ (addTwo "b" "a").last.members → e' ∈ (addTwo "a" "b").last.members → e = e' :=
  hashCircle_agree apart_ab (addTwo "a" "b") (addTwo "b" "a")
    (by simp [addTwo, CircleAction.names]) (by simp [addTwo, CircleAction.names]) "peer"

end Skytime
