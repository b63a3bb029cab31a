/-
# Skytime.Process.Machine — executable machines, their runs, and the rules for run properties.

A `Machine` has one initial state and a partial step function: `none` means that the action is not
enabled in that state (a goroutine that waits), `some (t, o)` that it leads to `t` and shows the
events `o`. All nondeterminism (scheduling, map iteration order, what the environment does) is in
the action, so a run is a list of actions and can be evaluated.

Properties of runs are stated with `Run.Always` (in every state the run reaches) and
`Run.EachStep` (before every step it takes). `always_iff_eachStep` is the rule for "the property
holds along a run exactly when no step of the run takes the branch that breaks it".
-/
import Mathlib.Data.List.Induction
import Mathlib.Data.List.Infix

namespace Skytime.Process

/-- An executable labelled machine over states `σ`, actions `α` and visible events `ω`. -/
structure Machine (σ α ω : Type*) where
  init : σ
  step : σ → α → Option (σ × List ω)

namespace Machine

variable {σ α ω : Type*} (M : Machine σ α ω)

/-- A guarded step is taken exactly when its guard holds. -/
theorem guard_eq_some_iff {β : Type*} {p : Prop} [Decidable p] {x y : β} :
    (if p then some x else none) = some y ↔ p ∧ x = y := by
  rw [Option.ite_none_right_eq_some, Option.some.injEq]

/-- A step of a part of the state that shows no event. -/
theorem silent_eq_some_iff {x : Option σ} {t : σ} {o : List ω} :
    x.map (·, ([] : List ω)) = some (t, o) ↔ x = some t ∧ o = [] := by
  rw [Option.map_eq_some_iff]
  constructor
  · rintro ⟨u, rfl, heq⟩
    obtain ⟨rfl, rfl⟩ := Prod.mk.inj heq
    exact ⟨rfl, rfl⟩
  · rintro ⟨rfl, rfl⟩
    exact ⟨t, rfl, rfl⟩

/-! ## Executing a list of actions -/

/-- Run a list of actions from `s`; the events of the steps are concatenated in order. -/
def execFrom (s : σ) : List α → Option (σ × List ω)
  | [] => some (s, [])
  | a :: as =>
    match M.step s a with
    | none => none
    | some (t, o) =>
      match execFrom t as with
      | none => none
      | some (u, l) => some (u, o ++ l)

/-- Run a list of actions from the initial state. -/
def exec (as : List α) : Option (σ × List ω) := M.execFrom M.init as

@[simp] theorem execFrom_nil (s : σ) : M.execFrom s [] = some (s, []) := rfl

theorem execFrom_cons_iff {s u : σ} {a : α} {as : List α} {l : List ω} :
    M.execFrom s (a :: as) = some (u, l) ↔
      ∃ t o k, M.step s a = some (t, o) ∧ M.execFrom t as = some (u, k) ∧ l = o ++ k := by
  constructor
  · intro h
    simp only [execFrom] at h
    split at h
    · exact absurd h (by simp)
    · rename_i t o hstep
      split at h
      · exact absurd h (by simp)
      · rename_i v k hrest
        obtain ⟨rfl, rfl⟩ := Prod.mk.inj (Option.some.inj h)
        exact ⟨t, o, k, hstep, hrest, rfl⟩
  · rintro ⟨t, o, k, hstep, hrest, rfl⟩
    simp only [execFrom, hstep, hrest]

/-- The first step decides whether there is anything to go on with. -/
theorem execFrom_cons_eq (s : σ) (a : α) (as : List α) : M.execFrom s (a :: as) =
    (M.step s a).bind fun p => (M.execFrom p.1 as).map fun q => (q.1, p.2 ++ q.2) := by
  cases hstep : M.step s a with
  | none => simp [execFrom, hstep]
  | some p => cases hrest : M.execFrom p.1 as <;> simp [execFrom, hstep, hrest]

theorem execFrom_append_iff {s u : σ} {as bs : List α} {l : List ω} :
    M.execFrom s (as ++ bs) = some (u, l) ↔
      ∃ t l₁ l₂, M.execFrom s as = some (t, l₁) ∧ M.execFrom t bs = some (u, l₂) ∧
        l = l₁ ++ l₂ := by
  induction as generalizing s l with
  | nil => simp
  | cons a as ih =>
      rw [List.cons_append, execFrom_cons_iff]
      constructor
      · rintro ⟨t, o, k, hstep, hrest, rfl⟩
        obtain ⟨v, l₁, l₂, h₁, h₂, rfl⟩ := ih.mp hrest
        refine ⟨v, o ++ l₁, l₂, ?_, h₂, by rw [List.append_assoc]⟩
        exact (execFrom_cons_iff M).mpr ⟨t, o, l₁, hstep, h₁, rfl⟩
      · rintro ⟨v, l₁, l₂, h₁, h₂, rfl⟩
        obtain ⟨t, o, k, hstep, hrest, rfl⟩ := (execFrom_cons_iff M).mp h₁
        exact ⟨t, o, k ++ l₂, hstep, ih.mpr ⟨v, k, l₂, hrest, h₂, rfl⟩,
          by rw [List.append_assoc]⟩

theorem execFrom_concat_iff {s u : σ} {as : List α} {a : α} {l : List ω} :
    M.execFrom s (as ++ [a]) = some (u, l) ↔
      ∃ t k o, M.execFrom s as = some (t, k) ∧ M.step t a = some (u, o) ∧ l = k ++ o := by
  rw [execFrom_append_iff]
  constructor
  · rintro ⟨t, k, l₂, h₁, h₂, rfl⟩
    obtain ⟨t', o, k', hstep, hnil, rfl⟩ := (execFrom_cons_iff M).mp h₂
    obtain ⟨rfl, rfl⟩ := Prod.mk.inj (Option.some.inj hnil)
    exact ⟨t, k, o, h₁, hstep, by simp⟩
  · rintro ⟨t, k, o, h₁, hstep, rfl⟩
    exact ⟨t, k, o, h₁, (execFrom_cons_iff M).mpr ⟨u, o, [], hstep, rfl, by simp⟩, rfl⟩

/-- Split off the last step of a run. -/
theorem exec_concat_iff {u : σ} {as : List α} {a : α} {l : List ω} :
    M.exec (as ++ [a]) = some (u, l) ↔
      ∃ t k o, M.exec as = some (t, k) ∧ M.step t a = some (u, o) ∧ l = k ++ o :=
  execFrom_concat_iff M

/-! ## Runs -/

/-- A finite run: a list of actions that can be executed from the initial state, with the state
it ends in and the events it shows. -/
structure Run where
  acts : List α
  last : σ
  log : List ω
  exec_eq : M.exec acts = some (last, log)

variable {M}

/-- The run of a list of actions that is known to execute. -/
def Run.ofActs (as : List α) (h : (M.exec as).isSome) : M.Run :=
  ⟨as, ((M.exec as).get h).1, ((M.exec as).get h).2, (Option.some_get h).symm⟩

/-- `P` holds, with the events shown so far, in every state the run reaches. -/
def Run.Always (r : M.Run) (P : σ → List ω → Prop) : Prop :=
  ∀ pre, pre <+: r.acts → ∀ s l, M.exec pre = some (s, l) → P s l

/-- `C` holds of the state, the events so far and the action before every step of the run. -/
def Run.EachStep (r : M.Run) (C : σ → List ω → α → Prop) : Prop :=
  ∀ pre a, pre ++ [a] <+: r.acts → ∀ s l, M.exec pre = some (s, l) → C s l a

theorem Run.Always.last {r : M.Run} {P : σ → List ω → Prop} (h : r.Always P) :
    P r.last r.log :=
  h r.acts (List.prefix_refl _) _ _ r.exec_eq

theorem Run.Always.mono {r : M.Run} {P Q : σ → List ω → Prop} (h : r.Always P)
    (hPQ : ∀ s l, P s l → Q s l) : r.Always Q :=
  fun pre hpre s l hs => hPQ s l (h pre hpre s l hs)

/-! ## Invariant rules -/

/-- What holds at the start and survives every step of the kind the run takes, holds in every
state of the run. -/
theorem Run.always_of_eachStep {I : σ → List ω → Prop} {C : σ → List ω → α → Prop}
    (hinit : I M.init [])
    (hstep : ∀ s l a t o, I s l → C s l a → M.step s a = some (t, o) → I t (l ++ o))
    (r : M.Run) (hC : r.EachStep C) : r.Always I := by
  intro pre
  induction pre using List.reverseRecOn with
  | nil =>
      intro _ s l hs
      obtain ⟨rfl, rfl⟩ := Prod.mk.inj (Option.some.inj hs)
      exact hinit
  | append_singleton as a ih =>
      intro hpre s l hs
      obtain ⟨t, k, o, hexec, ha, rfl⟩ := M.exec_concat_iff.mp hs
      have hI : I t k := ih ((List.prefix_append as [a]).trans hpre) t k hexec
      exact hstep t k a s o hI (hC as a hpre t k hexec) ha

/-- The unconditional case: an inductive invariant holds in every state of every run. -/
theorem Run.always {I : σ → List ω → Prop} (hinit : I M.init [])
    (hstep : ∀ s l a t o, I s l → M.step s a = some (t, o) → I t (l ++ o)) (r : M.Run) :
    r.Always I :=
  r.always_of_eachStep (C := fun _ _ _ => True) hinit
    (fun s l a t o hI _ ha => hstep s l a t o hI ha) (fun _ _ _ _ _ _ => trivial)

/-- The unconditional case for one execution. -/
theorem invariant_of_exec {I : σ → List ω → Prop} (hinit : I M.init [])
    (hstep : ∀ s l a t o, I s l → M.step s a = some (t, o) → I t (l ++ o))
    {as : List α} {s : σ} {l : List ω} (h : M.exec as = some (s, l)) : I s l :=
  (Run.always hinit hstep ⟨as, s, l, h⟩).last

/-- An invariant is kept along an execution from any state. -/
theorem invariant_of_execFrom {I : σ → List ω → Prop}
    (hstep : ∀ s l a t o, I s l → M.step s a = some (t, o) → I t (l ++ o)) {as : List α}
    {s t : σ} {l k : List ω} (hs : I s l) (h : M.execFrom s as = some (t, k)) : I t (l ++ k) := by
  induction as generalizing s l k with
  | nil =>
      obtain ⟨rfl, rfl⟩ := Prod.mk.inj (Option.some.inj h)
      rwa [List.append_nil]
  | cons a as ih =>
      obtain ⟨u, o, k', ha, hrest, rfl⟩ := M.execFrom_cons_iff.mp h
      rw [← List.append_assoc]
      exact ih (hstep s l a u o hs ha) hrest

/-- Along a run the property `P` holds in every state exactly when every step meets the condition
`C`, provided that under `C` an invariant that gives `P` is kept, and that a step that does not
meet `C` destroys `P`. -/
theorem Run.always_iff_eachStep {I P : σ → List ω → Prop} {C : σ → List ω → α → Prop}
    (hinit : I M.init []) (hIP : ∀ s l, I s l → P s l)
    (hstep : ∀ s l a t o, I s l → C s l a → M.step s a = some (t, o) → I t (l ++ o))
    (hbad : ∀ s l a t o, I s l → ¬ C s l a → M.step s a = some (t, o) → ¬ P t (l ++ o))
    (r : M.Run) : r.Always P ↔ r.EachStep C := by
  constructor
  · intro hP
    -- the invariant holds up to every prefix, because a first bad step would destroy `P`
    have hI : r.Always I := by
      intro pre
      induction pre using List.reverseRecOn with
      | nil =>
          intro _ s l hs
          obtain ⟨rfl, rfl⟩ := Prod.mk.inj (Option.some.inj hs)
          exact hinit
      | append_singleton as a ih =>
          intro hpre s l hs
          obtain ⟨t, k, o, hexec, ha, rfl⟩ := M.exec_concat_iff.mp hs
          have hIt : I t k := ih ((List.prefix_append as [a]).trans hpre) t k hexec
          by_cases hC : C t k a
          · exact hstep t k a s o hIt hC ha
          · exact absurd (hP _ hpre s _ hs) (hbad t k a s o hIt hC ha)
    intro as a hpre s l hs
    by_contra hC
    obtain ⟨rest, hrest⟩ := hpre
    have hrun : M.exec ((as ++ [a]) ++ rest) = some (r.last, r.log) := hrest ▸ r.exec_eq
    obtain ⟨u, k, _, hlast, _, _⟩ := (execFrom_append_iff M).mp hrun
    obtain ⟨t, k', o, hexec, ha, rfl⟩ := M.exec_concat_iff.mp hlast
    obtain ⟨rfl, rfl⟩ := Prod.mk.inj (Option.some.inj (hs.symm.trans hexec))
    have hIs : I s l := hI as ((List.prefix_append as [a]).trans ⟨rest, hrest⟩) s l hs
    exact hbad s l a u o hIs hC ha (hP _ ⟨rest, hrest⟩ u _ hlast)
  · intro hC
    exact (r.always_of_eachStep hinit hstep hC).mono hIP

/-- A step that does not meet the condition `C` leaves a mark `B` that no later step removes. So a
run that ends without the mark has met the condition at every step. -/
theorem Run.eachStep_of_last {I B : σ → List ω → Prop} {C : σ → List ω → α → Prop}
    (hinit : I M.init [])
    (hstep : ∀ s l a t o, I s l → M.step s a = some (t, o) → I t (l ++ o))
    (hbad : ∀ s l a t o, I s l → ¬ C s l a → M.step s a = some (t, o) → B t (l ++ o))
    (hkeep : ∀ s l a t o, I s l → B s l → M.step s a = some (t, o) → B t (l ++ o))
    (r : M.Run) (hlast : ¬ B r.last r.log) : r.EachStep C := by
  intro pre a hpre s l hs
  by_contra hC
  obtain ⟨rest, hrest⟩ := hpre
  have hrun : M.exec ((pre ++ [a]) ++ rest) = some (r.last, r.log) := hrest ▸ r.exec_eq
  obtain ⟨u, k, _, hpre', _, _⟩ := (execFrom_append_iff M).mp hrun
  obtain ⟨s', l', o, hexec, ha, rfl⟩ := M.exec_concat_iff.mp hpre'
  obtain ⟨rfl, rfl⟩ := Prod.mk.inj (Option.some.inj (hs.symm.trans hexec))
  have hBu : B u (l ++ o) := hbad s l a u o (invariant_of_exec hinit hstep hs) hC ha
  -- the mark stays on every longer prefix
  have hmark : ∀ as v m, M.exec ((pre ++ [a]) ++ as) = some (v, m) → B v m := by
    intro as
    induction as using List.reverseRecOn with
    | nil =>
        intro v m hv
        rw [List.append_nil] at hv
        obtain ⟨rfl, rfl⟩ := Prod.mk.inj (Option.some.inj (hpre'.symm.trans hv))
        exact hBu
    | append_singleton as b ih =>
        intro v m hv
        rw [← List.append_assoc] at hv
        obtain ⟨w, k', o', hw, hb, rfl⟩ := M.exec_concat_iff.mp hv
        exact hkeep w k' b v o' (invariant_of_exec hinit hstep hw) (ih w k' hw) hb
  exact hlast (hmark rest _ _ hrun)

/-! ## Observing a machine -/

/-- The same machine with other events: a step from `s` by `a` to `t` shows `see s a t`. -/
def observe {ω' : Type*} (M : Machine σ α ω) (see : σ → α → σ → List ω') : Machine σ α ω' where
  init := M.init
  step s a :=
    match M.step s a with
    | none => none
    | some (t, _) => some (t, see s a t)

section Observe

variable {ω' : Type*} {see : σ → α → σ → List ω'}

theorem observe_step_iff {s t : σ} {a : α} {o : List ω'} :
    (M.observe see).step s a = some (t, o) ↔ ∃ k, M.step s a = some (t, k) ∧ o = see s a t := by
  simp only [observe]
  constructor
  · intro h
    split at h
    · exact absurd h (by simp)
    · rename_i u k hstep
      obtain ⟨rfl, rfl⟩ := Prod.mk.inj (Option.some.inj h)
      exact ⟨k, hstep, rfl⟩
  · rintro ⟨k, hstep, rfl⟩
    rw [hstep]

/-- Observing changes neither which lists of actions are executed nor where they lead. -/
theorem observe_exec_iff {as : List α} {t : σ} :
    (∃ l, (M.observe see).exec as = some (t, l)) ↔ ∃ l, M.exec as = some (t, l) := by
  induction as using List.reverseRecOn generalizing t with
  | nil =>
      constructor
      · rintro ⟨l, hl⟩
        obtain ⟨rfl, rfl⟩ := Prod.mk.inj (Option.some.inj hl)
        exact ⟨[], rfl⟩
      · rintro ⟨l, hl⟩
        obtain ⟨rfl, rfl⟩ := Prod.mk.inj (Option.some.inj hl)
        exact ⟨[], rfl⟩
  | append_singleton as a ih =>
      constructor
      · rintro ⟨l, hl⟩
        obtain ⟨u, k, o, hexec, ha, rfl⟩ := exec_concat_iff _ |>.mp hl
        obtain ⟨k', hk'⟩ := ih.mp ⟨k, hexec⟩
        obtain ⟨o', ho', -⟩ := observe_step_iff.mp ha
        exact ⟨k' ++ o', M.exec_concat_iff.mpr ⟨u, k', o', hk', ho', rfl⟩⟩
      · rintro ⟨l, hl⟩
        obtain ⟨u, k, o, hexec, ha, rfl⟩ := exec_concat_iff _ |>.mp hl
        obtain ⟨k', hk'⟩ := ih.mpr ⟨k, hexec⟩
        have ha' : (M.observe see).step u a = some (t, see u a t) :=
          observe_step_iff.mpr ⟨o, ha, rfl⟩
        exact ⟨_, (exec_concat_iff _).mpr ⟨u, k', _, hk', ha', rfl⟩⟩

/-- Invariant rule for an observed machine: what the steps of the machine itself keep can be
assumed before every step. -/
theorem Run.always_observe {J : σ → Prop} {I : σ → List ω' → Prop} (hJinit : J M.init)
    (hJstep : ∀ s a t k, J s → M.step s a = some (t, k) → J t) (hinit : I M.init [])
    (hstep : ∀ s l a t k, J s → I s l → M.step s a = some (t, k) → I t (l ++ see s a t))
    (r : (M.observe see).Run) : r.Always I := by
  refine r.always_of_eachStep (C := fun s _ _ => J s) hinit ?_ ?_
  · intro s l a t o hI hJ ha
    obtain ⟨k, hk, rfl⟩ := observe_step_iff.mp ha
    exact hstep s l a t k hJ hI hk
  · intro pre a _ s l hs
    obtain ⟨k, hk⟩ := observe_exec_iff.mp ⟨l, hs⟩
    exact invariant_of_exec (I := fun s _ => J s) hJinit
      (fun s _ a t o hJ ha => hJstep s a t o hJ ha) hk

end Observe

/-! ## What is still reachable -/

/-- Some continuation of the run from `s` reaches a state with `Q`. -/
def CanReach (M : Machine σ α ω) (s : σ) (Q : σ → Prop) : Prop :=
  ∃ as t l, M.execFrom s as = some (t, l) ∧ Q t

theorem CanReach.now {s : σ} {Q : σ → Prop} (h : Q s) : M.CanReach s Q :=
  ⟨[], s, [], rfl, h⟩

theorem CanReach.head {s t : σ} {a : α} {o : List ω} {Q : σ → Prop}
    (hstep : M.step s a = some (t, o)) (h : M.CanReach t Q) : M.CanReach s Q := by
  obtain ⟨as, u, l, hexec, hQ⟩ := h
  exact ⟨a :: as, u, o ++ l, M.execFrom_cons_iff.mpr ⟨t, o, l, hstep, hexec, rfl⟩, hQ⟩

theorem CanReach.trans {s : σ} {P Q : σ → Prop} (h : M.CanReach s P)
    (hPQ : ∀ t, P t → M.CanReach t Q) : M.CanReach s Q := by
  obtain ⟨as, t, l, hexec, hP⟩ := h
  obtain ⟨bs, u, k, hexec', hQ⟩ := hPQ t hP
  exact ⟨as ++ bs, u, l ++ k, M.execFrom_append_iff.mpr ⟨t, l, k, hexec, hexec', rfl⟩, hQ⟩

/-- What every step keeps holds wherever one can still get. -/
theorem CanReach.closed {s : σ} {I Q : σ → Prop} (h : M.CanReach s Q) (hI : I s)
    (hstep : ∀ s a t o, I s → M.step s a = some (t, o) → I t) : ∃ t, I t ∧ Q t := by
  obtain ⟨as, t, l, hexec, hQ⟩ := h
  refine ⟨t, ?_, hQ⟩
  induction as generalizing s l with
  | nil =>
      obtain ⟨rfl, rfl⟩ := Prod.mk.inj (Option.some.inj hexec)
      exact hI
  | cons a as ih =>
      obtain ⟨u, o, k, ha, hrest, rfl⟩ := M.execFrom_cons_iff.mp hexec
      exact ih (hstep s a u o hI ha) k hrest

/-! ## Parts of a machine -/

theorem execFrom_single {s t : σ} {a : α} {o : List ω} (h : M.step s a = some (t, o)) :
    M.execFrom s [a] = some (t, o) :=
  M.execFrom_cons_iff.mpr ⟨t, o, [], h, rfl, (List.append_nil o).symm⟩

/-- The events of one part, seen by that part. -/
theorem flatMap_map_self {β : Type*} {f : α → β} {g : β → List α} (h : ∀ a, g (f a) = [a])
    (o : List α) : (o.map f).flatMap g = o := by
  induction o with
  | nil => rfl
  | cons e o ih => rw [List.map_cons, List.flatMap_cons, h, ih, List.singleton_append]

/-- The events of one part, seen by another. -/
theorem flatMap_map_nil {β γ : Type*} {f : α → β} {g : β → List γ} (h : ∀ a, g (f a) = [])
    (o : List α) : (o.map f).flatMap g = [] := by
  induction o with
  | nil => rfl
  | cons e o ih => rw [List.map_cons, List.flatMap_cons, h, ih, List.append_nil]

/-- The machine `A` runs within `M`: `part` is its state and `see` gives its events. What a step of
`M` tells about the actions of `A` is what `said` gives for its events. -/
structure IsPart {τ β υ κ : Type*} (M : Machine σ α ω) (A : Machine τ β υ) (part : σ → τ)
    (see : ω → List υ) (tell : β → List κ) (said : ω → List κ) : Prop where
  init : part M.init = A.init
  step : ∀ s a t o, M.step s a = some (t, o) →
    ∃ bs, A.execFrom (part s) bs = some (part t, o.flatMap see) ∧ bs.flatMap tell = o.flatMap said

/-- A run of the whole is a run of its part. -/
theorem IsPart.exec {τ β υ κ : Type*} {A : Machine τ β υ} {part : σ → τ} {see : ω → List υ}
    {tell : β → List κ} {said : ω → List κ} (h : IsPart M A part see tell said) {as : List α}
    {s : σ} {l : List ω} (hexec : M.exec as = some (s, l)) :
    ∃ bs, A.exec bs = some (part s, l.flatMap see) ∧ bs.flatMap tell = l.flatMap said := by
  induction as using List.reverseRecOn generalizing s l with
  | nil =>
      obtain ⟨rfl, rfl⟩ := Prod.mk.inj (Option.some.inj hexec)
      refine ⟨[], ?_, rfl⟩
      show some (A.init, []) = _
      rw [← h.init]
      rfl
  | append_singleton as a ih =>
      obtain ⟨t, k, o, hprev, hstep, rfl⟩ := M.exec_concat_iff.mp hexec
      obtain ⟨bs, hbs, htell⟩ := ih hprev
      obtain ⟨cs, hcs, htell'⟩ := h.step t a s o hstep
      refine ⟨bs ++ cs, ?_, by rw [List.flatMap_append, List.flatMap_append, htell, htell']⟩
      exact A.execFrom_append_iff.mpr ⟨_, _, _, hbs, hcs, by rw [List.flatMap_append]⟩

end Machine

end Skytime.Process
