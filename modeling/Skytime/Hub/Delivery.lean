/-
# Skytime.Hub.Delivery — a hub delivers to every connection without gaps.

As long as no peer is registered a second time while it is still registered, what the hub puts on a
connection's queue are exactly the messages it took from `h.broadcast` between the registration of
the connection and its unregistration or the first broadcast that finds its queue full. The proof
carries an account per connection: the messages put, then the one whose attempt failed or is still
to come, are the messages taken in the connection's window.
-/
import Skytime.Hub.Solo
import Skytime.Hub.Window

namespace Skytime

open Process

/-! ## The property -/

/-- The message the hub is distributing, if the attempt for `c` is still to come. -/
def current (s : Solo) (c : Connection) : List PushMsg :=
  match s.view.hub.loop with
  | .select => []
  | .fanout m rest =>
    if c.peerId ∈ rest ∧ s.view.hub.connections.lookup c.peerId = some c then [m] else []

/-- No connection is registered while another one of its peer is registered and not unregistered. -/
def NoOverlap (s : Solo) (_ : List Event) : SoloAction → Prop
  | .register c => ∀ c', c'.peerId = c.peerId → s.life c' ≠ .registered
  | _ => True

/-- The delivery to `c` so far. -/
structure GapFree (s : Solo) (l : List Event) (c : Connection) : Prop where
  /-- what was put are the messages taken in the window, up to the one that is not delivered yet
  or that found the queue full -/
  exact : puts c l ++ (missed c l ++ current s c) = taken (window c l)
  /-- there is at most one such message, the last one -/
  one : (missed c l ++ current s c).length ≤ 1
  /-- after its end the connection is out of the map and its queue is closed -/
  ended : (∃ e ∈ l, endsFor c e = true) →
    s.view.hub.connections.lookup c.peerId ≠ some c ∧ (s.view.send c).closed = true
  /-- and it receives nothing any more -/
  silent : SilentAfterEnd c l

/-! ## The account of one connection -/

/-- What the hub's state and history say about one connection. -/
structure Tracked (s : Solo) (l : List Event) (c : Connection) : Prop where
  listed : s.life c = .registered → (s.view.send c).closed = false →
    s.view.hub.connections.lookup c.peerId = some c
  gone_closed : s.life c = .unregistered → (s.view.send c).closed = true
  growing : s.life c = .registered → (s.view.send c).closed = false → Growing c l
  frozen : (s.view.send c).closed = true → Frozen c l
  account : puts c l ++ (missed c l ++ current s c) = taken (window c l)
  missed_open : (s.view.send c).closed = false → missed c l = []
  missed_le : (missed c l).length ≤ 1
  silent : SilentAfterEnd c l

variable {s t : Solo} {l o : List Event} {c : Connection}

/-- A connection whose queue is closed is not being served. -/
theorem Solo.Inv.current_closed (hi : s.Inv l) (hc : (s.view.send c).closed = true) :
    current s c = [] := by
  unfold current
  split
  · rfl
  · apply if_neg
    intro h
    rw [hi.sound.entry_open h.2] at hc
    exact absurd hc (by simp)

theorem current_select (h : s.view.hub.loop = .select) : current s c = [] := by
  rw [current, h]

theorem current_length_le (s : Solo) (c : Connection) : (current s c).length ≤ 1 := by
  unfold current
  split
  · exact Nat.zero_le 1
  · split <;> simp

namespace Tracked

/-- A connection that is not in the map has not been registered yet, or its time is over. -/
theorem phase_of_unlisted (hi : s.Inv l) (ht : Tracked s l c)
    (hk : s.view.hub.connections.lookup c.peerId ≠ some c) :
    .registered c ∉ l ∨ Frozen c l := by
  cases hopen : (s.view.send c).closed with
  | true => exact .inr (ht.frozen hopen)
  | false =>
      cases hlife : s.life c with
      | fresh => exact .inl (by rw [hi.logged.registered_iff, hlife]; simp)
      | registered => exact absurd (ht.listed hlife hopen) hk
      | unregistered =>
          rw [ht.gone_closed hlife] at hopen
          exact absurd hopen (by simp)

theorem phase (hi : s.Inv l) (ht : Tracked s l c) :
    .registered c ∉ l ∨ Growing c l ∨ Frozen c l := by
  by_cases hk : s.view.hub.connections.lookup c.peerId = some c
  · exact .inr (.inl (ht.growing (hi.entry_life hk) (hi.sound.entry_open hk)))
  · rcases ht.phase_of_unlisted hi hk with hfresh | hf
    · exact .inl hfresh
    · exact .inr (.inr hf)

/-- A connection that has come to its end has a closed queue. -/
theorem closed_of_end (hi : s.Inv l) (ht : Tracked s l c)
    (hend : ∃ e ∈ l, endsFor c e = true) : (s.view.send c).closed = true := by
  obtain ⟨e, hmem, he⟩ := hend
  cases e with
  | unregistered c' =>
      obtain rfl : c' = c := by simpa [endsFor] using he
      exact ht.gone_closed ((hi.logged.unregistered_iff c').mp hmem)
  | overflow c' m =>
      obtain rfl : c' = c := by simpa [endsFor] using he
      exact hi.logged.overflow_closed c' m hmem
  | registered | took | put | closed | direct | drained => exact absurd he (by simp [endsFor])

theorem gapFree (hi : s.Inv l) (ht : Tracked s l c) : GapFree s l c where
  exact := ht.account
  one := by
    cases hc : (s.view.send c).closed with
    | true => simpa [hi.current_closed hc] using ht.missed_le
    | false =>
        rw [ht.missed_open hc, List.nil_append]
        exact current_length_le s c
  ended hend := by
    have hclosed := ht.closed_of_end hi hend
    refine ⟨fun hk => ?_, hclosed⟩
    rw [hi.sound.entry_open hk] at hclosed
    exact absurd hclosed (by simp)
  silent := ht.silent

/-- A step that leaves `c` alone keeps its account. -/
theorem keep (hi : s.Inv l) (ht : Tracked s l c) (hlife : t.life c = s.life c)
    (hclosed : (t.view.send c).closed = (s.view.send c).closed)
    (hlisted : s.view.hub.connections.lookup c.peerId = some c →
      t.view.hub.connections.lookup c.peerId = some c)
    (hcurrent : current t c = current s c) (ho : ∀ e ∈ o, e.OfOthers c = true)
    (hgives : (s.view.send c).closed = true → ∀ e ∈ o, e.Gives c = false) :
    Tracked t (l ++ o) c where
  listed h₁ h₂ := hlisted (ht.listed (hlife ▸ h₁) (hclosed ▸ h₂))
  gone_closed h := hclosed.trans (ht.gone_closed (hlife ▸ h))
  growing h₁ h₂ := (ht.growing (hlife ▸ h₁) (hclosed ▸ h₂)).append (endsFor_of_others ho)
  frozen h := (ht.frozen (hclosed ▸ h)).append
  account := by
    rw [taken_window_of_others ho (ht.phase hi), hcurrent, puts_append, puts_of_others ho,
      missed_append, missed_of_others ho, List.append_nil, List.append_nil]
    exact ht.account
  missed_open h := by
    rw [missed_append, missed_of_others ho, ht.missed_open (hclosed ▸ h), List.append_nil]
  missed_le := by
    rw [missed_append, missed_of_others ho, List.append_nil]
    exact ht.missed_le
  silent := by
    refine ht.silent.append (fun hend => hgives (ht.closed_of_end hi hend)) ?_
    rintro ⟨e, he, hend⟩
    rw [endsFor_of_others ho e he] at hend
    exact absurd hend (by simp)

/-- The registration of `c` opens its window, in which nothing has been put or missed yet. -/
theorem register (hi : s.Inv l) (ht : Tracked s l c) (hlife : s.life c = .fresh)
    (hloop : s.view.hub.loop = .select) :
    Tracked ⟨(s.view.register c).1, Function.update s.life c .registered⟩
      (l ++ [.registered c]) c := by
  have hfresh : .registered c ∉ l := by
    rw [hi.logged.registered_iff, hlife]
    simp
  have hacc := ht.account
  rw [window_eq_nil hfresh] at hacc
  obtain ⟨hputs, hrest⟩ := List.append_eq_nil_iff.mp hacc
  obtain ⟨hmissed, _⟩ := List.append_eq_nil_iff.mp hrest
  have hopen := hi.fresh_open hlife
  refine ⟨?_, ?_, ?_, ?_, ?_, ?_, ?_, ?_⟩
  · intro _ _
    simp [HubView.register]
  · intro h
    simp at h
  · intro _ _
    exact growing_registered hfresh
  · intro h
    exact absurd (hopen.symm.trans h) (by simp)
  · rw [window_registered hfresh, puts_append, missed_append, hputs, hmissed]
    simp [puts, missed, taken, current, HubView.register, hloop]
  · intro _
    rw [missed_append, hmissed]
    rfl
  · rw [missed_append, hmissed]
    simp [missed]
  · apply ht.silent.append <;> simp [Event.Gives]

/-- What follows the end of `c` gives it nothing. -/
theorem afterEnd (ht : Tracked s l c) (hclosed : (s.view.send c).closed = true)
    (hclosed' : (t.view.send c).closed = true) (hcurrent : current t c = current s c)
    (hputs : puts c o = []) (hmissed : missed c o = [])
    (hgives : ∀ e ∈ o, e.Gives c = false) : Tracked t (l ++ o) c where
  listed _ h := absurd (hclosed'.symm.trans h) (by simp)
  gone_closed _ := hclosed'
  growing _ h := absurd (hclosed'.symm.trans h) (by simp)
  frozen _ := (ht.frozen hclosed).append
  account := by
    rw [ht.frozen hclosed, puts_append, missed_append, hputs, hmissed, hcurrent, List.append_nil,
      List.append_nil]
    exact ht.account
  missed_open h := absurd (hclosed'.symm.trans h) (by simp)
  missed_le := by
    rw [missed_append, hmissed, List.append_nil]
    exact ht.missed_le
  silent := ht.silent.append (fun _ => hgives) (fun _ => hgives)

/-- The step that ends the time of `c` closes its queue, and a message still to be attempted for
`c` is the one that finds the queue full. -/
theorem close (ht : Tracked s l c) (hg : Growing c l) (hopen : (s.view.send c).closed = false)
    {e : Event} (he : endsFor c e = true) (hclosed : (t.view.send c).closed = true)
    (hputs : puts c (e :: o) = []) (hmissed : missed c (e :: o) = current s c)
    (hcurrent : current t c = []) (hgives : ∀ e' ∈ e :: o, e'.Gives c = false) :
    Tracked t (l ++ e :: o) c where
  listed _ h := absurd (hclosed.symm.trans h) (by simp)
  gone_closed _ := hclosed
  growing _ h := absurd (hclosed.symm.trans h) (by simp)
  frozen _ := hg.frozen he
  account := by
    rw [hg.window_end he, ← ht.account, puts_append, missed_append, hputs, hmissed, hcurrent,
      List.append_nil, List.append_nil]
  missed_open h := absurd (hclosed.symm.trans h) (by simp)
  missed_le := by
    rw [missed_append, ht.missed_open hopen, hmissed]
    exact current_length_le s c
  silent := ht.silent.append (fun _ => hgives) (fun _ => hgives)

end Tracked

/-! ## The steps -/

/-- The invariant of a run without overlapping registrations. -/
structure Deliver (s : Solo) (l : List Event) : Prop where
  running : s.view.panicked = false
  walk : s.view.WalkOk
  unique : ∀ c c', s.life c = .registered → s.life c' = .registered →
    c.peerId = c'.peerId → c = c'
  tracked : ∀ c, Tracked s l c

namespace Deliver

theorem init : Deliver solo.init [] where
  running := rfl
  walk := by
    intro m rest h
    exact absurd h (by simp [solo, newHub])
  unique := by
    intro c c' h
    exact absurd h (by simp [solo])
  tracked c :=
    { listed := by
        intro h
        exact absurd h (by simp [solo])
      gone_closed := by
        intro h
        exact absurd h (by simp [solo])
      growing := by
        intro h
        exact absurd h (by simp [solo])
      frozen := by
        intro h
        exact absurd h (by simp [solo])
      account := rfl
      missed_open := fun _ => rfl
      missed_le := by simp [missed]
      silent := by simp [SilentAfterEnd] }

theorem register (hi : s.Inv l) (hd : Deliver s l) (hlife : s.life c = .fresh)
    (hloop : s.view.hub.loop = .select)
    (hno : ∀ c', c'.peerId = c.peerId → s.life c' ≠ .registered) :
    Deliver ⟨(s.view.register c).1, Function.update s.life c .registered⟩
      (l ++ [.registered c]) where
  running := hd.running
  walk := by
    intro m rest h
    exact absurd (hloop.symm.trans h) (by simp)
  unique := by
    intro c₁ c₂ h₁ h₂ hp
    simp only [Function.update_apply] at h₁ h₂
    split at h₁
    · split at h₂
      · simp_all
      · rename_i h₁c _
        exact absurd h₂ (hno c₂ (by rw [← hp, h₁c]))
    · split at h₂
      · rename_i h₂c
        exact absurd h₁ (hno c₁ (by rw [hp, h₂c]))
      · exact hd.unique c₁ c₂ h₁ h₂ hp
  tracked c' := by
    by_cases hcc : c' = c
    · subst hcc
      exact (hd.tracked c').register hi hlife hloop
    · refine (hd.tracked c').keep hi ?_ rfl ?_ ?_ ?_ ?_
      · exact Function.update_of_ne hcc _ _
      · intro hk
        simp only [HubView.register, GoMap.lookup_insert]
        split
        · rename_i hp
          exact absurd (hi.entry_life hk) (hno c' hp)
        · exact hk
      · rw [current_select hloop, current_select]
        exact hloop
      · simpa [Event.OfOthers] using Ne.symm hcc
      · simp [Event.Gives]

theorem unregister (hi : s.Inv l) (hd : Deliver s l) {v : HubView}
    (hlife : s.life c = .registered) (hloop : s.view.hub.loop = .select)
    (hv : s.view.Unregister c v o) :
    Deliver ⟨v, Function.update s.life c .unregistered⟩ (l ++ o) := by
  -- an entry under the peer id is the connection itself
  have hown : ∀ {c'}, s.view.hub.connections.lookup c.peerId = some c' → c' = c :=
    fun hk => hd.unique _ c (hi.entry_life hk) hlife (hi.sound.peer hk)
  have hunique : ∀ c₁ c₂, Function.update s.life c .unregistered c₁ = .registered →
      Function.update s.life c .unregistered c₂ = .registered → c₁.peerId = c₂.peerId →
      c₁ = c₂ := by
    intro c₁ c₂ h₁ h₂ hp
    simp only [Function.update_apply] at h₁ h₂
    split at h₁
    · exact absurd h₁ (by simp)
    · split at h₂
      · exact absurd h₂ (by simp)
      · exact hd.unique c₁ c₂ h₁ h₂ hp
  have hkeep : ∀ c', c' ≠ c → v.hub.loop = .select →
      (s.view.hub.connections.lookup c'.peerId = some c' →
        v.hub.connections.lookup c'.peerId = some c') →
      Tracked ⟨v, Function.update s.life c .unregistered⟩ (l ++ o) c' := by
    intro c' hne hsel hlisted
    refine (hd.tracked c').keep hi (Function.update_of_ne hne _ _) (by rw [hv.send hne]) hlisted
      ?_ ?_ ?_
    · rw [current_select hloop, current_select hsel]
    · cases hv <;> simpa [Event.OfOthers] using Ne.symm hne
    · cases hv <;> simp [Event.Gives]
  have ht := hd.tracked c
  cases hv with
  | absent habs =>
      -- without an entry the time of `c` was over before, and the request changes nothing
      have hclosed : (s.view.send c).closed = true := by
        by_contra hopen
        rw [ht.listed hlife (by simpa using hopen)] at habs
        exact absurd habs (by simp)
      refine ⟨hd.running, hd.walk, hunique, fun c' => ?_⟩
      by_cases hcc : c' = c
      · subst hcc
        exact ht.afterEnd hclosed hclosed rfl rfl rfl (by simp [Event.Gives])
      · exact hkeep c' hcc hloop id
  | panic hk hclosed =>
      -- the entry would be `c` itself, whose queue is open
      rw [← hown hk, hi.sound.entry_open hk] at hclosed
      exact absurd hclosed (by simp)
  | @close c'' ch hk hopen hbuf hch =>
      refine ⟨hd.running, ?_, hunique, fun c' => ?_⟩
      · intro m rest h
        exact absurd (hloop.symm.trans h) (by simp)
      by_cases hcc : c' = c
      · subst hcc
        apply ht.close (ht.growing hlife hopen) hopen (by simp [endsFor])
        · simp [hch]
        · simp [puts]
        · rw [current_select hloop]
          simp [missed]
        · exact current_select hloop
        · simp [Event.Gives]
      · apply hkeep c' hcc hloop
        intro hk'
        simp only [GoMap.lookup_erase]
        split
        · rename_i hp
          rw [hp] at hk'
          exact absurd (hown hk') hcc
        · exact hk'

/-- Taking a message extends the window of every listed connection by that message, which is then
the one still to be attempted. -/
theorem take (hi : s.Inv l) (hd : Deliver s l) {m : PushMsg} {order : List String}
    {ch : Chan PushMsg broadcastCap} (hloop : s.view.hub.loop = .select)
    (horder : s.view.hub.connections.Range order)
    (hwalk : { s.view with
      hub := { s.view.hub with broadcast := ch, loop := .fanout m order } : HubView }.WalkOk) :
    Deliver { s with view := { s.view with
      hub := { s.view.hub with broadcast := ch, loop := .fanout m order } } } (l ++ [.took m]) := by
  refine ⟨hd.running, hwalk, hd.unique, fun c => ?_⟩
  have ht := hd.tracked c
  have hq : ∀ e ∈ [Event.took m], endsFor c e = false := by simp [endsFor]
  have hacc := ht.account
  rw [current_select hloop, List.append_nil] at hacc
  refine ⟨ht.listed, ht.gone_closed, fun h₁ h₂ => (ht.growing h₁ h₂).append hq,
    fun h => (ht.frozen h).append, ?_, ?_, ?_, ?_⟩
  · by_cases hk : s.view.hub.connections.lookup c.peerId = some c
    · -- the walk visits every listed connection
      have hg := ht.growing (hi.entry_life hk) (hi.sound.entry_open hk)
      have hmem : c.peerId ∈ order := horder.mem_iff.mpr ⟨c, hk⟩
      rw [hg.window_append hq, taken_append, ← hacc, puts_append, missed_append,
        ht.missed_open (hi.sound.entry_open hk)]
      simp [puts, missed, taken, current, hk, hmem]
    · have hwin : window c (l ++ [.took m]) = window c l := by
        rcases ht.phase_of_unlisted hi hk with hfresh | hf
        · rw [window_eq_nil hfresh, window_eq_nil (by simpa using hfresh)]
        · exact hf _
      rw [hwin, ← hacc]
      simp [puts, missed, current, hk]
  · intro h
    rw [missed_append, ht.missed_open h]
    rfl
  · rw [missed_append]
    simpa [missed] using ht.missed_le
  · refine ht.silent.append ?_ ?_ <;> simp [Event.Gives]

/-- A round of the walk serves the connection under the visited key and no other. -/
theorem current_round {m : PushMsg} {k : String} {rest : List String} {c₀ : Connection}
    (hs : s.view.hub.loop = .fanout m (k :: rest)) (ht : t.view.hub.loop = .fanout m rest)
    (hk : s.view.hub.connections.lookup k = some c₀) (hne : c ≠ c₀)
    (hlook : t.view.hub.connections.lookup c.peerId = some c ↔
      s.view.hub.connections.lookup c.peerId = some c) : current t c = current s c := by
  have hiff : (c.peerId ∈ rest ∧ t.view.hub.connections.lookup c.peerId = some c) ↔
      (c.peerId ∈ k :: rest ∧ s.view.hub.connections.lookup c.peerId = some c) := by
    rw [hlook, List.mem_cons]
    constructor
    · exact fun h => ⟨.inr h.1, h.2⟩
    · rintro ⟨hmem | hmem, hc⟩
      · rw [hmem, hk] at hc
        exact absurd (Option.some.inj hc).symm hne
      · exact ⟨hmem, hc⟩
  simp only [current, hs, ht, hiff]

theorem put (hi : s.Inv l) (hd : Deliver s l) {m : PushMsg} {k : String} {rest : List String}
    {ch : Chan PushMsg sendCap} {n : ℕ} (hloop : s.view.hub.loop = .fanout m (k :: rest))
    (hkey : s.view.hub.connections.lookup k = some c)
    (hopen : (s.view.send c).closed = false) (hch : ch.closed = false)
    (hwalk : { s.view with
      hub := { s.view.hub with throttle := n, loop := .fanout m rest }
      send := Function.update s.view.send c ch : HubView }.WalkOk) :
    Deliver { s with view := { s.view with
      hub := { s.view.hub with throttle := n, loop := .fanout m rest }
      send := Function.update s.view.send c ch } } (l ++ [.put c m]) := by
  refine ⟨hd.running, hwalk, hd.unique, fun c' => ?_⟩
  have hclosed := closed_update (hch.trans hopen.symm)
  have ht := hd.tracked c'
  by_cases hcc : c' = c
  · subst hcc
    have hq : ∀ e ∈ [Event.put c' m], endsFor c' e = false := by simp [endsFor]
    obtain rfl : c'.peerId = k := hi.sound.peer hkey
    have hg := ht.growing (hi.entry_life hkey) hopen
    have hk : c'.peerId ∉ rest := (List.nodup_cons.mp (hd.walk _ _ hloop).1).1
    refine ⟨fun h₁ _ => ht.listed h₁ hopen, fun h => (hclosed c').trans (ht.gone_closed h),
      fun h₁ _ => (ht.growing h₁ hopen).append hq, ?_, ?_, ?_, ?_, ?_⟩
    · intro h
      exact absurd ((hclosed c').symm.trans h) (by simp [hopen])
    · have hacc := ht.account
      rw [ht.missed_open hopen] at hacc
      rw [hg.window_append hq, taken_append, ← hacc, puts_append, missed_append,
        ht.missed_open hopen]
      simp [puts, missed, taken, current, hloop, hkey, hk]
    · intro _
      rw [missed_append, ht.missed_open hopen]
      rfl
    · rw [missed_append]
      simpa [missed] using ht.missed_le
    · refine ht.silent.append (fun hend => ?_) ?_
      · exact absurd ((ht.closed_of_end hi hend).symm.trans hopen) (by simp)
      · simp [endsFor]
  · exact ht.keep hi rfl (hclosed c') id (current_round hloop rfl hkey hcc Iff.rfl)
      (by simpa [Event.OfOthers] using Ne.symm hcc)
      (by simpa [Event.Gives] using fun _ => Ne.symm hcc)

theorem overflow (hi : s.Inv l) (hd : Deliver s l) {m : PushMsg} {k : String}
    {rest : List String} {ch : Chan PushMsg sendCap} {n : ℕ} {p : ℤ}
    (hloop : s.view.hub.loop = .fanout m (k :: rest))
    (hkey : s.view.hub.connections.lookup k = some c)
    (hopen : (s.view.send c).closed = false) (hch : ch.closed = true)
    (hwalk : { s.view with
      hub := { s.view.hub with
        connections := s.view.hub.connections.erase c.peerId
        peercnt := p
        throttle := n
        loop := .fanout m rest }
      send := Function.update s.view.send c ch : HubView }.WalkOk) :
    Deliver { s with view := { s.view with
      hub := { s.view.hub with
        connections := s.view.hub.connections.erase c.peerId
        peercnt := p
        throttle := n
        loop := .fanout m rest }
      send := Function.update s.view.send c ch } } (l ++ [.overflow c m, .closed c]) := by
  refine ⟨hd.running, hwalk, hd.unique, fun c' => ?_⟩
  have ht := hd.tracked c'
  by_cases hcc : c' = c
  · subst hcc
    obtain rfl : c'.peerId = k := hi.sound.peer hkey
    apply ht.close (ht.growing (hi.entry_life hkey) hopen) hopen (by simp [endsFor])
    · simp [hch]
    · simp [puts]
    · -- the message still to be attempted has become the one that found the queue full
      simp [missed, current, hloop, hkey]
    · simp [current]
    · simp [Event.Gives]
  · have hlook : Finmap.lookup c'.peerId (s.view.hub.connections.erase c.peerId) = some c' ↔
        s.view.hub.connections.lookup c'.peerId = some c' := by
      rw [GoMap.lookup_erase]
      split
      · rename_i hp
        rw [hp, hi.sound.peer hkey, hkey]
        simpa using Ne.symm hcc
      · rfl
    exact ht.keep hi rfl (by simp only [Function.update_of_ne hcc]) hlook.mpr
      (current_round hloop rfl hkey hcc hlook) (by simpa [Event.OfOthers] using Ne.symm hcc)
      (by simp [Event.Gives])

/-- Steps that touch neither the map nor the walk. -/
theorem quiet (hi : s.Inv l) (hd : Deliver s l) (hlife : t.life = s.life)
    (hconn : t.view.hub.connections = s.view.hub.connections)
    (hloop : t.view.hub.loop = s.view.hub.loop)
    (hp : t.view.panicked = s.view.panicked)
    (hclosed : ∀ c, (t.view.send c).closed = (s.view.send c).closed)
    (ho : ∀ c, ∀ e ∈ o, e.OfOthers c = true)
    (hgives : ∀ c, (s.view.send c).closed = true → ∀ e ∈ o, e.Gives c = false) :
    Deliver t (l ++ o) where
  running := hp.trans hd.running
  walk := by
    intro m rest h
    rw [hconn]
    exact hd.walk m rest (hloop ▸ h)
  unique := hlife ▸ hd.unique
  tracked c := by
    refine (hd.tracked c).keep hi (by rw [hlife]) (hclosed c) (by rw [hconn]; exact id) ?_ (ho c)
      (hgives c)
    rw [current, current, hloop, hconn]

theorem step {a : SoloAction} (hi : s.Inv l) (hd : Deliver s l) (hno : NoOverlap s l a)
    (h : s.Step a t o) : Deliver t (l ++ o) := by
  cases h with
  | register hlife hloop => exact hd.register hi hlife hloop hno
  | unregister hlife hloop hv => exact hd.unregister hi hlife hloop hv
  | hub hv =>
      have hwalk := hd.walk.act hi.sound hv
      cases hv with
      | take hloop hbuf hch horder => exact hd.take hi hloop horder hwalk
      | skip hloop hkey =>
          -- every key of the walk is still present, so nothing is skipped
          obtain ⟨c, hc⟩ := (hd.walk _ _ hloop).2 _ List.mem_cons_self
          rw [hkey] at hc
          exact absurd hc (by simp)
      | panic hloop hkey hclosed =>
          rw [hi.sound.entry_open hkey] at hclosed
          exact absurd hclosed (by simp)
      | put hloop hkey hopen hroom hbuf hch => exact hd.put hi hloop hkey hopen hch hwalk
      | overflow hloop hkey hopen hfull hbuf hch =>
          exact hd.overflow hi hloop hkey hopen hch hwalk
      | rangeDone hloop =>
          refine ⟨hd.running, hwalk, hd.unique, fun c => ?_⟩
          refine (hd.tracked c).keep hi rfl rfl id ?_ (by simp) (by simp)
          simp [current, hloop]
      | tick => exact hd.quiet hi rfl rfl rfl rfl (fun _ => rfl) (by simp) (by simp)
  | enqueue => exact hd.quiet hi rfl rfl rfl rfl (fun _ => rfl) (by simp) (by simp)
  | drain hbuf hch =>
      exact hd.quiet hi rfl rfl rfl rfl (closed_update hch) (by simp [Event.OfOthers])
        (by simp [Event.Gives])
  | @direct c m ch hopen hbuf hch =>
      refine hd.quiet hi rfl rfl rfl rfl (closed_update (hch.trans hopen.symm))
        (by simp [Event.OfOthers]) ?_
      intro c' hc' e he
      obtain rfl : e = .direct c m := by simpa using he
      -- a closed queue is not sent on
      have hne : c ≠ c' := by
        rintro rfl
        exact absurd (hopen.symm.trans hc') (by simp)
      simp [Event.Gives, hne]

end Deliver

/-- **Gap-free delivery.** In every state of every run without overlapping registrations of one
peer, every connection has been given exactly the messages of its window. -/
theorem always_gapFree (r : solo.Run) (h : r.EachStep NoOverlap) :
    r.Always fun s l => ∀ c, GapFree s l c := by
  refine (r.always_of_eachStep (I := fun s l => s.Inv l ∧ Deliver s l)
    ⟨Solo.Inv.init, Deliver.init⟩ ?_ h).mono fun s l hs c => (hs.2.tracked c).gapFree hs.1
  rintro s l a t o ⟨hi, hd⟩ hno hstep
  have hcases := (Solo.step_cases hstep).2
  exact ⟨hi.step hcases, hd.step hi hno hcases⟩

/-- One connection receives one message and leaves; a second message comes too late. -/
def oneDelivery : List SoloAction :=
  [.register ⟨1, "p"⟩, .enqueue ⟨1, [7], true⟩, .hub (.take ["p"]), .hub .tick, .hub .attempt,
    .hub .rangeDone, .unregister ⟨1, "p"⟩, .enqueue ⟨2, [8], true⟩, .hub (.take [])]

theorem oneDelivery_gapFree :
    (Machine.Run.ofActs (M := solo) oneDelivery (by decide)).EachStep NoOverlap ∧
      (Machine.Run.ofActs (M := solo) oneDelivery (by decide)).Always
        fun s l => ∀ c, GapFree s l c := by
  have hno : (Machine.Run.ofActs (M := solo) oneDelivery (by decide)).EachStep NoOverlap := by
    intro pre a hpre s l hs
    cases a with
    | register c =>
        cases pre with
        | nil =>
            obtain ⟨rfl, rfl⟩ := Prod.mk.inj (Option.some.inj hs)
            intro c' _ hlife
            exact absurd hlife (by simp [solo])
        | cons b pre =>
            -- only the first action of the run is a registration
            have hmem : SoloAction.register c ∈ oneDelivery.tail :=
              ((List.cons_prefix_cons.mp hpre).2).subset (by simp)
            simp [oneDelivery] at hmem
    | unregister | hub | enqueue | drain | direct => trivial
  exact ⟨hno, always_gapFree _ hno⟩

end Skytime
