/-
# Skytime.Rooms.Presence — what the application server is told about a peer.

`register` posts `client_online` and `unregister` posts `client_offline`, both with the peer id
alone. The run is observed through these posts; each succeeds, and they arrive in the order in which
they are made. When the connections of a peer overlap, the post of the one that leaves speaks for
the one that stays.
-/
import Skytime.Rooms.Invariant

namespace Skytime

open Process

/-! ## Posts -/

inductive Post where
  /-- `/api/client_online.json` -/
  | online (peerId : String)
  /-- `/api/client_offline.json` -/
  | offline (peerId : String)
  deriving DecidableEq, Repr

def Post.peerId : Post → String
  | online peerId | offline peerId => peerId

/-- What a step posts. -/
def seePost (_ : HubRooms) (a : RoomsAction) (_ : HubRooms) : List Post :=
  match a with
  | .life c .posted => [.online c.peerId]
  | .life c .postedOff => [.offline c.peerId]
  | _ => []

/-- The last post for a peer. -/
def lastPost (peerId : String) (l : List Post) : Option Post :=
  (l.filter fun e => e.peerId = peerId).getLast?

theorem lastPost_concat {peerId : String} (l : List Post) {e : Post} (he : e.peerId = peerId) :
    lastPost peerId (l ++ [e]) = some e := by
  rw [lastPost, List.filter_append, List.filter_cons_of_pos (by simp [he]), List.filter_nil,
    List.getLast?_concat]

theorem lastPost_concat_of_ne {peerId : String} (l : List Post) {e : Post}
    (he : e.peerId ≠ peerId) : lastPost peerId (l ++ [e]) = lastPost peerId l := by
  rw [lastPost, List.filter_append, List.filter_cons_of_neg (by simp [he]), List.filter_nil,
    List.append_nil, lastPost]

/-! ## Positions of a connection -/

/-- The connection has been registered and its reader has not left its loop. -/
def ConnState.Present (x : ConnState) : Prop :=
  (x.handler = .goWriter ∨ x.handler = .goReader ∨ x.handler = .finished) ∧
    (x.reader = .notStarted ∨ x.reader = .reading)

/-- The online post of the connection has been made and its offline post has not. -/
def ConnState.Online (x : ConnState) : Prop :=
  (x.handler = .goWriter ∨ x.handler = .goReader ∨ x.handler = .finished) ∧ x.reader ≠ .returned

theorem ConnState.Online.present {x : ConnState} (h : x.Online) (hs : x.Settled) : x.Present := by
  obtain ⟨hh, hr⟩ := h
  obtain ⟨_, hunreg, hcnt, hpost⟩ := hs
  refine ⟨hh, ?_⟩
  cases hx : x.reader <;> simp_all

/-- A move of a connection between two posts. -/
structure ConnState.Between (x x' : ConnState) : Prop where
  unsettled : ¬ x.Settled → ¬ x'.Settled
  present : x'.Present → x.Present
  online : x.Online → x'.Online

theorem ConnState.Between.refl (x : ConnState) : x.Between x := ⟨id, id, id⟩

/-- Whether a step of a connection's goroutines makes a post. -/
theorem ConnState.Step.posts {x x' : ConnState} {a : LifeAction} (h : x.Step a x')
    (hok : x.ReaderOk) :
    (a = .posted ∧ x'.Present) ∨
      (a = .postedOff ∧ ¬ x.Present ∧ x'.Settled ∧ ¬ x'.Present) ∨
      (a ≠ .posted ∧ a ≠ .postedOff ∧ x.Between x') := by
  have hstart : x.handler ≠ .finished → x.reader = .notStarted := fun hne => by
    by_contra hr
    exact hne (hok hr)
  cases h with
  | posted hx => exact .inl ⟨rfl, .inl rfl, .inl (hstart (by simp [hx]))⟩
  | postedOff hx =>
      have hfin := hok (by rw [hx]; simp)
      exact .inr (.inl ⟨rfl, by simp [Present, hx], by simp [Settled, hfin], by simp [Present]⟩)
  | refuse hx | accept hx | countUp hx | goWriter hx | goReader hx =>
      have hr := hstart (by simp [hx])
      refine .inr (.inr ⟨by simp, by simp, ?_, ?_, ?_⟩) <;> simp [Settled, Present, Online, hx, hr]
  | writerFails | writerEnds => exact .inr (.inr ⟨by simp, by simp, id, id, id⟩)
  | readerStops hx | countDown hx =>
      have hfin := hok (by rw [hx]; simp)
      refine .inr (.inr ⟨by simp, by simp, ?_, ?_, ?_⟩) <;>
        simp [Settled, Present, Online, hx, hfin]

namespace HubRooms

variable {d : Deployment} {s t : HubRooms} {a : RoomsAction} {o : List Event}

/-- A step makes the online post of a connection, makes the offline post of a connection, or makes
no post. -/
theorem Step.posts (h : s.Step d a t o) (hok : s.RoomsOk d) :
    (∃ c, a = .life c .posted ∧ (t.conn c).Present ∧ ∀ c', c' ≠ c → t.conn c' = s.conn c') ∨
    (∃ c, a = .life c .postedOff ∧ ¬ (s.conn c).Present ∧ (t.conn c).Settled ∧
      ¬ (t.conn c).Present ∧ ∀ c', c' ≠ c → t.conn c' = s.conn c') ∨
    ((∀ c, a ≠ .life c .postedOff) ∧ seePost s a t = [] ∧
      ∀ c, (s.conn c).Between (t.conn c)) := by
  -- a connection that moves between posts, the others stay
  have hone : ∀ {c x}, (s.conn c).Between x →
      ∀ c', (s.conn c').Between (Function.update s.conn c x c') := by
    intro c x hx c'
    rw [Function.update_apply]
    split
    · rename_i hc
      exact hc ▸ hx
    · exact .refl _
  cases h with
  | @life c la x n hx hend =>
      rcases hx.posts (hok.readerOk c) with ⟨rfl, hp⟩ | ⟨rfl, hnot, hs, hp⟩ | ⟨hne, hne', hb⟩
      · refine .inl ⟨c, rfl, ?_, fun c' hc => Function.update_of_ne hc _ _⟩
        show (Function.update s.conn c x c).Present
        rwa [Function.update_self]
      · refine .inr (.inl ⟨c, rfl, hnot, ?_, ?_, fun c' hc => Function.update_of_ne hc _ _⟩)
        · show (Function.update s.conn c x c).Settled
          rwa [Function.update_self]
        · show ¬ (Function.update s.conn c x c).Present
          rwa [Function.update_self]
      · refine .inr (.inr ⟨fun c' heq => hne' (RoomsAction.life.inj heq).2, ?_, hone hb⟩)
        cases la <;> first | rfl | exact absurd rfl hne | exact absurd rfl hne'
  | @register c v hreg hloop hv =>
      refine .inr (.inr ⟨by simp, rfl, hone ⟨?_, ?_, ?_⟩⟩) <;>
        simp [ConnState.Settled, ConnState.Present, ConnState.Online, hreg]
  | @unregister c v o hreader hloop hv =>
      refine .inr (.inr ⟨by simp, rfl, hone ⟨?_, ?_, ?_⟩⟩) <;>
        simp [ConnState.Settled, ConnState.Present, ConnState.Online, hreader]
  | hub | drain | start | acquire | push | skipRoom | absent | found | sendPeer | sendPanic |
    finish => exact .inr (.inr ⟨by simp, rfl, fun _ => .refl _⟩)

/-! ## Agreement -/

/-- Some connection of the peer is open and registered. -/
def PeerPresent (s : HubRooms) (peerId : String) : Prop :=
  ∃ c, c.peerId = peerId ∧ (s.conn c).Present

/-- No post for the peer is under way. -/
def PostsDone (s : HubRooms) (peerId : String) : Prop :=
  ∀ c, c.peerId = peerId → (s.conn c).Settled

/-- The last post for the peer is `client_online` if some connection of the peer is open and
registered, and `client_offline` if none is. -/
def PresenceAgrees (s : HubRooms) (l : List Post) (peerId : String) : Prop :=
  (s.PeerPresent peerId → lastPost peerId l = some (.online peerId)) ∧
    (¬ s.PeerPresent peerId → ∀ e, lastPost peerId l = some e → e = .offline peerId)

/-- A step that posts `client_offline` for a peer with another open connection: a further post for
the peer is due. -/
def OfflineIsLast (s : HubRooms) (a : RoomsAction) : Prop :=
  ∀ c, a = .life c .postedOff → s.PeerPresent c.peerId →
    ∃ c', c' ≠ c ∧ c'.peerId = c.peerId ∧ ¬ (s.conn c').Settled

/-- An online post that is the last one speaks for a connection without an offline post; if it is
not the last one, an open connection has a post of its peer still to come. -/
structure PresenceOk (s : HubRooms) (l : List Post) (peerId : String) : Prop where
  kind : ∀ e, lastPost peerId l = some e → e = .online peerId ∨ e = .offline peerId
  online : lastPost peerId l = some (.online peerId) →
    ∃ c, c.peerId = peerId ∧ (s.conn c).Online
  other : lastPost peerId l ≠ some (.online peerId) → s.PeerPresent peerId →
    ∃ c, c.peerId = peerId ∧ ¬ (s.conn c).Settled

theorem PresenceOk.init (d : Deployment) (peerId : String) :
    (hubRooms d).init.PresenceOk [] peerId := by
  refine ⟨fun e he => absurd he (by simp [lastPost]), fun he => absurd he (by simp [lastPost]), ?_⟩
  rintro - ⟨c, _, hc⟩
  exact absurd hc (by simp [ConnState.Present, hubRooms, ConnState.fresh])

theorem PresenceOk.agrees {l : List Post} {peerId : String} (h : s.PresenceOk l peerId)
    (hdone : s.PostsDone peerId) : s.PresenceAgrees l peerId := by
  constructor
  · intro hp
    by_contra hne
    obtain ⟨c, hc, hs⟩ := h.other hne hp
    exact hs (hdone c hc)
  · intro hp e he
    rcases h.kind e he with rfl | rfl
    · obtain ⟨c, hc, hon⟩ := h.online he
      exact absurd ⟨c, hc, hon.present (hdone c hc)⟩ hp
    · rfl

/-- A step without a post for the peer, in which its connections move between posts. -/
theorem PresenceOk.between {l l' : List Post} {peerId : String} (h : s.PresenceOk l peerId)
    (hlast : lastPost peerId l' = lastPost peerId l)
    (hb : ∀ c, c.peerId = peerId → (s.conn c).Between (t.conn c)) : t.PresenceOk l' peerId := by
  constructor
  · rw [hlast]
    exact h.kind
  · intro he
    rw [hlast] at he
    obtain ⟨c, hc, hon⟩ := h.online he
    exact ⟨c, hc, (hb c hc).online hon⟩
  · rintro hne ⟨c, hc, hp⟩
    rw [hlast] at hne
    obtain ⟨c', hc', hs⟩ := h.other hne ⟨c, hc, (hb c hc).present hp⟩
    exact ⟨c', hc', (hb c' hc').unsettled hs⟩

theorem PresenceOk.step {l : List Post} {peerId : String} (h : s.PresenceOk l peerId)
    (hok : s.RoomsOk d) (hC : s.OfflineIsLast a) (hstep : s.Step d a t o) :
    t.PresenceOk (l ++ seePost s a t) peerId := by
  rcases hstep.posts hok with ⟨c, rfl, hp, hsame⟩ | ⟨c, rfl, hnot, hs, hp, hsame⟩ | ⟨_, hnil, hb⟩
  · -- an online post
    by_cases hpeer : c.peerId = peerId
    · subst hpeer
      have hlast := lastPost_concat l (e := .online c.peerId) rfl
      refine ⟨fun e he => ?_, fun _ => ⟨c, rfl, hp.1, ?_⟩, fun hne => absurd hlast hne⟩
      · exact .inl (Option.some.inj (he.symm.trans hlast))
      · rcases hp.2 with hr | hr <;> simp [hr]
    · refine h.between (lastPost_concat_of_ne l hpeer) (fun c' hc' => ?_)
      rw [hsame c' (fun heq => hpeer (heq ▸ hc'))]
      exact .refl _
  · -- an offline post: the condition is about the connections that stay
    by_cases hpeer : c.peerId = peerId
    · subst hpeer
      have hlast := lastPost_concat l (e := .offline c.peerId) rfl
      refine ⟨fun e he => ?_, fun he => ?_, fun _ hpresent => ?_⟩
      · exact .inr (Option.some.inj (he.symm.trans hlast))
      · exact absurd (he.symm.trans hlast) (by simp)
      · obtain ⟨c', hc', hp'⟩ := hpresent
        have hne : c' ≠ c := by
          rintro rfl
          exact hp hp'
        rw [hsame c' hne] at hp'
        obtain ⟨c'', hne'', hc'', hs''⟩ := hC c rfl ⟨c', hc', hp'⟩
        exact ⟨c'', hc'', by rwa [hsame c'' hne'']⟩
    · refine h.between (lastPost_concat_of_ne l hpeer) (fun c' hc' => ?_)
      rw [hsame c' (fun heq => hpeer (heq ▸ hc'))]
      exact .refl _
  · rw [hnil, List.append_nil]
    exact h.between rfl (fun c _ => hb c)

/-- An offline post that does not meet the condition leaves the peer with a false last post and no
other under way. -/
theorem not_agrees_of_not_offlineIsLast {l : List Post} (hok : s.RoomsOk d)
    (hC : ¬ s.OfflineIsLast a) (hstep : s.Step d a t o) :
    ∃ peerId, t.PostsDone peerId ∧ ¬ t.PresenceAgrees (l ++ seePost s a t) peerId := by
  simp only [OfflineIsLast, not_forall, not_exists, not_and, not_not] at hC
  obtain ⟨c, rfl, ⟨c', hc', hp'⟩, hall⟩ := hC
  rcases hstep.posts hok with ⟨_, heq, _⟩ | ⟨c₀, heq, hnot, hs, hp, hsame⟩ | ⟨hne, _⟩
  · exact absurd (RoomsAction.life.inj heq).2 (by simp)
  · obtain rfl := (RoomsAction.life.inj heq).1
    refine ⟨c.peerId, fun c'' hc'' => ?_, fun hagree => ?_⟩
    · by_cases hcc : c'' = c
      · rw [hcc]
        exact hs
      · rw [hsame c'' hcc]
        exact hall c'' hcc hc''
    · have hcc : c' ≠ c := by
        rintro rfl
        exact hnot hp'
      have hon := hagree.1 ⟨c', hc', by rwa [hsame c' hcc]⟩
      have hlast := lastPost_concat l (e := .offline c.peerId) rfl
      exact absurd (hon.symm.trans hlast) (by simp)
  · exact absurd rfl (hne c)

end HubRooms

/-- **The last post for a peer without posts under way is right along a run exactly when every
`client_offline` post of the run for a peer with another open connection has a further post for this
peer due after it. Under this condition the last posts are right whenever no post at all is under
way.** -/
theorem presence_iff {d : Deployment} (r : ((hubRooms d).observe seePost).Run) :
    (r.Always (fun s l => ∀ peerId, s.PostsDone peerId → s.PresenceAgrees l peerId) ↔
      r.EachStep fun s _ a => s.OfflineIsLast a) ∧
    ((r.EachStep fun s _ a => s.OfflineIsLast a) →
      r.Always fun s l => (∀ c, (s.conn c).Settled) → ∀ peerId, s.PresenceAgrees l peerId) := by
  have hiff : r.Always (fun s l => ∀ peerId, s.PostsDone peerId → s.PresenceAgrees l peerId) ↔
      r.EachStep fun s _ a => s.OfflineIsLast a := by
    refine r.always_iff_eachStep
      (I := fun s l => s.Inv d ∧ ∀ peerId, s.PresenceOk l peerId)
      ⟨HubRooms.Inv.init d, HubRooms.PresenceOk.init d⟩ ?_ ?_ ?_
    · intro s l hI peerId hdone
      exact (hI.2 peerId).agrees hdone
    · intro s l a t o hI hC ha
      obtain ⟨k, hk, rfl⟩ := Machine.observe_step_iff.mp ha
      have hstep := (HubRooms.step_cases hk).2
      exact ⟨hI.1.step hstep, fun peerId => (hI.2 peerId).step hI.1.rooms hC hstep⟩
    · intro s l a t o hI hC ha hP
      obtain ⟨k, hk, rfl⟩ := Machine.observe_step_iff.mp ha
      obtain ⟨peerId, hdone, hnot⟩ :=
        HubRooms.not_agrees_of_not_offlineIsLast hI.1.rooms hC (HubRooms.step_cases hk).2
      exact hnot (hP peerId hdone)
  refine ⟨hiff, fun hC => (hiff.mpr hC).mono fun s l h hsettled peerId => ?_⟩
  exact h peerId (fun c _ => hsettled c)

/-- The peer connects a second time, and then its first connection leaves: the application server
holds it for offline, although the second connection is open. -/
theorem presence_overlap :
    ∃ r : ((hubRooms oneRoom).observe seePost).Run,
      r.acts = connect ⟨1, "p"⟩ ++ connect ⟨2, "p"⟩ ++
        [.life ⟨1, "p"⟩ .readerStops, .unregister ⟨1, "p"⟩, .life ⟨1, "p"⟩ .countDown,
          .life ⟨1, "p"⟩ .postedOff] ∧
      (∀ c, (r.last.conn c).Settled) ∧ (r.last.conn ⟨2, "p"⟩).Present ∧
      lastPost "p" r.log = some (.offline "p") ∧
      ¬ r.Always fun s l => (∀ c, (s.conn c).Settled) → ∀ p, s.PresenceAgrees l p := by
  let r : ((hubRooms oneRoom).observe seePost).Run :=
    .ofActs (connect ⟨1, "p"⟩ ++ connect ⟨2, "p"⟩ ++
      [.life ⟨1, "p"⟩ .readerStops, .unregister ⟨1, "p"⟩, .life ⟨1, "p"⟩ .countDown,
        .life ⟨1, "p"⟩ .postedOff]) (by decide)
  have hsettled : ∀ c, (r.last.conn c).Settled := by
    obtain ⟨k, hk⟩ := Machine.observe_exec_iff.mp ⟨_, r.exec_eq⟩
    exact HubRooms.settled_of_exec hk (by decide)
  have hpresent : (r.last.conn ⟨2, "p"⟩).Present := ⟨.inr (.inr (by decide)), .inr (by decide)⟩
  have hlast : lastPost "p" r.log = some (.offline "p") := by decide
  refine ⟨r, rfl, hsettled, hpresent, hlast, fun hall => ?_⟩
  have hon := (hall.last hsettled "p").1 ⟨⟨2, "p"⟩, rfl, hpresent⟩
  exact absurd (hon.symm.trans hlast) (by simp)

end Skytime
