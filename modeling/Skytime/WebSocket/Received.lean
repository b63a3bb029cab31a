/-
# Skytime.WebSocket.Received — what one side sends is what the other side reads.

The bytes on the wire are frames that the receiver takes, and at their end perhaps a close frame or
a part of a frame. So the other side reads the messages for which `WriteMessage` returned `nil`, in
their order. If the connection is closed within a data frame it reads the part of the message that
came as if it were the whole.
-/
import Skytime.WebSocket.Link

namespace Skytime.WebSocket

open Process

/-- Masking goes from the front to the back. -/
theorem maskedWith_append (mask : Option MaskKey) (a b : List UInt8) :
    ∃ y, y.length = b.length ∧ maskedWith mask (a ++ b) = maskedWith mask a ++ y := by
  cases mask with
  | none => exact ⟨b, rfl, rfl⟩
  | some key => exact ⟨_, maskBytes_length key _ b, maskBytes_append key 0 a b⟩

section Torn

variable {env : ReadEnv} {r : Receiving} {f : Frame} {tail x : List UInt8}

/-- A part of a frame is no frame. -/
theorem stuck_part (hx : x ≠ []) (htail : tail ++ x = f.bytes) : Stuck env r tail := by
  intro g rest r' ms hbytes _
  exfalso
  rw [hbytes, List.append_assoc, ← List.append_nil f.bytes] at htail
  have hnil := (Frame.bytes_append_inj htail).2
  exact hx (List.append_eq_nil_iff.mp hnil).2

/-- Where a part of a frame is cut off, the message has a part of its payload. -/
theorem cutOff_part {m : Message} (htail : tail ++ x = f.bytes) (hcut : CutOff env r tail m) :
    isControl f.frameType = false ∧ ∃ base y, r.base f.frameType = some base ∧
      m.1 = base.1 ∧ y.length = x.length ∧ m.2 ++ y = base.2 ++ f.payload := by
  obtain ⟨h, t, base, cut, rfl, hlen, hadm, ht, hlimit, hbase, rfl⟩ := hcut
  rw [List.append_assoc, Frame.bytes] at htail
  obtain ⟨rfl, hmasked⟩ := FrameHeader.bytes_append_inj htail
  obtain rfl : f.frameType = t := Option.some.inj (f.type_eq.symm.trans hadm.type_eq)
  obtain ⟨y, hy, hclear⟩ := maskedWith_append f.header.mask (maskedWith f.header.mask cut) x
  rw [hmasked, maskedWith_maskedWith, maskedWith_maskedWith] at hclear
  refine ⟨ht, base, y, hbase, rfl, hy, ?_⟩
  rw [hclear, List.append_assoc]

/-- Behind a close frame nothing is read. -/
theorem stuck_close (hf : f.frameType = .close) : Stuck env r f.bytes := by
  intro g rest r' ms hbytes hstep
  exfalso
  rw [← List.append_nil f.bytes] at hbytes
  obtain ⟨rfl, -⟩ := Frame.bytes_append_inj hbytes
  obtain ⟨-, ⟨-, hclose, -⟩ | ⟨hdata, -⟩⟩ := receiver_step_iff.mp hstep
  · exact hclose hf
  · rw [hf] at hdata
    exact absurd hdata (by simp [isControl])

theorem not_cutOff_close (hf : f.frameType = .close) : ¬ ∃ m, CutOff env r f.bytes m := by
  rintro ⟨m, hcut⟩
  obtain ⟨hdata, -⟩ := cutOff_part (x := []) (List.append_nil _) hcut
  rw [hf] at hdata
  exact absurd hdata (by simp [isControl])

/-- At the end of the bytes nothing is read. -/
theorem stuck_nil : Stuck env r [] := by
  intro g rest r' ms hbytes _
  exact absurd (List.append_eq_nil_iff.mp hbytes.symm).1 g.bytes_ne_nil

theorem not_cutOff_nil : ¬ ∃ m, CutOff env r [] m := by
  rintro ⟨m, h, t, base, cut, hbytes, -⟩
  exact absurd hbytes (by simp [FrameHeader.bytes])

end Torn

section Link

variable {cfg : WriteConfig} {env : ReadEnv} {s : WriteSide} {l : List WriteEvent}
  {calls : List Message}

/-- Whatever the goroutines of one side do, in whatever order, and whatever the network takes: the
other side reads the messages for which `WriteMessage` returned `nil`, in this order. If the network
connection is closed within a frame it reads, as one more message, a proper part of the first one
that was not sent. -/
theorem readMessages_wire (env : ReadEnv) {as : List WriteAction}
    (hpeer : env.isServer = !cfg.isServer) (hhandlers : HandlersOk env)
    (hok : ∀ a ∈ as, a.Ok env) (hexec : (sender cfg).exec as = some (s, l)) :
    (readMessages env (newReadSide (wireOf l))).messages = sentOf l ∨
      env.ends = .eof ∧ ∃ t data q, sentOf l ++ [(t, data)] <+: dataCalls as ∧ q <+: data ∧
        q.length < data.length ∧
        (readMessages env (newReadSide (wireOf l))).messages = sentOf l ++ [(t, q)] := by
  obtain ⟨gs, tail, r, hwire, htaken, h⟩ := inv_exec hpeer hok hexec
  obtain ⟨s₀, hst₀, hinput₀, -, hrun⟩ := stands_new env (wireOf l)
  obtain ⟨s₁, hst₁, hinput₁, -, hresume⟩ :=
    resume_exec hst₀ htaken (hhandlers.controlOk htaken) (hinput₀.trans hwire)
  rw [hrun, hresume, Reading.after]
  -- what reading makes of the bytes behind the frames
  have hquiet : Stuck env r tail → (¬ ∃ m, CutOff env r tail m) →
      (resume env s₁ r.opened).messages = [] := by
    intro hstuck hno
    rw [← hinput₁] at hstuck hno
    rcases resume_stuck hst₁ hstuck with ⟨hnil, -⟩ | ⟨m, -, hcut, -⟩
    · exact hnil
    · exact absurd ⟨m, hcut⟩ hno
  rcases h with ⟨rfl, -⟩ | ⟨-, -, ⟨f, ⟨hclose, rfl⟩ | ⟨x, hx, htail, hf⟩⟩, -⟩
  · left
    rw [hquiet stuck_nil not_cutOff_nil, List.append_nil]
  · left
    rw [hquiet (stuck_close hclose) (not_cutOff_close hclose), List.append_nil]
  · have hstuck : Stuck env r s₁.input := by
      rw [hinput₁]
      exact stuck_part hx htail
    rcases resume_stuck hst₁ hstuck with ⟨hnil, -⟩ | ⟨m, heof, hcut, hmessages⟩
    · left
      rw [hnil, List.append_nil]
    · right
      rw [hinput₁] at hcut
      obtain ⟨hdata, base, y, hbase, hm, hy, hsum⟩ := cutOff_part htail hcut
      rcases hf with hcontrol | ⟨t, data, q, hnext, hbase', hpre⟩
      · exact absurd (hcontrol.symm.trans hdata) (by simp)
      · obtain rfl := Option.some.inj (hbase.symm.trans hbase')
        rw [← hsum] at hpre
        have hpos : 0 < y.length := by rw [hy]; exact List.length_pos_of_ne_nil hx
        refine ⟨heof, t, data, m.2, hnext, (List.prefix_append _ _).trans hpre, ?_, ?_⟩
        · have hlen := hpre.length_le
          rw [List.length_append] at hlen
          omega
        · have hmt : m = (t, m.2) := Prod.ext hm rfl
          show sentOf l ++ (resume env s₁ r.opened).messages = _
          rw [hmessages, ← hmt]

/-- The client's side of a connection, with the default buffer. -/
def clientWrites : WriteConfig := ⟨false, 4096, by decide⟩

/-- The client sends two bytes, masked with a key of zeros. -/
def twoBytes : List WriteEvent :=
  [.bytes [0x81, 0x82, 0, 0, 0, 0, 72, 105], .returned .text [72, 105]]

theorem twoBytes_exec : (sender clientWrites).exec
    [.writeMessage .text [72, 105], .flush (fun _ => 0) 100] =
      some (⟨[], none, 1, none, false, false, .idle⟩, twoBytes) := rfl

theorem fits_twoBytes {chunk : ℕ → ℕ} {ends : StreamEnd} :
    ∀ a ∈ [WriteAction.writeMessage .text [72, 105], .flush (fun _ => 0) 100],
      a.Ok (hubReads chunk ends) := by
  intro a ha
  rcases List.mem_cons.mp ha with rfl | ha
  · exact ⟨by decide, .inr (by decide : ((2 : ℕ) : ℤ) ≤ 8192)⟩
  · rw [List.mem_singleton.mp ha]
    trivial

theorem readMessages_wire_twoBytes :
    (readMessages (hubReads id .eof) (newReadSide (wireOf twoBytes))).messages = sentOf twoBytes ∨
      (hubReads id .eof).ends = .eof ∧ ∃ t data q,
        sentOf twoBytes ++ [(t, data)] <+:
          dataCalls [.writeMessage .text [72, 105], .flush (fun _ => 0) 100] ∧
        q <+: data ∧ q.length < data.length ∧
        (readMessages (hubReads id .eof) (newReadSide (wireOf twoBytes))).messages =
          sentOf twoBytes ++ [(t, q)] :=
  readMessages_wire (hubReads id .eof) rfl (fun _ _ => ⟨rfl, rfl⟩) fits_twoBytes twoBytes_exec

/-! ### A part of the wire -/

/-- A message under way goes on until it is complete. -/
theorem opened_prefix {r r' : Receiving} {fs : List Frame} {ms : List Message} {m : Message}
    (hopened : r.opened = some m) (hexec : (receiver env).execFrom r fs = some (r', ms)) :
    ∃ p, m.2 <+: p ∧ ((∃ k, ms = (m.1, p) :: k) ∨ ms = [] ∧ r'.opened = some (m.1, p)) := by
  induction fs generalizing r ms m with
  | nil =>
      obtain ⟨rfl, rfl⟩ := Prod.mk.inj (Option.some.inj hexec)
      exact ⟨m.2, List.prefix_refl _, .inr ⟨rfl, hopened⟩⟩
  | cons f fs ih =>
      obtain ⟨r₁, o, k, hstep, hrest, rfl⟩ := (receiver env).execFrom_cons_iff.mp hexec
      obtain ⟨hadm, ⟨-, -, rfl, rfl⟩ | ⟨ht, m₁, hjoin, -, hext⟩⟩ := receiver_step_iff.mp hstep
      · exact ih hopened hrest
      · have hplace := hadm.place
        rw [hopened] at hplace
        have hm₁ : m₁ = (m.1, m.2 ++ f.payload) := by
          rw [Receiving.join] at hjoin
          cases htype : f.frameType with
          | text | binary =>
              rw [htype] at hplace
              exact absurd hplace (by simp [MayStand])
          | close | ping | pong =>
              rw [htype] at ht
              exact absurd ht (by simp [isControl])
          | continuation =>
              rw [htype, Receiving.base, hopened] at hjoin
              exact (Option.some.inj hjoin).symm
        have hgrown : m.2 <+: m.2 ++ f.payload := List.prefix_append _ _
        cases hlast : f.final with
        | true =>
            simp only [Receiving.extend, hlast, if_true, Prod.mk.injEq] at hext
            obtain ⟨rfl, rfl⟩ := hext
            exact ⟨_, hgrown, .inl ⟨k, by rw [hm₁]; rfl⟩⟩
        | false =>
            simp only [Receiving.extend, hlast, Bool.false_eq_true, if_false, Prod.mk.injEq] at hext
            obtain ⟨rfl, rfl⟩ := hext
            obtain ⟨p, hpre, hp⟩ := ih (m := m₁) rfl hrest
            rw [hm₁] at hpre hp
            exact ⟨p, hgrown.trans hpre, hp⟩

/-- Two ways to take the same bytes apart agree, up to where the shorter one ends. -/
theorem frames_prefix {r r₁ r₂ : Receiving} {fs gs : List Frame} {ms ns : List Message}
    {tail rest : List UInt8} (hfs : (receiver env).execFrom r fs = some (r₁, ms))
    (hgs : (receiver env).execFrom r gs = some (r₂, ns))
    (hstuck : ∀ f rest, tail = Frame.bytes f ++ rest → (receiver env).step r₂ f = none)
    (hbytes : wireBytes fs ++ rest = wireBytes gs ++ tail) : fs <+: gs := by
  induction fs generalizing r gs ms ns with
  | nil => exact List.nil_prefix
  | cons f fs ih =>
      obtain ⟨r', o, k, hstep, hrest, rfl⟩ := (receiver env).execFrom_cons_iff.mp hfs
      rw [wireBytes_cons, List.append_assoc] at hbytes
      cases gs with
      | nil =>
          obtain ⟨rfl, rfl⟩ := Prod.mk.inj (Option.some.inj hgs)
          rw [hstuck f _ hbytes.symm] at hstep
          exact absurd hstep (by simp)
      | cons g gs =>
          rw [wireBytes_cons, List.append_assoc] at hbytes
          obtain ⟨rfl, hrestBytes⟩ := Frame.bytes_append_inj hbytes
          obtain ⟨r'', o', k', hstep', hrest', rfl⟩ := (receiver env).execFrom_cons_iff.mp hgs
          obtain ⟨rfl, rfl⟩ := Prod.mk.inj (Option.some.inj (hstep.symm.trans hstep'))
          exact List.cons_prefix_cons.mpr ⟨rfl, ih hrest hrest' hrestBytes⟩

/-- What is behind the frames on the wire is none that the receiver takes. -/
theorem Torn.step_eq_none {sent : List Message} {r : Receiving} {tail : List UInt8}
    (h : Torn sent calls r tail) {f : Frame}
    {rest : List UInt8} (hbytes : tail = f.bytes ++ rest) : (receiver env).step r f = none := by
  obtain ⟨g, ⟨hclose, htail⟩ | ⟨x, hx, htail, -⟩⟩ := h
  · cases hstep : (receiver env).step r f with
    | none => rfl
    | some p =>
        have hstuck := stuck_close hclose f rest p.1 p.2 (htail.symm.trans hbytes) hstep
        rw [htail, ← List.append_nil g.bytes] at hbytes
        obtain ⟨rfl, -⟩ := Frame.bytes_append_inj hbytes
        obtain ⟨-, ⟨-, hno, -⟩ | ⟨hdata, -⟩⟩ := receiver_step_iff.mp hstep
        · exact absurd hclose hno
        · exact absurd (hstuck.1.symm.trans hdata) (by simp)
  · cases hstep : (receiver env).step r f with
    | none => rfl
    | some p =>
        rw [hbytes, List.append_assoc, ← List.append_nil g.bytes] at htail
        have hnil := (Frame.bytes_append_inj htail).2
        exact absurd (List.append_eq_nil_iff.mp hnil).2 hx

/-- A frame that is cut off belongs to the next message. -/
theorem cutOff_next {r r₁ : Receiving} {g : Frame} {gs : List Frame} {sent ms : List Message}
    {tail x : List UInt8} {m : Message}
    (hexec : (receiver env).execFrom r (g :: gs) = some (r₁, ms)) (hsent : sent ++ ms <+: calls)
    (hopened : PartNext (sent ++ ms) calls r₁) (htail : tail ++ x = g.bytes)
    (hcut : CutOff env r tail m) : ∃ data, sent ++ [(m.1, data)] <+: calls ∧ m.2 <+: data := by
  obtain ⟨hdata, base, y, hbase, hm, -, hsum⟩ := cutOff_part htail hcut
  obtain ⟨r', o, k, hstep, hrest, rfl⟩ := (receiver env).execFrom_cons_iff.mp hexec
  -- the next message that the receiver gives is the next of the calls
  have hfirst : ∀ p k', o ++ k = (m.1, p) :: k' → sent ++ [(m.1, p)] <+: calls := by
    intro p k' hout
    rw [hout, ← List.singleton_append, ← List.append_assoc] at hsent
    exact (List.prefix_append _ _).trans hsent
  obtain ⟨-, ⟨hcontrol, -⟩ | ⟨-, m', hjoin, -, hext⟩⟩ := receiver_step_iff.mp hstep
  · exact absurd (hcontrol.symm.trans hdata) (by simp)
  · obtain rfl : (m.1, base.2 ++ g.payload) = m' := by
      rw [Receiving.join, hbase] at hjoin
      rw [hm]
      exact Option.some.inj hjoin
    have hgrown : m.2 <+: base.2 ++ g.payload := hsum ▸ List.prefix_append _ _
    cases hlast : g.final with
    | true =>
        simp only [Receiving.extend, hlast, if_true, Prod.mk.injEq] at hext
        obtain ⟨rfl, rfl⟩ := hext
        exact ⟨_, hfirst _ k rfl, hgrown⟩
    | false =>
        simp only [Receiving.extend, hlast, Bool.false_eq_true, if_false, Prod.mk.injEq] at hext
        obtain ⟨rfl, rfl⟩ := hext
        obtain ⟨p, hp, ⟨k', hdone⟩ | ⟨hnone, hunder⟩⟩ := opened_prefix rfl hrest
        · exact ⟨p, hfirst p k' hdone, hgrown.trans hp⟩
        · obtain ⟨data, hnext, hpre⟩ := hopened m.1 p hunder
          rw [hnone] at hnext
          exact ⟨data, by simpa using hnext, hgrown.trans (hp.trans hpre)⟩

/-- A payload that is cut off is cut off within its frame. -/
theorem cutOff_within {r : Receiving} {tail rest z : List UInt8} {g : Frame} {m : Message}
    (hcut : CutOff env r tail m) (hbytes : tail ++ rest = g.bytes ++ z) :
    ∃ x, tail ++ x = g.bytes := by
  obtain ⟨h, t, base, cut, rfl, hlen, -⟩ := hcut
  have hsplit := hbytes
  rw [List.append_assoc, Frame.bytes, List.append_assoc] at hsplit
  obtain ⟨rfl, -⟩ := FrameHeader.bytes_append_inj hsplit
  refine List.prefix_of_prefix_length_le (List.prefix_append _ rest) ?_ ?_
  · rw [hbytes]
    exact List.prefix_append _ _
  · rw [← g.payload_length] at hlen
    simp only [Frame.bytes, List.length_append, maskedWith_length]
    omega

/-- The network may take the bytes of the wire and deliver only a part of them. So the other side
reads the first of the messages that `WriteMessage` was called with, and perhaps the front of the
next one as if it were the whole. -/
theorem readMessages_prefix (env : ReadEnv) {as : List WriteAction}
    (hpeer : env.isServer = !cfg.isServer) (hok : ∀ a ∈ as, a.Ok env)
    (hexec : (sender cfg).exec as = some (s, l)) {input : List UInt8} (hpre : input <+: wireOf l) :
    ∃ ms cut, (readMessages env (newReadSide input)).messages = ms ++ cut ∧
      ms <+: sentOf l ∧ sentOf l <+: dataCalls as ∧
      (cut = [] ∨ env.ends = .eof ∧ ∃ t q data, cut = [(t, q)] ∧
        ms ++ [(t, data)] <+: dataCalls as ∧ q <+: data) := by
  obtain ⟨gs, tail, r, hwire, htaken, hend⟩ := inv_exec hpeer hok hexec
  obtain ⟨fs, tail', hinput, r', ms, cut, hfs, hmessages, -, hcut⟩ := readMessages_exact env input
  obtain ⟨rest, hrest⟩ := hpre
  rw [hinput, hwire, List.append_assoc] at hrest
  have hstuck : ∀ f z, tail = Frame.bytes f ++ z → (receiver env).step r f = none := by
    rcases hend with ⟨rfl, -⟩ | ⟨-, -, htorn, -⟩
    · intro f z hz
      exact absurd (List.append_eq_nil_iff.mp hz.symm).1 f.bytes_ne_nil
    · exact fun f z hz => htorn.step_eq_none hz
  have hopened : PartNext (sentOf l) (dataCalls as) r := by
    rcases hend with ⟨-, hlive⟩ | ⟨-, -, -, hopened⟩
    · exact hlive.stage.partNext (callsOk_exec hexec)
    · exact hopened
  have hcalls := sent_prefix hexec
  obtain ⟨gs', rfl⟩ := frames_prefix hfs htaken hstuck hrest
  obtain ⟨r₁, l₁, l₂, hfs', hgs', hsent⟩ := (receiver env).execFrom_append_iff.mp htaken
  obtain ⟨rfl, rfl⟩ := Prod.mk.inj (Option.some.inj (hfs.symm.trans hfs'))
  refine ⟨ms, cut, hmessages, hsent ▸ List.prefix_append _ _, hcalls, ?_⟩
  rcases hcut with ⟨hnil, -⟩ | ⟨m, heof, hcut, rfl⟩
  · exact .inl hnil
  · refine .inr ⟨heof, m.1, m.2, ?_⟩
    suffices h : ∃ data, ms ++ [(m.1, data)] <+: dataCalls as ∧ m.2 <+: data by
      obtain ⟨data, h⟩ := h
      exact ⟨data, rfl, h⟩
    rw [wireBytes_append, List.append_assoc, List.append_cancel_left_eq] at hrest
    rw [hsent] at hopened hcalls hend
    cases gs' with
    | cons g gs' =>
        rw [wireBytes_cons, List.append_assoc] at hrest
        obtain ⟨x, hx⟩ := cutOff_within hcut hrest
        exact cutOff_next hgs' hcalls hopened hx hcut
    | nil =>
        obtain ⟨rfl, rfl⟩ := Prod.mk.inj (Option.some.inj hgs')
        rw [wireBytes_nil, List.nil_append] at hrest
        rcases hend with ⟨rfl, -⟩ | ⟨-, -, ⟨f, ⟨hclose, rfl⟩ | ⟨x, hx, htail, hf⟩⟩, -⟩
        · rw [(List.append_eq_nil_iff.mp hrest).1] at hcut
          exact absurd ⟨m, hcut⟩ not_cutOff_nil
        · obtain ⟨hdata, -⟩ := cutOff_part hrest hcut
          rw [hclose] at hdata
          exact absurd hdata (by simp [isControl])
        · rw [← hrest, List.append_assoc] at htail
          obtain ⟨hdata, base, y, hbase, hm, -, hsum⟩ := cutOff_part htail hcut
          rcases hf with hcontrol | ⟨t, data, q, hnext, hbase', hfront⟩
          · exact absurd (hcontrol.symm.trans hdata) (by simp)
          · obtain rfl := Option.some.inj (hbase.symm.trans hbase')
            rw [← hsum] at hfront
            refine ⟨data, ?_, (List.prefix_append _ _).trans hfront⟩
            rw [hm]
            simpa using hnext

end Link

end Skytime.WebSocket
