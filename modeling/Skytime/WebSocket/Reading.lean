/-
# Skytime.WebSocket.Reading — what is read from any bytes.

Frames are prefix free, so the bytes of a connection begin with frames in one way only. Reading
gives the messages of the frames that the machine `receiver` takes, whatever the bytes are and in
whatever pieces they come, and at most one message more, cut off at the end of the connection. From
this the read limit is judged: it holds for every message unless the lengths that the headers
announce overflow the counter.
-/
import Skytime.WebSocket.Receiver

namespace Skytime.WebSocket

open Process

/-! ## Frames are prefix free -/

theorem keyBytes_append_inj {mask mask' : Option MaskKey} {a b : List UInt8}
    (hsome : mask.isSome = mask'.isSome) (h : keyBytes mask ++ a = keyBytes mask' ++ b) :
    mask = mask' ∧ a = b := by
  cases mask with
  | none =>
      cases mask' with
      | none => exact ⟨rfl, h⟩
      | some key' => exact absurd hsome (by simp)
  | some key =>
      cases mask' with
      | none => exact absurd hsome (by simp)
      | some key' =>
          obtain ⟨hkey, hab⟩ := List.append_inj h rfl
          have heq : key = key' := by
            rw [← MaskKey.ofBytes_bytes key, ← MaskKey.ofBytes_bytes key']
            exact congrArg MaskKey.ofBytes hkey
          rw [heq]
          exact ⟨rfl, hab⟩

/-- The low bits tell the form, and the form with its bytes the length. -/
theorem extra_append_inj {form form' : LengthForm} {n n' : ℕ} {a b : List UInt8}
    (hfits : form.Fits n) (hfits' : form'.Fits n') (hlow : form.lowBits n = form'.lowBits n')
    (h : form.extra n ++ a = form'.extra n' ++ b) : form = form' ∧ n = n' ∧ a = b := by
  have hput : ∀ k, n < 256 ^ k → n' < 256 ^ k →
      putBigEndian k n ++ a = putBigEndian k n' ++ b → n = n' ∧ a = b := by
    intro k hk hk' hput
    obtain ⟨hnum, hab⟩ := List.append_inj hput (by simp)
    refine ⟨?_, hab⟩
    rw [← bigEndian_putBigEndian_of_lt hk, hnum, bigEndian_putBigEndian_of_lt hk']
  cases form <;> cases form' <;>
    simp only [LengthForm.Fits, LengthForm.lowBits, LengthForm.extra] at *
  case byte.byte => exact ⟨trivial, hlow, h⟩
  case uint16.uint16 => exact ⟨trivial, hput 2 (by omega) (by omega) h⟩
  case uint64.uint64 => exact ⟨trivial, hput 8 (by omega) (by omega) h⟩
  all_goals omega

theorem FrameHeader.bytes_append_inj {g h : FrameHeader} {a b : List UInt8}
    (heq : g.bytes ++ a = h.bytes ++ b) : g = h ∧ a = b := by
  simp only [bytes, List.cons_append, List.cons.injEq, List.append_assoc] at heq
  obtain ⟨hb0, hb1, htail⟩ := heq
  have hlow : g.form.lowBits g.length = h.form.lowBits h.length := by
    rw [← g.b1_and_low, ← h.b1_and_low, hb1]
  have hsome : g.mask.isSome = h.mask.isSome := by
    rw [← g.b1_and_maskBit, ← h.b1_and_maskBit, hb1]
  obtain ⟨hform, hlen, htail⟩ := extra_append_inj g.fits h.fits hlow htail
  obtain ⟨hmask, hab⟩ := keyBytes_append_inj hsome htail
  refine ⟨?_, hab⟩
  rcases g with ⟨b0, mask, form, n, hfits⟩
  rcases h with ⟨b0', mask', form', n', hfits'⟩
  simp only at hb0 hform hlen hmask
  subst hb0 hform hlen hmask
  rfl

/-- No frame begins with another one. -/
theorem Frame.bytes_append_inj {f g : Frame} {a b : List UInt8}
    (heq : f.bytes ++ a = g.bytes ++ b) : f = g ∧ a = b := by
  simp only [bytes, List.append_assoc] at heq
  obtain ⟨hheader, htail⟩ := FrameHeader.bytes_append_inj heq
  have hlen : f.payload.length = g.payload.length := by
    rw [f.payload_length, g.payload_length, hheader]
  obtain ⟨hmasked, hab⟩ := List.append_inj htail
    (by rw [maskedWith_length, maskedWith_length, hlen])
  refine ⟨?_, hab⟩
  have hpayload : f.payload = g.payload := by
    rw [← maskedWith_maskedWith f.header.mask f.payload, hmasked, hheader, maskedWith_maskedWith]
  have htype : f.frameType = g.frameType := by
    have hf := f.type_eq
    rw [hheader, g.type_eq] at hf
    exact (Option.some.inj hf).symm
  rcases f with ⟨header, t, payload, h1, h2⟩
  rcases g with ⟨header', t', payload', h1', h2'⟩
  simp only at hheader hpayload htype
  subst hheader hpayload htype
  rfl

/-! ## Many frames -/

/-- The bytes of frames, one behind the other. -/
def wireBytes (fs : List Frame) : List UInt8 := fs.flatMap Frame.bytes

@[simp] theorem wireBytes_nil : wireBytes [] = [] := rfl

@[simp] theorem wireBytes_cons (f : Frame) (fs : List Frame) :
    wireBytes (f :: fs) = f.bytes ++ wireBytes fs := rfl

theorem wireBytes_append (fs gs : List Frame) :
    wireBytes (fs ++ gs) = wireBytes fs ++ wireBytes gs := List.flatMap_append

/-- The handlers return no error. -/
def HandlersOk (env : ReadEnv) : Prop :=
  ∀ left data, env.pingOk left data = true ∧ env.pongOk left data = true

@[simp] theorem Reading.after_nil (r : Reading) : r.after [] = r := rfl

theorem Reading.after_after (r : Reading) (ms ns : List Message) :
    (r.after ns).after ms = r.after (ms ++ ns) := by
  rw [after, after, after, List.append_assoc]

/-- Frames that the machine takes are read one after the other. -/
theorem resume_exec {env : ReadEnv} {s : ReadSide} {r r' : Receiving} {fs : List Frame}
    {ms : List Message} {tail : List UInt8} (hst : Stands s r)
    (hexec : (receiver env).execFrom r fs = some (r', ms))
    (hok : ∀ f ∈ fs, ∀ left, isControl f.frameType = true →
      ControlOk env left f.payload f.frameType)
    (hinput : s.input = wireBytes fs ++ tail) :
    ∃ s', Stands s' r' ∧ s'.input = tail ∧ s'.calls = s.calls ++ fs.flatMap controlsOf ∧
      resume env s r.opened = (resume env s' r'.opened).after ms := by
  induction fs generalizing s r ms with
  | nil =>
      obtain ⟨rfl, rfl⟩ := Prod.mk.inj (Option.some.inj hexec)
      exact ⟨s, hst, hinput, by simp, rfl⟩
  | cons f fs ih =>
      obtain ⟨r₁, o, k, hstep, hrest, rfl⟩ := (receiver env).execFrom_cons_iff.mp hexec
      rw [wireBytes_cons, List.append_assoc] at hinput
      obtain ⟨s₁, hst₁, hinput₁, hcalls₁, hresume₁⟩ :=
        resume_step hst hstep hinput (hok f (by simp) _)
      obtain ⟨s', hst', hinput', hcalls', hresume'⟩ :=
        ih hst₁ hrest (fun g hg => hok g (by simp [hg])) hinput₁
      refine ⟨s', hst', hinput', ?_, ?_⟩
      · rw [hcalls', hcalls₁, List.flatMap_cons, List.append_assoc]
      · rw [hresume₁, hresume', Reading.after_after]

/-- Handlers that return no error let every control frame pass that the machine takes. -/
theorem HandlersOk.controlOk {env : ReadEnv} (hok : HandlersOk env) {r r' : Receiving}
    {fs : List Frame} {ms : List Message} (hexec : (receiver env).execFrom r fs = some (r', ms)) :
    ∀ f ∈ fs, ∀ left, isControl f.frameType = true →
      ControlOk env left f.payload f.frameType := by
  induction fs generalizing r ms with
  | nil => simp
  | cons f fs ih =>
      obtain ⟨r₁, o, k, hstep, hrest, rfl⟩ := (receiver env).execFrom_cons_iff.mp hexec
      intro g hg left ht
      rcases List.mem_cons.mp hg with rfl | hg
      · obtain ⟨-, ⟨-, hclose, -⟩ | ⟨hdata, -⟩⟩ := receiver_step_iff.mp hstep
        · cases htype : g.frameType with
          | ping => exact (hok left g.payload).1
          | pong => exact (hok left g.payload).2
          | close => exact absurd htype hclose
          | continuation | text | binary =>
              rw [htype] at ht
              exact absurd ht (by simp [isControl])
        · rw [ht] at hdata
          exact absurd hdata (by simp)
      · exact ih hrest g hg left ht

/-- The first call of `ReadMessage` finds a connection where nothing was read. -/
theorem stands_new (env : ReadEnv) (input : List UInt8) :
    ∃ s, Stands s .idle ∧ s.input = input ∧ s.calls = [] ∧
      readMessages env (newReadSide input) = resume env s Receiving.idle.opened :=
  ⟨{ newReadSide input with readSeq := 1 }, ⟨rfl, Int.le_refl 0, rfl, rfl⟩, rfl, rfl,
    readMessages_eq env (newReadSide input)⟩

/-! ## Any bytes -/

/-- The messages read are those of the frames at the front, and one more if it is cut off. -/
structure ReadAs (env : ReadEnv) (r : Receiving) (input : List UInt8) (fs : List Frame)
    (tail : List UInt8) (messages : List Message) : Prop where
  input_eq : input = wireBytes fs ++ tail
  taken : ∃ r' ms cut, (receiver env).execFrom r fs = some (r', ms) ∧ messages = ms ++ cut ∧
    Stuck env r' tail ∧
      ((cut = [] ∧ ¬ (env.ends = .eof ∧ ∃ m, CutOff env r' tail m)) ∨
        ∃ m, env.ends = .eof ∧ CutOff env r' tail m ∧ cut = [m])

theorem exists_readAs (env : ReadEnv) {s : ReadSide} {r : Receiving} (hst : Stands s r) :
    ∃ fs tail, ReadAs env r s.input fs tail (resume env s r.opened).messages := by
  -- induction on the number of bytes that are still to come
  induction hn : s.input.length using Nat.strong_induction_on generalizing s r with
  | _ n ih =>
      by_cases hstuck : Stuck env r s.input
      · refine ⟨[], s.input, ⟨rfl, r, [], (resume env s r.opened).messages, rfl, rfl, hstuck, ?_⟩⟩
        rcases resume_stuck hst hstuck with h | ⟨m, heof, hcut, hmessages⟩
        · exact .inl h
        · exact .inr ⟨m, heof, hcut, hmessages⟩
      · simp only [Stuck, not_forall] at hstuck
        obtain ⟨f, rest, r₁, ms, hinput, hstep, hbad⟩ := hstuck
        have hok : isControl f.frameType = true →
            ControlOk env rest.length f.payload f.frameType := by
          intro ht
          by_contra hno
          exact hbad ⟨ht, hno⟩
        obtain ⟨s₁, hst₁, hinput₁, -, hresume⟩ := resume_step hst hstep hinput hok
        have hlen := f.two_le_length_bytes
        have hshorter : s₁.input.length < n := by
          rw [hinput₁, ← hn, hinput, List.length_append]
          omega
        obtain ⟨fs, tail, hinput', r', ms', cut, hexec, hmessages, htail⟩ :=
          ih s₁.input.length hshorter hst₁ rfl
        refine ⟨f :: fs, tail, ⟨?_, r', ms ++ ms', cut, ?_, ?_, htail⟩⟩
        · rw [hinput, ← hinput₁, hinput', wireBytes_cons, List.append_assoc]
        · exact (receiver env).execFrom_cons_iff.mpr ⟨r₁, ms, ms', hstep, hexec, rfl⟩
        · rw [hresume, Reading.after, hmessages, List.append_assoc]

/-- Whatever bytes come, in whatever pieces: they are frames that may stand there, in this order,
and then bytes that are none; and the messages read are those of the frames, with at most one more,
cut off by the end of the connection. -/
theorem readMessages_exact (env : ReadEnv) (input : List UInt8) :
    ∃ fs tail, ReadAs env .idle input fs tail (readMessages env (newReadSide input)).messages := by
  obtain ⟨s, hst, hinput, -, hrun⟩ := stands_new env input
  obtain ⟨fs, tail, h⟩ := exists_readAs env hst
  rw [hinput] at h
  rw [hrun]
  exact ⟨fs, tail, h⟩

/-! ## The read limit -/

/-- The length that a message under way is counted with is its length. -/
def Counted (limit : ℤ) (r : Receiving) : Prop :=
  0 ≤ r.readLength ∧ r.readLength ≤ limit ∧
    match r.opened with
    | none => r.readLength = 0
    | some m => r.readLength = m.2.length

/-- The announced length cannot make the counter overflow. -/
def NoOverflow (env : ReadEnv) (h : FrameHeader) : Prop := h.length + env.readLimit < 2 ^ 63

section Limit

variable {env : ReadEnv} {r r' : Receiving}

theorem counted_idle (hpos : 0 < env.readLimit) : Counted env.readLimit .idle :=
  ⟨Int.le_refl 0, hpos.le, rfl⟩

/-- Without an overflow, what step 5 compares with the limit is the length with this frame. -/
theorem int64_count (hpos : 0 < env.readLimit) (hr : Counted env.readLimit r) {h : FrameHeader}
    (hno : NoOverflow env h) :
    int64 (r.readLength + int64 h.length) = r.readLength + h.length ∧
      int64 h.length = h.length := by
  obtain ⟨hnonneg, hle, -⟩ := hr
  simp only [NoOverflow] at hno
  have hlen : int64 h.length = h.length := int64_of_lt (by omega)
  rw [hlen]
  simp only [int64]
  exact ⟨by omega, trivial⟩

theorem base_length (hr : Counted env.readLimit r) {t : FrameType} {base : Message}
    (hbase : r.base t = some base) : (base.2.length : ℤ) ≤ r.readLength := by
  obtain ⟨hnonneg, -, hopened⟩ := hr
  cases t with
  | text | binary =>
      obtain rfl := Option.some.inj hbase
      exact hnonneg
  | continuation =>
      rw [show r.opened = some base from hbase] at hopened
      exact hopened.ge
  | close | ping | pong => exact absurd hbase (by simp [Receiving.base])

theorem counted_step (hpos : 0 < env.readLimit) (hr : Counted env.readLimit r) {f : Frame}
    {ms : List Message} (hno : NoOverflow env f.header)
    (hstep : (receiver env).step r f = some (r', ms)) :
    Counted env.readLimit r' ∧ ∀ m ∈ ms, (m.2.length : ℤ) ≤ env.readLimit := by
  obtain ⟨hadm, ⟨-, -, rfl, rfl⟩ | ⟨ht, m, hjoin, hlimit, hext⟩⟩ := receiver_step_iff.mp hstep
  · exact ⟨hr, by simp⟩
  · rw [Receiving.join, Option.map_eq_some_iff] at hjoin
    obtain ⟨base, hbase, rfl⟩ := hjoin
    obtain ⟨hcount, hlen⟩ := int64_count hpos hr hno
    have hpayload := f.payload_length
    rw [hlen, Int.toNat_natCast] at hpayload
    rw [hcount] at hlimit hext
    have hwithin : r.readLength + f.header.length ≤ env.readLimit := hlimit.resolve_left (by omega)
    -- text and binary frames only come where nothing is under way
    have hbaseLen : (base.2.length : ℤ) = r.readLength := by
      have hplace := hadm.place
      obtain ⟨-, -, hopened⟩ := hr
      cases hopen : r.opened with
      | none =>
          rw [hopen] at hopened hplace
          cases htype : f.frameType with
          | text | binary =>
              rw [htype] at hbase
              obtain rfl := Option.some.inj hbase
              exact hopened.symm
          | continuation =>
              rw [htype] at hplace
              exact absurd hplace (by simp [MayStand])
          | close | ping | pong =>
              rw [htype] at ht
              exact absurd ht (by simp [isControl])
      | some m =>
          rw [hopen] at hopened hplace
          cases htype : f.frameType with
          | text | binary =>
              rw [htype] at hplace
              exact absurd hplace (by simp [MayStand])
          | continuation =>
              rw [htype] at hbase
              obtain rfl := Option.some.inj (hopen.symm.trans hbase)
              exact hopened.symm
          | close | ping | pong =>
              rw [htype] at ht
              exact absurd ht (by simp [isControl])
    have htotal : ((base.2 ++ f.payload).length : ℤ) = r.readLength + f.header.length := by
      rw [List.length_append, hpayload]
      omega
    have hnonneg := hr.1
    cases hlast : f.final with
    | true =>
        simp only [Receiving.extend, hlast, if_true, Prod.mk.injEq] at hext
        obtain ⟨rfl, rfl⟩ := hext
        refine ⟨counted_idle hpos, fun m hm => ?_⟩
        rw [List.mem_singleton.mp hm]
        show ((base.2 ++ f.payload).length : ℤ) ≤ env.readLimit
        omega
    | false =>
        simp only [Receiving.extend, hlast, Bool.false_eq_true, if_false, Prod.mk.injEq] at hext
        obtain ⟨rfl, rfl⟩ := hext
        have hcount' : 0 ≤ r.readLength + f.header.length := by omega
        exact ⟨⟨hcount', hwithin, htotal.symm⟩, by simp⟩

theorem counted_exec (hpos : 0 < env.readLimit) {fs : List Frame} {ms : List Message}
    (hno : ∀ f ∈ fs, NoOverflow env f.header) (hr : Counted env.readLimit r)
    (hexec : (receiver env).execFrom r fs = some (r', ms)) :
    Counted env.readLimit r' ∧ ∀ m ∈ ms, (m.2.length : ℤ) ≤ env.readLimit := by
  induction fs generalizing r ms with
  | nil =>
      obtain ⟨rfl, rfl⟩ := Prod.mk.inj (Option.some.inj hexec)
      exact ⟨hr, by simp⟩
  | cons f fs ih =>
      obtain ⟨r₁, o, k, hstep, hrest, rfl⟩ := (receiver env).execFrom_cons_iff.mp hexec
      obtain ⟨hr₁, ho⟩ := counted_step hpos hr (hno f (by simp)) hstep
      obtain ⟨hr', hk⟩ := ih (fun g hg => hno g (by simp [hg])) hr₁ hrest
      refine ⟨hr', fun m hm => ?_⟩
      rcases List.mem_append.mp hm with hm | hm
      · exact ho m hm
      · exact hk m hm

/-- The limit holds, also for a message that is cut off, if no header overflows the counter. -/
theorem ReadAs.length_le (hpos : 0 < env.readLimit) {input tail : List UInt8} {fs : List Frame}
    {messages : List Message} (h : ReadAs env .idle input fs tail messages)
    (hno : ∀ f ∈ fs, NoOverflow env f.header)
    (htail : ∀ hd rest, tail = FrameHeader.bytes hd ++ rest → NoOverflow env hd) :
    ∀ m ∈ messages, (m.2.length : ℤ) ≤ env.readLimit := by
  obtain ⟨-, r', ms, cut, hexec, rfl, -, hcut⟩ := h
  obtain ⟨hr', hms⟩ := counted_exec hpos hno (counted_idle hpos) hexec
  intro m hm
  rcases List.mem_append.mp hm with hm | hm
  · exact hms m hm
  · rcases hcut with ⟨rfl, -⟩ | ⟨m', -, hcut, rfl⟩
    · exact absurd hm (by simp)
    · obtain ⟨hd, t, base, c, htail', hlen, -, -, hlimit, hbase, rfl⟩ := hcut
      rw [List.mem_singleton.mp hm, List.length_append]
      obtain ⟨hcount, hint⟩ := int64_count hpos hr' (htail hd _ htail')
      rw [hcount] at hlimit
      rw [hint, Int.toNat_natCast] at hlen
      have hwithin := hlimit.resolve_left (by omega)
      have hb := base_length hr' hbase
      omega

/-- The first of two frames that pass any limit: it announces `2 ^ 63` bytes, and none come. -/
def bottomless (mask : Option MaskKey) : Frame where
  header := ⟨firstByte .text false, mask, .uint64, 2 ^ 63,
    show (2 ^ 63 : ℕ) < 2 ^ 64 by decide⟩
  frameType := .text
  payload := []
  type_eq := firstByte_type .text false
  payload_length := (int64_toNat_of_le (Nat.le_refl _) (by decide)).symm

/-- What reading makes of the two frames. -/
theorem bottomless_taken (hlimit : env.readLimit < 2 ^ 63) (hpos : 0 < env.readLimit)
    {mask : Option MaskKey} (hmask : mask.isSome = env.isServer) (payload : List UInt8)
    (hlt : payload.length < 2 ^ 63) :
    (receiver env).execFrom .idle
      [bottomless mask, Frame.written true .continuation mask payload hlt] =
        some (.idle, [(.text, payload)]) := by
  have hneg : int64 (0 + int64 ((2 ^ 63 : ℕ) : ℤ)) = -2 ^ 63 := by decide
  have hstep₁ : (receiver env).step .idle (bottomless mask) =
      some (⟨some (.text, []), -2 ^ 63⟩, []) := by
    refine receiver_step_iff.mpr ⟨⟨firstByte_type .text false, firstByte_reserved .text false,
      hmask, rfl⟩, .inr ⟨rfl, (.text, []), rfl, .inr ?_, ?_⟩⟩
    · show int64 (0 + int64 ((2 ^ 63 : ℕ) : ℤ)) ≤ _
      omega
    · rw [show (bottomless mask).final = false from firstByte_final .text false]
      show _ = ((⟨some (.text, []), int64 (0 + int64 ((2 ^ 63 : ℕ) : ℤ))⟩ : Receiving), _)
      rw [hneg]
  have hcount : int64 (-2 ^ 63 + int64 payload.length) = -2 ^ 63 + payload.length := by
    rw [int64_of_lt hlt]
    simp only [int64]
    omega
  have hstep₂ : (receiver env).step ⟨some (.text, []), -2 ^ 63⟩
      (Frame.written true .continuation mask payload hlt) = some (.idle, [(.text, payload)]) := by
    refine receiver_step_iff.mpr ⟨⟨firstByte_type .continuation true,
      firstByte_reserved .continuation true, hmask, rfl⟩,
      .inr ⟨rfl, (.text, payload), rfl, .inr ?_, ?_⟩⟩
    · show int64 (-2 ^ 63 + int64 payload.length) ≤ _
      rw [hcount]
      omega
    · rw [Frame.written_final]
      rfl
  exact (receiver env).execFrom_cons_iff.mpr ⟨_, _, _, hstep₁,
    (receiver env).execFrom_cons_iff.mpr ⟨_, _, _, hstep₂, rfl, rfl⟩, rfl⟩

/-- The two frames alone: their payload is read as one message, however long it is. -/
theorem readMessages_bottomless (hlimit : env.readLimit < 2 ^ 63) (hpos : 0 < env.readLimit)
    {mask : Option MaskKey} (hmask : mask.isSome = env.isServer) (payload : List UInt8)
    (hlt : payload.length < 2 ^ 63) :
    (readMessages env (newReadSide
      (wireBytes [bottomless mask, Frame.written true .continuation mask payload hlt]))).messages =
        [(.text, payload)] := by
  obtain ⟨s, hst, hinput, -, hrun⟩ := stands_new env
    (wireBytes [bottomless mask, Frame.written true .continuation mask payload hlt])
  have htaken := bottomless_taken hlimit hpos hmask payload hlt
  have hdata : ∀ f ∈ [bottomless mask, Frame.written true .continuation mask payload hlt],
      ∀ left, isControl f.frameType = true → ControlOk env left f.payload f.frameType := by
    intro f hf left ht
    rcases List.mem_cons.mp hf with rfl | hf
    · exact absurd ht (by simp [bottomless, isControl])
    · rw [List.mem_singleton.mp hf] at ht
      exact absurd ht (by simp [Frame.written, isControl])
  obtain ⟨s', hst', hinput', -, hresume⟩ :=
    resume_exec hst htaken hdata (hinput.trans (List.append_nil _).symm)
  -- behind them nothing comes, so reading ends
  have hstuck : Stuck env .idle s'.input := by
    intro f rest r' ms hbytes
    have hlen := congrArg List.length hbytes
    have htwo := f.two_le_length_bytes
    rw [hinput', List.length_nil, List.length_append] at hlen
    omega
  rw [hrun, hresume]
  rcases resume_stuck hst' hstuck with ⟨hnil, -⟩ | ⟨m, -, hcut, -⟩
  · rw [Reading.after, hnil]
    rfl
  · obtain ⟨hd, t, base, cut, hbytes, -⟩ := hcut
    rw [hinput'] at hbytes
    exact absurd hbytes (by simp [FrameHeader.bytes])

/-- The read limit holds for every message, unless the announced length of a header at a place where
the reader takes one overflows the counter. And an overflow defeats every limit: whatever it is, any
payload can be sent so that it is read as one message. -/
theorem readLimit_overflow (env : ReadEnv) (hpos : 0 < env.readLimit)
    (hlimit : env.readLimit < 2 ^ 63) :
    (∀ input, (∀ m ∈ (readMessages env (newReadSide input)).messages,
        (m.2.length : ℤ) ≤ env.readLimit) ∨
      ∃ fs r ms hd rest, input = wireBytes fs ++ (FrameHeader.bytes hd ++ rest) ∧
        (receiver env).execFrom .idle fs = some (r, ms) ∧ 2 ^ 63 ≤ hd.length + env.readLimit) ∧
      ∀ payload : List UInt8, payload.length < 2 ^ 63 →
        ∃ input, (readMessages env (newReadSide input)).messages = [(.text, payload)] := by
  refine ⟨fun input => ?_, fun payload hlt => ?_⟩
  · obtain ⟨s, hst, hinput, -, hrun⟩ := stands_new env input
    obtain ⟨fs, tail, h⟩ := exists_readAs env hst
    rw [hinput] at h
    rw [hrun]
    by_cases hno : ∀ f ∈ fs, NoOverflow env f.header
    · by_cases htail : ∀ hd rest, tail = FrameHeader.bytes hd ++ rest → NoOverflow env hd
      · exact .inl (h.length_le hpos hno htail)
      · simp only [not_forall] at htail
        obtain ⟨hd, rest, htail, hover⟩ := htail
        obtain ⟨r', ms, cut, hexec, -⟩ := h.taken
        refine .inr ⟨fs, r', ms, hd, rest, by rw [h.input_eq, htail], hexec, ?_⟩
        simp only [NoOverflow] at hover
        omega
    · simp only [not_forall] at hno
      obtain ⟨f, hf, hover⟩ := hno
      obtain ⟨as, bs, rfl⟩ := List.append_of_mem hf
      obtain ⟨r', ms, cut, hexec, -⟩ := h.taken
      obtain ⟨r₁, l₁, l₂, hexec₁, -, -⟩ := (receiver env).execFrom_append_iff.mp hexec
      refine .inr ⟨as, r₁, l₁, f.header,
        maskedWith f.header.mask f.payload ++ (wireBytes bs ++ tail), ?_, hexec₁, ?_⟩
      · rw [h.input_eq, wireBytes_append, wireBytes_cons, Frame.bytes]
        simp only [List.append_assoc]
      · simp only [NoOverflow] at hover
        omega
  · obtain ⟨mask, hmask⟩ : ∃ mask : Option MaskKey, mask.isSome = env.isServer := by
      cases env.isServer with
      | true => exact ⟨some fun _ => 0, rfl⟩
      | false => exact ⟨none, rfl⟩
    exact ⟨_, readMessages_bottomless hlimit hpos hmask payload hlt⟩

/-- A connection of the hub, with `maxMessageSize`: `HandlersOk`, read in pieces of any size. -/
def hubReads (chunk : ℕ → ℕ) (ends : StreamEnd) : ReadEnv :=
  ⟨true, 8192, chunk, ends, fun _ _ => true, fun _ _ => true⟩

theorem readLimit_overflow_hubReads :
    (∀ input, (∀ m ∈ (readMessages (hubReads id .eof) (newReadSide input)).messages,
        (m.2.length : ℤ) ≤ 8192) ∨
      ∃ fs r ms hd rest, input = wireBytes fs ++ (FrameHeader.bytes hd ++ rest) ∧
        (receiver (hubReads id .eof)).execFrom .idle fs = some (r, ms) ∧
          (2 : ℤ) ^ 63 ≤ hd.length + 8192) ∧
      ∀ payload : List UInt8, payload.length < 2 ^ 63 →
        ∃ input, (readMessages (hubReads id .eof) (newReadSide input)).messages =
          [(.text, payload)] :=
  readLimit_overflow (hubReads id .eof) (by decide) (by decide)

end Limit

end Skytime.WebSocket
