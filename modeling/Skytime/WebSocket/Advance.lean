/-
# Skytime.WebSocket.Advance — what `advanceFrame` accepts, and what it takes from the wire.

`advanceFrame` is run behind the last byte of a frame. It returns without an error exactly if the
bytes begin with a header that may stand there, in any form of its length, and with the payload as
well if the frame is a control frame (`parseFrame_data_iff`, `parseFrame_control_iff`).
-/
import Skytime.WebSocket.Reader

namespace Skytime.WebSocket

open Process

/-! ## Which frame may come -/

/-- Where a frame of this type may stand, and how long and how fragmented it may be. -/
def MayStand (readFinal : Bool) (h : FrameHeader) : FrameType → Prop
  | .close | .ping | .pong => h.form = .byte ∧ h.final = true
  | .text | .binary => readFinal = true
  | .continuation => readFinal = false

instance (readFinal : Bool) (h : FrameHeader) (t : FrameType) :
    Decidable (MayStand readFinal h t) := by
  cases t <;> simp only [MayStand] <;> infer_instance

/-- The checks of step 2, made on the low bits of the second byte. -/
def TypeOk (readFinal : Bool) (low : ℤ) (final : Bool) : FrameType → Prop
  | .close | .ping | .pong => low ≤ 125 ∧ final = true
  | .text | .binary => readFinal = true
  | .continuation => readFinal = false

theorem typeOk_iff (readFinal : Bool) (h : FrameHeader) (t : FrameType) :
    TypeOk readFinal (h.form.lowBits h.length) h.final t ↔ MayStand readFinal h t := by
  have hshort : (h.form.lowBits h.length : ℤ) ≤ 125 ↔ h.form = .byte := by
    have hfits := h.fits
    cases hform : h.form <;>
      simp only [hform, LengthForm.Fits, LengthForm.lowBits, reduceCtorEq, iff_false,
        iff_true] at * <;> omega
  cases t <;> simp only [TypeOk, MayStand, hshort]

/-- A header that steps 2 to 4 let pass. -/
structure Admits (env : ReadEnv) (readFinal : Bool) (h : FrameHeader) (t : FrameType) : Prop where
  type_eq : h.frameType? = some t
  reserved : h.reserved = 0
  mask : h.mask.isSome = env.isServer
  place : MayStand readFinal h t

/-- The key of a frame is stored, and the position set back. -/
def ReadSide.withMask (s : ReadSide) : Option MaskKey → ReadSide
  | none => s
  | some key => { s with readMaskPos := 0, readMaskKey := key }

section Mask

variable (s : ReadSide) (mask : Option MaskKey)

@[simp] theorem ReadSide.withMask_readErr : (s.withMask mask).readErr = s.readErr := by
  cases mask <;> rfl

@[simp] theorem ReadSide.withMask_readSeq : (s.withMask mask).readSeq = s.readSeq := by
  cases mask <;> rfl

@[simp] theorem ReadSide.withMask_readLength : (s.withMask mask).readLength = s.readLength := by
  cases mask <;> rfl

@[simp] theorem ReadSide.withMask_calls : (s.withMask mask).calls = s.calls := by
  cases mask <;> rfl

end Mask

/-- The read side behind a header. -/
def ReadSide.begin (s : ReadSide) (h : FrameHeader) (t : FrameType) (rest : List UInt8) :
    ReadSide :=
  { s.withMask h.mask with
    input := rest
    readRemaining := int64 h.length
    readFinal := if isControl t then s.readFinal else h.final }

/-! ## The parts of the header -/

section Parts

variable {env : ReadEnv} {s u : ReadSide}

theorem checkType_eq_ok {opcode : UInt8} {final : Bool} {t : FrameType} :
    checkType opcode final s = .ok t u ↔ FrameType.ofOpcode opcode = some t ∧
      TypeOk s.readFinal s.readRemaining final t ∧
        u = { s with readFinal := if isControl t then s.readFinal else final } := by
  have hc : ∀ v : FrameType, checkType.control final s v s = .ok t u ↔
      (s.readRemaining ≤ 125 ∧ final = true) ∧ t = v ∧ u = s := by
    intro v
    simp only [checkType.control, bind_eq_ok, refuseIf_eq_ok, pure_eq_ok]
    constructor
    · rintro ⟨_, _, ⟨hlen, rfl⟩, _, _, ⟨hfin, rfl⟩, rfl, rfl⟩
      exact ⟨⟨Int.not_lt.mp (of_decide_eq_false hlen), by simpa using hfin⟩, rfl, rfl⟩
    · rintro ⟨⟨hlen, hfin⟩, rfl, rfl⟩
      exact ⟨(), _, ⟨decide_eq_false (Int.not_lt.mpr hlen), rfl⟩, (), _, ⟨by rw [hfin]; rfl, rfl⟩,
        rfl, rfl⟩
  have hd : ∀ v : FrameType, checkType.data final s v s = .ok t u ↔
      s.readFinal = true ∧ t = v ∧ u = { s with readFinal := final } := by
    intro v
    simp only [checkType.data, bind_eq_ok, refuseIf_eq_ok, modify_eq_ok, pure_eq_ok]
    constructor
    · rintro ⟨_, _, ⟨hfin, rfl⟩, _, _, rfl, rfl, rfl⟩
      exact ⟨by simpa using hfin, rfl, rfl⟩
    · rintro ⟨hfin, rfl, rfl⟩
      exact ⟨(), _, ⟨by rw [hfin]; rfl, rfl⟩, (), _, rfl, rfl, rfl⟩
  have hrun : checkType opcode final s = .ok t u ↔
      (match FrameType.ofOpcode opcode with
        | some .continuation =>
          s.readFinal = false ∧ t = .continuation ∧ u = { s with readFinal := final }
        | some v =>
          if isControl v then (s.readRemaining ≤ 125 ∧ final = true) ∧ t = v ∧ u = s
          else s.readFinal = true ∧ t = v ∧ u = { s with readFinal := final }
        | none => False) := by
    simp only [checkType, bind_eq_ok, get_eq_ok]
    constructor
    · rintro ⟨_, _, ⟨rfl, rfl⟩, hmatch⟩
      cases hop : FrameType.ofOpcode opcode with
      | none =>
          simp only [hop] at hmatch
          obtain ⟨_, _, hrefuse, -⟩ := bind_eq_ok.mp hmatch
          obtain ⟨_, _, _, hthrow⟩ := bind_eq_ok.mp hrefuse
          exact throw_ne_ok hthrow
      | some v =>
          simp only [hop] at hmatch
          cases v with
          | close | ping | pong => exact (hc _).mp hmatch
          | text | binary => exact (hd _).mp hmatch
          | continuation =>
              simp only [bind_eq_ok, refuseIf_eq_ok, modify_eq_ok, pure_eq_ok] at hmatch
              obtain ⟨_, _, ⟨hfin, rfl⟩, _, _, rfl, rfl, rfl⟩ := hmatch
              exact ⟨hfin, rfl, rfl⟩
    · intro hmatch
      refine ⟨s, s, ⟨rfl, rfl⟩, ?_⟩
      cases hop : FrameType.ofOpcode opcode with
      | none => simp only [hop] at hmatch
      | some v =>
          simp only [hop] at hmatch
          cases v with
          | close | ping | pong => exact (hc _).mpr hmatch
          | text | binary => exact (hd _).mpr hmatch
          | continuation =>
              obtain ⟨hfin, rfl, rfl⟩ := hmatch
              simp only [bind_eq_ok, refuseIf_eq_ok, modify_eq_ok, pure_eq_ok]
              exact ⟨(), _, ⟨hfin, rfl⟩, (), _, rfl, trivial, rfl⟩
  rw [hrun]
  cases hop : FrameType.ofOpcode opcode with
  | none => simp
  | some v =>
      constructor
      · intro hmatch
        cases v with
        | close | ping | pong | text | binary | continuation =>
            obtain ⟨hplace, rfl, rfl⟩ := hmatch
            exact ⟨rfl, hplace, rfl⟩
      · rintro ⟨heq, hplace, rfl⟩
        obtain rfl := Option.some.inj heq
        cases v with
        | close | ping | pong | text | binary | continuation => exact ⟨hplace, rfl, rfl⟩

theorem readFrameLength_eq_ok {x : Unit} {low : ℕ} (hlt : low < 128)
    (hlow : s.readRemaining = low) :
    readFrameLength env s = .ok x u ↔ ∃ (form : LengthForm) (n : ℕ) (rest : List UInt8),
      form.Fits n ∧ low = form.lowBits n ∧
      s.input = form.extra n ++ rest ∧
        u = { s with input := rest, readRemaining := int64 n } := by
  constructor
  · intro h
    obtain ⟨_, _, hget, hbody⟩ := bind_eq_ok.mp h
    obtain ⟨rfl, rfl⟩ := get_eq_ok.mp hget
    split_ifs at hbody with h126 h127
    · obtain ⟨b, _, hread, hmod⟩ := bind_eq_ok.mp hbody
      obtain ⟨hlen, rest, hinput, rfl⟩ := readFull_eq_ok.mp hread
      obtain rfl := modify_eq_ok.mp hmod
      have hb : bigEndian b < 2 ^ 16 := by have := bigEndian_lt b; rw [hlen] at this; omega
      refine ⟨.uint16, bigEndian b, rest, hb, by simp only [LengthForm.lowBits]; omega, ?_, ?_⟩
      · rw [LengthForm.extra, ← hlen, putBigEndian_bigEndian]
        exact hinput
      · rw [int64_of_lt (by omega)]
    · obtain ⟨b, _, hread, hmod⟩ := bind_eq_ok.mp hbody
      obtain ⟨hlen, rest, hinput, rfl⟩ := readFull_eq_ok.mp hread
      obtain rfl := modify_eq_ok.mp hmod
      have hb : bigEndian b < 2 ^ 64 := by have := bigEndian_lt b; rw [hlen] at this; omega
      refine ⟨.uint64, bigEndian b, rest, hb, by simp only [LengthForm.lowBits]; omega, ?_, rfl⟩
      rw [LengthForm.extra, ← hlen, putBigEndian_bigEndian]
      exact hinput
    · obtain ⟨-, rfl⟩ := pure_eq_ok.mp hbody
      refine ⟨.byte, low, _, by simp only [LengthForm.Fits]; omega, rfl, rfl, ?_⟩
      rw [int64_of_lt (by omega), ← hlow]
  · rintro ⟨form, n, rest, hfits, hform, hinput, rfl⟩
    refine bind_eq_ok.mpr ⟨s, s, rfl, ?_⟩
    cases form with
    | byte =>
        simp only [LengthForm.Fits, LengthForm.lowBits, LengthForm.extra, List.nil_append] at *
        rw [if_neg (by omega), if_neg (by omega)]
        refine pure_eq_ok.mpr ⟨rfl, ?_⟩
        rw [int64_of_lt (by omega), ← hinput, ← hform, ← hlow]
    | uint16 =>
        simp only [LengthForm.Fits, LengthForm.lowBits, LengthForm.extra] at *
        rw [if_pos (by omega)]
        refine bind_eq_ok.mpr
          ⟨_, _, readFull_eq_ok.mpr ⟨putBigEndian_length 2 n, rest, hinput, rfl⟩,
          modify_eq_ok.mpr ?_⟩
        rw [int64_of_lt (by omega), bigEndian_putBigEndian_of_lt (by omega)]
    | uint64 =>
        simp only [LengthForm.Fits, LengthForm.lowBits, LengthForm.extra] at *
        rw [if_neg (by omega), if_pos (by omega)]
        refine bind_eq_ok.mpr
          ⟨_, _, readFull_eq_ok.mpr ⟨putBigEndian_length 8 n, rest, hinput, rfl⟩,
          modify_eq_ok.mpr ?_⟩
        rw [bigEndian_putBigEndian_of_lt (by omega)]

theorem readMask_eq_ok {x : Unit} {m : Bool} :
    readMask env m s = .ok x u ↔ m = env.isServer ∧ ∃ mask rest, mask.isSome = m ∧
      s.input = keyBytes mask ++ rest ∧ u = { s.withMask mask with input := rest } := by
  constructor
  · intro h
    obtain ⟨_, _, hrefuse, hbody⟩ := bind_eq_ok.mp h
    obtain ⟨hm, rfl⟩ := refuseIf_eq_ok.mp hrefuse
    refine ⟨by simpa using hm, ?_⟩
    split_ifs at hbody with hmask
    · obtain ⟨_, _, hmod, hrest⟩ := bind_eq_ok.mp hbody
      obtain rfl := modify_eq_ok.mp hmod
      obtain ⟨b, _, hread, hmod⟩ := bind_eq_ok.mp hrest
      obtain ⟨hlen, rest, hinput, rfl⟩ := readFull_eq_ok.mp hread
      obtain rfl := modify_eq_ok.mp hmod
      refine ⟨some (.ofBytes b), rest, by simp [hmask], ?_, rfl⟩
      rw [keyBytes, MaskKey.bytes_ofBytes hlen]
      exact hinput
    · obtain ⟨-, rfl⟩ := pure_eq_ok.mp hbody
      exact ⟨none, _, by simp [hmask], rfl, rfl⟩
  · rintro ⟨rfl, mask, rest, hmask, hinput, rfl⟩
    refine bind_eq_ok.mpr ⟨(), s, refuseIf_eq_ok.mpr ⟨by simp, rfl⟩, ?_⟩
    cases mask with
    | none =>
        rw [if_neg (by rw [← hmask]; simp)]
        simp only [keyBytes, List.nil_append] at hinput
        refine pure_eq_ok.mpr ⟨rfl, ?_⟩
        rw [← hinput]
        rfl
    | some key =>
        rw [if_pos (by rw [← hmask]; rfl)]
        refine bind_eq_ok.mpr ⟨(), _, modify_eq_ok.mpr rfl, bind_eq_ok.mpr ⟨_, _,
          readFull_eq_ok.mpr ⟨key.bytes_length, rest, hinput, rfl⟩, modify_eq_ok.mpr ?_⟩⟩
        rw [MaskKey.ofBytes_bytes]
        rfl

end Parts

/-! ## The header -/

section Header

variable {env : ReadEnv} {s u : ReadSide} {t : FrameType}

/-- Steps 2 to 4 take exactly the headers that may stand there. -/
theorem parseHeader_eq_ok :
    parseHeader env s = .ok t u ↔ ∃ h rest, s.input = h.bytes ++ rest ∧
      Admits env s.readFinal h t ∧ u = s.begin h t rest := by
  constructor
  · intro hok
    obtain ⟨b, _, hread, hok₂⟩ := bind_eq_ok.mp hok
    obtain ⟨hlen, rest₁, hinput, rfl⟩ := readFull_eq_ok.mp hread
    obtain ⟨b0, b1, rfl⟩ := List.length_eq_two.mp hlen
    obtain ⟨_, _, hmod, hok₃⟩ := bind_eq_ok.mp hok₂
    obtain rfl := modify_eq_ok.mp hmod
    obtain ⟨_, _, hrefuse, hok₄⟩ := bind_eq_ok.mp hok₃
    obtain ⟨hreserved, rfl⟩ := refuseIf_eq_ok.mp hrefuse
    obtain ⟨_, _, htype, hok₅⟩ := bind_eq_ok.mp hok₄
    obtain ⟨_, _, hlength, hok₆⟩ := bind_eq_ok.mp hok₅
    obtain ⟨_, _, hmask, hok₇⟩ := bind_eq_ok.mp hok₆
    obtain ⟨rfl, rfl⟩ := pure_eq_ok.mp hok₇
    have hlt : (b1 &&& 0x7f).toNat < 128 := by
      rw [UInt8.toNat_and]
      exact Nat.and_lt_two_pow _ (n := 7) (by decide)
    obtain ⟨htypeOk, hplace, rfl⟩ := checkType_eq_ok.mp htype
    obtain ⟨form, n, rest₂, hfits, hform, hinput₂, rfl⟩ :=
      (readFrameLength_eq_ok hlt rfl).mp hlength
    obtain ⟨hserver, mask, rest, hsome, hinput₃, rfl⟩ := readMask_eq_ok.mp hmask
    have hb1 : FrameHeader.b1 ⟨b0, mask, form, n, hfits⟩ = b1 := by
      rw [FrameHeader.b1, hsome, ← hform]
      exact (b1_eq b1).symm
    refine ⟨⟨b0, mask, form, n, hfits⟩, rest, ?_, ⟨htypeOk, ?_, hsome.trans hserver, ?_⟩, ?_⟩
    · rw [hinput, FrameHeader.bytes, hb1]
      simp only at hinput₂ hinput₃
      simp [hinput₂, hinput₃]
    · exact bne_eq_false_iff_eq.mp hreserved
    · rw [← typeOk_iff]
      simp only [← hform]
      exact hplace
    · cases mask <;> rfl
  · rintro ⟨h, rest, hinput, hadm, rfl⟩
    refine bind_eq_ok.mpr ⟨[h.b0, h.b1], _, readFull_eq_ok.mpr ⟨rfl, _, hinput, rfl⟩, ?_⟩
    refine bind_eq_ok.mpr ⟨(), _, modify_eq_ok.mpr rfl, ?_⟩
    refine bind_eq_ok.mpr ⟨(), _, refuseIf_eq_ok.mpr ⟨?_, rfl⟩, ?_⟩
    · exact bne_eq_false_iff_eq.mpr hadm.reserved
    refine bind_eq_ok.mpr ⟨t, _, checkType_eq_ok.mpr ⟨hadm.type_eq, ?_, rfl⟩, ?_⟩
    · have hplace := (typeOk_iff s.readFinal h t).mpr hadm.place
      rw [← h.b1_and_low] at hplace
      exact hplace
    refine bind_eq_ok.mpr ⟨(), _, (readFrameLength_eq_ok (LengthForm.lowBits_lt h.fits)
      (congrArg Nat.cast h.b1_and_low)).mpr
        ⟨h.form, h.length, _, h.fits, rfl, List.append_assoc _ _ _, rfl⟩, ?_⟩
    refine bind_eq_ok.mpr ⟨(), _, readMask_eq_ok.mpr ⟨?_, h.mask, rest, ?_, rfl, rfl⟩, ?_⟩
    · exact h.b1_and_maskBit.trans hadm.mask
    · exact h.b1_and_maskBit.symm
    · refine pure_eq_ok.mpr ⟨rfl, ?_⟩
      rcases h with ⟨b0, mask, form, n, hfits⟩
      cases mask <;> rfl

end Header

/-! ## The frame -/

/-- Step 5 lets a message of this length pass. -/
def WithinLimit (env : ReadEnv) (readLength : ℤ) : Prop :=
  env.readLimit ≤ 0 ∨ readLength ≤ env.readLimit

/-- Step 7 returns no error: not for a close frame, else as the handler decides. -/
def ControlOk (env : ReadEnv) (left : ℕ) (payload : List UInt8) : FrameType → Prop
  | .ping => env.pingOk left payload = true
  | .pong => env.pongOk left payload = true
  | _ => False

/-- The call of step 7. -/
def controlCall (payload : List UInt8) : FrameType → ControlCall
  | .ping => .handlePing payload
  | .pong => .handlePong payload
  | _ => .writeClose (if 2 ≤ payload.length then payload.take 2 else [])

/-- The read side behind the header of a data frame. -/
def ReadSide.beginData (s : ReadSide) (h : FrameHeader) (t : FrameType) (rest : List UInt8) :
    ReadSide :=
  { s.begin h t rest with readLength := int64 (s.readLength + int64 h.length) }

/-- The read side behind a control frame. -/
def ReadSide.passControl (s : ReadSide) (f : Frame) (rest : List UInt8) : ReadSide :=
  { s.begin f.header f.frameType rest with
    readRemaining := 0
    calls := s.calls ++ [controlCall f.payload f.frameType] }

section Frame

variable {env : ReadEnv} {s u : ReadSide} {t : FrameType}

theorem begin_calls (h : FrameHeader) (rest : List UInt8) : (s.begin h t rest).calls = s.calls :=
  s.withMask_calls h.mask

theorem begin_readLength (h : FrameHeader) (rest : List UInt8) :
    (s.begin h t rest).readLength = s.readLength :=
  s.withMask_readLength h.mask

theorem enforceLimit_eq_ok {x : Unit} : enforceLimit env s = .ok x u ↔
    WithinLimit env (int64 (s.readLength + s.readRemaining)) ∧
      u = { s with readLength := int64 (s.readLength + s.readRemaining) } := by
  constructor
  · intro h
    obtain ⟨_, _, hmod, hrest⟩ := bind_eq_ok.mp h
    obtain rfl := modify_eq_ok.mp hmod
    obtain ⟨_, _, hget, hrest⟩ := bind_eq_ok.mp hrest
    obtain ⟨rfl, rfl⟩ := get_eq_ok.mp hget
    split_ifs at hrest with hlimit
    · obtain ⟨_, _, _, hthrow⟩ := bind_eq_ok.mp hrest
      exact absurd hthrow throw_ne_ok
    · obtain ⟨-, rfl⟩ := pure_eq_ok.mp hrest
      have hle : ¬(0 < env.readLimit ∧ env.readLimit < int64 (s.readLength + s.readRemaining)) :=
        hlimit
      exact ⟨by simp only [WithinLimit]; omega, rfl⟩
  · rintro ⟨hlimit, rfl⟩
    refine bind_eq_ok.mpr ⟨(), _, modify_eq_ok.mpr rfl, bind_eq_ok.mpr ⟨_, _, rfl, ?_⟩⟩
    have hle : ¬(0 < env.readLimit ∧ env.readLimit < int64 (s.readLength + s.readRemaining)) := by
      simp only [WithinLimit] at hlimit
      omega
    rw [if_neg hle]
    rfl

/-- Steps 5 to 7 on a data frame: only the limit is checked. -/
theorem parseFrame_data_iff (ht : isControl t = false) :
    parseFrame env s = .ok t u ↔ ∃ h rest, s.input = h.bytes ++ rest ∧
      Admits env s.readFinal h t ∧ WithinLimit env (int64 (s.readLength + int64 h.length)) ∧
        u = s.beginData h t rest := by
  constructor
  · intro hok
    obtain ⟨v, _, hheader, hrest⟩ := bind_eq_ok.mp hok
    obtain ⟨h, rest, hinput, hadm, rfl⟩ := parseHeader_eq_ok.mp hheader
    split_ifs at hrest with hv
    · -- a control frame returns its own type
      obtain ⟨_, _, _, hrest⟩ := bind_eq_ok.mp hrest
      obtain ⟨_, _, _, hrest⟩ := bind_eq_ok.mp hrest
      obtain ⟨rfl, -⟩ := pure_eq_ok.mp hrest
      rw [ht] at hv
      exact absurd hv (by simp)
    · obtain ⟨_, _, hlimit, hrest⟩ := bind_eq_ok.mp hrest
      obtain ⟨rfl, rfl⟩ := pure_eq_ok.mp hrest
      obtain ⟨hwithin, rfl⟩ := enforceLimit_eq_ok.mp hlimit
      rw [begin_readLength] at hwithin ⊢
      exact ⟨h, rest, hinput, hadm, hwithin, rfl⟩
  · rintro ⟨h, rest, hinput, hadm, hwithin, rfl⟩
    refine bind_eq_ok.mpr ⟨t, _, parseHeader_eq_ok.mpr
      ⟨h, rest, hinput, hadm, rfl⟩, ?_⟩
    rw [if_neg (by rw [ht]; simp)]
    refine bind_eq_ok.mpr ⟨(), _, enforceLimit_eq_ok.mpr ⟨?_, rfl⟩, pure_eq_ok.mpr ⟨rfl, ?_⟩⟩
    · rw [begin_readLength]
      exact hwithin
    · rw [begin_readLength]
      rfl

/-- Only a server unmasks, and only the frames for a server are masked. -/
theorem unmask_eq {h : FrameHeader} (hmask : h.mask.isSome = env.isServer) (rest b : List UInt8) :
    (if env.isServer then (maskBytes (s.begin h t rest).readMaskKey 0 b).1 else b) =
      maskedWith h.mask b := by
  rcases h with ⟨b0, mask, form, n, hfits⟩
  cases mask with
  | none => rw [← hmask]; rfl
  | some key => rw [← hmask]; rfl

theorem int64_byte {h : FrameHeader} (hform : h.form = .byte) : int64 h.length = h.length := by
  have hfits := h.fits
  rw [hform] at hfits
  simp only [LengthForm.Fits] at hfits
  exact int64_of_lt (by omega)

theorem readPayload_eq_ok {h : FrameHeader} {payload rest : List UInt8} (hform : h.form = .byte)
    (hmask : h.mask.isSome = env.isServer) :
    readPayload env (s.begin h t rest) = .ok payload u ↔ payload.length = h.length ∧
      ∃ rest', rest = maskedWith h.mask payload ++ rest' ∧
        u = { s.begin h t rest' with readRemaining := 0 } := by
  have hremaining : ∀ r, (s.begin h t r).readRemaining = h.length := fun _ => int64_byte hform
  by_cases hzero : h.length = 0
  · have hclear : ∀ v : ReadSide, v.readRemaining = 0 → v = { v with readRemaining := 0 } := by
      rintro ⟨⟩ rfl
      rfl
    have hself := hclear (s.begin h t rest) (by rw [hremaining, hzero]; rfl)
    have hrun : readPayload env (s.begin h t rest) = .ok [] (s.begin h t rest) := by
      refine bind_eq_ok.mpr ⟨_, _, rfl, ?_⟩
      rw [if_neg (by rw [hremaining]; omega)]
      rfl
    rw [hrun, EStateM.Result.ok.injEq, hzero, List.length_eq_zero_iff]
    constructor
    · rintro ⟨rfl, rfl⟩
      refine ⟨rfl, rest, ?_, hself⟩
      cases h.mask <;> rfl
    · rintro ⟨rfl, rest', hrest, rfl⟩
      have hnil : maskedWith h.mask [] = [] := by cases h.mask <;> rfl
      rw [hnil, List.nil_append] at hrest
      rw [← hrest]
      exact ⟨rfl, hself⟩
  · constructor
    · intro hok
      obtain ⟨v, w, hget, hbody⟩ := bind_eq_ok.mp hok
      obtain ⟨rfl, rfl⟩ := get_eq_ok.mp hget
      rw [if_pos (by rw [hremaining]; omega)] at hbody
      obtain ⟨_, _, hmod, hbody⟩ := bind_eq_ok.mp hbody
      obtain rfl := modify_eq_ok.mp hmod
      obtain ⟨b, _, hread, hret⟩ := bind_eq_ok.mp hbody
      obtain ⟨hb, rest', hinput, rfl⟩ := readFull_eq_ok.mp hread
      obtain ⟨rfl, rfl⟩ := pure_eq_ok.mp hret
      rw [unmask_eq hmask, maskedWith_length, maskedWith_maskedWith]
      refine ⟨?_, rest', hinput, rfl⟩
      rw [hb, hremaining, Int.toNat_natCast]
    · rintro ⟨hpayload, rest', rfl, rfl⟩
      refine bind_eq_ok.mpr ⟨_, _, rfl, ?_⟩
      rw [if_pos (by rw [hremaining]; omega)]
      refine bind_eq_ok.mpr ⟨(), _, modify_eq_ok.mpr rfl, bind_eq_ok.mpr ⟨_, _,
        readFull_eq_ok.mpr ⟨?_, rest', rfl, rfl⟩, pure_eq_ok.mpr ⟨?_, rfl⟩⟩⟩
      · rw [hremaining, Int.toNat_natCast, maskedWith_length, hpayload]
      · rw [unmask_eq hmask, maskedWith_maskedWith]

theorem handleControl_eq_ok {payload : List UInt8} {x : Unit} (ht : isControl t = true) :
    handleControl env t payload s = .ok x u ↔ ControlOk env s.input.length payload t ∧
      u = { s with calls := s.calls ++ [controlCall payload t] } := by
  cases t with
  | continuation | text | binary => exact absurd ht (by simp [isControl])
  | close =>
      constructor
      · intro hok
        obtain ⟨_, _, _, hbody⟩ := bind_eq_ok.mp hok
        obtain ⟨_, _, _, hthrow⟩ := bind_eq_ok.mp hbody
        exact absurd hthrow throw_ne_ok
      · exact fun h => h.1.elim
  | ping | pong =>
      constructor
      · intro hok
        obtain ⟨_, _, hget, hbody⟩ := bind_eq_ok.mp hok
        obtain ⟨rfl, rfl⟩ := get_eq_ok.mp hget
        obtain ⟨_, _, hcall, hbody⟩ := bind_eq_ok.mp hbody
        obtain rfl := modify_eq_ok.mp hcall
        split_ifs at hbody with hhandled
        · obtain ⟨-, rfl⟩ := pure_eq_ok.mp hbody
          exact ⟨hhandled, rfl⟩
        · exact absurd hbody throw_ne_ok
      · rintro ⟨hhandled, rfl⟩
        refine bind_eq_ok.mpr ⟨_, _, rfl, bind_eq_ok.mpr ⟨(), _, modify_eq_ok.mpr rfl, ?_⟩⟩
        simp only [ControlOk] at hhandled
        rw [if_pos hhandled]
        rfl

theorem Admits.byte {readFinal : Bool} {h : FrameHeader} (hadm : Admits env readFinal h t)
    (ht : isControl t = true) : h.form = .byte := by
  have hplace := hadm.place
  cases t with
  | continuation | text | binary => exact absurd ht (by simp [isControl])
  | close | ping | pong => exact hplace.1

/-- Steps 6 and 7 on a control frame. -/
theorem parseFrame_control_iff (ht : isControl t = true) :
    parseFrame env s = .ok t u ↔ ∃ (f : Frame) (rest : List UInt8), s.input = f.bytes ++ rest ∧
      f.frameType = t ∧ Admits env s.readFinal f.header t ∧
        ControlOk env rest.length f.payload t ∧ u = s.passControl f rest := by
  constructor
  · intro hok
    obtain ⟨v, _, hheader, hrest⟩ := bind_eq_ok.mp hok
    obtain ⟨h, rest, hinput, hadm, rfl⟩ := parseHeader_eq_ok.mp hheader
    split_ifs at hrest with hv
    · obtain ⟨payload, _, hpayload, hrest⟩ := bind_eq_ok.mp hrest
      obtain ⟨_, _, hcontrol, hrest⟩ := bind_eq_ok.mp hrest
      obtain ⟨rfl, rfl⟩ := pure_eq_ok.mp hrest
      have hform := hadm.byte hv
      obtain ⟨hlen, rest', rfl, rfl⟩ := (readPayload_eq_ok hform hadm.mask).mp hpayload
      obtain ⟨hhandled, rfl⟩ := (handleControl_eq_ok ht).mp hcontrol
      have hlength : payload.length = (int64 h.length).toNat := by
        rw [int64_byte hform, Int.toNat_natCast, hlen]
      refine ⟨⟨h, t, payload, hadm.type_eq, hlength⟩, rest', ?_, rfl, hadm, hhandled, ?_⟩
      · rw [hinput, Frame.bytes, List.append_assoc]
      · rw [begin_calls]
        rfl
    · obtain ⟨_, _, _, hrest⟩ := bind_eq_ok.mp hrest
      obtain ⟨rfl, -⟩ := pure_eq_ok.mp hrest
      exact absurd ht hv
  · rintro ⟨f, rest, hinput, rfl, hadm, hhandled, rfl⟩
    have hform := hadm.byte ht
    have hlength := f.payload_length
    rw [int64_byte hform, Int.toNat_natCast] at hlength
    rw [Frame.bytes, List.append_assoc] at hinput
    refine bind_eq_ok.mpr ⟨_, _, parseHeader_eq_ok.mpr ⟨_, _, hinput, hadm, rfl⟩, ?_⟩
    rw [if_pos ht]
    refine bind_eq_ok.mpr ⟨f.payload, _, (readPayload_eq_ok hform hadm.mask).mpr
      ⟨hlength, rest, rfl, rfl⟩, ?_⟩
    refine bind_eq_ok.mpr ⟨(), _, (handleControl_eq_ok ht).mpr ⟨hhandled, rfl⟩,
      pure_eq_ok.mpr ⟨rfl, ?_⟩⟩
    rw [begin_calls]
    rfl

/-- Behind the last byte of a frame there is nothing to skip. -/
theorem advanceFrame_of_le (hskip : s.readRemaining ≤ 0) :
    advanceFrame env s = parseFrame env s := by
  have hrun : skipFrame env s = .ok () s := by
    show (if 0 < s.readRemaining then discard env s.readRemaining.toNat else pure ()) s = _
    rw [if_neg (by omega)]
    rfl
  simp only [advanceFrame, bind, EStateM.bind, hrun]

theorem discard_le {k : ℕ} {x : Unit} (h : discard env k s = .ok x u) :
    u.input.length ≤ s.input.length := by
  simp only [discard, ReadEnv.readFullLoop_eq] at h
  by_cases hk : k ≤ s.input.length
  · simp only [if_pos hk, EStateM.Result.ok.injEq] at h
    rw [← h.2]
    simp only [List.length_drop]
    omega
  · simp only [if_neg hk] at h
    exact absurd h (by simp)

/-- A frame is taken from the front of what is still to come. -/
theorem advanceFrame_lt (h : advanceFrame env s = .ok t u) :
    u.input.length < s.input.length := by
  obtain ⟨_, v, hskip, hparse⟩ := bind_eq_ok.mp h
  have hle : v.input.length ≤ s.input.length := by
    obtain ⟨_, _, hget, hbody⟩ := bind_eq_ok.mp hskip
    obtain ⟨rfl, rfl⟩ := get_eq_ok.mp hget
    split_ifs at hbody
    · exact discard_le hbody
    · obtain ⟨-, rfl⟩ := pure_eq_ok.mp hbody
      exact Nat.le_refl _
  cases ht : isControl t with
  | false =>
      obtain ⟨hd, rest, hinput, -, -, rfl⟩ := (parseFrame_data_iff ht).mp hparse
      have hrest : (v.beginData hd t rest).input = rest := rfl
      have hlen := congrArg List.length hinput
      simp only [FrameHeader.bytes, List.length_append, List.length_cons] at hlen
      rw [hrest]
      omega
  | true =>
      obtain ⟨f, rest, hinput, -, -, -, rfl⟩ := (parseFrame_control_iff ht).mp hparse
      have hrest : (v.passControl f rest).input = rest := rfl
      have hlen := f.two_le_length_bytes
      rw [hinput, List.length_append] at hle
      rw [hrest]
      omega

end Frame

/-! ## What every step leaves alone -/

/-- The read side after a computation, whether it succeeded or not. -/
def stateAfter {α : Type} : ReadResult α → ReadSide
  | .ok _ s => s
  | .error _ s => s

/-- Bytes are only taken, and what belongs to `NextReader` and `Read` stays. -/
structure Steady (s u : ReadSide) : Prop where
  input_le : u.input.length ≤ s.input.length
  readErr : u.readErr = s.readErr
  readSeq : u.readSeq = s.readSeq
  readErrCount : u.readErrCount = s.readErrCount

theorem Steady.refl (s : ReadSide) : Steady s s := ⟨Nat.le_refl _, rfl, rfl, rfl⟩

theorem Steady.trans {s t u : ReadSide} (h : Steady s t) (h' : Steady t u) : Steady s u :=
  ⟨h'.input_le.trans h.input_le, h'.readErr.trans h.readErr, h'.readSeq.trans h.readSeq,
    h'.readErrCount.trans h.readErrCount⟩

/-- A computation that makes a steady step from every state. -/
def IsSteady {α : Type} (x : ReadM α) : Prop := ∀ s, Steady s (stateAfter (x s))

namespace IsSteady

variable {α β : Type}

theorem bind {x : ReadM α} {f : α → ReadM β} (hx : IsSteady x) (hf : ∀ a, IsSteady (f a)) :
    IsSteady (x >>= f) := by
  intro s
  have hs := hx s
  simp only [Bind.bind, EStateM.bind]
  cases hrun : x s with
  | ok a t =>
      rw [hrun] at hs
      exact hs.trans (hf a t)
  | error e t =>
      rw [hrun] at hs
      exact hs

theorem pure (a : α) : IsSteady (Pure.pure a : ReadM α) := fun s => Steady.refl s

theorem get : IsSteady (MonadState.get : ReadM ReadSide) := fun s => Steady.refl s

theorem throw (e : ReadErr) : IsSteady (MonadExcept.throw e : ReadM α) := fun s => Steady.refl s

theorem modify {f : ReadSide → ReadSide} (hf : ∀ s, Steady s (f s)) :
    IsSteady (modify f : ReadM PUnit) := hf

theorem ite {c : Prop} [Decidable c] {x y : ReadM α} (hx : IsSteady x) (hy : IsSteady y) :
    IsSteady (if c then x else y) := by
  split
  · exact hx
  · exact hy

theorem call (c : ControlCall) : IsSteady (call c) :=
  modify fun _ => ⟨Nat.le_refl _, rfl, rfl, rfl⟩

theorem refuseIf (bad : Bool) (message : String) : IsSteady (refuseIf bad message) :=
  ite ((call _).bind fun _ => throw _) (pure ())

variable (env : ReadEnv)

theorem readFull (k : ℕ) : IsSteady (readFull env k) := by
  intro s
  simp only [WebSocket.readFull, ReadEnv.readFullLoop_eq]
  by_cases hk : k ≤ s.input.length
  · simp only [if_pos hk, stateAfter]
    exact ⟨by simp, rfl, rfl, rfl⟩
  · simp only [if_neg hk, stateAfter]
    exact ⟨by simp, rfl, rfl, rfl⟩

theorem discard (k : ℕ) : IsSteady (discard env k) := by
  intro s
  simp only [WebSocket.discard, ReadEnv.readFullLoop_eq]
  by_cases hk : k ≤ s.input.length
  · simp only [if_pos hk, stateAfter]
    exact ⟨by simp, rfl, rfl, rfl⟩
  · simp only [if_neg hk, stateAfter]
    exact ⟨by simp, rfl, rfl, rfl⟩

theorem checkType (opcode : UInt8) (final : Bool) : IsSteady (checkType opcode final) := by
  have hstep : ∀ s : ReadSide, Steady s { s with readFinal := final } :=
    fun _ => ⟨Nat.le_refl _, rfl, rfl, rfl⟩
  have hcontrol : ∀ s t, IsSteady (checkType.control final s t) := fun s t =>
    (refuseIf _ _).bind fun _ => (refuseIf _ _).bind fun _ => pure t
  have hdata : ∀ s t, IsSteady (checkType.data final s t) := fun s t =>
    (refuseIf _ _).bind fun _ => (modify hstep).bind fun _ => pure t
  refine get.bind fun s => ?_
  split
  · exact hcontrol s _
  · exact hcontrol s _
  · exact hcontrol s _
  · exact hdata s _
  · exact hdata s _
  · exact (refuseIf _ _).bind fun _ => (modify hstep).bind fun _ => pure _
  · exact ((call _).bind fun _ => throw _).bind fun _ => pure _

theorem modify_bind {f : ReadSide → ReadSide} {x : PUnit → ReadM β} (hx : ∀ a, IsSteady (x a))
    (hf : ∀ s, Steady s (f s)) :
    IsSteady ((MonadState.modifyGet fun s => (PUnit.unit, f s) : ReadM PUnit) >>= x) :=
  (modify hf).bind hx

theorem advanceFrame : IsSteady (advanceFrame env) := by
  have hparseHeader : IsSteady (parseHeader env) := by
    refine (readFull env 2).bind fun b => ?_
    refine modify_bind (fun _ => ?_) fun _ => ⟨Nat.le_refl _, rfl, rfl, rfl⟩
    refine (refuseIf _ _).bind fun _ => (checkType _ _).bind fun t => ?_
    refine IsSteady.bind (x := readFrameLength env) ?_ fun _ => ?_
    · refine get.bind fun s => ite ?_ (ite ?_ (pure ()))
      · exact (readFull env 2).bind fun _ => modify fun _ => ⟨Nat.le_refl _, rfl, rfl, rfl⟩
      · exact (readFull env 8).bind fun _ => modify fun _ => ⟨Nat.le_refl _, rfl, rfl, rfl⟩
    · refine IsSteady.bind (x := readMask env _) ?_ fun _ => pure t
      refine (refuseIf _ _).bind fun _ => ite ?_ (pure ())
      refine modify_bind (fun _ => ?_) fun _ => ⟨Nat.le_refl _, rfl, rfl, rfl⟩
      exact (readFull env 4).bind fun _ => modify fun _ => ⟨Nat.le_refl _, rfl, rfl, rfl⟩
  have hpayload : IsSteady (readPayload env) := by
    refine get.bind fun s => ite ?_ (pure [])
    refine modify_bind (fun _ => ?_) fun _ => ⟨Nat.le_refl _, rfl, rfl, rfl⟩
    exact (readFull env _).bind fun _ => pure _
  have hcontrol : ∀ t payload, IsSteady (handleControl env t payload) := by
    intro t payload
    refine get.bind fun s => ?_
    cases t with
    | continuation | text | binary => exact pure ()
    | ping | pong => exact (call _).bind fun _ => ite (pure ()) (throw _)
    | close => exact (call _).bind fun _ => throw _
  have hlimit : IsSteady (enforceLimit env) := by
    refine modify_bind (fun _ => get.bind fun s => ?_) fun _ => ⟨Nat.le_refl _, rfl, rfl, rfl⟩
    exact ite ((call _).bind fun _ => throw _) (pure ())
  refine IsSteady.bind (x := skipFrame env) ?_ fun _ => ?_
  · exact get.bind fun s => ite (discard env _) (pure ())
  · refine hparseHeader.bind fun t => ite ?_ (hlimit.bind fun _ => pure t)
    exact hpayload.bind fun _ => (hcontrol t _).bind fun _ => pure t

end IsSteady

end Skytime.WebSocket
