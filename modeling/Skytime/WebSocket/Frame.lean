/-
# Skytime.WebSocket.Frame — the frames of the websocket package on the wire.

A frame is a header and a payload. The header has two bytes, the length in one of three forms and,
from a client, the key that the payload is masked with. The writer of the package always takes the
shortest form, the reader accepts every form. The length is read into an `int64`, so one of `2 ^ 63`
or more becomes negative, and the reader then takes no payload for the frame.
-/
import Mathlib.Data.List.Basic
import Skytime.Process.BigEndian

namespace Skytime.WebSocket

open Process

/-! ## Types, bits and keys -/

/-- The message types and the type of a frame that goes on with a message. -/
inductive FrameType where
  | continuation
  | text
  | binary
  | close
  | ping
  | pong
  deriving DecidableEq, Repr

/-- `isControl`. -/
def isControl : FrameType → Bool
  | .close | .ping | .pong => true
  | _ => false

/-- `isData`. -/
def isData : FrameType → Bool
  | .text | .binary => true
  | _ => false

/-- The number of a frame type. -/
def FrameType.opcode : FrameType → UInt8
  | .continuation => 0
  | .text => 1
  | .binary => 2
  | .close => 8
  | .ping => 9
  | .pong => 10

/-- The cases of the `switch frameType` in `advanceFrame`. -/
def FrameType.ofOpcode (b : UInt8) : Option FrameType :=
  if b = 8 then some .close
  else if b = 9 then some .ping
  else if b = 10 then some .pong
  else if b = 1 then some .text
  else if b = 2 then some .binary
  else if b = 0 then some .continuation
  else none

theorem FrameType.ofOpcode_opcode (t : FrameType) : ofOpcode t.opcode = some t := by
  cases t <;> rfl

theorem FrameType.ofOpcode_eq_some_iff {b : UInt8} {t : FrameType} :
    ofOpcode b = some t ↔ b = t.opcode := by
  constructor
  · intro h
    simp only [ofOpcode] at h
    split_ifs at h with h8 h9 h10 h1 h2 h0 <;> cases h <;> assumption
  · rintro rfl
    exact ofOpcode_opcode t

/-- `finalBit` and `maskBit`. -/
def finalBit : UInt8 := (1 : UInt8) <<< 7

def maskBit : UInt8 := (1 : UInt8) <<< 7

/-- `maxControlFramePayloadSize`. -/
def maxControlFramePayloadSize : ℕ := 125

/-- `maxFrameHeaderSize`. -/
def maxFrameHeaderSize : ℕ := 2 + 8 + 4

/-- The value of an `int64` after an operation that may overflow. -/
def int64 (x : ℤ) : ℤ := (x + 2 ^ 63) % 2 ^ 64 - 2 ^ 63

theorem int64_of_lt {n : ℕ} (h : n < 2 ^ 63) : int64 n = n := by
  simp only [int64]
  omega

theorem int64_toNat_of_le {n : ℕ} (h : 2 ^ 63 ≤ n) (hlt : n < 2 ^ 64) : (int64 n).toNat = 0 := by
  simp only [int64]
  omega

/-- `[4]byte`. -/
abbrev MaskKey := Fin 4 → UInt8

/-- `key[pos&3]`. -/
def MaskKey.at (key : MaskKey) (pos : ℕ) : UInt8 := key ⟨pos % 4, Nat.mod_lt _ (by decide)⟩

/-- `key[:]`. -/
def MaskKey.bytes (key : MaskKey) : List UInt8 := [key 0, key 1, key 2, key 3]

/-- `readFull(c.readMaskKey[:])`, on the four bytes it reads. -/
def MaskKey.ofBytes (b : List UInt8) : MaskKey := fun i => b.getD i 0

@[simp] theorem MaskKey.bytes_length (key : MaskKey) : key.bytes.length = 4 := rfl

theorem MaskKey.ofBytes_bytes (key : MaskKey) : ofBytes key.bytes = key := by
  funext i
  match i with
  | 0 | 1 | 2 | 3 => rfl

theorem MaskKey.bytes_ofBytes {b : List UInt8} (h : b.length = 4) : (ofBytes b).bytes = b := by
  match b, h with
  | [_, _, _, _], _ => rfl

/-- `maskBytes`: the masked bytes, and the position in the key behind them. -/
def maskBytes (key : MaskKey) : ℕ → List UInt8 → List UInt8 × ℕ
  | pos, [] => ([], pos &&& 3)
  | pos, b :: bs =>
    let r := maskBytes key (pos + 1) bs
    ((b ^^^ key.at pos) :: r.1, r.2)

section Mask

variable (key : MaskKey)

theorem MaskKey.at_add_mod (pos n : ℕ) : key.at (pos % 4 + n) = key.at (pos + n) := by
  simp only [MaskKey.at, Nat.mod_add_mod]

@[simp] theorem maskBytes_length (pos : ℕ) (b : List UInt8) :
    (maskBytes key pos b).1.length = b.length := by
  induction b generalizing pos with
  | nil => rfl
  | cons x xs ih => simp only [maskBytes, List.length_cons, ih]

theorem maskBytes_pos (pos : ℕ) (b : List UInt8) :
    (maskBytes key pos b).2 = (pos + b.length) % 4 := by
  induction b generalizing pos with
  | nil => exact Nat.and_two_pow_sub_one_eq_mod pos 2
  | cons x xs ih =>
      show (maskBytes key (pos + 1) xs).2 = _
      rw [ih, List.length_cons, Nat.add_assoc, Nat.add_comm 1]

/-- The key starts again every four bytes. -/
theorem maskBytes_mod (pos : ℕ) (b : List UInt8) :
    (maskBytes key (pos % 4) b).1 = (maskBytes key pos b).1 := by
  suffices h : ∀ n, (maskBytes key (pos % 4 + n) b).1 = (maskBytes key (pos + n) b).1 from h 0
  induction b with
  | nil => exact fun _ => rfl
  | cons x xs ih =>
      intro n
      simp only [maskBytes, MaskKey.at_add_mod, Nat.add_assoc, ih]

/-- Masking goes on where it stopped, so it may be done piece by piece. -/
theorem maskBytes_append (pos : ℕ) (a b : List UInt8) :
    (maskBytes key pos (a ++ b)).1 =
      (maskBytes key pos a).1 ++ (maskBytes key (maskBytes key pos a).2 b).1 := by
  rw [maskBytes_pos, maskBytes_mod]
  induction a generalizing pos with
  | nil => rfl
  | cons x xs ih =>
      simp only [List.cons_append, maskBytes, ih, List.length_cons, List.cons.injEq, true_and]
      rw [Nat.add_assoc, Nat.add_comm 1]

/-- Masking twice with one key gives the bytes back. -/
theorem maskBytes_maskBytes (pos : ℕ) (b : List UInt8) :
    (maskBytes key pos (maskBytes key pos b).1).1 = b := by
  induction b generalizing pos with
  | nil => rfl
  | cons x xs ih =>
      simp only [maskBytes, ih, UInt8.xor_assoc, UInt8.xor_self, UInt8.xor_zero]

end Mask

/-- The key on the wire. -/
def keyBytes : Option MaskKey → List UInt8
  | none => []
  | some key => key.bytes

/-- The payload on the wire: masked if there is a key. -/
def maskedWith : Option MaskKey → List UInt8 → List UInt8
  | none, b => b
  | some key, b => (maskBytes key 0 b).1

@[simp] theorem maskedWith_length (mask : Option MaskKey) (b : List UInt8) :
    (maskedWith mask b).length = b.length := by
  cases mask with
  | none => rfl
  | some key => exact maskBytes_length key 0 b

theorem maskedWith_maskedWith (mask : Option MaskKey) (b : List UInt8) :
    maskedWith mask (maskedWith mask b) = b := by
  cases mask with
  | none => rfl
  | some key => exact maskBytes_maskBytes key 0 b

/-! ## Headers -/

/-- The forms of the payload length: in the second byte, or in two or eight bytes behind it. -/
inductive LengthForm where
  | byte
  | uint16
  | uint64
  deriving DecidableEq, Repr

namespace LengthForm

/-- The lengths that a form can hold. -/
def Fits : LengthForm → ℕ → Prop
  | byte, n => n ≤ 125
  | uint16, n => n < 2 ^ 16
  | uint64, n => n < 2 ^ 64

/-- The low seven bits of the second byte. -/
def lowBits : LengthForm → ℕ → ℕ
  | byte, n => n
  | uint16, _ => 126
  | uint64, _ => 127

/-- What follows the second byte. -/
def extra : LengthForm → ℕ → List UInt8
  | byte, _ => []
  | uint16, n => putBigEndian 2 n
  | uint64, n => putBigEndian 8 n

/-- The form with the fewest bytes. -/
def shortest (n : ℕ) : LengthForm :=
  if n ≥ 65536 then uint64 else if n > 125 then uint16 else byte

theorem shortest_fits {n : ℕ} (h : n < 2 ^ 64) : (shortest n).Fits n := by
  simp only [shortest]
  split_ifs <;> simp only [Fits] <;> omega

theorem Fits.lt {form : LengthForm} {n : ℕ} (h : form.Fits n) : n < 2 ^ 64 := by
  cases form <;> simp only [Fits] at h <;> omega

theorem lowBits_lt {form : LengthForm} {n : ℕ} (h : form.Fits n) : form.lowBits n < 128 := by
  cases form <;> simp only [Fits, lowBits] at * <;> omega

end LengthForm

/-- A header: its first byte, the key if the payload is masked, and the length with its form. -/
structure FrameHeader where
  b0 : UInt8
  mask : Option MaskKey
  form : LengthForm
  length : ℕ
  fits : form.Fits length

namespace FrameHeader

/-- The second byte. -/
def b1 (h : FrameHeader) : UInt8 :=
  (if h.mask.isSome then maskBit else 0) ||| UInt8.ofNat (h.form.lowBits h.length)

def bytes (h : FrameHeader) : List UInt8 :=
  h.b0 :: h.b1 :: (h.form.extra h.length ++ keyBytes h.mask)

/-- `b[0]&finalBit != 0`. -/
def final (h : FrameHeader) : Bool := h.b0 &&& finalBit != 0

/-- `(b[0] >> 4) & 0x7`. -/
def reserved (h : FrameHeader) : UInt8 := (h.b0 >>> 4) &&& 0x7

/-- The type that `b[0] & 0xf` stands for. -/
def frameType? (h : FrameHeader) : Option FrameType := FrameType.ofOpcode (h.b0 &&& 0xf)

end FrameHeader

/-! ### Reading the second byte -/

theorem b1_mask (masked : Bool) {n : ℕ} (h : n < 128) :
    (((if masked then maskBit else 0) ||| UInt8.ofNat n) &&& maskBit != 0) = masked := by
  have hall : ∀ m : Bool, ∀ n < 128,
      (((if m then maskBit else 0) ||| UInt8.ofNat n) &&& maskBit != 0) = m := by decide
  exact hall masked n h

theorem b1_low (masked : Bool) {n : ℕ} (h : n < 128) :
    (((if masked then maskBit else 0) ||| UInt8.ofNat n) &&& 0x7f).toNat = n := by
  have hall : ∀ m : Bool, ∀ n < 128,
      (((if m then maskBit else 0) ||| UInt8.ofNat n) &&& 0x7f).toNat = n := by decide
  exact hall masked n h

set_option maxRecDepth 4000 in
/-- Every byte is the second byte of a header with these two parts. -/
theorem b1_eq (b : UInt8) :
    b = (if (b &&& maskBit != 0) then maskBit else 0) ||| UInt8.ofNat (b &&& 0x7f).toNat := by
  have h : ∀ n < 256, UInt8.ofNat n = (if (UInt8.ofNat n &&& maskBit != 0) then maskBit else 0) |||
      UInt8.ofNat (UInt8.ofNat n &&& 0x7f).toNat := by decide
  have hb := h b.toNat b.toNat_lt
  rwa [UInt8.ofNat_toNat] at hb

namespace FrameHeader

theorem b1_and_maskBit (h : FrameHeader) : (h.b1 &&& maskBit != 0) = h.mask.isSome :=
  b1_mask h.mask.isSome (LengthForm.lowBits_lt h.fits)

theorem b1_and_low (h : FrameHeader) : (h.b1 &&& 0x7f).toNat = h.form.lowBits h.length :=
  b1_low h.mask.isSome (LengthForm.lowBits_lt h.fits)

end FrameHeader

/-! ## Frames -/

/-- A frame as the reader takes it from the wire: the payload is in the clear, and has the length
that the header announces as an `int64`. -/
structure Frame where
  header : FrameHeader
  frameType : FrameType
  payload : List UInt8
  type_eq : header.frameType? = some frameType
  payload_length : payload.length = (int64 header.length).toNat

namespace Frame

def bytes (f : Frame) : List UInt8 := f.header.bytes ++ maskedWith f.header.mask f.payload

/-- The whole message is in the frames up to this one. -/
def final (f : Frame) : Bool := f.header.final

theorem two_le_length_bytes (f : Frame) : 2 ≤ f.bytes.length := by
  simp only [bytes, FrameHeader.bytes, List.length_append, List.length_cons]
  omega

theorem bytes_ne_nil (f : Frame) : f.bytes ≠ [] :=
  List.ne_nil_of_length_pos (by have := f.two_le_length_bytes; omega)

end Frame

/-- `b0` of `flushFrame`. -/
def firstByte (t : FrameType) (final : Bool) : UInt8 :=
  if final then t.opcode ||| finalBit else t.opcode

theorem firstByte_final (t : FrameType) (final : Bool) :
    (firstByte t final &&& finalBit != 0) = final := by
  cases t <;> cases final <;> rfl

theorem firstByte_reserved (t : FrameType) (final : Bool) :
    (firstByte t final >>> 4) &&& 0x7 = 0 := by
  cases t <;> cases final <;> rfl

theorem firstByte_type (t : FrameType) (final : Bool) :
    FrameType.ofOpcode (firstByte t final &&& 0xf) = some t := by
  cases t <;> cases final <;> rfl

/-- The frame that the package writes for a payload: no reserved bits, the shortest form. -/
def Frame.written (final : Bool) (t : FrameType) (mask : Option MaskKey) (payload : List UInt8)
    (hlt : payload.length < 2 ^ 63) : Frame where
  header := ⟨firstByte t final, mask, .shortest payload.length, payload.length,
    LengthForm.shortest_fits (by omega)⟩
  frameType := t
  payload := payload
  type_eq := firstByte_type t final
  payload_length := by rw [int64_of_lt hlt]; rfl

section Written

variable {final : Bool} {t : FrameType} {mask : Option MaskKey} {payload : List UInt8}
  {hlt : payload.length < 2 ^ 63}

theorem Frame.written_final : (Frame.written final t mask payload hlt).final = final :=
  firstByte_final t final

theorem Frame.written_reserved : (Frame.written final t mask payload hlt).header.reserved = 0 :=
  firstByte_reserved t final

end Written

end Skytime.WebSocket
