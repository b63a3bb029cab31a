/-
# Skytime.Process.BigEndian — numbers as bytes, the most significant byte first.

A number takes a fixed count of bytes; what does not fit is cut off at the top. Every list of bytes
is the encoding of exactly one number of its length.
-/
import Mathlib.Algebra.Order.Group.Nat
import Mathlib.Algebra.Group.Nat.Even
import Mathlib.Tactic.Ring

namespace Skytime.Process

/-- The number that a list of bytes stands for. -/
def bigEndian (bs : List UInt8) : ℕ := bs.foldl (fun v b => v * 256 + b.toNat) 0

/-- The last `n` bytes of a number. -/
def putBigEndian : ℕ → ℕ → List UInt8
  | 0, _ => []
  | n + 1, v => UInt8.ofNat (v / 256 ^ n) :: putBigEndian n v

@[simp] theorem putBigEndian_length (n v : ℕ) : (putBigEndian n v).length = n := by
  induction n with
  | zero => rfl
  | succ n ih => rw [putBigEndian, List.length_cons, ih]

theorem foldl_bigEndian (v : ℕ) (bs : List UInt8) :
    bs.foldl (fun v b => v * 256 + b.toNat) v = v * 256 ^ bs.length + bigEndian bs := by
  induction bs generalizing v with
  | nil => simp [bigEndian]
  | cons b bs ih =>
      have h0 : bigEndian (b :: bs) = b.toNat * 256 ^ bs.length + bigEndian bs := by
        show bs.foldl _ (0 * 256 + b.toNat) = _
        rw [ih, Nat.zero_mul, Nat.zero_add]
      rw [List.foldl_cons, ih, h0, List.length_cons, pow_succ]
      ring

theorem bigEndian_cons (b : UInt8) (bs : List UInt8) :
    bigEndian (b :: bs) = b.toNat * 256 ^ bs.length + bigEndian bs := by
  show bs.foldl _ (0 * 256 + b.toNat) = _
  rw [foldl_bigEndian, Nat.zero_mul, Nat.zero_add]

theorem bigEndian_lt (bs : List UInt8) : bigEndian bs < 256 ^ bs.length := by
  induction bs with
  | nil => exact Nat.one_pos
  | cons b bs ih =>
      have hb : b.toNat < 256 := b.toNat_lt
      have hle : (b.toNat + 1) * 256 ^ bs.length ≤ 256 * 256 ^ bs.length :=
        Nat.mul_le_mul_right _ (by omega)
      rw [bigEndian_cons, List.length_cons, pow_succ, Nat.mul_comm _ 256]
      rw [Nat.add_mul, Nat.one_mul] at hle
      omega

/-- Reading what was put gives the number back, up to what was cut off. -/
theorem bigEndian_putBigEndian (n v : ℕ) : bigEndian (putBigEndian n v) = v % 256 ^ n := by
  induction n with
  | zero => rw [pow_zero, Nat.mod_one]; rfl
  | succ n ih =>
      have hbyte : (UInt8.ofNat (v / 256 ^ n)).toNat = v / 256 ^ n % 256 := UInt8.toNat_ofNat'
      rw [putBigEndian, bigEndian_cons, ih, putBigEndian_length, hbyte, pow_succ, Nat.mod_mul]
      ring

theorem bigEndian_putBigEndian_of_lt {n v : ℕ} (h : v < 256 ^ n) :
    bigEndian (putBigEndian n v) = v := by
  rw [bigEndian_putBigEndian, Nat.mod_eq_of_lt h]

/-- Putting takes no notice of what is above its bytes. -/
theorem putBigEndian_add_mul (n v w : ℕ) : putBigEndian n (w * 256 ^ n + v) = putBigEndian n v := by
  induction n generalizing w with
  | zero => rfl
  | succ n ih =>
      have hpos : 0 < 256 ^ n := Nat.pow_pos (by decide)
      have hsplit : w * 256 ^ (n + 1) + v = (w * 256) * 256 ^ n + v := by rw [pow_succ]; ring
      have hdiv : (w * 256 * 256 ^ n + v) / 256 ^ n = 256 * w + v / 256 ^ n := by
        rw [Nat.add_comm, Nat.add_mul_div_right _ _ hpos, Nat.add_comm, Nat.mul_comm w]
      have hbyte : UInt8.ofNat (256 * w + v / 256 ^ n) = UInt8.ofNat (v / 256 ^ n) := by
        rw [← UInt8.toNat_inj, UInt8.toNat_ofNat', UInt8.toNat_ofNat']
        omega
      rw [hsplit, putBigEndian, putBigEndian, ih, hdiv, hbyte]

/-- Putting what was read gives the bytes back. -/
theorem putBigEndian_bigEndian (bs : List UInt8) : putBigEndian bs.length (bigEndian bs) = bs := by
  induction bs with
  | nil => rfl
  | cons b bs ih =>
      have hpos : 0 < 256 ^ bs.length := Nat.pow_pos (by decide)
      have hdiv : (b.toNat * 256 ^ bs.length + bigEndian bs) / 256 ^ bs.length = b.toNat := by
        rw [Nat.add_comm, Nat.add_mul_div_right _ _ hpos, Nat.div_eq_of_lt (bigEndian_lt bs),
          Nat.zero_add]
      rw [bigEndian_cons, List.length_cons, putBigEndian, hdiv, putBigEndian_add_mul, ih,
        UInt8.ofNat_toNat]

end Skytime.Process
