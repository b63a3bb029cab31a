/-
# Skytime.Process.Decimal — `strconv.Itoa` and `strconv.Atoi`.

`ParseUint` ends at the first digit that takes the number out of 64 bits and does not look at what
is behind it, so that a long number with any other text behind it is out of range and not a syntax
error.
-/
import Mathlib.Data.Nat.Digits.Defs

namespace Skytime.Process

def digitZero : UInt8 := 48

def plusSign : UInt8 := 43

def minusSign : UInt8 := 45

/-! ## Formatting -/

/-- The decimal digits of a number, the first digit first. -/
def decimal (n : ℕ) : List UInt8 :=
  if n < 10 then [digitZero + UInt8.ofNat n]
  else decimal (n / 10) ++ [digitZero + UInt8.ofNat (n % 10)]

/-- `strconv.Itoa`. -/
def itoa (i : Int64) : List UInt8 :=
  if i < 0 then minusSign :: decimal i.toInt.natAbs else decimal i.toInt.natAbs

/-! ## Parsing -/

/-- The value of a digit. -/
def digitValue (d : UInt8) : Option ℕ :=
  if digitZero ≤ d ∧ d ≤ digitZero + 9 then some (d - digitZero).toNat else none

/-- The loop of `strconv.ParseUint` from the number `n` on: `none` is `ErrSyntax`, and a number that
does not fit in 64 bits `ErrRange`. -/
def parseDigits (n : ℕ) : List UInt8 → Option ℕ
  | [] => some n
  | d :: s =>
    match digitValue d with
    | none => none
    | some v => if 2 ^ 64 ≤ n * 10 + v then some (n * 10 + v) else parseDigits (n * 10 + v) s

/-- `strconv.ParseUint`, of base 10. -/
def parseUint (s : List UInt8) : Option ℕ := if s = [] then none else parseDigits 0 s

/-- The number that `strconv.ParseInt` finds, before it is brought into 64 bits. -/
def parseInt : List UInt8 → Option ℤ
  | [] => none
  | c :: s =>
    if c = plusSign then (parseUint s).map fun n : ℕ => (n : ℤ)
    else if c = minusSign then (parseUint s).map fun n : ℕ => -(n : ℤ)
    else (parseUint (c :: s)).map fun n : ℕ => (n : ℤ)

inductive NumError where
  | syntaxError
  | rangeError
  deriving DecidableEq, Repr

/-- `strconv.Atoi`, with the nearest `int` for a number that is out of range. -/
def atoi (s : List UInt8) : Int64 × Option NumError :=
  match parseInt s with
  | none => (0, some .syntaxError)
  | some n =>
    (Int64.ofIntClamp n, if -2 ^ 63 ≤ n ∧ n < 2 ^ 63 then none else some .rangeError)

/-! ## Reading what was written -/

theorem digitValue_digit {v : ℕ} (h : v < 10) :
    digitValue (digitZero + UInt8.ofNat v) = some v := by
  have hall : ∀ v : Fin 10, digitValue (digitZero + UInt8.ofNat v) = some v.val := by decide
  exact hall ⟨v, h⟩

theorem parseDigits_digit {n v : ℕ} (hv : v < 10) (hn : n * 10 + v < 2 ^ 64) (s : List UInt8) :
    parseDigits n ((digitZero + UInt8.ofNat v) :: s) = parseDigits (n * 10 + v) s := by
  rw [parseDigits, digitValue_digit hv]
  exact if_neg (Nat.not_le.mpr hn)

theorem parseDigits_decimal {n : ℕ} (h : n < 2 ^ 64) (s : List UInt8) :
    parseDigits 0 (decimal n ++ s) = parseDigits n s := by
  fun_induction decimal n generalizing s with
  | case1 n hn =>
      have hdigit := parseDigits_digit (n := 0) hn (by omega) s
      rw [List.singleton_append, hdigit, Nat.zero_mul, Nat.zero_add]
  | case2 n hn ih =>
      have hsum : n / 10 * 10 + n % 10 = n := Nat.div_add_mod' n 10
      rw [List.append_assoc, ih (by omega), List.singleton_append,
        parseDigits_digit (Nat.mod_lt n (by omega)) (by omega), hsum]

theorem decimal_head (n : ℕ) : ∃ v < 10, (decimal n).head? = some (digitZero + UInt8.ofNat v) := by
  fun_induction decimal n with
  | case1 n hn => exact ⟨n, hn, rfl⟩
  | case2 n hn ih =>
      obtain ⟨v, hv, hhead⟩ := ih
      exact ⟨v, hv, by rw [List.head?_append, hhead, Option.some_or]⟩

theorem parseUint_decimal {n : ℕ} (h : n < 2 ^ 64) : parseUint (decimal n) = some n := by
  have hne : decimal n ≠ [] := by
    obtain ⟨v, hv, hhead⟩ := decimal_head n
    intro hnil
    rw [hnil] at hhead
    exact absurd hhead (by simp)
  have hdigits := parseDigits_decimal h []
  rw [List.append_nil] at hdigits
  rw [parseUint, if_neg hne, hdigits, parseDigits]

theorem parseInt_itoa (i : Int64) : parseInt (itoa i) = some i.toInt := by
  have hlow : -2 ^ 63 ≤ i.toInt := i.le_toInt
  have hhigh : i.toInt < 2 ^ 63 := i.toInt_lt
  have hnat : parseUint (decimal i.toInt.natAbs) = some i.toInt.natAbs :=
    parseUint_decimal (by omega)
  unfold itoa
  split
  · rename_i hneg
    have hneg' : i.toInt < 0 := by simpa using Int64.lt_iff_toInt_lt.mp hneg
    rw [parseInt, if_neg (by decide), if_pos rfl, hnat, Option.map_some]
    exact congrArg some (by omega)
  · rename_i hpos
    have hpos' : 0 ≤ i.toInt := by
      rw [Int64.lt_iff_toInt_lt] at hpos
      simpa using hpos
    obtain ⟨v, hv, hhead⟩ := decimal_head i.toInt.natAbs
    obtain ⟨s, hs⟩ := List.head?_eq_some_iff.mp hhead
    have hplain : ∀ v : Fin 10, digitZero + UInt8.ofNat v ≠ plusSign ∧
        digitZero + UInt8.ofNat v ≠ minusSign := by decide
    obtain ⟨hplus, hminus⟩ := hplain ⟨v, hv⟩
    rw [hs] at hnat ⊢
    rw [parseInt, if_neg hplus, if_neg hminus, hnat, Option.map_some]
    exact congrArg some (by omega)

theorem atoi_itoa (i : Int64) : atoi (itoa i) = (i, none) := by
  have hlow : -2 ^ 63 ≤ i.toInt := i.le_toInt
  have hhigh : i.toInt < 2 ^ 63 := i.toInt_lt
  rw [atoi, parseInt_itoa]
  show (Int64.ofIntClamp i.toInt, if -2 ^ 63 ≤ i.toInt ∧ i.toInt < 2 ^ 63 then _ else _) = _
  have hclamp : Int64.ofIntClamp i.toInt = i := by
    have hmax : i.toInt ≤ Int64.maxValue.toInt := by
      show i.toInt ≤ 2 ^ 63 - 1
      omega
    unfold Int64.ofIntClamp
    rw [dif_pos (show Int64.minValue.toInt ≤ i.toInt from hlow), dif_pos hmax]
    apply Int64.toInt_inj.mp
    exact Int64.toInt_ofIntLE
  rw [if_pos ⟨hlow, hhigh⟩, hclamp]

/-- What the text of an integer is made of. -/
theorem mem_itoa {i : Int64} {b : UInt8} (h : b ∈ itoa i) :
    b = minusSign ∨ ∃ v < 10, b = digitZero + UInt8.ofNat v := by
  have hdigits : ∀ n, b ∈ decimal n → ∃ v < 10, b = digitZero + UInt8.ofNat v := by
    intro n hn
    fun_induction decimal n with
    | case1 n hlt => exact ⟨n, hlt, List.mem_singleton.mp hn⟩
    | case2 n hge ih =>
        obtain hn | hn := List.mem_append.mp hn
        · exact ih hn
        · exact ⟨n % 10, Nat.mod_lt n (by omega), List.mem_singleton.mp hn⟩
  unfold itoa at h
  split at h
  · obtain h | h := List.mem_cons.mp h
    · exact .inl h
    · exact .inr (hdigits _ h)
  · exact .inr (hdigits _ h)

end Skytime.Process
