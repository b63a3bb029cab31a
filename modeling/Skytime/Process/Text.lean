/-
# Skytime.Process.Text — strings of the Go language: split, join, trim a suffix, bytes.

`strings.Split` at one character is `String.splitOn`, and what it does is stated on lists of
characters. Splitting undoes joining when no piece holds the separator.
-/
import Mathlib.Data.String.Basic

namespace Skytime.Process

/-! ## Splitting -/

/-- The walk of `splitOn` for one character, with `m` read since the last separator. -/
theorem splitOnAux_char (c : Char) (l m r : List Char) (acc : List String) :
    String.splitOnAux (String.ofList (l ++ m ++ r)) (String.singleton c) ⟨String.utf8Len l⟩
      ⟨String.utf8Len (l ++ m)⟩ 0 acc =
      acc.reverse ++ (List.splitOnPPrepend (· == c) r m.reverse).map String.ofList := by
  induction r generalizing l m acc with
  | nil =>
      have hend := String.atEnd_of_valid (l ++ m) []
      have hext := String.extract_of_valid l m []
      rw [← String.utf8Len_append] at hext
      unfold String.splitOnAux
      rw [if_pos (hend.mpr rfl), hext]
      simp
  | cons d r ih =>
      have hend := String.atEnd_of_valid (l ++ m) (d :: r)
      have hget := String.get_of_valid (l ++ m) (d :: r)
      have hnext := String.next_of_valid (l ++ m) d r
      have hext := String.extract_of_valid l m (d :: r)
      rw [← String.utf8Len_append] at hext
      -- the separator is read in one step
      have hsep : String.Pos.Raw.get (String.singleton c) 0 = c := by
        have h := String.get_of_valid [] [c]
        simpa using h
      have hsepNext : String.Pos.Raw.next (String.singleton c) 0 = ⟨c.utf8Size⟩ := by
        have h := String.next_of_valid [] c []
        simpa using h
      have hsepEnd : String.Pos.Raw.atEnd (String.singleton c) ⟨c.utf8Size⟩ = true := by
        have h := String.atEnd_of_valid [c] []
        simpa using h
      unfold String.splitOnAux
      rw [if_neg (by rw [hend]; simp), hget, hsep, hnext, hsepNext]
      by_cases hd : d = c
      · subst hd
        have hback : (⟨String.utf8Len (l ++ m) + d.utf8Size⟩ : String.Pos.Raw).unoffsetBy
            ⟨d.utf8Size⟩ = ⟨String.utf8Len (l ++ m)⟩ := by
          simp [String.Pos.Raw.unoffsetBy]
        have hrest := ih (l ++ m ++ [d]) [] (String.ofList m :: acc)
        simp only [List.headD_cons, beq_self_eq_true, if_true, hsepEnd, hback, hext]
        rw [List.splitOnPPrepend_cons_pos (by simp)]
        simpa [Nat.add_assoc] using hrest
      · have hstay : (⟨String.utf8Len (l ++ m)⟩ : String.Pos.Raw).unoffsetBy 0 =
            ⟨String.utf8Len (l ++ m)⟩ := by
          simp [String.Pos.Raw.unoffsetBy]
        have hrest := ih l (m ++ [d]) acc
        rw [if_neg (by simpa using hd), hstay, hnext,
          List.splitOnPPrepend_cons_neg (by simpa using hd)]
        simpa [Nat.add_assoc] using hrest

/-- Splitting at a character splits the list of characters. -/
theorem splitOn_char (s : String) (c : Char) :
    s.splitOn (String.singleton c) = (s.toList.splitOn c).map String.ofList := by
  have hne : (String.singleton c == "") = false := by simp
  have h := splitOnAux_char c [] [] s.toList []
  simp only [String.splitOn, hne, List.splitOn_eq_splitOnP]
  simpa using h

/-- Splitting undoes joining. -/
theorem splitOn_intercalate {c : Char} {l : List String} (hl : l ≠ [])
    (hc : ∀ s ∈ l, c ∉ s.toList) :
    ((String.singleton c).intercalate l).splitOn (String.singleton c) = l := by
  rw [splitOn_char, String.toList_intercalate, String.toList_singleton,
    List.splitOn_intercalate c (by simpa using hc) (by simpa using hl), List.map_map]
  simp

/-! ## Suffixes -/

/-- `strings.TrimSuffix`. -/
def trimSuffix (s suffix : String) : String :=
  if suffix.toList.isSuffixOf s.toList then
    String.ofList (s.toList.take (s.toList.length - suffix.toList.length))
  else s

theorem trimSuffix_append (s suffix : String) : trimSuffix (s ++ suffix) suffix = s := by
  have h : suffix.toList.isSuffixOf (s ++ suffix).toList = true := by
    rw [List.isSuffixOf_iff_suffix, String.toList_append]
    exact List.suffix_append _ _
  rw [trimSuffix, if_pos h, String.toList_append, List.length_append, Nat.add_sub_cancel,
    List.take_left, String.ofList_toList]

/-- A list with a separator after each member is the joined list with one more separator. -/
theorem join_map_append (sep : String) {l : List String} (hl : l ≠ []) :
    String.join (l.map (· ++ sep)) = sep.intercalate l ++ sep := by
  induction l with
  | nil => exact absurd rfl hl
  | cons s l ih =>
      rw [List.map_cons, String.join_cons]
      cases l with
      | nil => simp
      | cons s' l =>
          rw [ih (by simp), String.intercalate_cons_cons, ← String.append_assoc]

/-! ## Bytes -/

/-- The loop reads the bytes from `i` on behind those it has. -/
theorem toList_loop (bs : ByteArray) (i : ℕ) (r : List UInt8) :
    ByteArray.toList.loop bs i r = r.reverse ++ bs.data.toList.drop i := by
  fun_induction ByteArray.toList.loop bs i r with
  | case1 i r hi ih =>
      have hi' : i < bs.data.toList.length := hi
      have hget : bs.get! i = bs.data.toList[i] := by
        show bs.data[i]! = _
        rw [getElem!_pos bs.data i hi, Array.getElem_toList]
      rw [ih, List.drop_eq_getElem_cons hi', hget]
      simp
  | case2 i r hi =>
      have hi' : bs.data.toList.length ≤ i := Nat.le_of_not_lt hi
      rw [List.drop_eq_nil_of_le hi', List.append_nil]

theorem byteArray_toList (bs : ByteArray) : bs.toList = bs.data.toList := by
  rw [ByteArray.toList, toList_loop]
  rfl

theorem byteArray_toList_append (bs bs' : ByteArray) :
    (bs ++ bs').toList = bs.toList ++ bs'.toList := by
  simp only [byteArray_toList, ByteArray.toList_data_append]
/-! ## Decimal numbers -/

/-- The characters of a number are digits. -/
theorem isDigit_of_mem_toString {n : ℕ} {c : Char} (h : c ∈ (toString n).toList) :
    c.isDigit = true := by
  rw [show toString n = Nat.repr n from rfl, Nat.toList_repr] at h
  exact Nat.isDigit_of_mem_toDigits (by omega) (by omega) h

/-- Different numbers are written differently. -/
theorem toString_inj {m n : ℕ} : toString m = toString n ↔ m = n := by
  constructor
  · intro h
    have hdigits : Nat.toDigits 10 m = Nat.toDigits 10 n := by
      have h' := congrArg String.toList h
      rwa [show toString m = Nat.repr m from rfl, show toString n = Nat.repr n from rfl,
        Nat.toList_repr, Nat.toList_repr] at h'
    rw [← Nat.ofDigitChars_ten_toDigits (n := m), hdigits, Nat.ofDigitChars_ten_toDigits]
  · exact congrArg _

/-- A negative number is not written like a natural number. -/
theorem toString_negSucc_ne (m n : ℕ) : toString (Int.negSucc m) ≠ toString n := by
  intro h
  have hminus : '-' ∈ (toString n).toList := by
    rw [← h, show toString (Int.negSucc m) = "-" ++ Nat.repr (m + 1) from rfl,
      String.toList_append]
    exact List.mem_append_left _ (by decide)
  exact absurd (isDigit_of_mem_toString hminus) (by decide)

theorem int_toString_inj {m n : ℤ} : toString m = toString n ↔ m = n := by
  constructor
  · intro h
    cases m with
    | ofNat m =>
        cases n with
        | ofNat n => exact congrArg _ (toString_inj.mp h)
        | negSucc n => exact absurd h.symm (toString_negSucc_ne n m)
    | negSucc m =>
        cases n with
        | ofNat n => exact absurd h (toString_negSucc_ne m n)
        | negSucc n =>
            have hrepr : toString (m + 1) = toString (n + 1) :=
              (String.append_right_inj "-").mp h
            rw [Nat.succ.inj (toString_inj.mp hrepr)]
  · exact congrArg _

end Skytime.Process
