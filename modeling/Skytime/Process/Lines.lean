/-
# Skytime.Process.Lines — text as lines: trimming, cutting at a separator, and the line scanner.

`bufio.Scanner` gives the lines of a text without their ends, a carriage return before the end of a
line included. It stops at a line that does not fit its buffer with the line feed behind it, and
whoever does not ask for its error takes this for the end of the text.
-/
import Mathlib.Data.List.DropRight
import Mathlib.Data.List.TakeWhile

namespace Skytime.Process

/-! ## Trimming -/

section Trim

variable {α : Type*} [DecidableEq α] {c : α} {s t : List α}

/-- `strings.Trim(s, string(c))`. -/
def trim (c : α) (s : List α) : List α := (s.dropWhile (· == c)).rdropWhile (· == c)

/-- Neither the first nor the last element is `c`. -/
structure Trimmed (c : α) (s : List α) : Prop where
  head : s.head? ≠ some c
  last : s.getLast? ≠ some c

theorem dropWhile_of_head (h : s.head? ≠ some c) : s.dropWhile (· == c) = s := by
  cases s with
  | nil => rfl
  | cons a s =>
      rw [List.dropWhile_cons_of_neg]
      simpa using h

theorem rdropWhile_of_last (h : s.getLast? ≠ some c) : s.rdropWhile (· == c) = s := by
  rw [List.rdropWhile_eq_self_iff]
  intro hne heq
  apply h
  rw [List.getLast?_eq_some_getLast hne]
  exact congrArg some (by simpa using heq)

theorem Trimmed.trim_eq (h : Trimmed c s) : trim c s = s := by
  rw [trim, dropWhile_of_head h.head, rdropWhile_of_last h.last]

theorem last_rdropWhile (c : α) (s : List α) : (s.rdropWhile (· == c)).getLast? ≠ some c := by
  intro h
  have hne : s.rdropWhile (· == c) ≠ [] := by
    intro hnil
    rw [hnil] at h
    exact absurd h (by simp)
  rw [List.getLast?_eq_some_getLast hne] at h
  exact List.rdropWhile_last_not _ _ hne (by simpa using h)

theorem head_dropWhile (c : α) (s : List α) : (s.dropWhile (· == c)).head? ≠ some c := by
  intro h
  have hnot := List.head?_dropWhile_not (· == c) s
  rw [h] at hnot
  simp at hnot

omit [DecidableEq α] in
theorem head_of_front (h : s <+: t) (hs : s.head? = some c) : t.head? = some c := by
  obtain ⟨rest, rfl⟩ := h
  rw [List.head?_append, hs, Option.some_or]

/-- What is trimmed starts and ends with something else. -/
theorem trimmed_trim (c : α) (s : List α) : Trimmed c (trim c s) := by
  refine ⟨fun h => ?_, last_rdropWhile c _⟩
  exact head_dropWhile c s (head_of_front (List.rdropWhile_prefix (p := (· == c)) _) h)

/-- Nothing before an element that stays is taken from the end. -/
theorem rdropWhile_append_cons {a : α} (h : a ≠ c) (s t : List α) :
    (s ++ a :: t).rdropWhile (· == c) = s ++ a :: t.rdropWhile (· == c) := by
  induction t using List.reverseRecOn with
  | nil =>
      rw [List.rdropWhile_concat_neg (· == c) s a (by simpa using h), List.rdropWhile_nil]
  | append_singleton t b ih =>
      rw [← List.cons_append, ← List.append_assoc]
      by_cases hb : (b == c) = true
      · rw [List.rdropWhile_concat_pos (· == c) _ b hb, ih,
          List.rdropWhile_concat_pos (· == c) t b hb]
      · rw [List.rdropWhile_concat_neg (· == c) _ b hb, List.rdropWhile_concat_neg (· == c) t b hb,
          List.append_assoc, List.cons_append]

/-- Both ends can be trimmed in any order. -/
theorem trim_comm (c : α) (s : List α) :
    (s.rdropWhile (· == c)).dropWhile (· == c) = trim c s := by
  show _ = (s.dropWhile (· == c)).rdropWhile (· == c)
  cases hrest : s.dropWhile (· == c) with
  | nil =>
      have hall : s.rdropWhile (· == c) = [] := by
        rw [List.rdropWhile_eq_nil_iff]
        exact List.dropWhile_eq_nil_iff.mp hrest
      rw [hall, List.dropWhile_nil, List.rdropWhile_nil]
  | cons a t =>
      have ha : a ≠ c := by
        have hhead := head_dropWhile c s
        rw [hrest] at hhead
        simpa using hhead
      have hpad : ∀ b ∈ s.takeWhile (· == c), (b == c) = true := fun b hb =>
        List.mem_takeWhile_imp (p := (· == c)) hb
      have hs : s = s.takeWhile (· == c) ++ a :: t := by
        rw [← hrest, List.takeWhile_append_dropWhile]
      have hright := rdropWhile_append_cons ha [] t
      rw [List.nil_append, List.nil_append] at hright
      rw [hs, rdropWhile_append_cons ha, List.dropWhile_append_of_pos hpad, hright,
        List.dropWhile_cons_of_neg (by simpa using ha)]

theorem trim_rdropWhile (c : α) (s : List α) : trim c (s.rdropWhile (· == c)) = trim c s := by
  rw [trim, trim_comm, trim, List.rdropWhile_idempotent]

/-- Trimming leaves out elements at the ends. -/
theorem trim_within (c : α) (s : List α) : trim c s <:+: s :=
  (List.rdropWhile_prefix (p := (· == c)) _).isInfix.trans (List.dropWhile_suffix _).isInfix

end Trim

/-! ## Cutting at a separator -/

section Cut

variable {α : Type*} [DecidableEq α] {c : α}

/-- `strings.SplitN(s, string(c), 2)`: the parts before and behind the first separator, if there is
one. -/
def cut (c : α) (s : List α) : Option (List α × List α) :=
  if c ∈ s then some (s.takeWhile (· != c), (s.dropWhile (· != c)).tail) else none

theorem bne_of_notMem {k : List α} (h : c ∉ k) : ∀ a ∈ k, (a != c) = true := by
  intro a ha
  simpa using fun heq : a = c => h (heq ▸ ha)

theorem takeWhile_append_sep {k : List α} (h : c ∉ k) (v : List α) :
    (k ++ c :: v).takeWhile (· != c) = k := by
  rw [List.takeWhile_append_of_pos (bne_of_notMem h), List.takeWhile_cons_of_neg (by simp),
    List.append_nil]

theorem dropWhile_append_sep {k : List α} (h : c ∉ k) (v : List α) :
    (k ++ c :: v).dropWhile (· != c) = c :: v := by
  rw [List.dropWhile_append_of_pos (bne_of_notMem h), List.dropWhile_cons_of_neg (by simp)]

theorem cut_append {k : List α} (h : c ∉ k) (v : List α) : cut c (k ++ c :: v) = some (k, v) := by
  rw [cut, if_pos (by simp), takeWhile_append_sep h, dropWhile_append_sep h, List.tail_cons]

theorem cut_eq_some {s k v : List α} (h : cut c s = some (k, v)) : c ∉ k ∧ s = k ++ c :: v := by
  obtain ⟨hmem, h⟩ := Option.ite_none_right_eq_some.mp h
  obtain ⟨rfl, rfl⟩ := Prod.mk.inj (Option.some.inj h)
  refine ⟨fun hc => ?_, ?_⟩
  · exact absurd (List.mem_takeWhile_imp hc) (by simp)
  · cases hrest : s.dropWhile (· != c) with
    | nil =>
        have hall := List.dropWhile_eq_nil_iff.mp hrest c hmem
        exact absurd hall (by simp)
    | cons a rest =>
        have hnot := List.head?_dropWhile_not (· != c) s
        rw [hrest] at hnot
        obtain rfl : a = c := by simpa using hnot
        rw [List.tail_cons, ← hrest, List.takeWhile_append_dropWhile]

end Cut

/-! ## The scanner -/

def lineFeed : UInt8 := 10

def carriageReturn : UInt8 := 13

/-- `bufio.MaxScanTokenSize`. -/
def maxScanTokenSize : ℕ := 65536

/-- `dropCR`. -/
def dropCR (line : List UInt8) : List UInt8 :=
  if line.getLast? = some carriageReturn then line.dropLast else line

/-- The tokens of a `bufio.Scanner` with `ScanLines`. -/
def scanLines (data : List UInt8) : List (List UInt8) :=
  match data with
  | [] => []
  | b :: bs =>
    -- a line that fills the buffer ends the scan with `ErrTooLong`
    if ((b :: bs).takeWhile (· != lineFeed)).length ≥ maxScanTokenSize then []
    else
      dropCR ((b :: bs).takeWhile (· != lineFeed)) ::
        scanLines ((b :: bs).dropWhile (· != lineFeed)).tail
termination_by data.length
decreasing_by
  have hle := List.length_dropWhile_le (· != lineFeed) (b :: bs)
  rw [List.length_tail, List.length_cons] at *
  omega

/-- A line and what is behind it. -/
theorem scanLines_line {line : List UInt8} (h : lineFeed ∉ line) (rest : List UInt8) :
    scanLines (line ++ lineFeed :: rest) =
      if line.length ≥ maxScanTokenSize then [] else dropCR line :: scanLines rest := by
  cases hdata : line ++ lineFeed :: rest with
  | nil => exact absurd hdata (by simp)
  | cons b bs =>
      rw [scanLines, ← hdata, takeWhile_append_sep h, dropWhile_append_sep h, List.tail_cons]

/-- A line that is too long ends the scan, whatever is behind it. -/
theorem scanLines_tooLong {line : List UInt8} (h : lineFeed ∉ line)
    (hlen : maxScanTokenSize ≤ line.length) (rest : List UInt8) :
    scanLines (line ++ rest) = [] := by
  have htake : line.length ≤ ((line ++ rest).takeWhile (· != lineFeed)).length := by
    rw [List.takeWhile_append_of_pos (bne_of_notMem h), List.length_append]
    exact Nat.le_add_right _ _
  cases hdata : line ++ rest with
  | nil => rw [scanLines]
  | cons b bs =>
      rw [hdata] at htake
      rw [scanLines, if_pos (hlen.trans htake)]

/-- The text with these lines. -/
def unlines (lines : List (List UInt8)) : List UInt8 := lines.flatMap (· ++ [lineFeed])

def Short (line : List UInt8) : Prop := line.length < maxScanTokenSize

instance Short.decide (line : List UInt8) : Decidable (Short line) :=
  inferInstanceAs (Decidable (line.length < maxScanTokenSize))

/-- The lines before the first that is too long, and what is behind them if there is none. -/
theorem scanLines_unlines {lines : List (List UInt8)} (h : ∀ line ∈ lines, lineFeed ∉ line)
    (rest : List UInt8) :
    scanLines (unlines lines ++ rest) = (lines.takeWhile (Short ·)).map dropCR ++
      if ∀ line ∈ lines, Short line then scanLines rest else [] := by
  induction lines with
  | nil => simp [unlines]
  | cons line lines ih =>
      have hih := ih fun l hl => h l (List.mem_cons_of_mem line hl)
      have htext : unlines (line :: lines) ++ rest =
          line ++ lineFeed :: (unlines lines ++ rest) := by
        simp [unlines]
      rw [htext, scanLines_line (h line List.mem_cons_self), hih]
      by_cases hshort : Short line
      · have hlen : ¬ line.length ≥ maxScanTokenSize := Nat.not_le.mpr hshort
        rw [if_neg hlen, List.takeWhile_cons_of_pos (by simpa using hshort), List.map_cons,
          List.cons_append]
        simp only [List.forall_mem_cons, hshort, true_and]
      · have hlen : line.length ≥ maxScanTokenSize := Nat.not_lt.mp hshort
        rw [if_pos hlen, List.takeWhile_cons_of_neg (by simpa using hshort)]
        simp only [List.forall_mem_cons, hshort, false_and, if_false, List.map_nil, List.append_nil]

theorem scanLines_unlines_end {lines : List (List UInt8)} (h : ∀ line ∈ lines, lineFeed ∉ line) :
    scanLines (unlines lines) = (lines.takeWhile (Short ·)).map dropCR := by
  have hall := scanLines_unlines h []
  have hend : scanLines [] = [] := by rw [scanLines]
  rwa [List.append_nil, hend, ite_self, List.append_nil] at hall

/-- No line has a line feed in it. -/
theorem lineFeed_notMem_scanLines (data : List UInt8) :
    ∀ line ∈ scanLines data, lineFeed ∉ line := by
  fun_induction scanLines data with
  | case1 => simp
  | case2 b bs hlong => simp
  | case3 b bs hshort ih =>
      intro line hline
      rcases List.mem_cons.mp hline with rfl | hline
      · intro hmem
        have hmem' : lineFeed ∈ (b :: bs).takeWhile (· != lineFeed) := by
          rw [dropCR] at hmem
          split at hmem
          · exact List.dropLast_subset _ hmem
          · exact hmem
        exact absurd (List.mem_takeWhile_imp hmem') (by simp)
      · exact ih line hline

end Skytime.Process
