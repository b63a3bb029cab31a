/-
# Skytime.Process.Channel — buffered channels with the semantics of the Go language.

A channel value carries the proof that its buffer does not exceed its capacity. A send on a closed
channel panics, a send on a full one waits; closing a closed channel panics; a receive takes the
oldest value, waits on an empty open channel and reports the end on an empty closed one.
-/
import Mathlib.Data.List.Basic

namespace Skytime.Process

/-- A buffered channel of capacity `cap`. -/
structure Chan (α : Type*) (cap : ℕ) where
  buf : List α
  closed : Bool
  le_cap : buf.length ≤ cap
  deriving DecidableEq, Repr

namespace Chan

variable {α : Type*} {cap : ℕ}

/-- `make(chan T, cap)`. -/
def make : Chan α cap := ⟨[], false, Nat.zero_le cap⟩

@[simp] theorem make_closed : (make : Chan α cap).closed = false := rfl

/-- The buffer holds as many values as it can. -/
def Full (c : Chan α cap) : Prop := c.buf.length = cap

instance (c : Chan α cap) : Decidable c.Full := inferInstanceAs (Decidable (_ = _))

/-! ## Sending -/

/-- What a send statement finds: a closed channel, a full one, or room for the value. -/
inductive SendOutcome (α : Type*) (cap : ℕ) where
  | panic
  | blocked
  | sent (c : Chan α cap)

/-- `c <- a`. -/
def send (c : Chan α cap) (a : α) : SendOutcome α cap :=
  if c.closed then .panic
  else if h : c.buf.length < cap then
    .sent ⟨c.buf ++ [a], false, by rw [List.length_append]; exact h⟩
  else .blocked

theorem send_eq_panic_iff {c : Chan α cap} {a : α} : c.send a = .panic ↔ c.closed = true := by
  unfold send
  split
  · rename_i h
    simp [h]
  · rename_i h
    split <;> simp [h]

theorem send_eq_blocked_iff {c : Chan α cap} {a : α} :
    c.send a = .blocked ↔ c.closed = false ∧ c.Full := by
  have hle := c.le_cap
  unfold send Full
  split
  · rename_i h
    simp [h]
  · rename_i h
    split
    · simp only [reduceCtorEq, false_iff, not_and]
      omega
    · simp only [true_iff]
      exact ⟨by simpa using h, by omega⟩

theorem send_eq_sent_iff {c d : Chan α cap} {a : α} :
    c.send a = .sent d ↔
      c.closed = false ∧ ¬ c.Full ∧ d.buf = c.buf ++ [a] ∧ d.closed = false := by
  obtain ⟨dbuf, dclosed, hd⟩ := d
  have hle := c.le_cap
  unfold send Full
  split
  · rename_i h
    simp [h]
  · rename_i h
    split
    · simp only [SendOutcome.sent.injEq, mk.injEq]
      constructor
      · rintro ⟨rfl, rfl⟩
        exact ⟨by simpa using h, by omega, rfl, rfl⟩
      · rintro ⟨_, _, rfl, rfl⟩
        exact ⟨rfl, rfl⟩
    · simp only [reduceCtorEq, false_iff, not_and]
      omega

/-- An open channel with room takes the value. -/
theorem exists_send_eq_sent {c : Chan α cap} (a : α) (hopen : c.closed = false)
    (hroom : ¬ c.Full) : ∃ d, c.send a = .sent d := by
  have hle := c.le_cap
  have hlt : c.buf.length < cap := by unfold Full at hroom; omega
  exact ⟨_, by simp only [send, hopen, hlt]; rfl⟩

/-! ## Receiving -/

/-- What a receive finds: nothing yet, the end of a closed channel, or the oldest value. -/
inductive RecvOutcome (α : Type*) (cap : ℕ) where
  | blocked
  | eof
  | got (a : α) (c : Chan α cap)

/-- `v, ok := <-c`. -/
def recv (c : Chan α cap) : RecvOutcome α cap :=
  match h : c.buf with
  | [] => if c.closed then .eof else .blocked
  | a :: rest =>
    .got a ⟨rest, c.closed, by have := c.le_cap; rw [h, List.length_cons] at this; omega⟩

theorem recv_eq_got_iff {c d : Chan α cap} {a : α} :
    c.recv = .got a d ↔ c.buf = a :: d.buf ∧ d.closed = c.closed := by
  obtain ⟨dbuf, dclosed, hd⟩ := d
  unfold recv
  split
  · rename_i h
    split <;> simp [h]
  · rename_i b rest h
    simp only [RecvOutcome.got.injEq, mk.injEq, h, List.cons.injEq]
    constructor
    · rintro ⟨rfl, rfl, rfl⟩
      exact ⟨⟨rfl, rfl⟩, rfl⟩
    · rintro ⟨⟨rfl, rfl⟩, rfl⟩
      exact ⟨rfl, rfl, rfl⟩

theorem recv_eq_eof_iff {c : Chan α cap} :
    c.recv = .eof ↔ c.buf = [] ∧ c.closed = true := by
  unfold recv
  split
  · rename_i h
    split <;> simp_all
  · rename_i h
    simp [h]

/-- A full channel of positive capacity has a value to take. -/
theorem exists_recv_eq_got {c : Chan α cap} (hcap : 0 < cap) (hfull : c.Full) :
    ∃ a d, c.recv = .got a d := by
  cases h : c.buf with
  | nil =>
      unfold Full at hfull
      rw [h, List.length_nil] at hfull
      omega
  | cons a rest =>
      have hle : rest.length ≤ cap := by
        have := c.le_cap
        rw [h, List.length_cons] at this
        omega
      exact ⟨a, ⟨rest, c.closed, hle⟩, recv_eq_got_iff.mpr ⟨h, rfl⟩⟩

/-! ## Closing -/

/-- `close(c)`: `none` is the panic of closing a closed channel. -/
def close (c : Chan α cap) : Option (Chan α cap) :=
  if c.closed then none else some { c with closed := true }

theorem close_eq_none_iff {c : Chan α cap} : c.close = none ↔ c.closed = true := by
  unfold close
  split <;> simp_all

theorem close_eq_some_iff {c d : Chan α cap} :
    c.close = some d ↔ c.closed = false ∧ d.buf = c.buf ∧ d.closed = true := by
  obtain ⟨dbuf, dclosed, hd⟩ := d
  cases hc : c.closed with
  | true => simp [close, hc]
  | false =>
      simp only [close, hc, Bool.false_eq_true, if_false, Option.some.injEq, mk.injEq, true_and]
      constructor
      · rintro ⟨rfl, rfl⟩
        exact ⟨rfl, rfl⟩
      · rintro ⟨rfl, rfl⟩
        exact ⟨rfl, rfl⟩

end Chan

end Skytime.Process
