/-
# Skytime.Conn.Schedule — when `writeRTO` sends a peer message again.

An entry of `write_msg_Q` has two counters. `wait_ttl` counts the ticks down from `W`;
`retry_times` counts the transmissions down from `R`, and the entry is sent again when `wait_ttl`
falls below `(retry_times - 1) * (W / R)`. The relation between the two is `Counting`: after `n`
ticks and `j` retransmissions the next threshold has not been passed and the last one has. One
tick crosses at most one threshold, because the thresholds lie `W / R ≥ 1` apart.
-/
import Skytime.Conn.Writer

namespace Skytime

open Process

/-! ## The schedule -/

/-- The tick of the `k`-th retransmission. -/
def retryTick (W R k : ℕ) : ℕ := W - (R - k) * (W / R) + 1

/-- The ticks at which a message is transmitted; `0` is its removal from `c.send`. -/
def transmissionTicks (W R : ℕ) : List ℕ := 0 :: (List.range' 1 (R - 1)).map (retryTick W R)

/-- The `rto_ticker` has fired. -/
def WriterEvent.isTick : WriterEvent → Bool
  | .tick _ => true
  | _ => false

/-- The number of ticks among some events. -/
def ticks (es : List WriterEvent) : ℕ := es.countP WriterEvent.isTick

/-- The events before the first ack of `msgId`. -/
def unacked (msgId : ℕ) (es : List WriterEvent) : List WriterEvent :=
  es.takeWhile (· != .ack msgId)

/-- The frames sent for `msgId`, each with the number of ticks before it. -/
def stamped (msgId : ℕ) : ℕ → List WriterOut → List (ℕ × List UInt8)
  | _, [] => []
  | n, .ticked :: outs => stamped msgId (n + 1) outs
  | n, .push i frame :: outs =>
    if i = msgId then (n, frame) :: stamped msgId n outs else stamped msgId n outs
  | n, _ :: outs => stamped msgId n outs

example : transmissionTicks 64 8 = [0, 9, 17, 25, 33, 41, 49, 57] := by decide

/-! ## The thresholds -/

/-- After `n` of `W` ticks and `j` retransmissions the next threshold has not been passed, and the
last one has. -/
structure Counting (W R n j : ℕ) : Prop where
  retries_left : j < R
  next_ahead : (R - 1 - j) * (W / R) + n ≤ W
  last_passed : 1 ≤ j → W < (R - j) * (W / R) + n

/-- Neighbouring thresholds are `W / R` apart. -/
theorem threshold_succ {W R k : ℕ} (h : k < R) :
    (R - k) * (W / R) = (R - 1 - k) * (W / R) + W / R := by
  rw [show R - k = (R - 1 - k) + 1 by omega, Nat.succ_mul]

theorem threshold_anti {W R k k' : ℕ} (h : k ≤ k') :
    (R - k') * (W / R) ≤ (R - k) * (W / R) :=
  Nat.mul_le_mul_right _ (by omega)

theorem threshold_le (W R k : ℕ) : (R - k) * (W / R) ≤ W :=
  calc (R - k) * (W / R) ≤ R * (W / R) := Nat.mul_le_mul_right _ (Nat.sub_le R k)
    _ ≤ W := Nat.mul_div_le W R

theorem div_pos_of_le {W R : ℕ} (hpos : 1 ≤ R) (hle : R ≤ W) : 1 ≤ W / R :=
  (Nat.one_le_div_iff hpos).mpr hle

theorem Counting.start {W R : ℕ} (hpos : 1 ≤ R) : Counting W R 0 0 :=
  ⟨hpos, by simpa [Nat.sub_sub] using threshold_le W R 1, by omega⟩

/-- A tick that falls below the threshold is the tick of the next retransmission. -/
theorem Counting.resend {W R n j : ℕ} (hpos : 1 ≤ R) (hle : R ≤ W) (h : Counting W R n j)
    (hn : n < W) (hlt : W - (n + 1) < (R - 1 - j) * (W / R)) :
    Counting W R (n + 1) (j + 1) ∧ n + 1 = retryTick W R (j + 1) ∧ j + 1 < R := by
  have hD : 1 ≤ W / R := div_pos_of_le hpos hle
  have hnext := h.next_ahead
  have hj : j + 1 < R := by
    -- after the last transmission the threshold is zero, and no tick falls below it
    by_contra hj
    have hzero : R - 1 - j = 0 := by omega
    rw [hzero, Nat.zero_mul] at hlt
    omega
  have hsub : R - (j + 1) = R - 1 - j := by omega
  have hthr := threshold_succ (W := W) hj
  refine ⟨⟨hj, ?_, fun _ => ?_⟩, ?_, hj⟩
  · rw [hsub] at hthr
    omega
  · rw [hsub]
    omega
  · rw [retryTick, hsub]
    omega

/-- A tick that does not fall below the threshold is the tick of no retransmission. -/
theorem Counting.keep {W R n j : ℕ} (h : Counting W R n j) (hn : n < W)
    (hge : ¬ W - (n + 1) < (R - 1 - j) * (W / R)) :
    Counting W R (n + 1) j ∧ ∀ k, 1 ≤ k → n + 1 ≠ retryTick W R k := by
  have hlast := h.last_passed
  refine ⟨⟨h.retries_left, by omega, fun hj => by have := hlast hj; omega⟩, ?_⟩
  intro k hk heq
  have hkW := threshold_le W R k
  rw [retryTick] at heq
  -- a later threshold is not reached yet, and an earlier one was passed before this tick
  rcases Nat.lt_or_ge j k with hkj | hkj
  · have hanti := threshold_anti (W := W) (R := R) (show j + 1 ≤ k from hkj)
    rw [show R - (j + 1) = R - 1 - j by omega] at hanti
    omega
  · have hanti := threshold_anti (W := W) (R := R) hkj
    have := hlast (by omega)
    omega

/-! ## Lists of ticks -/

theorem transmissionTicks_pairwise {W R : ℕ} (hpos : 1 ≤ R) (hle : R ≤ W) :
    (transmissionTicks W R).Pairwise (· < ·) := by
  have hD : 1 ≤ W / R := div_pos_of_le hpos hle
  refine List.pairwise_cons.mpr ⟨?_, List.pairwise_map.mpr ?_⟩
  · intro t ht
    obtain ⟨k, _, rfl⟩ := List.mem_map.mp ht
    exact Nat.succ_pos _
  · have hlt : (List.range' 1 (R - 1)).Pairwise (· < ·) := List.pairwise_lt_range'
    apply hlt.imp_of_mem
    intro k k' hk hk' hlt
    rw [List.mem_range'_1] at hk hk'
    have hthr := threshold_succ (W := W) (show k < R by omega)
    have hanti := threshold_anti (W := W) (R := R) (show k + 1 ≤ k' from hlt)
    have hkW := threshold_le W R k
    rw [show R - (k + 1) = R - 1 - k by omega] at hanti
    rw [retryTick, retryTick]
    omega

theorem transmissionTicks_le {W R t : ℕ} (hpos : 1 ≤ R) (hle : R ≤ W)
    (ht : t ∈ transmissionTicks W R) : t ≤ W := by
  rcases List.mem_cons.mp ht with rfl | ht
  · exact Nat.zero_le W
  · obtain ⟨k, hk, rfl⟩ := List.mem_map.mp ht
    rw [List.mem_range'_1] at hk
    have hthr := threshold_succ (W := W) (show k < R by omega)
    have hD : 1 ≤ W / R := div_pos_of_le hpos hle
    rw [retryTick]
    omega

theorem mem_transmissionTicks {W R n : ℕ} :
    n + 1 ∈ transmissionTicks W R ↔ ∃ k, 1 ≤ k ∧ k < R ∧ n + 1 = retryTick W R k := by
  simp only [transmissionTicks, List.mem_cons, Nat.add_eq_zero_iff, one_ne_zero, and_false,
    false_or, List.mem_map, List.mem_range'_1]
  constructor
  · rintro ⟨k, hk, heq⟩
    exact ⟨k, by omega, by omega, heq.symm⟩
  · rintro ⟨k, h1, h2, heq⟩
    exact ⟨k, by omega, heq.symm⟩

/-- In an increasing list, raising the bound by one adds at most one element at the end. -/
theorem filter_le_succ {L : List ℕ} (h : L.Pairwise (· < ·)) (n : ℕ) :
    L.filter (· ≤ n + 1) = L.filter (· ≤ n) ++ if n + 1 ∈ L then [n + 1] else [] := by
  induction L with
  | nil => rfl
  | cons a L ih =>
      obtain ⟨ha, hL⟩ := List.pairwise_cons.mp h
      have ih := ih hL
      rcases Nat.lt_trichotomy a (n + 1) with hlt | rfl | hgt
      · have hne : n + 1 ≠ a := by omega
        rw [List.filter_cons_of_pos (by simp; omega), List.filter_cons_of_pos (by simp; omega), ih]
        simp only [List.mem_cons, hne, false_or, List.cons_append]
      · -- everything behind `n + 1` is larger
        have hbig : ∀ b ∈ L, ¬ b ≤ n + 1 := fun b hb => by have := ha b hb; omega
        rw [List.filter_cons_of_pos (by simp), List.filter_cons_of_neg (by simp),
          List.filter_eq_nil_iff.mpr (fun b hb => by simpa using hbig b hb),
          List.filter_eq_nil_iff.mpr (fun b hb => by have := hbig b hb; simp; omega)]
        simp
      · have hbig : ∀ b ∈ L, n + 1 < b := fun b hb => by have := ha b hb; omega
        have hnot : n + 1 ∉ a :: L := by
          intro hmem
          rcases List.mem_cons.mp hmem with rfl | hmem
          · omega
          · have := hbig _ hmem
            omega
        rw [if_neg hnot, List.append_nil,
          List.filter_eq_nil_iff.mpr, List.filter_eq_nil_iff.mpr]
        · intro b hb
          rcases List.mem_cons.mp hb with rfl | hb
          · simp; omega
          · have := hbig b hb
            simp; omega
        · intro b hb
          rcases List.mem_cons.mp hb with rfl | hb
          · simp; omega
          · have := hbig b hb
            simp; omega

/-! ## One entry under one tick -/

/-- A difference of machine integers that stays in range is the difference. -/
theorem toInt_sub_one {x : Int64} (h : -2 ^ 63 < x.toInt) : (x - 1).toInt = x.toInt - 1 := by
  have hlt := x.toInt_lt
  rw [Int64.toInt_sub, Int64.toInt_one]
  exact Int.bmod_eq_of_le (by omega) (by omega)

/-- A positive divisor is not zero. -/
theorem maxRetryTtl_ne_zero {cfg : RtoConfig} {R : ℕ} (hR : cfg.maxRetryTtl.toInt = R)
    (hpos : 1 ≤ R) : cfg.maxRetryTtl ≠ 0 := by
  intro hzero
  rw [hzero, Int64.toInt_zero] at hR
  omega

/-- The quotient of the settings does not overflow. -/
theorem toInt_quotient {cfg : RtoConfig} {W R : ℕ} (hW : cfg.maxWaitTtl.toInt = W)
    (hR : cfg.maxRetryTtl.toInt = R) :
    (cfg.maxWaitTtl / cfg.maxRetryTtl).toInt = ((W / R : ℕ) : ℤ) := by
  -- the one quotient of `Int64` that overflows has the divisor `-1`
  have hne : cfg.maxRetryTtl ≠ -1 := by
    intro heq
    have hval : (-1 : Int64).toInt = -1 := rfl
    rw [heq, hval] at hR
    omega
  rw [Int64.toInt_div_of_ne_right _ _ hne, hW, hR]
  exact (Int.ofNat_tdiv W R).symm

/-- The retry threshold does not overflow. -/
theorem toInt_threshold {cfg : RtoConfig} {W R j : ℕ} (hW : cfg.maxWaitTtl.toInt = W)
    (hR : cfg.maxRetryTtl.toInt = R) {x : Int64} (hx : x.toInt = (R : ℤ) - 1 - j)
    (hj : j < R) :
    (x * (cfg.maxWaitTtl / cfg.maxRetryTtl)).toInt = ((R - 1 - j) * (W / R) : ℕ) := by
  have hlt := cfg.maxWaitTtl.toInt_lt
  have hsub : (R : ℤ) - 1 - j = ((R - 1 - j : ℕ) : ℤ) := by omega
  have hprod := threshold_le W R (j + 1)
  rw [show R - (j + 1) = R - 1 - j by omega] at hprod
  rw [Int64.toInt_mul, hx, toInt_quotient hW hR, hsub, ← Int.natCast_mul]
  exact Int.bmod_eq_of_le (by omega) (by omega)

/-- The counters of an entry after `n` ticks and `j` retransmissions. -/
structure EntryAt (W R n j : ℕ) (body : List UInt8) (msg : WriteMsg) : Prop where
  body_eq : msg.msgBody = body
  wait : msg.waitTtl.toInt = (W : ℤ) - n
  retry : msg.retryTimes.toInt = (R : ℤ) - j
  counting : Counting W R n j

/-- A tick takes an entry from `n` to `n + 1` ticks, deletes it at the `W`-th, and sends it again
exactly at the ticks of the schedule. -/
theorem EntryAt.tick {cfg : RtoConfig} {W R n j : ℕ} {body : List UInt8} {msg : WriteMsg}
    {r : RtoRound} (hW : cfg.maxWaitTtl.toInt = W) (hR : cfg.maxRetryTtl.toInt = R)
    (hpos : 1 ≤ R) (hle : R ≤ W) (h : EntryAt W R n j body msg) (hn : n < W)
    (hr : rtoEntry cfg msg = .ok r) :
    ∃ j', EntryAt W R (n + 1) j' body r.msg ∧ (r.expired = true ↔ W ≤ n + 1) ∧
      (r.resend = true ↔ n + 1 ∈ transmissionTicks W R) := by
  have hj := h.counting.retries_left
  have hwait : (msg.waitTtl - 1).toInt = (W : ℤ) - (n + 1 : ℕ) := by
    rw [toInt_sub_one (by rw [h.wait]; omega), h.wait]
    omega
  have hretry : (msg.retryTimes - 1).toInt = (R : ℤ) - (j + 1 : ℕ) := by
    rw [toInt_sub_one (by rw [h.retry]; omega), h.retry]
    omega
  have hexpired : msg.waitTtl - 1 ≤ 0 ↔ W ≤ n + 1 := by
    rw [Int64.le_iff_toInt_le, hwait, Int64.toInt_zero]
    omega
  have hbelow : msg.waitTtl - 1 < (msg.retryTimes - 1) * (cfg.maxWaitTtl / cfg.maxRetryTtl) ↔
      W - (n + 1) < (R - 1 - j) * (W / R) := by
    rw [Int64.lt_iff_toInt_lt, hwait, toInt_threshold hW hR (by rw [hretry]; omega) hj]
    omega
  unfold rtoEntry at hr
  simp only at hr
  split at hr
  · exact absurd hr (by simp)
  · split at hr
    · rename_i hlt
      obtain ⟨hcount, htick, hjR⟩ := h.counting.resend hpos hle hn (hbelow.mp hlt)
      obtain rfl := Except.ok.inj hr
      refine ⟨j + 1, ⟨h.body_eq, hwait, hretry, hcount⟩, by simp [hexpired], ?_⟩
      simp only [true_iff]
      exact mem_transmissionTicks.mpr ⟨j + 1, by omega, hjR, htick⟩
    · rename_i hge
      obtain ⟨hcount, hnone⟩ := h.counting.keep hn (fun hlt => hge (hbelow.mpr hlt))
      obtain rfl := Except.ok.inj hr
      refine ⟨j, ⟨h.body_eq, hwait, h.retry, hcount⟩, by simp [hexpired], ?_⟩
      simp only [Bool.false_eq_true, false_iff]
      intro hmem
      obtain ⟨k, hk, _, heq⟩ := mem_transmissionTicks.mp hmem
      exact hnone k hk heq

/-- With a non-zero `max_retry_ttl` no tick panics. -/
theorem exists_rtoWalk {cfg : RtoConfig} (h : cfg.maxRetryTtl ≠ 0) (order : List ℕ)
    (q : WriteMsgQ) : ∃ p, rtoWalk cfg order q = .ok p := by
  induction order generalizing q with
  | nil => exact ⟨_, rfl⟩
  | cons i rest ih =>
      unfold rtoWalk
      split
      · exact ih q
      · rename_i msg hmsg
        obtain ⟨r, hr⟩ : ∃ r, rtoEntry cfg msg = .ok r := by
          simp only [rtoEntry, if_neg h]
          split <;> exact ⟨_, rfl⟩
        obtain ⟨p, hp⟩ := ih (r.store i q)
        exact ⟨(p.1, r.outs i ++ p.2), by simp only [hr, hp, bind, Except.bind, pure, Except.pure]⟩

/-! ## Stamped frames -/

theorem stamped_append (msgId n : ℕ) (l k : List WriterOut) :
    stamped msgId n (l ++ k) = stamped msgId n l ++ stamped msgId (n + l.count .ticked) k := by
  induction l generalizing n with
  | nil => rfl
  | cons o l ih =>
      cases o with
      | ticked =>
          have hcount : n + (WriterOut.ticked :: l).count .ticked = n + 1 + l.count .ticked := by
            rw [List.count_cons_self]
            omega
          rw [hcount]
          exact ih (n + 1)
      | push i frame =>
          rw [List.count_cons_of_ne (by simp), List.cons_append]
          simp only [stamped]
          split <;> simp [ih]
      | report | text | pingMessage | closeMessage =>
          rw [List.count_cons_of_ne (by simp)]
          exact ih n

/-- Between two ticks all frames carry one stamp. -/
theorem stamped_eq_map {l : List WriterOut} (h : .ticked ∉ l) (msgId n : ℕ) :
    stamped msgId n l = (framesOf msgId l).map (n, ·) := by
  induction l with
  | nil => rfl
  | cons o l ih =>
      have ih := ih (fun hl => h (List.mem_cons_of_mem o hl))
      cases o with
      | ticked => exact absurd (List.mem_cons_self) h
      | push i frame =>
          simp only [stamped, framesOf]
          split <;> simp [ih]
      | report | text | pingMessage | closeMessage => exact ih

theorem ticked_notMem_handleSend (cfg : RtoConfig) (q : WriteMsgQ) (m : PushMsg) :
    .ticked ∉ (handleSend cfg q m).2 := by
  unfold handleSend
  split <;> simp

theorem ticked_notMem_rtoWalk {cfg : RtoConfig} {order : List ℕ} {q q' : WriteMsgQ}
    {outs : List WriterOut} (h : rtoWalk cfg order q = .ok (q', outs)) : .ticked ∉ outs := by
  induction order generalizing q outs with
  | nil =>
      obtain ⟨rfl, rfl⟩ := Prod.mk.inj (Except.ok.inj h)
      simp
  | cons i rest ih =>
      rcases rtoWalk_cons_cases h with ⟨_, hw⟩ | ⟨msg, r, outs', _, _, hw, rfl⟩
      · exact ih hw
      · have houts : .ticked ∉ r.outs i := by
          unfold RtoRound.outs
          split <;> simp
        simp [houts, ih hw]

/-! ## Events -/

@[simp] theorem ticks_append (es es' : List WriterEvent) :
    ticks (es ++ es') = ticks es + ticks es' := List.countP_append

theorem ticks_singleton (e : WriterEvent) : ticks [e] = if e.isTick then 1 else 0 :=
  List.countP_singleton

theorem unacked_cons (msgId : ℕ) (e : WriterEvent) (es : List WriterEvent) :
    unacked msgId (e :: es) = if e = .ack msgId then [] else e :: unacked msgId es := by
  by_cases h : e = .ack msgId <;> simp [unacked, h]

theorem unacked_of_notMem {msgId : ℕ} {es : List WriterEvent} (h : .ack msgId ∉ es) :
    unacked msgId es = es := by
  induction es with
  | nil => rfl
  | cons e es ih =>
      rw [List.mem_cons, not_or] at h
      rw [unacked_cons, if_neg (Ne.symm h.1), ih h.2]

theorem unacked_append_of_mem {msgId : ℕ} {es : List WriterEvent} (h : .ack msgId ∈ es)
    (es' : List WriterEvent) : unacked msgId (es ++ es') = unacked msgId es := by
  induction es with
  | nil => exact absurd h (by simp)
  | cons e es ih =>
      rw [List.cons_append, unacked_cons, unacked_cons]
      split
      · rfl
      · rename_i hne
        rw [ih (List.mem_of_ne_of_mem (Ne.symm hne) h)]

theorem unacked_append_ack (msgId : ℕ) (es es' : List WriterEvent) :
    unacked msgId (es ++ .ack msgId :: es') = unacked msgId es := by
  induction es with
  | nil => exact (unacked_cons _ _ _).trans (if_pos rfl)
  | cons e es ih => rw [List.cons_append, unacked_cons, unacked_cons, ih]

/-- An event that is no tick does not change the number of ticks before the first ack. -/
theorem ticks_unacked_append {msgId : ℕ} {es : List WriterEvent} {e : WriterEvent}
    (h : e.isTick = false) : ticks (unacked msgId (es ++ [e])) = ticks (unacked msgId es) := by
  induction es with
  | nil =>
      rw [List.nil_append, unacked_cons]
      split
      · rfl
      · exact (ticks_singleton e).trans (by simp [h, unacked, ticks])
  | cons e' es ih =>
      rw [List.cons_append, unacked_cons, unacked_cons]
      split
      · rfl
      · simp only [ticks, List.countP_cons] at ih ⊢
        rw [ih]

/-! ## A message on its schedule -/

/-- The state of a writer and what it has sent, `es` after taking the message `m`. -/
structure OnSchedule (W R : ℕ) (m : PushMsg) (es : List WriterEvent) (w : Writer)
    (l : List WriterOut) : Prop where
  ticked : l.count .ticked = ticks es
  stamps : stamped m.msgId 0 l =
    ((transmissionTicks W R).filter (· ≤ ticks (unacked m.msgId es))).map
      (·, pushFrame m.msgId m.msgBody false)
  entry :
    (∃ j msg, w.queue.lookup m.msgId = some msg ∧ EntryAt W R (ticks es) j m.msgBody msg ∧
      ticks es < W ∧ .ack m.msgId ∉ es) ∨
    (w.queue.lookup m.msgId = none ∧ (.ack m.msgId ∈ es ∨ W ≤ ticks es))

/-- The message has just been taken from `c.send`. -/
theorem OnSchedule.start {cfg : RtoConfig} {W R : ℕ} (hW : cfg.maxWaitTtl.toInt = W)
    (hR : cfg.maxRetryTtl.toInt = R) (hpos : 1 ≤ R) (hle : R ≤ W) {m : PushMsg}
    (hm : m.isBrAll = false) (w : Writer) :
    OnSchedule W R m [] { w with queue := (handleSend cfg w.queue m).1 }
      (handleSend cfg w.queue m).2 := by
  have hsend : handleSend cfg w.queue m =
      (w.queue.insert m.msgId ⟨m.msgBody, cfg.maxRetryTtl, cfg.maxWaitTtl⟩,
        [.push m.msgId (pushFrame m.msgId m.msgBody false), .report m.msgId]) := by
    simp only [handleSend, hm, Bool.false_eq_true, if_false]
  rw [hsend]
  refine ⟨rfl, ?_, .inl ⟨0, _, Finmap.lookup_insert w.queue, ?_, ?_, by simp⟩⟩
  · -- of the schedule only the first transmission is due before the first tick
    have hlate : ∀ t ∈ (List.range' 1 (R - 1)).map (retryTick W R), ¬ t ≤ 0 := by
      intro t ht
      obtain ⟨k, _, rfl⟩ := List.mem_map.mp ht
      exact Nat.not_succ_le_zero _
    have hfilter : (transmissionTicks W R).filter (· ≤ 0) = [0] := by
      rw [transmissionTicks, List.filter_cons_of_pos (by simp),
        List.filter_eq_nil_iff.mpr (fun t ht => by simpa using hlate t ht)]
    have hzero : ticks (unacked m.msgId []) = 0 := rfl
    rw [hzero, hfilter]
    simp [stamped]
  · exact ⟨rfl, by simpa [ticks] using hW, by simpa using hR, Counting.start hpos⟩
  · exact Nat.lt_of_lt_of_le hpos hle

/-- Events that are no tick, send nothing for the message and keep its entry. -/
theorem OnSchedule.quiet {W R : ℕ} {m : PushMsg} {es : List WriterEvent} {w w' : Writer}
    {l o : List WriterOut} {e : WriterEvent} (h : OnSchedule W R m es w l)
    (he : e.isTick = false) (hack : e ≠ .ack m.msgId) (hticked : .ticked ∉ o)
    (hframes : framesOf m.msgId o = [])
    (hlook : w'.queue.lookup m.msgId = w.queue.lookup m.msgId) :
    OnSchedule W R m (es ++ [e]) w' (l ++ o) := by
  have hticks : ticks (es ++ [e]) = ticks es := by
    rw [ticks_append, ticks_singleton, he]
    simp
  have hmem : .ack m.msgId ∈ es ++ [e] ↔ .ack m.msgId ∈ es := by
    simp [hack.symm]
  constructor
  · rw [List.count_append, List.count_eq_zero.mpr hticked, h.ticked, hticks]
    rfl
  · rw [stamped_append, stamped_eq_map hticked, hframes, h.stamps, ticks_unacked_append he]
    simp
  · rw [hlook, hticks, hmem]
    exact h.entry

/-- The ack of the message deletes its entry. -/
theorem OnSchedule.ack {W R : ℕ} {m : PushMsg} {es : List WriterEvent} {w : Writer}
    {l : List WriterOut} (h : OnSchedule W R m es w l) :
    OnSchedule W R m (es ++ [.ack m.msgId]) { w with queue := handleAck w.queue m.msgId }
      (l ++ []) := by
  constructor
  · rw [List.append_nil, h.ticked, ticks_append, ticks_singleton]
    rfl
  · rw [List.append_nil, h.stamps, ticks_unacked_append rfl]
  · refine .inr ⟨?_, .inl (by simp)⟩
    rw [handleAck_lookup, if_pos rfl]

theorem OnSchedule.tick {cfg : RtoConfig} {W R : ℕ} (hW : cfg.maxWaitTtl.toInt = W)
    (hR : cfg.maxRetryTtl.toInt = R) (hpos : 1 ≤ R) (hle : R ≤ W) {m : PushMsg}
    {es : List WriterEvent} {w : Writer} {l outs : List WriterOut} {order : List ℕ}
    {q : WriteMsgQ} (h : OnSchedule W R m es w l) (horder : w.queue.Range order)
    (hwalk : rtoWalk cfg order w.queue = .ok (q, outs)) :
    OnSchedule W R m (es ++ [.tick order]) { w with queue := q } (l ++ .ticked :: outs) := by
  have hnone := ticked_notMem_rtoWalk hwalk
  have hticks : ticks (es ++ [.tick order]) = ticks es + 1 := by
    rw [ticks_append, ticks_singleton]
    rfl
  have hcount : (l ++ .ticked :: outs).count .ticked = ticks (es ++ [.tick order]) := by
    rw [List.count_append, List.count_cons_self, List.count_eq_zero.mpr hnone, h.ticked, hticks]
  have hstamps : stamped m.msgId 0 (l ++ .ticked :: outs) =
      stamped m.msgId 0 l ++ (framesOf m.msgId outs).map (ticks es + 1, ·) := by
    rw [stamped_append, Nat.zero_add, h.ticked]
    exact congrArg (stamped m.msgId 0 l ++ ·) (stamped_eq_map hnone _ _)
  have hsucc := filter_le_succ (transmissionTicks_pairwise hpos hle) (ticks es)
  rcases h.entry with ⟨j, msg, hmsg, hentry, hn, hack⟩ | ⟨habs, hgone⟩
  · have hack' : .ack m.msgId ∉ es ++ [.tick order] := by simp [hack]
    have hmem : m.msgId ∈ order := horder.mem_iff.mpr ⟨msg, hmsg⟩
    obtain ⟨r, hr, hlook, hframes⟩ := rtoWalk_of_mem hwalk horder.nodup hmem hmsg
    obtain ⟨j', hentry', hexp, hres⟩ := hentry.tick hW hR hpos hle hn hr
    refine ⟨hcount, ?_, ?_⟩
    · rw [hstamps, h.stamps, unacked_of_notMem hack, unacked_of_notMem hack', hticks, hsucc,
        hframes, hentry'.body_eq, List.map_append]
      congr 1
      by_cases hin : ticks es + 1 ∈ transmissionTicks W R
      · rw [if_pos hin, if_pos (hres.mpr hin)]
        rfl
      · rw [if_neg hin, if_neg (fun hr => hin (hres.mp hr))]
        rfl
    · by_cases hlast : W ≤ ticks es + 1
      · refine .inr ⟨?_, .inr (hticks ▸ hlast)⟩
        simp only [hlook, if_pos (hexp.mpr hlast)]
      · refine .inl ⟨j', r.msg, ?_, hticks ▸ hentry', by omega, hack'⟩
        simp only [hlook, if_neg (fun he => hlast (hexp.mp he))]
  · -- the entry is gone, and the tick finds nothing to send
    have hnot : m.msgId ∉ order := by
      intro hmem
      obtain ⟨msg, hmsg⟩ := horder.mem_iff.mp hmem
      rw [habs] at hmsg
      exact absurd hmsg (by simp)
    obtain ⟨hlook, hframes⟩ := rtoWalk_of_notMem hwalk hnot
    refine ⟨hcount, ?_, .inr ⟨hlook.trans habs, ?_⟩⟩
    · rw [hstamps, h.stamps, hframes, List.map_nil, List.append_nil]
      by_cases hack : .ack m.msgId ∈ es
      · rw [unacked_append_of_mem hack]
      · have hW' : W ≤ ticks es := hgone.resolve_left hack
        have hin : ticks es + 1 ∉ transmissionTicks W R := by
          intro hin
          have := transmissionTicks_le hpos hle hin
          omega
        rw [unacked_of_notMem hack, unacked_of_notMem (by simp [hack]), hticks, hsucc, if_neg hin,
          List.append_nil]
    · rcases hgone with hack | hW'
      · exact .inl (List.mem_append_left _ hack)
      · exact .inr (by omega)

/-- Every round of the writer keeps the message on its schedule. -/
theorem OnSchedule.step {cfg : RtoConfig} {W R : ℕ} (hW : cfg.maxWaitTtl.toInt = W)
    (hR : cfg.maxRetryTtl.toInt = R) (hpos : 1 ≤ R) (hle : R ≤ W) {m : PushMsg}
    {es : List WriterEvent} {w w' : Writer} {l o : List WriterOut} {e : WriterEvent}
    (h : OnSchedule W R m es w l) (hstep : w.RtoStep cfg e w' o)
    (hother : ∀ m', e = .message m' → m'.msgId ≠ m.msgId) :
    OnSchedule W R m (es ++ [e]) w' (l ++ o) := by
  cases hstep with
  | message m' =>
      have hne := (hother m' rfl).symm
      exact h.quiet rfl (by simp) (ticked_notMem_handleSend cfg w.queue m')
        (handleSend_framesOf_of_ne hne) (handleSend_lookup_of_ne hne)
  | closed | ping | pingFailed => exact h.quiet rfl (by simp) (by simp) rfl rfl
  | ack ackSeq =>
      by_cases hack : ackSeq = m.msgId
      · rw [hack]
        exact h.ack
      · refine h.quiet rfl (by simp [hack]) (by simp) rfl ?_
        rw [handleAck_lookup, if_neg (Ne.symm hack)]
  | panic hwalk =>
      -- only a zero `max_retry_ttl` makes the walk panic
      obtain ⟨p, hp⟩ := exists_rtoWalk (maxRetryTtl_ne_zero hR hpos) _ _
      exact absurd (hwalk.symm.trans hp) (by simp)
  | tick horder hwalk => exact h.tick hW hR hpos hle horder hwalk

/-! ## Runs -/

theorem OnSchedule.run {cfg : RtoConfig} {W R : ℕ} (hW : cfg.maxWaitTtl.toInt = W)
    (hR : cfg.maxRetryTtl.toInt = R) (hpos : 1 ≤ R) (hle : R ≤ W) {m : PushMsg}
    (hm : m.isBrAll = false) {es : List WriterEvent} {w₁ w : Writer} {l : List WriterOut}
    (hother : ∀ m', .message m' ∈ es → m'.msgId ≠ m.msgId)
    (h : (rtoWriter cfg).execFrom w₁ (.message m :: es) = some (w, l)) :
    OnSchedule W R m es w l := by
  induction es using List.reverseRecOn generalizing w l with
  | nil =>
      obtain ⟨w₂, o, k, hstep, hnil, rfl⟩ := (Machine.execFrom_cons_iff _).mp h
      obtain ⟨rfl, rfl⟩ := Prod.mk.inj (Option.some.inj hnil)
      rw [List.append_nil]
      cases (Writer.rtoStep_cases hstep).2 with
      | message => exact .start hW hR hpos hle hm w₁
  | append_singleton es e ih =>
      rw [← List.cons_append] at h
      obtain ⟨w₂, k, o, hes, hstep, rfl⟩ := (Machine.execFrom_concat_iff _).mp h
      have ih := ih (fun m' hm' => hother m' (List.mem_append_left _ hm')) hes
      refine ih.step hW hR hpos hle (Writer.rtoStep_cases hstep).2 ?_
      rintro m' rfl
      exact hother m' (by simp)

/-- Before the message is taken there is no entry for it and nothing is sent for it. -/
theorem frames_before {cfg : RtoConfig} {msgId : ℕ} {es : List WriterEvent} {w : Writer}
    {l : List WriterOut} (hother : ∀ m', .message m' ∈ es → m'.msgId ≠ msgId)
    (h : (rtoWriter cfg).exec es = some (w, l)) :
    w.queue.lookup msgId = none ∧ framesOf msgId l = [] := by
  induction es using List.reverseRecOn generalizing w l with
  | nil =>
      obtain ⟨rfl, rfl⟩ := Prod.mk.inj (Option.some.inj h)
      exact ⟨Finmap.lookup_empty msgId, rfl⟩
  | append_singleton es e ih =>
      obtain ⟨w₂, k, o, hes, hstep, rfl⟩ := (Machine.exec_concat_iff _).mp h
      obtain ⟨hnone, hframes⟩ := ih (fun m' hm' => hother m' (List.mem_append_left _ hm')) hes
      rw [framesOf_append, hframes, List.nil_append]
      cases (Writer.rtoStep_cases hstep).2 with
      | message m' =>
          have hne : msgId ≠ m'.msgId := (hother m' (by simp)).symm
          exact ⟨(handleSend_lookup_of_ne hne).trans hnone, handleSend_framesOf_of_ne hne⟩
      | closed | ping | pingFailed | panic => exact ⟨hnone, rfl⟩
      | ack ackSeq =>
          refine ⟨?_, rfl⟩
          rw [handleAck_lookup, hnone, ite_self]
      | tick horder hwalk =>
          have hnot : msgId ∉ _ := fun hmem => by
            obtain ⟨msg, hmsg⟩ := horder.mem_iff.mp hmem
            exact absurd (hnone.symm.trans hmsg) (by simp)
          obtain ⟨hlook, hout⟩ := rtoWalk_of_notMem hwalk hnot
          exact ⟨hlook.trans hnone, hout⟩

/-- **A peer message is transmitted, always as the same frame, when it is taken from `c.send` and at
the ticks of the schedule that come before its ack: `R` times in all when there is no ack by the
`W`-th tick. Its entry stays until the ack or the `W`-th tick, and an ack ends the
transmissions.** -/
theorem retransmission_schedule {cfg : RtoConfig} {W R : ℕ} (hW : cfg.maxWaitTtl.toInt = W)
    (hR : cfg.maxRetryTtl.toInt = R) (hpos : 1 ≤ R) (hle : R ≤ W) {m : PushMsg}
    (hm : m.isBrAll = false) {pre post : List WriterEvent}
    (honce : ∀ m', .message m' ∈ pre ++ post → m'.msgId ≠ m.msgId) {w₁ w : Writer}
    {l₁ l : List WriterOut} (hpre : (rtoWriter cfg).exec pre = some (w₁, l₁))
    (hpost : (rtoWriter cfg).execFrom w₁ (.message m :: post) = some (w, l)) :
    framesOf m.msgId l₁ = [] ∧
    stamped m.msgId 0 l =
      ((transmissionTicks W R).filter (· ≤ ticks (unacked m.msgId post))).map
        (·, pushFrame m.msgId m.msgBody false) ∧
    (W ≤ ticks (unacked m.msgId post) → (stamped m.msgId 0 l).length = R) ∧
    (m.msgId ∈ w.queue ↔ .ack m.msgId ∉ post ∧ ticks post < W) ∧
    (∀ before after w' l', post = before ++ .ack m.msgId :: after →
      (rtoWriter cfg).execFrom w₁ (.message m :: before) = some (w', l') →
      stamped m.msgId 0 l = stamped m.msgId 0 l') := by
  have hafter : ∀ m', .message m' ∈ post → m'.msgId ≠ m.msgId :=
    fun m' hm' => honce m' (List.mem_append_right _ hm')
  have hrun := OnSchedule.run hW hR hpos hle hm hafter hpost
  have hbefore := frames_before (fun m' hm' => honce m' (List.mem_append_left _ hm')) hpre
  refine ⟨hbefore.2, hrun.stamps, ?_, ?_, ?_⟩
  · intro hlong
    have hall : ∀ t ∈ transmissionTicks W R, t ≤ ticks (unacked m.msgId post) :=
      fun t ht => (transmissionTicks_le hpos hle ht).trans hlong
    rw [hrun.stamps, List.filter_eq_self.mpr (fun t ht => by simpa using hall t ht),
      List.length_map, transmissionTicks, List.length_cons, List.length_map, List.length_range']
    omega
  · rw [Finmap.mem_iff]
    rcases hrun.entry with ⟨j, msg, hmsg, _, hn, hack⟩ | ⟨habs, hgone⟩
    · exact ⟨fun _ => ⟨hack, hn⟩, fun _ => ⟨msg, hmsg⟩⟩
    · constructor
      · rintro ⟨msg, hmsg⟩
        exact absurd (habs.symm.trans hmsg) (by simp)
      · rintro ⟨hack, hn⟩
        rcases hgone with hack' | hn'
        · exact absurd hack' hack
        · omega
  · rintro before after w' l' rfl hbef
    have hrun' := OnSchedule.run hW hR hpos hle hm
      (fun m' hm' => hafter m' (List.mem_append_left _ hm')) hbef
    rw [hrun.stamps, hrun'.stamps, unacked_append_ack]

/-- A message with `W = 5` and `R = 2`, among a ping, an ack for another message and six ticks. -/
def twoTransmissions : List WriterEvent :=
  [.tick [7], .ping true, .tick [7], .tick [7], .tick [7], .ack 9, .tick [7], .tick []]

theorem twoTransmissions_schedule :
    ∃ w l, (rtoWriter ⟨2, 5⟩).exec (.message ⟨7, [1], false⟩ :: twoTransmissions) = some (w, l) ∧
      stamped 7 0 l = [(0, pushFrame 7 [1] false), (4, pushFrame 7 [1] false)] ∧ 7 ∉ w.queue := by
  have hsome : ((rtoWriter ⟨2, 5⟩).exec (.message ⟨7, [1], false⟩ :: twoTransmissions)).isSome := by
    decide
  obtain ⟨⟨w, l⟩, h⟩ := Option.isSome_iff_exists.mp hsome
  have hW : (⟨2, 5⟩ : RtoConfig).maxWaitTtl.toInt = (5 : ℕ) := rfl
  have hR : (⟨2, 5⟩ : RtoConfig).maxRetryTtl.toInt = (2 : ℕ) := rfl
  have hpre : (rtoWriter ⟨2, 5⟩).exec [] = some ((rtoWriter ⟨2, 5⟩).init, []) := rfl
  obtain ⟨_, hstamps, _, hentry, _⟩ := retransmission_schedule hW hR (by decide) (by decide) rfl
    (by simp [twoTransmissions]) hpre h
  refine ⟨w, l, h, ?_, ?_⟩
  · rw [hstamps]
    decide
  · rw [hentry]
    decide

end Skytime
