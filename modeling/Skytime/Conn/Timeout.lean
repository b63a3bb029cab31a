/-
# Skytime.Conn.Timeout — a peer message that has timed out, and the retry test after it.

A tick of `writeRTO` makes two tests on every entry of `write_msg_Q`. The first deletes the entry
when `wait_ttl` has run out. The second sends the message again when `wait_ttl` lies below
`(retry_times - 1) * (max_wait_ttl / max_retry_ttl)`; it is made for a deleted entry as well. The
run of a writer is observed through what happens to each message: it is enqueued, dropped, sent
again. A dropped message is sent again exactly when a tick finds its entry overdue.
-/
import Skytime.Conn.Schedule
import Skytime.Process.Ledger

namespace Skytime

open Process

/-! ## What happens to a message -/

inductive Fate where
  /-- the message gets an entry in `write_msg_Q` -/
  | enqueued
  /-- the timeout check deletes the entry -/
  | dropped
  /-- a tick sends the message again; whether its entry is still in `write_msg_Q` -/
  | resent (kept : Bool)
  deriving DecidableEq, Repr

/-- What a tick does to one message, in the order of the source. -/
def RtoRound.fates (r : RtoRound) (kept : Bool) : List Fate :=
  (if r.expired then [.dropped] else []) ++ if r.resend then [.resent kept] else []

/-- What the tick that leads from `w` to `w'` does to the message `msgId`. -/
def tickFates (cfg : RtoConfig) (w w' : Writer) (msgId : ℕ) : List Fate :=
  match w.queue.lookup msgId with
  | none => []
  | some msg =>
    match rtoEntry cfg msg with
    | .error _ => []
    | .ok r => r.fates (w'.queue.lookup msgId).isSome

/-- What a round of the writer does to the messages. -/
def seeFates (cfg : RtoConfig) (w : Writer) (e : WriterEvent) (w' : Writer) : List (ℕ × Fate) :=
  match e with
  | .message m => if m.isBrAll then [] else [(m.msgId, .enqueued)]
  | .tick order => order.flatMap fun msgId => (tickFates cfg w w' msgId).map (Prod.mk msgId)
  | _ => []

/-- The last that the timeout check and the enqueueing have done to a message is to drop it. -/
def Gone (fates : List Fate) : Prop := ∃ later, .dropped :: later <:+ fates ∧ .enqueued ∉ later

/-- A message is sent again only while its entry is in `write_msg_Q`, and not after it has been
dropped, unless it has been enqueued anew. -/
def Final (fates : List Fate) : Prop :=
  ∀ pre kept, pre ++ [.resent kept] <+: fates → kept = true ∧ ¬ Gone pre

/-- No message that has been dropped for timeout is sent again. -/
def TimeoutFinal (l : List (ℕ × Fate)) : Prop := ∀ msgId, Final (eventsOf msgId l)

/-- The entry times out in the next tick while the retry test holds of it. -/
def Overdue (cfg : RtoConfig) (msg : WriteMsg) : Prop :=
  msg.waitTtl - 1 ≤ 0 ∧
    msg.waitTtl - 1 < (msg.retryTimes - 1) * (cfg.maxWaitTtl / cfg.maxRetryTtl)

/-- If the next event is a tick, it finds no overdue entry. -/
def NoneOverdue (cfg : RtoConfig) (w : Writer) (_ : List (ℕ × Fate)) : WriterEvent → Prop
  | .tick _ => ∀ msgId msg, w.queue.lookup msgId = some msg → ¬ Overdue cfg msg
  | _ => True

/-! ## Adding one fate -/

theorem not_gone_nil : ¬ Gone [] := by
  rintro ⟨later, hsuffix, -⟩
  exact absurd (List.suffix_nil.mp hsuffix) (by simp)

theorem not_gone_enqueued (fates : List Fate) : ¬ Gone (fates ++ [.enqueued]) := by
  rintro ⟨later, hsuffix, hnot⟩
  rcases List.suffix_concat_iff.mp hsuffix with heq | ⟨rest, heq, -⟩
  · exact absurd heq (by simp)
  · -- the suffix ends with the enqueueing
    cases rest with
    | nil => exact absurd heq (by simp)
    | cons x rest =>
        obtain ⟨-, rfl⟩ := List.cons.inj heq
        exact hnot (by simp)

/-- Sending a message again does not make it dropped. -/
theorem Gone.of_resent {fates : List Fate} {kept : Bool} (h : Gone (fates ++ [.resent kept])) :
    Gone fates := by
  obtain ⟨later, hsuffix, hnot⟩ := h
  rcases List.suffix_concat_iff.mp hsuffix with heq | ⟨rest, heq, hrest⟩
  · exact absurd heq (by simp)
  · cases rest with
    | nil => exact absurd heq (by simp)
    | cons x rest =>
        obtain ⟨rfl, rfl⟩ := List.cons.inj heq
        exact ⟨rest, hrest, fun hmem => hnot (List.mem_append_left _ hmem)⟩

theorem Final.concat {fates : List Fate} {f : Fate} (h : Final fates)
    (hf : ∀ kept, f = .resent kept → kept = true ∧ ¬ Gone fates) : Final (fates ++ [f]) := by
  intro pre kept hprefix
  rcases List.prefix_concat_iff.mp hprefix with heq | hprefix
  · obtain ⟨rfl, hlast⟩ := List.append_inj' heq rfl
    exact hf kept (List.cons.inj hlast).1.symm
  · exact h pre kept hprefix

theorem final_nil : Final [] := by
  intro pre kept hprefix
  exact absurd (List.prefix_nil.mp hprefix) (by simp)

/-! ## One tick and one message -/

/-- With a non-zero divisor the two tests decide what a tick does to an entry. -/
theorem exists_rtoEntry {cfg : RtoConfig} (h : cfg.maxRetryTtl ≠ 0) (msg : WriteMsg) :
    ∃ r, rtoEntry cfg msg = .ok r ∧ (r.expired = true ↔ msg.waitTtl - 1 ≤ 0) ∧
      (r.resend = true ↔
        msg.waitTtl - 1 < (msg.retryTimes - 1) * (cfg.maxWaitTtl / cfg.maxRetryTtl)) := by
  simp only [rtoEntry, if_neg h]
  split
  · rename_i hlt
    exact ⟨_, rfl, by simp, by simpa using hlt⟩
  · rename_i hge
    exact ⟨_, rfl, by simp, by simpa using hge⟩

/-- The fates of a message in a tick. -/
theorem eventsOf_tick {cfg : RtoConfig} {w w' : Writer} {order : List ℕ}
    (horder : w.queue.Range order) (msgId : ℕ) :
    eventsOf msgId (seeFates cfg w (.tick order) w') = tickFates cfg w w' msgId := by
  have hflat := eventsOf_flatMap msgId horder.nodup (tickFates cfg w w')
  rw [seeFates, hflat]
  split
  · rfl
  · rename_i hnot
    -- a message that the tick does not visit has no entry
    cases hlook : w.queue.lookup msgId with
    | none => simp only [tickFates, hlook]
    | some msg => exact absurd (horder.mem_iff.mpr ⟨msg, hlook⟩) hnot

/-- What a tick shows is what it does: a message is shown as sent again exactly when a frame of it
is sent, and as dropped exactly when its entry disappears. -/
theorem tickFates_spec {cfg : RtoConfig} {w : Writer} {order : List ℕ} {q : WriteMsgQ}
    {outs : List WriterOut} (horder : w.queue.Range order)
    (hwalk : rtoWalk cfg order w.queue = .ok (q, outs)) (msgId : ℕ) :
    ((∃ kept, .resent kept ∈ tickFates cfg w { w with queue := q } msgId) ↔
        framesOf msgId outs ≠ []) ∧
      (.dropped ∈ tickFates cfg w { w with queue := q } msgId ↔
        w.queue.lookup msgId ≠ none ∧ q.lookup msgId = none) := by
  cases hlook : w.queue.lookup msgId with
  | none =>
      obtain ⟨-, hframes⟩ := rtoWalk_of_notMem hwalk (horder.notMem_of_absent hlook)
      simp [tickFates, hlook, hframes]
  | some msg =>
      have hmem : msgId ∈ order := horder.mem_iff.mpr ⟨msg, hlook⟩
      obtain ⟨r, hr, hafter, hframes⟩ := rtoWalk_of_mem hwalk horder.nodup hmem hlook
      cases he : r.expired <;> cases hs : r.resend <;>
        simp [tickFates, hlook, hr, RtoRound.fates, he, hs, hafter, hframes]

/-- A message that is not dropped by a tick can be sent again by it. -/
theorem Final.tick {cfg : RtoConfig} (hdiv : cfg.maxRetryTtl ≠ 0) {w w' : Writer} {msgId : ℕ}
    {fates : List Fate} (h : Final fates)
    (hlive : (w.queue.lookup msgId).isSome → ¬ Gone fates)
    (hon : ∀ msg, w.queue.lookup msgId = some msg → ¬ Overdue cfg msg)
    (hafter : ∀ msg r, w.queue.lookup msgId = some msg → rtoEntry cfg msg = .ok r →
      w'.queue.lookup msgId = if r.expired then none else some r.msg)
    (habsent : w.queue.lookup msgId = none → w'.queue.lookup msgId = none) :
    Final (fates ++ tickFates cfg w w' msgId) ∧
      ((w'.queue.lookup msgId).isSome → ¬ Gone (fates ++ tickFates cfg w w' msgId)) := by
  cases hlook : w.queue.lookup msgId with
  | none =>
      simp only [tickFates, hlook, List.append_nil, habsent hlook, Option.isSome_none]
      exact ⟨h, by simp⟩
  | some msg =>
      have hgone : ¬ Gone fates := hlive (by rw [hlook]; rfl)
      obtain ⟨r, hr, hexpired, hresend⟩ := exists_rtoEntry hdiv msg
      have hlook' := hafter msg r hlook hr
      simp only [tickFates, hlook, hr, RtoRound.fates]
      cases he : r.expired with
      | true =>
          -- the entry is deleted, and it is not overdue
          have hkeep : r.resend = false := by
            rw [Bool.eq_false_iff, ne_eq, hresend]
            exact fun hlt => hon msg hlook ⟨hexpired.mp he, hlt⟩
          rw [he, if_pos rfl] at hlook'
          simp only [hkeep, hlook', if_true, Bool.false_eq_true, if_false, List.append_nil,
            Option.isSome_none]
          exact ⟨h.concat (by simp), by simp⟩
      | false =>
          rw [he, if_neg (by simp)] at hlook'
          simp only [hlook', Option.isSome_some, Bool.false_eq_true, if_false, List.nil_append]
          cases hs : r.resend with
          | false =>
              simp only [Bool.false_eq_true, if_false, List.append_nil]
              exact ⟨h, fun _ => hgone⟩
          | true =>
              simp only [if_true]
              refine ⟨h.concat fun kept heq => ?_, fun _ hg => hgone hg.of_resent⟩
              exact ⟨(Fate.resent.inj heq).symm, hgone⟩

/-! ## The invariant -/

/-- Nothing has been sent again after its timeout, and what has an entry is not dropped. -/
def Writer.InTime (w : Writer) (l : List (ℕ × Fate)) : Prop :=
  ∀ msgId, Final (eventsOf msgId l) ∧
    ((w.queue.lookup msgId).isSome → ¬ Gone (eventsOf msgId l))

theorem Writer.InTime.step {cfg : RtoConfig} (hdiv : cfg.maxRetryTtl ≠ 0) {w w' : Writer}
    {l : List (ℕ × Fate)} {e : WriterEvent} {o : List WriterOut} (h : w.InTime l)
    (hon : NoneOverdue cfg w l e) (hstep : w.RtoStep cfg e w' o) :
    w'.InTime (l ++ seeFates cfg w e w') := by
  intro msgId
  obtain ⟨hfinal, hlive⟩ := h msgId
  rw [eventsOf_append]
  cases hstep with
  | closed | ping | pingFailed =>
      simp only [seeFates, eventsOf, List.filter_nil, List.map_nil, List.append_nil]
      exact ⟨hfinal, hlive⟩
  | ack ackSeq =>
      simp only [seeFates, eventsOf, List.filter_nil, List.map_nil, List.append_nil]
      refine ⟨hfinal, fun hsome => hlive ?_⟩
      rw [handleAck_lookup] at hsome
      split at hsome
      · exact absurd hsome (by simp)
      · exact hsome
  | message m =>
      by_cases hm : msgId = m.msgId
      · subst hm
        cases hall : m.isBrAll with
        | true =>
            simp only [seeFates, handleSend, hall, if_true, eventsOf, List.filter_nil,
              List.map_nil, List.append_nil]
            exact ⟨hfinal, hlive⟩
        | false =>
            have hsee : eventsOf m.msgId (seeFates cfg w (.message m)
                { w with queue := (handleSend cfg w.queue m).1 }) = [.enqueued] := by
              simp [seeFates, hall, eventsOf]
            rw [hsee]
            exact ⟨hfinal.concat (by simp), fun _ => not_gone_enqueued _⟩
      · have hsee : eventsOf msgId (seeFates cfg w (.message m)
            { w with queue := (handleSend cfg w.queue m).1 }) = [] := by
          cases hall : m.isBrAll <;> simp [seeFates, hall, eventsOf, Ne.symm hm]
        rw [hsee, List.append_nil]
        simp only [handleSend_lookup_of_ne hm]
        exact ⟨hfinal, hlive⟩
  | @panic order e hwalk =>
      obtain ⟨p, hp⟩ := exists_rtoWalk hdiv order w.queue
      exact absurd (hp.symm.trans hwalk) (by simp)
  | @tick order q outs horder hwalk =>
      rw [eventsOf_tick horder]
      refine hfinal.tick hdiv hlive (hon msgId) (fun msg r hlook hr => ?_) (fun hnone => ?_)
      · have hmem : msgId ∈ order := horder.mem_iff.mpr ⟨msg, hlook⟩
        obtain ⟨r', hr', hafter, -⟩ := rtoWalk_of_mem hwalk horder.nodup hmem hlook
        obtain rfl := Except.ok.inj (hr'.symm.trans hr)
        exact hafter
      · exact (rtoWalk_of_notMem hwalk (horder.notMem_of_absent hnone)).1.trans hnone

/-- A tick that finds an overdue entry sends its message again after it has dropped it. -/
theorem not_final_of_overdue {cfg : RtoConfig} (hdiv : cfg.maxRetryTtl ≠ 0) {w w' : Writer}
    {l : List (ℕ × Fate)} {e : WriterEvent} {o : List WriterOut} (hon : ¬ NoneOverdue cfg w l e)
    (hstep : w.RtoStep cfg e w' o) : ¬ TimeoutFinal (l ++ seeFates cfg w e w') := by
  cases hstep with
  | closed | ping | pingFailed | ack | message => exact absurd trivial hon
  | @panic order e hwalk =>
      obtain ⟨p, hp⟩ := exists_rtoWalk hdiv order w.queue
      exact absurd (hp.symm.trans hwalk) (by simp)
  | @tick order q outs horder hwalk =>
      simp only [NoneOverdue, not_forall, not_not] at hon
      obtain ⟨msgId, msg, hlook, hout, hbehind⟩ := hon
      obtain ⟨r, hr, hexpired, hresend⟩ := exists_rtoEntry hdiv msg
      have hmem : msgId ∈ order := horder.mem_iff.mpr ⟨msg, hlook⟩
      obtain ⟨r', hr', hafter, -⟩ := rtoWalk_of_mem hwalk horder.nodup hmem hlook
      obtain rfl := Except.ok.inj (hr'.symm.trans hr)
      rw [hexpired.mpr hout, if_pos rfl] at hafter
      have hfates : tickFates cfg w { w with queue := q } msgId = [.dropped, .resent false] := by
        simp [tickFates, hlook, hr, RtoRound.fates, hexpired.mpr hout, hresend.mpr hbehind, hafter]
      intro hall
      have hfinal := hall msgId
      rw [eventsOf_append, eventsOf_tick horder, hfates] at hfinal
      have hlast := hfinal (eventsOf msgId l ++ [.dropped]) false (by simp)
      exact absurd hlast.1 (by simp)

/-- In a run of the writer no message is sent again after its timeout exactly when no tick of the
run finds an overdue entry. -/
theorem always_timeoutFinal_iff {cfg : RtoConfig} (hdiv : cfg.maxRetryTtl ≠ 0)
    (r : ((rtoWriter cfg).observe (seeFates cfg)).Run) :
    (r.Always fun _ l => TimeoutFinal l) ↔ r.EachStep (NoneOverdue cfg) := by
  refine r.always_iff_eachStep (I := Writer.InTime) ?_ ?_ ?_ ?_
  · exact fun msgId => ⟨final_nil, fun _ => not_gone_nil⟩
  · exact fun w l h msgId => (h msgId).1
  · intro w l e w' o h hon hstep
    obtain ⟨k, hk, rfl⟩ := Machine.observe_step_iff.mp hstep
    exact h.step hdiv hon (Writer.rtoStep_cases hk).2
  · intro w l e w' o _ hon hstep
    obtain ⟨k, hk, rfl⟩ := Machine.observe_step_iff.mp hstep
    exact not_final_of_overdue hdiv hon (Writer.rtoStep_cases hk).2

/-! ## Which settings let an entry become overdue -/

/-- One message that is never acknowledged, and `n` ticks. -/
def unanswered (n : ℕ) : List WriterEvent :=
  .message ⟨1, [], false⟩ :: List.replicate n (.tick [1])

section Settings

variable {cfg : RtoConfig} {W R : ℕ} (hW : cfg.maxWaitTtl.toInt = W)
  (hR : cfg.maxRetryTtl.toInt = R)

/-- An entry has ticks left, and it is on the schedule if there is one. -/
def Alive (W R : ℕ) (msg : WriteMsg) : Prop :=
  1 ≤ msg.waitTtl.toInt ∧ (R ≤ W → ∃ n j, n < W ∧ EntryAt W R n j msg.msgBody msg)

/-- The last retransmission falls on the last tick only if neighbouring thresholds are one tick
apart. -/
theorem last_tick_mem_iff (hpos : 1 ≤ R) (hle : R ≤ W) :
    W ∈ transmissionTicks W R ↔ W / R = 1 ∧ R ≠ 1 := by
  obtain ⟨n, rfl⟩ : ∃ n, W = n + 1 := ⟨W - 1, by omega⟩
  have hD : 1 ≤ (n + 1) / R := div_pos_of_le hpos hle
  rw [mem_transmissionTicks]
  constructor
  · rintro ⟨k, hk, hkR, heq⟩
    have hthr := threshold_le (n + 1) R k
    rw [retryTick] at heq
    have hone : (R - k) * ((n + 1) / R) = 1 := by omega
    exact ⟨Nat.eq_one_of_mul_eq_one_left hone, by omega⟩
  · rintro ⟨hone, hne⟩
    refine ⟨R - 1, by omega, by omega, ?_⟩
    rw [retryTick, hone, show R - (R - 1) = 1 by omega]
    omega

include hW hR

theorem Alive.start (hposW : 1 ≤ W) (hpos : 1 ≤ R) (body : List UInt8) :
    Alive W R ⟨body, cfg.maxRetryTtl, cfg.maxWaitTtl⟩ := by
  refine ⟨?_, fun hle => ⟨0, 0, hposW, rfl, by simpa using hW, by simpa using hR, .start hpos⟩⟩
  show 1 ≤ cfg.maxWaitTtl.toInt
  omega

/-- A tick keeps what it does not delete alive. -/
theorem Alive.tick (hpos : 1 ≤ R) {msg : WriteMsg} {r : RtoRound} (h : Alive W R msg)
    (hr : rtoEntry cfg msg = .ok r) (hexpired : r.expired = false) : Alive W R r.msg := by
  have hne := maxRetryTtl_ne_zero hR hpos
  obtain ⟨hwait, hschedule⟩ := h
  have hfields : r.msg.msgBody = msg.msgBody ∧ r.msg.waitTtl = msg.waitTtl - 1 ∧
      ¬ msg.waitTtl - 1 ≤ 0 := by
    simp only [rtoEntry, if_neg hne] at hr
    split at hr
    · obtain rfl := Except.ok.inj hr
      exact ⟨rfl, rfl, by simpa using hexpired⟩
    · obtain rfl := Except.ok.inj hr
      exact ⟨rfl, rfl, by simpa using hexpired⟩
  obtain ⟨hbody, hleft, hout⟩ := hfields
  rw [Int64.le_iff_toInt_le, Int64.toInt_zero] at hout
  refine ⟨by rw [hleft]; omega, fun hle => ?_⟩
  obtain ⟨n, j, hn, hentry⟩ := hschedule hle
  obtain ⟨j', hentry', hexp, -⟩ := hentry.tick hW hR hpos hle hn hr
  rw [hexpired] at hexp
  refine ⟨n + 1, j', ?_, hbody ▸ hentry'⟩
  by_contra hge
  exact absurd (hexp.mpr (by omega)) (by simp)

/-- With thresholds that are not one tick apart, or with one transmission, no entry that is alive is
overdue. -/
theorem Alive.not_overdue (hpos : 1 ≤ R) (hset : W / R ≠ 1 ∨ R = 1)
    {msg : WriteMsg} (h : Alive W R msg) : ¬ Overdue cfg msg := by
  have hne := maxRetryTtl_ne_zero hR hpos
  rintro ⟨hout, hbehind⟩
  rcases Nat.lt_or_ge W R with hlt | hle
  · -- the quotient is zero, so the threshold is
    have hdiv : cfg.maxWaitTtl / cfg.maxRetryTtl = 0 := by
      rw [← Int64.toInt_inj, toInt_quotient hW hR, Nat.div_eq_of_lt hlt, Int64.toInt_zero]
      rfl
    rw [hdiv, Int64.mul_zero, Int64.lt_iff_toInt_lt, Int64.toInt_zero] at hbehind
    have hwait := h.1
    rw [toInt_sub_one (by omega)] at hbehind
    omega
  · obtain ⟨n, j, hn, hentry⟩ := h.2 hle
    obtain ⟨r, hr, hexpired, hresend⟩ := exists_rtoEntry hne msg
    obtain ⟨j', -, hexp, hsend⟩ := hentry.tick hW hR hpos hle hn hr
    have hlast : n + 1 = W := by
      have := hexp.mp (hexpired.mpr hout)
      omega
    have hmem : W ∈ transmissionTicks W R := hlast ▸ hsend.mp (hresend.mpr hbehind)
    obtain ⟨hone, hR1⟩ := (last_tick_mem_iff hpos hle).mp hmem
    exact hset.elim (fun hq => hq hone) hR1

/-- No run of such a writer makes an entry overdue. -/
theorem eachStep_noneOverdue (hposW : 1 ≤ W) (hpos : 1 ≤ R) (hset : W / R ≠ 1 ∨ R = 1)
    (r : ((rtoWriter cfg).observe (seeFates cfg)).Run) : r.EachStep (NoneOverdue cfg) := by
  have halive : r.Always fun w _ => ∀ msgId msg, w.queue.lookup msgId = some msg →
      Alive W R msg := by
    refine Machine.Run.always ?_ ?_ r
    · intro msgId msg hlook
      exact absurd hlook (by simp [Machine.observe, rtoWriter, Finmap.lookup_empty])
    · intro w l e w' o h hstep
      obtain ⟨k, hk, rfl⟩ := Machine.observe_step_iff.mp hstep
      cases (Writer.rtoStep_cases hk).2 with
      | closed | ping | pingFailed | panic => exact h
      | ack ackSeq =>
          intro msgId msg hlook
          rw [handleAck_lookup] at hlook
          split at hlook
          · exact absurd hlook (by simp)
          · exact h msgId msg hlook
      | message m =>
          intro msgId msg hlook
          simp only [handleSend] at hlook
          split at hlook
          · exact h msgId msg hlook
          · rw [GoMap.lookup_insert] at hlook
            split at hlook
            · obtain rfl := Option.some.inj hlook
              exact .start hW hR hposW hpos m.msgBody
            · exact h msgId msg hlook
      | tick horder hwalk =>
          intro msgId msg hlook
          cases hbefore : w.queue.lookup msgId with
          | none =>
              have hnone := (rtoWalk_of_notMem hwalk (horder.notMem_of_absent hbefore)).1
              exact absurd ((hnone.trans hbefore).symm.trans hlook) (by simp)
          | some msg₀ =>
              have hmem := horder.mem_iff.mpr ⟨msg₀, hbefore⟩
              obtain ⟨x, hx, hafter, -⟩ := rtoWalk_of_mem hwalk horder.nodup hmem hbefore
              rw [hafter] at hlook
              split at hlook
              · exact absurd hlook (by simp)
              · rename_i hkeep
                obtain rfl := Option.some.inj hlook
                exact (h msgId msg₀ hbefore).tick hW hR hpos hx (by simpa using hkeep)
  intro pre e hpre w l hexec
  have hw := halive pre ((List.prefix_append pre [e]).trans hpre) w l hexec
  cases e with
  | tick order =>
      intro msgId msg hlook
      exact (hw msgId msg hlook).not_overdue hW hR hpos hset
  | message | closed | ping | ack => trivial

/-- While its ticks last, a message that is never acknowledged is the only entry of the writer and
is on the schedule. -/
theorem exists_unanswered (hpos : 1 ≤ R) (hle : R ≤ W) {n : ℕ} (hn : n < W) :
    ∃ w l msg j, ((rtoWriter cfg).observe (seeFates cfg)).exec (unanswered n) = some (w, l) ∧
      w.status = .running ∧ w.queue.Range [1] ∧ w.queue.lookup 1 = some msg ∧
      EntryAt W R n j [] msg := by
  have hne := maxRetryTtl_ne_zero hR hpos
  induction n with
  | zero =>
      refine ⟨_, _, _, 0, rfl, rfl, ?_, rfl, ⟨rfl, by simpa using hW, by simpa using hR,
        .start hpos⟩⟩
      rfl
  | succ n ih =>
      obtain ⟨w, l, msg, j, hexec, hrun, horder, hlook, hentry⟩ := ih (by omega)
      obtain ⟨x, hx, -, -⟩ := exists_rtoEntry hne msg
      obtain ⟨j', hentry', hexp, -⟩ := hentry.tick hW hR hpos hle (by omega) hx
      have hkeep : x.expired = false := by
        rw [Bool.eq_false_iff, ne_eq, hexp]
        omega
      have hstore : x.store 1 w.queue = w.queue.insert 1 x.msg := by
        rw [RtoRound.store, hkeep, if_neg (by simp)]
      have hwalk : rtoWalk cfg [1] w.queue = .ok (w.queue.insert 1 x.msg, x.outs 1 ++ []) := by
        simp only [rtoWalk, hlook, hx, hstore, bind, Except.bind, pure, Except.pure]
      have hstep : (rtoWriter cfg).step w (.tick [1]) =
          some ({ w with queue := w.queue.insert 1 x.msg }, .ticked :: (x.outs 1 ++ [])) := by
        simp only [rtoWriter, Writer.rtoStep, hrun, horder, hwalk, ne_eq, not_true, if_true,
          if_false]
      have hlist : unanswered (n + 1) = unanswered n ++ [.tick [1]] := by
        rw [unanswered, unanswered, List.replicate_succ', List.cons_append]
      rw [hlist]
      exact ⟨_, _, x.msg, j', (Machine.exec_concat_iff _).mpr
        ⟨w, l, _, hexec, Machine.observe_step_iff.mpr ⟨_, hstep, rfl⟩, rfl⟩, hrun,
        horder.insert_of_present hlook x.msg, Finmap.lookup_insert w.queue, hentry'⟩

/-- With thresholds one tick apart the last retransmission of a message that is never acknowledged
falls on the tick that drops it. -/
theorem exists_overdue (hpos : 1 ≤ R) (hone : W / R = 1) (hR1 : R ≠ 1) :
    ∃ r : ((rtoWriter cfg).observe (seeFates cfg)).Run, ¬ r.EachStep (NoneOverdue cfg) := by
  have hle : R ≤ W := by
    by_contra hlt
    rw [Nat.div_eq_of_lt (by omega)] at hone
    exact absurd hone (by simp)
  have hne := maxRetryTtl_ne_zero hR hpos
  obtain ⟨w, l, msg, j, hexec, hrun, horder, hlook, hentry⟩ :=
    exists_unanswered hW hR hpos hle (show W - 1 < W by omega)
  obtain ⟨p, hp⟩ := exists_rtoWalk hne [1] w.queue
  have hstep : (rtoWriter cfg).step w (.tick [1]) =
      some ({ w with queue := p.1 }, .ticked :: p.2) := by
    simp only [rtoWriter, Writer.rtoStep, hrun, horder, hp, ne_eq, not_true, if_true, if_false]
  refine ⟨⟨unanswered (W - 1) ++ [.tick [1]], _, _, (Machine.exec_concat_iff _).mpr
    ⟨w, l, _, hexec, Machine.observe_step_iff.mpr ⟨_, hstep, rfl⟩, rfl⟩⟩, fun hall => ?_⟩
  obtain ⟨x, hx, hexpired, hresend⟩ := exists_rtoEntry hne msg
  obtain ⟨j', -, hexp, hsend⟩ := hentry.tick hW hR hpos hle (by omega) hx
  rw [show W - 1 + 1 = W by omega] at hexp hsend
  have hout : x.expired = true := hexp.mpr (Nat.le_refl W)
  have hagain : x.resend = true := hsend.mpr ((last_tick_mem_iff hpos hle).mpr ⟨hone, hR1⟩)
  exact hall _ _ (List.prefix_refl _) w l hexec 1 msg hlook
    ⟨hexpired.mp hout, hresend.mp hagain⟩

end Settings

/-! ## Dropped for good -/

/-- **In a run of the writer no message is sent again after its timeout exactly when no tick of the
run finds an entry that times out while the retry test holds of it. With positive settings no run
does exactly when `max_wait_ttl / max_retry_ttl` is not one or `max_retry_ttl` is.** -/
theorem timeoutFinal_iff {cfg : RtoConfig} (hdiv : cfg.maxRetryTtl ≠ 0) :
    (∀ r : ((rtoWriter cfg).observe (seeFates cfg)).Run,
      (r.Always fun _ l => TimeoutFinal l) ↔ r.EachStep (NoneOverdue cfg)) ∧
    (0 < cfg.maxWaitTtl → 0 < cfg.maxRetryTtl →
      ((∀ r : ((rtoWriter cfg).observe (seeFates cfg)).Run, r.Always fun _ l => TimeoutFinal l) ↔
        cfg.maxWaitTtl / cfg.maxRetryTtl ≠ 1 ∨ cfg.maxRetryTtl = 1)) := by
  refine ⟨always_timeoutFinal_iff hdiv, fun hW hR => ?_⟩
  rw [Int64.lt_iff_toInt_lt, Int64.toInt_zero] at hW hR
  obtain ⟨W, hW'⟩ : ∃ W : ℕ, cfg.maxWaitTtl.toInt = W := ⟨_, (Int.toNat_of_nonneg hW.le).symm⟩
  obtain ⟨R, hR'⟩ : ∃ R : ℕ, cfg.maxRetryTtl.toInt = R := ⟨_, (Int.toNat_of_nonneg hR.le).symm⟩
  have hone : cfg.maxWaitTtl / cfg.maxRetryTtl = 1 ↔ W / R = 1 := by
    rw [← Int64.toInt_inj, toInt_quotient hW' hR', Int64.toInt_one]
    omega
  have hR1 : cfg.maxRetryTtl = 1 ↔ R = 1 := by
    rw [← Int64.toInt_inj, hR', Int64.toInt_one]
    omega
  rw [ne_eq, hone, hR1]
  constructor
  · intro hall
    by_contra hset
    obtain ⟨hq, hne⟩ := not_or.mp hset
    obtain ⟨r, hr⟩ := exists_overdue hW' hR' (by omega) (not_not.mp hq) hne
    exact hr ((always_timeoutFinal_iff hdiv r).mp (hall r))
  · intro hset r
    exact (always_timeoutFinal_iff hdiv r).mpr
      (eachStep_noneOverdue hW' hR' (by omega) (by omega) hset r)

/-- The default settings never send a message again after its timeout. -/
theorem defaults_timeoutFinal :
    (8 : Int64) ≠ 0 ∧ ∀ r : ((rtoWriter ⟨8, 64⟩).observe (seeFates ⟨8, 64⟩)).Run,
      r.Always fun _ l => TimeoutFinal l := by
  have hdiv : (⟨8, 64⟩ : RtoConfig).maxRetryTtl ≠ 0 := by decide
  exact ⟨hdiv, ((timeoutFinal_iff hdiv).2 (by decide) (by decide)).mpr (.inl (by decide))⟩

/-- With both settings two: a message that is never acknowledged, and two ticks. -/
def twoTicks : ((rtoWriter ⟨2, 2⟩).observe (seeFates ⟨2, 2⟩)).Run :=
  .ofActs (unanswered 2) (by decide +kernel)

/-- The second tick drops the message and sends it again. -/
theorem twoTicks_resent :
    twoTicks.log = [(1, .enqueued), (1, .dropped), (1, .resent false)] ∧
      ¬ twoTicks.Always fun _ l => TimeoutFinal l := by
  have hlog : twoTicks.log = [(1, .enqueued), (1, .dropped), (1, .resent false)] := by
    decide +kernel
  refine ⟨hlog, fun hall => ?_⟩
  have hfinal := hall.last 1 [.enqueued, .dropped] false (by rw [hlog]; decide)
  exact absurd hfinal.1 (by simp)

end Skytime
