/-
# Skytime.WebSocket.Calls — the messages that are sent are the first of those that are offered.

`WriteMessage` is called with one message after the other. When a call with a data message fails,
the error stays in `c.writeErr`, so every later call fails as well. Hence the calls that return
`nil` are the first ones, and none of them is left out.
-/
import Skytime.WebSocket.Sender

namespace Skytime.WebSocket

open Process

/-- The data messages that `WriteMessage` is called with. -/
def dataCalls (as : List WriteAction) : List Message :=
  as.filterMap fun
    | .writeMessage t data => (dataType t).map fun t => (t, data)
    | _ => none

@[simp] theorem dataCalls_append (as bs : List WriteAction) :
    dataCalls (as ++ bs) = dataCalls as ++ dataCalls bs :=
  List.filterMap_append

@[simp] theorem sentOf_append (l k : List WriteEvent) : sentOf (l ++ k) = sentOf l ++ sentOf k :=
  List.filterMap_append

/-- The message of a call, if it is a data message. -/
def Call.message (c : Call) : List Message :=
  ((dataType c.messageType).map fun t => (t, c.data)).toList

/-- The data message of the call under way. -/
def Stage.underway (st : Stage) : List Message :=
  match st.frame with
  | some (c, _, _) => c.message
  | none => []

/-- What the fields are between the frames of a call. -/
def StageSound (s : WriteSide) : Stage → Prop
  | .idle => s.writeFrameType = none
  | .previous _ => False
  | .whole c => s.writeFrameType = some c.messageType ∧ c.seq = s.writeSeq
  | .copying c _ | .last c => s.writeFrameType = some c.messageType ∨
      s.writeFrameType = some .continuation ∧ isControl c.messageType = false

/-- Every call so far has returned `nil`, or failed as a control message; or a call has failed for
good. -/
inductive CallsOk (s : WriteSide) (sent calls : List Message) : Prop where
  | running (herr : s.writeErr = none) (hstage : StageSound s s.stage)
      (hcalls : sent ++ s.stage.underway = calls)
  | failed (hidle : s.stage = .idle) (herr : s.writeErr ≠ none) (hcalls : sent <+: calls)

/-- What `flushFrame` comes to for the fields of the write side: it refuses a control frame, or
fails with an error that stays, or makes ready for the next frame. -/
theorem flushFrame_fields (cfg : WriteConfig) {s : WriteSide} {t : FrameType} (final : Bool)
    (extra : List UInt8) (key : MaskKey) (room : ℕ) (ht : s.writeFrameType = some t) :
    (isControl t = true ∧ s.flushFrame cfg final extra key room =
        ({ s with writeSeq := s.writeSeq + 1, writeFrameType := none, buf := [] },
          some .invalidControlFrame, [])) ∨
      (∃ u e b, s.flushFrame cfg final extra key room = (u, some e, b) ∧ u.writeErr ≠ none) ∨
      ∃ u b, s.flushFrame cfg final extra key room = (u, none, b) ∧ u.writeErr = none ∧
        u.writeFrameType = (if final then none else some .continuation) ∧
        u.writeSeq = (if final then s.writeSeq + 1 else s.writeSeq) ∧
        (isControl t = true → final = true) := by
  by_cases hinvalid : isControl t ∧
      (final = false ∨ s.buf.length + extra.length > maxControlFramePayloadSize)
  · exact .inl ⟨hinvalid.1, by simp only [WriteSide.flushFrame, ht, if_pos hinvalid]⟩
  · right
    by_cases hclient : cfg.isServer = false ∧ extra ≠ []
    · left
      exact ⟨{ s with writeErr := some .extraInClientMode }, .extraInClientMode, [],
        by simp only [WriteSide.flushFrame, ht, if_neg hinvalid, if_pos hclient], by simp⟩
    · have hcontrol : isControl t = true → final = true := by
        intro hc
        by_contra hfinal
        exact hinvalid ⟨hc, .inl (by simpa using hfinal)⟩
      set bufs : List (List UInt8) :=
        [flushHeader cfg.isServer final t key (s.buf.length + extra.length) ++
          (if cfg.isServer then s.buf else (maskBytes key 0 s.buf).1), extra] with hbufs
      generalize hw : s.write t bufs room = w
      have hrun : s.flushFrame cfg final extra key room =
          ({ w.1 with
              writeErr := w.2.1
              buf := []
              writeFrameType := if final then none else some .continuation
              writeSeq := if final then s.writeSeq + 1 else s.writeSeq }, w.2.1, w.2.2) := by
        simp only [WriteSide.flushFrame, ht, if_neg hinvalid, if_neg hclient, ← hbufs, hw]
      obtain ⟨v, e, b⟩ := w
      cases e with
      | some e => exact .inl ⟨_, e, b, hrun, by simp⟩
      | none => exact .inr ⟨_, b, hrun, rfl, rfl, rfl, hcontrol⟩

/-! ## In every run -/

section Steps

variable {cfg : WriteConfig} {s t : WriteSide} {l o : List WriteEvent} {calls : List Message}

/-- A call begins. -/
theorem StageSound.begin (cfg : WriteConfig) (herr : s.writeErr = none)
    (h : s.writeFrameType = none) (ft : FrameType) (data : List UInt8) :
    (s.begin cfg ft data).1.writeErr = none ∧
      StageSound (s.begin cfg ft data).1 (s.begin cfg ft data).1.stage ∧
      sentOf (s.begin cfg ft data).2 ++ (s.begin cfg ft data).1.stage.underway =
        (Call.mk ft data s.writeSeq).message := by
  simp only [WriteSide.begin]
  by_cases hbad : isControl ft = false ∧ isData ft = false
  · rw [if_pos hbad]
    refine ⟨herr, h, ?_⟩
    cases ft <;> simp_all [isControl, isData, sentOf, Stage.underway, Stage.frame, Call.message,
      dataType]
  · rw [if_neg hbad]
    split_ifs
    · exact ⟨herr, ⟨rfl, rfl⟩, rfl⟩
    · simp only [WriteSide.copy]
      split_ifs <;> exact ⟨herr, .inl rfl, rfl⟩

/-- A round of the copy loop keeps the call. -/
theorem StageSound.copy (cfg : WriteConfig) (c : Call) (rest : List UInt8)
    (h : s.writeFrameType = some c.messageType ∨
      s.writeFrameType = some .continuation ∧ isControl c.messageType = false) :
    (s.copy cfg c rest).writeErr = s.writeErr ∧
      StageSound (s.copy cfg c rest) (s.copy cfg c rest).stage ∧
      (s.copy cfg c rest).stage.underway = c.message := by
  simp only [WriteSide.copy]
  split_ifs <;> exact ⟨rfl, h, rfl⟩

/-- The frame that the next flush is for. -/
theorem StageSound.frame {st : Stage} {c : Call} {final : Bool} {extra : List UInt8}
    (h : StageSound s st) (hframe : st.frame = some (c, final, extra)) :
    ∃ ft, s.writeFrameType = some ft ∧ (isControl ft = isControl c.messageType) ∧
      (final = true → st = .last c ∨ st = .whole c ∧ c.seq = s.writeSeq) ∧
      (final = false → ∃ rest, st = .copying c rest) := by
  cases st with
  | idle => exact absurd hframe (by simp [Stage.frame])
  | previous c' => exact h.elim
  | whole c' =>
      obtain ⟨rfl, rfl, rfl⟩ : c' = c ∧ true = final ∧ c'.data = extra := by
        simpa [Stage.frame] using hframe
      exact ⟨_, h.1, rfl, fun _ => .inr ⟨rfl, h.2⟩, by simp⟩
  | copying c' rest =>
      obtain ⟨rfl, rfl, rfl⟩ : c' = c ∧ false = final ∧ [] = extra := by
        simpa [Stage.frame] using hframe
      rcases h with h | ⟨h, hc⟩
      · exact ⟨_, h, rfl, by simp, fun _ => ⟨rest, rfl⟩⟩
      · exact ⟨_, h, hc.symm, by simp, fun _ => ⟨rest, rfl⟩⟩
  | last c' =>
      obtain ⟨rfl, rfl, rfl⟩ : c' = c ∧ true = final ∧ [] = extra := by
        simpa [Stage.frame] using hframe
      rcases h with h | ⟨h, hc⟩
      · exact ⟨_, h, rfl, fun _ => .inl rfl, by simp⟩
      · exact ⟨_, h, hc.symm, fun _ => .inl rfl, by simp⟩

/-- Behind the last frame the call returns. -/
theorem proceed_final (cfg : WriteConfig) {u : WriteSide} {st : Stage} {c : Call}
    (hst : st = .last c ∨ st = .whole c ∧ c.seq = s.writeSeq)
    (hseq : u.writeSeq = s.writeSeq + 1) :
    u.proceed cfg st = ({ u with stage := .idle }, [.returned c.messageType c.data]) := by
  rcases hst with rfl | ⟨rfl, hc⟩
  · rfl
  · rw [WriteSide.proceed, if_neg (by omega)]
    rfl

theorem underway_of_frame {st : Stage} {c : Call} {final : Bool} {extra : List UInt8}
    (hframe : st.frame = some (c, final, extra)) : st.underway = c.message := by
  rw [Stage.underway, hframe]

theorem sentOf_returned (b : List UInt8) (c : Call) :
    sentOf [.bytes b, .returned c.messageType c.data] = c.message := by
  simp only [sentOf, Call.message]
  cases hmt : dataType c.messageType <;> simp [hmt]

theorem CallsOk.flush {key : MaskKey} {room : ℕ} (h : CallsOk s (sentOf l) calls)
    (hstep : (sender cfg).step s (.flush key room) = some (t, o)) :
    CallsOk t (sentOf (l ++ o)) calls := by
  rw [sentOf_append]
  simp only [sender] at hstep
  cases hframe : s.stage.frame with
  | none => simp only [hframe, reduceCtorEq] at hstep
  | some p =>
      obtain ⟨c, final, extra⟩ := p
      simp only [hframe, Option.some.injEq] at hstep
      cases h with
      | failed hidle =>
          rw [hidle] at hframe
          exact absurd hframe (by simp [Stage.frame])
      | running herr hstage hcalls =>
          rw [underway_of_frame hframe] at hcalls
          obtain ⟨ft, hft, hcontrol, hlast, hcopying⟩ := hstage.frame hframe
          rcases flushFrame_fields cfg final extra key room hft with
            ⟨hc, hrun⟩ | ⟨u, e, b, hrun, hu⟩ | ⟨u, b, hrun, huerr, huframe, huseq, hfinal⟩
          · rw [hrun] at hstep
            obtain ⟨rfl, rfl⟩ := Prod.mk.inj hstep
            have hnone : c.message = [] := by
              rw [hcontrol] at hc
              rw [Call.message]
              cases hmt : c.messageType <;> simp_all [isControl, dataType]
            rw [hnone] at hcalls
            exact .running herr rfl (by rw [← hcalls]; exact List.append_nil _)
          · rw [hrun] at hstep
            obtain ⟨rfl, rfl⟩ := Prod.mk.inj hstep
            refine .failed rfl hu ?_
            rw [← hcalls]
            simp [sentOf, WriteSide.leave]
          · rw [hrun] at hstep
            cases final with
            | true =>
                have hnext := proceed_final cfg (s := s) (u := u) (hlast rfl) huseq
                simp only [hnext] at hstep
                obtain ⟨rfl, rfl⟩ := Prod.mk.inj hstep
                refine .running huerr huframe ?_
                rw [sentOf_returned, ← hcalls]
                exact List.append_nil _
            | false =>
                obtain ⟨rest, hrest⟩ := hcopying rfl
                simp only [hrest, WriteSide.proceed] at hstep
                obtain ⟨rfl, rfl⟩ := Prod.mk.inj hstep
                have hdata : isControl c.messageType = false := by
                  rw [← hcontrol]
                  by_contra hc
                  exact absurd (hfinal (by simpa using hc)) (by simp)
                obtain ⟨herr', hstage', hunder⟩ :=
                  StageSound.copy cfg c rest (.inr ⟨huframe, hdata⟩)
                refine .running (herr'.trans huerr) hstage' ?_
                rw [hunder, ← hcalls]
                simp [sentOf]

theorem CallsOk.writeMessage {ft : FrameType} {data : List UInt8} (h : CallsOk s (sentOf l) calls)
    (hstep : (sender cfg).step s (.writeMessage ft data) = some (t, o)) :
    CallsOk t (sentOf (l ++ o)) (calls ++ dataCalls [.writeMessage ft data]) := by
  rw [sentOf_append]
  have hidle : s.stage = .idle := by
    by_contra hbusy
    simp only [sender, if_neg hbusy, reduceCtorEq] at hstep
  simp only [sender, if_pos hidle] at hstep
  cases h with
  | running herr hstage hcalls =>
      rw [hidle] at hstage hcalls
      simp only [herr, if_pos (show s.writeFrameType = none from hstage), Option.some.injEq]
        at hstep
      obtain ⟨herr', hstage', hunder⟩ := StageSound.begin cfg herr hstage ft data
      rw [hstep] at herr' hstage' hunder
      refine .running herr' hstage' ?_
      rw [List.append_assoc, hunder, ← hcalls]
      have hnew : dataCalls [.writeMessage ft data] = (Call.mk ft data s.writeSeq).message := by
        simp only [dataCalls, Call.message]
        cases hmt : dataType ft <;> simp [hmt]
      rw [hnew]
      exact congrArg (· ++ _) (List.append_nil _).symm
  | failed _ herr hcalls =>
      obtain ⟨e, he⟩ := Option.ne_none_iff_exists'.mp herr
      simp only [he] at hstep
      obtain ⟨rfl, rfl⟩ := Prod.mk.inj (Option.some.inj hstep)
      refine .failed hidle herr ?_
      rw [show sentOf [.failed ft data e] = [] from rfl, List.append_nil]
      exact hcalls.trans (List.prefix_append _ _)

/-- What changes neither the call under way nor its fields. -/
theorem CallsOk.keep (h : CallsOk s (sentOf l) calls) (hsent : sentOf o = [])
    (hstage : t.stage = s.stage) (herr : t.writeErr = s.writeErr)
    (hframe : t.writeFrameType = s.writeFrameType) (hseq : t.writeSeq = s.writeSeq) :
    CallsOk t (sentOf (l ++ o)) calls := by
  rw [sentOf_append, hsent, List.append_nil]
  cases h with
  | running herr' hsound hcalls =>
      refine .running (herr.trans herr') ?_ (by rw [hstage]; exact hcalls)
      rw [hstage]
      cases hst : s.stage with
      | idle =>
          rw [hst] at hsound
          exact hframe.trans hsound
      | previous c =>
          rw [hst] at hsound
          exact hsound
      | whole c =>
          rw [hst] at hsound
          exact ⟨hframe.trans hsound.1, hsound.2.trans hseq.symm⟩
      | copying c rest | last c =>
          rw [hst] at hsound
          exact hsound.imp hframe.trans (And.imp_left hframe.trans)
  | failed hidle herr' hcalls => exact .failed (hstage.trans hidle) (herr ▸ herr') hcalls

/-- `WriteControl` is no call of `WriteMessage`. -/
theorem writeControl_fields (cfg : WriteConfig) (s : WriteSide) (ft : FrameType)
    (data : List UInt8) (key : MaskKey) (room : ℕ) :
    (s.writeControl cfg ft data key room).1.stage = s.stage ∧
      (s.writeControl cfg ft data key room).1.writeErr = s.writeErr ∧
      (s.writeControl cfg ft data key room).1.writeFrameType = s.writeFrameType ∧
      (s.writeControl cfg ft data key room).1.writeSeq = s.writeSeq := by
  simp only [WriteSide.writeControl]
  split_ifs <;> exact ⟨rfl, rfl, rfl, rfl⟩

theorem CallsOk.step {a : WriteAction} (h : CallsOk s (sentOf l) calls)
    (hstep : (sender cfg).step s a = some (t, o)) :
    CallsOk t (sentOf (l ++ o)) (calls ++ dataCalls [a]) := by
  cases a with
  | writeMessage ft data => exact h.writeMessage hstep
  | flush key room =>
      rw [show dataCalls [.flush key room] = [] from rfl, List.append_nil]
      exact h.flush hstep
  | writeControl ft data key room =>
      rw [show dataCalls [.writeControl ft data key room] = [] from rfl, List.append_nil]
      obtain ⟨hstage, herr, hframe, hseq⟩ := writeControl_fields cfg s ft data key room
      obtain ⟨rfl, rfl⟩ := Prod.mk.inj (Option.some.inj hstep)
      exact h.keep rfl hstage herr hframe hseq
  | closeConn =>
      rw [show dataCalls [.closeConn] = [] from rfl, List.append_nil]
      obtain ⟨rfl, rfl⟩ := Prod.mk.inj (Option.some.inj hstep)
      exact h.keep rfl rfl rfl rfl rfl

theorem callsOk_exec {as : List WriteAction} (hexec : (sender cfg).exec as = some (s, l)) :
    CallsOk s (sentOf l) (dataCalls as) := by
  induction as using List.reverseRecOn generalizing s l with
  | nil =>
      obtain ⟨rfl, rfl⟩ := Prod.mk.inj (Option.some.inj hexec)
      exact .running rfl rfl rfl
  | append_singleton as a ih =>
      obtain ⟨u, k, o, hprev, hstep, rfl⟩ := (sender cfg).exec_concat_iff.mp hexec
      rw [dataCalls_append]
      exact (ih hprev).step hstep

/-- The messages that are sent are the first of those that are offered. -/
theorem sent_prefix {as : List WriteAction} (hexec : (sender cfg).exec as = some (s, l)) :
    sentOf l <+: dataCalls as := by
  cases callsOk_exec hexec with
  | running _ _ hcalls => exact ⟨_, hcalls⟩
  | failed _ _ hcalls => exact hcalls

end Steps

end Skytime.WebSocket
