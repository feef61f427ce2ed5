import EasyGrpc.Client.Proofs.BidirStreaming

set_option autoImplicit false

/-! # Progress and termination of the client's bidirectional session

Two properties a session is written to have, and the one kind of step that breaks each:

* an ended request stream is announced to the server and, once the server's end was read, the status
  is asked for (`never_stuck`): unless the handshake completes after the stream has ended with
  nothing queued, because the handshake branch of `exec` does not look at `finished_sending_`;
* the status is asked for once and the session is deleted last (`status_once_and_last`): unless the
  server's end is read while the close is still in flight, because `end_sent_` is set when the close
  is started and not when it completes. -/

namespace EasyGrpc

variable {Req Rep : Type}

namespace BidirStreamingCallSession

open BidirClientBatch

/-! ## What the sending side leaves alone -/

/-- `s'` comes from `s` by an operation of the sending side, which starts writes and at most one
    close. -/
structure SendStep (s s' : BidirStreamingCallSession Rep) : Prop where
  finishedReceiving : s'.finishedReceiving = s.finishedReceiving
  rep : s'.rep = s.rep
  startsStatus : s'.call.starts isStatus = s.call.starts isStatus
  pendingStatus : s'.call.pending isStatus = s.call.pending isStatus
  close :
    (s'.call.starts isClose = s.call.starts isClose ∧
      s'.call.pending isClose = s.call.pending isClose) ∨
    (s'.call.starts isClose = s.call.starts isClose + 1 ∧
      s'.call.pending isClose = s.call.pending isClose + 1)

theorem SendStep.flush (s : BidirStreamingCallSession Rep) : SendStep s s.flush := by
  unfold BidirStreamingCallSession.flush
  split
  · exact ⟨rfl, rfl, rfl, rfl, Or.inl ⟨rfl, rfl⟩⟩
  · split
    · exact ⟨rfl, rfl, rfl, rfl, Or.inl ⟨rfl, rfl⟩⟩
    · refine ⟨rfl, rfl, ?_, ?_, Or.inl ⟨?_, ?_⟩⟩ <;>
        simp [startBatch, Call.starts_startBatch, Call.pending_startBatch, isStatus, isClose]

theorem SendStep.sendClientEnd (s : BidirStreamingCallSession Rep) : SendStep s s.sendClientEnd := by
  refine ⟨rfl, rfl, ?_, ?_, Or.inr ⟨?_, ?_⟩⟩ <;>
    simp [BidirStreamingCallSession.sendClientEnd, startBatch, Call.starts_startBatch,
      Call.pending_startBatch, isStatus, isClose]

theorem SendStep.onRequest [Serializer Req] (s : BidirStreamingCallSession Rep) (req : Req) :
    SendStep s (s.onRequest req) := by
  obtain ⟨h1, h2, h3, h4, h5⟩ :=
    SendStep.flush { s with pendingOps := s.pendingOps ++ [serialize req] }
  exact ⟨h1, h2, h3, h4, h5⟩

theorem SendStep.onRequestsEnd (s : BidirStreamingCallSession Rep) (t : StreamEnd) :
    SendStep s (s.onRequestsEnd t) := by
  have hcall : ∀ p, (s.requestsEnded t).call.starts p = s.call.starts p ∧
      (s.requestsEnded t).call.pending p = s.call.pending p := by
    intro p
    unfold requestsEnded
    split <;> exact ⟨rfl, rfl⟩
  rw [onRequestsEnd_eq]
  split
  · obtain ⟨h1, h2, h3, h4, h5⟩ := SendStep.sendClientEnd (s.requestsEnded t)
    simp only [(hcall _).1, (hcall _).2] at h3 h4 h5
    exact ⟨h1, h2, h3, h4, h5⟩
  · exact ⟨rfl, rfl, (hcall _).1, (hcall _).2, Or.inl ⟨(hcall _).1, (hcall _).2⟩⟩

theorem SendStep.openGate (s : BidirStreamingCallSession Rep) : SendStep s s.openGate := by
  unfold BidirStreamingCallSession.openGate
  split
  · obtain ⟨h1, h2, h3, h4, h5⟩ := SendStep.flush { s with canSend := true }
    exact ⟨h1, h2, h3, h4, h5⟩
  · exact ⟨rfl, rfl, rfl, rfl, Or.inl ⟨rfl, rfl⟩⟩

theorem SendStep.afterWrite (s : BidirStreamingCallSession Rep) : SendStep s s.afterWrite := by
  unfold BidirStreamingCallSession.afterWrite
  split
  · obtain ⟨h1, h2, h3, h4, h5⟩ := SendStep.flush { s with canSend := true }
    exact ⟨h1, h2, h3, h4, h5⟩
  · split
    · obtain ⟨h1, h2, h3, h4, h5⟩ := SendStep.sendClientEnd { s with canSend := true }
      exact ⟨h1, h2, h3, h4, h5⟩
    · exact ⟨rfl, rfl, rfl, rfl, Or.inl ⟨rfl, rfl⟩⟩

end BidirStreamingCallSession

namespace BidirClient

open BidirStreamingCallSession BidirClientBatch

variable [Serializer Req] [Serializer Rep]

/-! ## What a step can do to the session -/

/-- The session after an enabled step: the sending side moved, `get_future` ran, a batch of a
    deleted session went away, or `exec` handled a batch. -/
theorem step_session {c c' : BidirClient Req Rep} {e : Event Req} (h : c.Inv)
    (hstep : c.step e = some c') :
    (SendStep c.session.obj c'.session.obj ∧ c'.session.deleted = c.session.deleted ∧
      ∀ i r, e ≠ .complete i r) ∨
    (c.returned = false ∧
      c'.session = c.session.update (fun s => { s with rep := s.rep.getFuture })) ∨
    ∃ i r b, e = .complete i r ∧ c.session.obj.call.outstanding[i]? = some b ∧
      ((c.session.deleted = true ∧ c'.session = ⟨c.session.obj.done i, true⟩) ∨
        (c.session.deleted = false ∧ c'.session = c.session.obj.handled i r b)) := by
  cases moves_of_step hstep with
  | push hret hopen =>
      rw [Live.update_of_live (h.live_of_open hopen)]
      exact Or.inl ⟨.onRequest _ _, rfl, fun _ _ he => by cases he⟩
  | finish hret hopen =>
      rw [Live.update_of_live (h.live_of_open hopen)]
      exact Or.inl ⟨.onRequestsEnd _ _, rfl, fun _ _ he => by cases he⟩
  | @complete i r session hwork =>
      obtain ⟨b, hb, hcase⟩ := complete_cases hwork
      exact Or.inr (Or.inr ⟨i, r, b, rfl, hb, hcase⟩)
  | getFuture hret => exact Or.inr (Or.inl ⟨hret, rfl⟩)

/-- The sending side after an enabled step. Only the handshake releases the gate without looking at
    the end of the stream. -/
theorem step_outbox {c c' : BidirClient Req Rep} {e : Event Req} (h : c.Inv)
    (hstep : c.step e = some c') :
    c'.session.obj.toOutbox = c.session.obj.toOutbox ∨
    (∃ m, c.session.obj.toOutbox.ended = false ∧
      c'.session.obj.toOutbox = c.session.obj.toOutbox.push m) ∨
    c'.session.obj.toOutbox = c.session.obj.toOutbox.finish ∨
    c'.session.obj.toOutbox = c.session.obj.toOutbox.release true ∨
    (∃ i r, e = .complete i r ∧ c.session.obj.call.outstanding[i]? = some .handshake ∧
      c'.session.obj.toOutbox = c.session.obj.toOutbox.release false) := by
  cases moves_of_step hstep with
  | @push req hret hopen =>
      rw [Live.update_of_live (h.live_of_open hopen)]
      refine Or.inr (Or.inl ⟨serialize req, ?_, toOutbox_onRequest _ req⟩)
      show c.session.obj.finishedSending = false
      rw [h.ended, hopen]
      rfl
  | @finish t hret hopen =>
      rw [Live.update_of_live (h.live_of_open hopen)]
      exact Or.inr (Or.inr (Or.inl (toOutbox_onRequestsEnd _ t)))
  | @complete i r session hwork =>
      obtain ⟨b, hb, ⟨-, rfl⟩ | ⟨-, rfl⟩⟩ := complete_cases hwork
      · exact Or.inl rfl
      · cases b with
        | handshake =>
            refine Or.inr (Or.inr (Or.inr (Or.inr ⟨i, r, rfl, hb, ?_⟩)))
            simp only [handled, toOutbox_startRead, toOutbox_openGate]
            rfl
        | write m => exact Or.inr (Or.inr (Or.inr (Or.inl (toOutbox_afterWrite _))))
        | close =>
            left
            simp only [handled]
            split
            · rw [toOutbox_finish]
              rfl
            · rfl
        | read =>
            left
            cases hmsg : r.message with
            | some data =>
                simp only [handled, hmsg, toOutbox_afterReply]
                rfl
            | none =>
                simp only [handled, hmsg, toOutbox_afterEnd]
                rfl
        | status => exact Or.inl rfl
  | getFuture hret =>
      left
      simp only [Live.update]
      split <;> rfl

/-- What was handed to gRPC core stays handed over. -/
theorem sent_step {c c' : BidirClient Req Rep} {e : Event Req} (h : c.Inv)
    (hstep : c.step e = some c') : c.session.obj.call.sent <+: c'.session.obj.call.sent := by
  show c.session.obj.toOutbox.sent <+: c'.session.obj.toOutbox.sent
  rcases step_outbox h hstep with hbox | ⟨m, -, hbox⟩ | hbox | hbox | ⟨-, -, -, -, hbox⟩
  · exact hbox ▸ List.prefix_rfl
  · rw [hbox]
    exact Outbox.sent_push _ _
  · rw [hbox]
    exact ⟨[], by rw [Outbox.sent_finish, List.append_nil]⟩
  · rw [hbox]
    exact Outbox.sent_release _ _
  · rw [hbox]
    exact Outbox.sent_release _ _

theorem returned_step {c c' : BidirClient Req Rep} {e : Event Req} (hstep : c.step e = some c')
    (hret : c.returned = true) : c'.returned = true := by
  cases moves_of_step hstep with
  | push _ hopen => exact hret
  | finish _ hopen => exact hret
  | complete hwork => exact hret
  | getFuture hno => rfl

omit [Serializer Req] in
/-- The reply stream after a completion: it is left alone, a reply is pushed, the server's end is
    noted, or the final status ends it. -/
theorem rep_complete {o o' : Live (BidirStreamingCallSession Rep)} {i : ℕ} {r : Received}
    (hwork : o.workerMain i r = some o') :
    (o'.obj.rep = o.obj.rep ∧ o'.deleted = o.deleted ∧
      o'.obj.finishedReceiving = o.obj.finishedReceiving ∧
      (o.deleted = true ∨ (o.obj.call.outstanding[i]? ≠ some .read ∧
        o.obj.call.outstanding[i]? ≠ some .status))) ∨
    (o.deleted = false ∧ o'.deleted = false ∧ o.obj.call.outstanding[i]? = some .read ∧
      ((∃ data, r.message = some data ∧ o'.obj.rep = o.obj.rep.push (deserialize data) ∧
          o'.obj.finishedReceiving = o.obj.finishedReceiving) ∨
        (r.message = none ∧ o'.obj.rep = o.obj.rep ∧ o'.obj.finishedReceiving = true))) ∨
    (o.deleted = false ∧ o'.deleted = true ∧ o.obj.call.outstanding[i]? = some .status ∧
      (∃ t, finalEnd r.status r.errorString = some t ∧ o'.obj.rep = o.obj.rep.finish t) ∧
      o'.obj.finishedReceiving = o.obj.finishedReceiving) := by
  obtain ⟨b, hb, ⟨hdel, rfl⟩ | ⟨hlive, rfl⟩⟩ := complete_cases hwork
  · exact Or.inl ⟨rfl, hdel.symm, rfl, Or.inl hdel⟩
  · cases b with
    | handshake =>
        have hgate := SendStep.openGate (o.obj.done i)
        exact Or.inl ⟨hgate.rep, hlive.symm, hgate.finishedReceiving, Or.inr (by simp [hb])⟩
    | write m =>
        have hafter := SendStep.afterWrite (o.obj.done i)
        exact Or.inl ⟨hafter.rep, hlive.symm, hafter.finishedReceiving, Or.inr (by simp [hb])⟩
    | close =>
        refine Or.inl ⟨?_, hlive.symm, ?_, Or.inr (by simp [hb])⟩
        · simp only [handled]
          split <;> rfl
        · simp only [handled]
          split <;> rfl
    | read =>
        refine Or.inr (Or.inl ⟨hlive, ?_, hb, ?_⟩)
        · simp only [handled]
          split <;> rfl
        · cases hmsg : r.message with
          | some data =>
              refine Or.inl ⟨data, rfl, ?_⟩
              simp only [handled, hmsg]
              exact ⟨rfl, rfl⟩
          | none =>
              refine Or.inr ⟨rfl, ?_⟩
              simp only [handled, hmsg, afterEnd]
              split <;> exact ⟨rfl, rfl⟩
    | status =>
        obtain ⟨t, ht⟩ := finalEnd_of_complete hwork hlive hb
        refine Or.inr (Or.inr ⟨hlive, rfl, hb, ⟨t, ht, ?_⟩, rfl⟩)
        simp only [handled, ht, Option.elim_some]

/-- The same for any step of a session whose future was taken. -/
theorem rep_step {c c' : BidirClient Req Rep} {e : Event Req} (h : c.Inv)
    (hret : c.returned = true) (hstep : c.step e = some c') :
    (c'.session.obj.rep = c.session.obj.rep ∧ c'.session.deleted = c.session.deleted ∧
      c'.session.obj.finishedReceiving = c.session.obj.finishedReceiving ∧
      ∀ i r, e = .complete i r → c.session.deleted = true ∨
        (c.session.obj.call.outstanding[i]? ≠ some .read ∧
          c.session.obj.call.outstanding[i]? ≠ some .status)) ∨
    (∃ i r, e = .complete i r ∧ c.session.deleted = false ∧ c'.session.deleted = false ∧
      c.session.obj.call.outstanding[i]? = some .read ∧
      ((∃ data, r.message = some data ∧
          c'.session.obj.rep = c.session.obj.rep.push (deserialize data) ∧
          c'.session.obj.finishedReceiving = c.session.obj.finishedReceiving) ∨
        (r.message = none ∧ c'.session.obj.rep = c.session.obj.rep ∧
          c'.session.obj.finishedReceiving = true))) ∨
    (∃ i r, e = .complete i r ∧ c.session.deleted = false ∧ c'.session.deleted = true ∧
      c.session.obj.call.outstanding[i]? = some .status ∧
      (∃ t, finalEnd r.status r.errorString = some t ∧
        c'.session.obj.rep = c.session.obj.rep.finish t) ∧
      c'.session.obj.finishedReceiving = c.session.obj.finishedReceiving) := by
  by_cases huser : ∀ i r, e ≠ .complete i r
  · rcases step_session h hstep with ⟨hsend, hdel, -⟩ | ⟨hno, -⟩ | ⟨i, r, -, he, -⟩
    · exact Or.inl ⟨hsend.rep, hdel, hsend.finishedReceiving, fun i r he => absurd he (huser i r)⟩
    · rw [hret] at hno
      cases hno
    · exact absurd he (huser i r)
  · push Not at huser
    obtain ⟨i, r, rfl⟩ := huser
    obtain ⟨session, hwork, rfl⟩ := Option.map_eq_some_iff.1 hstep
    rcases rep_complete hwork with ⟨hrep, hdel, hrecv, hother⟩ | hread | hstatus
    · refine Or.inl ⟨hrep, hdel, hrecv, ?_⟩
      rintro j q ⟨rfl, rfl⟩
      exact hother
    · exact Or.inr (Or.inl ⟨i, r, rfl, hread⟩)
    · exact Or.inr (Or.inr ⟨i, r, rfl, hstatus⟩)

/-! ## Nothing is left undone -/

/-- The handshake is done, the request stream has ended, nothing is being sent, and yet the end was
    never announced. -/
def CloseStalled (c : BidirClient Req Rep) : Prop :=
  c.session.obj.call.pending isHandshake = 0 ∧ c.session.obj.call.pending isWrite = 0 ∧
    c.session.obj.call.pending isClose = 0 ∧ c.session.obj.finishedSending = true ∧
    c.session.obj.call.starts isClose = 0

/-- Both directions have ended, nothing is outstanding, and yet the status was never asked for. -/
def StatusStalled (c : BidirClient Req Rep) : Prop :=
  c.session.obj.call.outstanding = [] ∧ c.session.obj.finishedSending = true ∧
    c.session.obj.finishedReceiving = true ∧ c.session.obj.call.starts isStatus = 0

/-- The handshake completes when the request stream has already ended with nothing queued. -/
def handshakeAfterEnd (c : BidirClient Req Rep) : Event Req → Bool
  | .complete i _ =>
      c.session.obj.call.outstanding[i]? == some .handshake &&
        c.session.obj.finishedSending && c.session.obj.pendingOps.isEmpty
  | _ => false

/-- Once the server's end was read and the close is done, the status was asked for. -/
def Asked (s : BidirStreamingCallSession Rep) : Prop :=
  s.finishedReceiving = true → s.call.starts isClose ≠ 0 → s.call.pending isClose = 0 →
    s.call.starts isStatus ≠ 0

omit [Serializer Rep] in
theorem Asked.send {s s' : BidirStreamingCallSession Rep} (h : Asked s) (hsend : SendStep s s') :
    Asked s' := by
  intro hrecv hstarts hpending
  rw [hsend.finishedReceiving] at hrecv
  rw [hsend.startsStatus]
  rcases hsend.close with ⟨hs, hp⟩ | ⟨-, hp⟩
  · exact h hrecv (by omega) (by omega)
  · omega

omit [Serializer Rep] in
/-- A batch other than the close goes away. -/
theorem Asked.done {s : BidirStreamingCallSession Rep} (h : Asked s) {i : ℕ} {b : BidirClientBatch}
    (hb : s.call.outstanding[i]? = some b) (hclose : isClose b = false) : Asked (s.done i) := by
  intro hrecv hstarts hpending
  obtain ⟨-, -, -, hC, -⟩ := pending_done hb
  rw [hclose, Bool.toNat_false, Nat.add_zero] at hC
  exact h hrecv hstarts (hC.trans hpending)

omit [Serializer Rep] in
theorem Asked.of_starts {s : BidirStreamingCallSession Rep}
    (h : s.call.starts isStatus ≠ 0) : Asked s := fun _ _ _ => h

omit [Serializer Rep] in
theorem starts_finish_status (s : BidirStreamingCallSession Rep) :
    s.finish.call.starts isStatus = s.call.starts isStatus + 1 := by
  simp [BidirStreamingCallSession.finish, startBatch, Call.starts_startBatch, isStatus]

theorem asked_step {c c' : BidirClient Req Rep} {e : Event Req} (hinv : c.Inv)
    (hstep : c.step e = some c') (h : Asked c.session.obj) : Asked c'.session.obj := by
  rcases step_session hinv hstep with ⟨hsend, -⟩ | ⟨-, hsess⟩ | ⟨i, r, b, -, hb, hcase⟩
  · exact h.send hsend
  · rw [hsess]
    unfold Live.update
    split <;> exact h
  · obtain ⟨hH, hW, hR, hC, hS⟩ := pending_done hb
    rcases hcase with ⟨hdel, hsess⟩ | ⟨hlive, hsess⟩
    · rw [hsess]
      exact .of_starts (hinv.counts.deleted_status (by simp [hdel]))
    · rw [hsess]
      cases b with
      | handshake =>
          refine (h.done hb rfl).send ?_
          obtain ⟨h1, h2, h3, h4, h5⟩ := SendStep.openGate (c.session.obj.done i)
          refine ⟨h1, h2, ?_, ?_, ?_⟩ <;>
            simpa [handled, startBatch, Call.starts_startBatch, Call.pending_startBatch, isStatus,
              isClose]
      | write m =>
          exact (h.done hb rfl).send (.afterWrite _)
      | close =>
          by_cases hrecv : c.session.obj.finishedReceiving = true
          · apply Asked.of_starts
            simp only [handled, hrecv, if_true, starts_finish_status]
            omega
          · intro hrecv'
            simp only [handled, hrecv] at hrecv'
            exact absurd hrecv' hrecv
      | read =>
          cases hmsg : r.message with
          | some data =>
              have hdone := h.done hb rfl
              intro hrecv hstarts hpending
              simp only [handled, hmsg, afterReply, startBatch, Call.starts_startBatch,
                Call.pending_startBatch, isClose, isStatus, Bool.toNat_false,
                Nat.add_zero] at hrecv hstarts hpending ⊢
              exact hdone hrecv hstarts hpending
          | none =>
              simp only [handled, hmsg, afterEnd]
              split
              · apply Asked.of_starts
                rw [starts_finish_status]
                omega
              · next hask =>
                  -- A close that was started set `end_sent_`, and the stream had ended.
                  intro _ hstarts _
                  exfalso
                  apply hask
                  have hclose : c.session.obj.call.starts isClose ≠ 0 := hstarts
                  have hended : c.session.obj.finishedSending = true :=
                    hinv.outbox.closed_ended hclose
                  have hsent := hinv.counts.endSent_of_close hclose
                  show (c.session.obj.finishedSending && c.session.obj.endSent) = true
                  rw [hended, hsent]
                  rfl
      | status =>
          apply Asked.of_starts
          have hle := hinv.counts.status_le
          have hpos := Call.pending_pos hb (p := isStatus) rfl
          show c.session.obj.call.starts isStatus ≠ 0
          omega

theorem asked_of_reachable {c : BidirClient Req Rep} (h : (machine Req Rep).Reachable c) :
    Asked c.session.obj := by
  induction h with
  | init => intro hrecv; cases hrecv
  | step hs hnext ih => exact asked_step (inv_of_reachable hs) hnext ih

/-- Without a handshake that comes too late, an ended request stream that is not being sent has been
    announced. -/
theorem settled_of_guard {c : BidirClient Req Rep}
    (h : ((machine Req Rep).guard (fun c e => !c.handshakeAfterEnd e)).Reachable c) :
    c.session.obj.toOutbox.Settled := by
  refine Machine.Reachable.guard_invariant (P := fun c => c.session.obj.toOutbox.Settled)
    (fun hend => by cases hend) ?_ h
  intro c c' e hreach hstep hguard hset
  have hinv := inv_of_reachable hreach
  rcases step_outbox hinv hstep with hbox | ⟨m, hopen, hbox⟩ | hbox | hbox |
    ⟨i, r, rfl, hb, hbox⟩
  · rw [hbox]
    exact hset
  · rw [hbox]
    exact .push hopen m
  · rw [hbox]
    exact .finish _
  · rw [hbox]
    exact .release _ (Or.inl rfl)
  · rw [hbox]
    refine .release _ (Or.inr ?_)
    -- The guard: the stream is open, or something is queued.
    simp only [handshakeAfterEnd, hb, beq_self_eq_true, Bool.true_and, Bool.not_eq_true',
      Bool.and_eq_false_iff] at hguard
    rcases hguard with hopen | hq
    · exact Or.inl hopen
    · refine Or.inr (fun hnil => ?_)
      have hnil' : c.session.obj.pendingOps = [] := hnil
      simp [hnil'] at hq

omit [Serializer Rep] in
theorem Inv.not_closeStalled {c : BidirClient Req Rep} (h : c.Inv)
    (hset : c.session.obj.toOutbox.Settled) : ¬ c.CloseStalled := by
  rintro ⟨hH, hW, -, hended, hnone⟩
  cases hdel : c.session.deleted with
  | true =>
      have hstatus := h.counts.deleted_status (by simp [hdel])
      have hclose := (h.counts.status_started hstatus).2
      omega
  | false =>
      have hside := h.counts.sendSide_live (by simp [hdel])
      have hidle : c.session.obj.toOutbox.busy = false := by
        cases hsend : c.session.obj.canSend with
        | true => simp [toOutbox, hsend]
        | false => simp only [hsend, Bool.toNat_false] at hside; omega
      exact hset hended hidle hnone

/-- **The session never gets stuck**, as long as no handshake completes after the request stream has
    ended with nothing queued. -/
theorem never_stuck {c : BidirClient Req Rep}
    (h : ((machine Req Rep).guard (fun c e => !c.handshakeAfterEnd e)).Reachable c) :
    ¬ c.CloseStalled ∧ ¬ c.StatusStalled := by
  have hinv := inv_of_reachable h.of_guard
  have hclose := hinv.not_closeStalled (settled_of_guard h)
  refine ⟨hclose, ?_⟩
  rintro ⟨hout, hended, hrecv, hnone⟩
  have hquiet : c.session.obj.call.quiet = true := by simp [Call.quiet, hout]
  have hidle := fun p => Call.pending_of_quiet hquiet p
  have hstarted : c.session.obj.call.starts isClose ≠ 0 :=
    fun hzero => hclose ⟨hidle _, hidle _, hidle _, hended, hzero⟩
  exact asked_of_reachable h.of_guard hrecv hstarted (hidle _) hnone

/-- Such a handshake leaves the session stuck at once, in whatever state it comes. -/
theorem handshakeAfterEnd_stalls {c c' : BidirClient Req Rep} {e : Event Req}
    (hreach : (machine Req Rep).Reachable c) (hstep : c.step e = some c')
    (hlate : c.handshakeAfterEnd e = true) : c'.CloseStalled := by
  have hinv := inv_of_reachable hreach
  have hinv' := inv_step hstep hinv
  cases e with
  | push req => cases hlate
  | finish t => cases hlate
  | getFuture => cases hlate
  | complete i r =>
      simp only [handshakeAfterEnd, Bool.and_eq_true, beq_iff_eq] at hlate
      obtain ⟨⟨hb, hended⟩, hq⟩ := hlate
      have hnil : c.session.obj.pendingOps = [] := by simpa using hq
      -- With the handshake in flight the gate is closed: no close was started.
      have hpos := Call.pending_pos hb (p := isHandshake) rfl
      have hbusy := hinv.counts.busy (by omega)
      have hnone : c.session.obj.call.starts isClose = 0 := hinv.outbox.closes_of_busy hbusy
      have hlive : c.session.deleted = false := by
        cases hdel : c.session.deleted with
        | false => rfl
        | true =>
            have hstatus := hinv.counts.deleted_status (by simp [hdel])
            have hclose := (hinv.counts.status_started hstatus).2
            omega
      obtain ⟨session, hwork, rfl⟩ := Option.map_eq_some_iff.1 hstep
      obtain ⟨b, hb', ⟨hdel, -⟩ | ⟨-, rfl⟩⟩ := complete_cases hwork
      · rw [hlive] at hdel
        cases hdel
      · obtain rfl : b = .handshake := Option.some.inj (hb'.symm.trans hb)
        have hbox : (c.session.obj.handled i r .handshake).obj.toOutbox
            = { c.session.obj.toOutbox with busy := false } := by
          simp only [handled, toOutbox_startRead, toOutbox_openGate]
          exact Outbox.release_of_nil hnil
        have hcloses : (c.session.obj.handled i r .handshake).obj.call.starts isClose = 0 :=
          (congrArg Outbox.closes hbox).trans hnone
        have hsend : (c.session.obj.handled i r .handshake).obj.canSend = true := by
          simpa [toOutbox] using congrArg Outbox.busy hbox
        have hside := hinv'.counts.sendSide_le
        have hcl := hinv'.counts.close_le
        simp only [hsend, Bool.toNat_true] at hside
        simp only [hcloses] at hcl
        dsimp only [CloseStalled]
        exact ⟨by omega, by omega, by omega, (congrArg Outbox.ended hbox).trans hended, hcloses⟩

/-- A session that is stuck stays stuck. -/
theorem closeStalled_step {c c' : BidirClient Req Rep} {e : Event Req} (hinv : c.Inv)
    (hstep : c.step e = some c') (hstalled : c.CloseStalled) : c'.CloseStalled := by
  obtain ⟨hH, hW, hC, hended, hnone⟩ := hstalled
  have hterm : c.requests.terminal.isSome = true := hinv.ended.symm.trans hended
  cases moves_of_step hstep with
  | push hret hopen =>
      rw [hopen] at hterm
      cases hterm
  | finish hret hopen =>
      rw [hopen] at hterm
      cases hterm
  | getFuture hret =>
      simp only [CloseStalled, Live.update]
      split <;> exact ⟨hH, hW, hC, hended, hnone⟩
  | @complete i r session hwork =>
      obtain ⟨b, hb, hcase⟩ := complete_cases hwork
      obtain ⟨hH', hW', -, hC', -⟩ := pending_done hb
      -- Only a read or the status can be left.
      have hkind : isHandshake b = false ∧ isWrite b = false ∧ isClose b = false := by
        refine ⟨?_, ?_, ?_⟩
        · exact Bool.toNat_eq_zero.1 (by omega)
        · exact Bool.toNat_eq_zero.1 (by omega)
        · exact Bool.toNat_eq_zero.1 (by omega)
      have hdone : BidirClient.CloseStalled
          { c with session := ⟨c.session.obj.done i, c.session.deleted⟩ } := by
        refine ⟨?_, ?_, ?_, hended, hnone⟩
        · show (c.session.obj.call.completeAt i).pending isHandshake = 0
          omega
        · show (c.session.obj.call.completeAt i).pending isWrite = 0
          omega
        · show (c.session.obj.call.completeAt i).pending isClose = 0
          omega
      rcases hcase with ⟨-, rfl⟩ | ⟨-, rfl⟩
      · exact hdone
      · cases b with
        | handshake => cases hkind.1
        | write m => cases hkind.2.1
        | close => cases hkind.2.2
        | status => exact hdone
        | read =>
            simp only [CloseStalled, handled]
            split
            · simpa [CloseStalled, afterReply, startBatch, Call.starts_startBatch,
                Call.pending_startBatch, isHandshake, isWrite, isClose] using hdone
            · unfold afterEnd
              split
              · simpa [CloseStalled, BidirStreamingCallSession.finish, startBatch,
                  Call.starts_startBatch, Call.pending_startBatch, isHandshake, isWrite, isClose]
                  using hdone
              · exact hdone

/-- The request stream is completed before the handshake completes and without any request. -/
theorem stuck_without_requests :
    ¬ ∀ c : BidirClient Buffer Buffer, (machine Buffer Buffer).Reachable c →
      ¬ c.CloseStalled ∧ ¬ c.StatusStalled := by
  intro hall
  have hrun : (machine Buffer Buffer).Reachable _ :=
    Machine.reachable_of_run
      [.getFuture, .finish .complete, .complete 0 {}] rfl
  exact (hall _ hrun).1 ⟨rfl, rfl, rfl, rfl, rfl⟩

/-- A whole call with one request, its reply and the status meets the condition. -/
theorem never_stuck_one_request :
    ∃ c : BidirClient Buffer Buffer,
      ((machine Buffer Buffer).guard (fun c e => !c.handshakeAfterEnd e)).Reachable c ∧
      c.session.deleted = true ∧ ¬ c.CloseStalled ∧ ¬ c.StatusStalled :=
  have hrun : ((machine Buffer Buffer).guard (fun c e => !c.handshakeAfterEnd e)).Reachable _ :=
    Machine.reachable_of_run
      [.getFuture, .push [7], .finish .complete, .complete 0 {}, .complete 0 {}, .complete 1 {},
        .complete 0 { message := some [8] }, .complete 0 {}, .complete 0 {}] rfl
  ⟨_, hrun, rfl, never_stuck hrun⟩

/-! ## The status is asked for once and the session dies last -/

/-- The server's end is read while the close is still in flight. -/
def endReadBeforeClosed (c : BidirClient Req Rep) : Event Req → Bool
  | .complete i r =>
      c.session.obj.call.outstanding[i]? == some .read && r.message.isNone &&
        decide (c.session.obj.call.pending isClose ≠ 0)
  | _ => false

/-- `finish` was called at most once, the reply stream was terminated at most once, and a deleted
    session has no batch outstanding. -/
structure DiesLast (c : BidirClient Req Rep) : Prop where
  finish_once : c.session.obj.call.starts isStatus ≤ 1
  terminated_once : c.session.obj.rep.terminations.length ≤ 1
  deleted_quiet : c.session.deleted = true → c.session.obj.call.outstanding = []

/-- What holds while the close always completes first: the status is outstanding or was received,
    and it is asked for only once the close is done. -/
structure Orderly (s : BidirStreamingCallSession Rep) (deleted : Bool) : Prop where
  status_eq : s.call.starts isStatus = s.call.pending isStatus + deleted.toNat
  status_le : s.call.starts isStatus ≤ 1
  close_first : s.call.starts isStatus ≠ 0 → s.call.pending isClose = 0
  terminations_eq : s.rep.terminations.length = deleted.toNat

omit [Serializer Rep] in
/-- Every batch is of one of the five kinds. -/
theorem length_outstanding (call : Call BidirClientBatch) :
    call.outstanding.length = call.pending isHandshake + call.pending isWrite
      + call.pending isClose + call.pending isRead + call.pending isStatus := by
  rw [call.length_outstanding [isHandshake, isWrite, isClose, isRead, isStatus]
    (by intro b; cases b <;> rfl)]
  simp [Nat.add_assoc]

omit [Serializer Rep] in
/-- When the status was received, nothing else is outstanding. -/
theorem Inv.quiet_of_orderly {c : BidirClient Req Rep} (h : c.Inv)
    (ho : Orderly c.session.obj c.session.deleted) (hdel : c.session.deleted = true) :
    c.session.obj.call.outstanding = [] := by
  have heq := ho.status_eq
  have hle := ho.status_le
  rw [hdel] at heq
  simp only [Bool.toNat_true] at heq
  have hstatus : c.session.obj.call.starts isStatus ≠ 0 := by omega
  obtain ⟨hrecv, hclose⟩ := h.counts.status_started hstatus
  have hfirst := ho.close_first hstatus
  have hread := h.counts.readSide_le
  have hidle : c.session.obj.toOutbox.busy = false :=
    h.outbox.closed_idle (by simp [toOutbox, hclose])
  have hsend : c.session.obj.canSend = true := by simpa [toOutbox] using hidle
  have hside := h.counts.sendSide_le
  simp only [hsend, Bool.toNat_true] at hside
  have hlen := length_outstanding c.session.obj.call
  exact List.length_eq_zero_iff.1 (by omega)

omit [Serializer Rep] in
/-- `Orderly` looks at the status, at the close once the status was asked for, and at the stream. -/
theorem Orderly.copy {s s' : BidirStreamingCallSession Rep} {deleted : Bool} (h : Orderly s deleted)
    (hstarts : s'.call.starts isStatus = s.call.starts isStatus)
    (hpending : s'.call.pending isStatus = s.call.pending isStatus)
    (hclose : s.call.starts isStatus ≠ 0 → s'.call.pending isClose = s.call.pending isClose)
    (hrep : s'.rep.terminations = s.rep.terminations) : Orderly s' deleted where
  status_eq := by
    rw [hstarts, hpending]
    exact h.status_eq
  status_le := hstarts ▸ h.status_le
  close_first hne := by
    rw [hstarts] at hne
    exact (hclose hne).trans (h.close_first hne)
  terminations_eq := hrep ▸ h.terminations_eq

omit [Serializer Rep] in
theorem Orderly.send {s s' : BidirStreamingCallSession Rep} {deleted : Bool} (h : Orderly s deleted)
    (hcounts : Counts s deleted) (hcloses : s'.call.starts isClose ≤ 1) (hsend : SendStep s s') :
    Orderly s' deleted := by
  refine h.copy hsend.startsStatus hsend.pendingStatus (fun hstatus => ?_)
    (congrArg StreamPromise.terminations hsend.rep)
  -- A close started now would be the second one.
  have hone := (hcounts.status_started hstatus).2
  rcases hsend.close with ⟨-, hp⟩ | ⟨hs, -⟩
  · exact hp
  · omega

omit [Serializer Rep] in
/-- A batch other than the close and the status goes away. -/
theorem Orderly.done {s : BidirStreamingCallSession Rep} {deleted : Bool} (h : Orderly s deleted)
    {i : ℕ} {b : BidirClientBatch} (hb : s.call.outstanding[i]? = some b)
    (hstatus : isStatus b = false) : Orderly (s.done i) deleted := by
  obtain ⟨hH, hW, hR, hC, hS⟩ := pending_done hb
  have h1 := h.status_eq
  have h3 := h.close_first
  simp only [hstatus, Bool.toNat_false] at hS
  refine ⟨?_, h.status_le, ?_, h.terminations_eq⟩
  · show s.call.starts isStatus = (s.call.completeAt i).pending isStatus + deleted.toNat
    omega
  · intro hne
    have hzero := h3 hne
    show (s.call.completeAt i).pending isClose = 0
    omega

omit [Serializer Rep] in
/-- The status is asked for, for the first time and with no close in flight. -/
theorem Orderly.finish {s : BidirStreamingCallSession Rep} (h : Orderly s false)
    (hfirst : s.call.starts isStatus = 0) (hclosed : s.call.pending isClose = 0) :
    Orderly s.finish false := by
  have heq := h.status_eq
  refine ⟨?_, ?_, ?_, h.terminations_eq⟩ <;>
    simp only [BidirStreamingCallSession.finish, startBatch, Call.starts_startBatch,
      Call.pending_startBatch, isStatus, isClose, Bool.toNat_true, Bool.toNat_false] at * <;> omega

omit [Serializer Rep] in
/-- The status comes in. -/
theorem Orderly.received {s : BidirStreamingCallSession Rep} (h : Orderly s false) {i : ℕ}
    (hb : s.call.outstanding[i]? = some .status) (r : Received) (t : StreamEnd) :
    Orderly { s.done i with
      status := r.status, statusDetails := r.statusDetails, errorString := r.errorString
      rep := s.rep.finish t } true := by
  obtain ⟨-, -, -, hC, hS⟩ := pending_done hb
  have heq := h.status_eq
  have hle := h.status_le
  have hterm := h.terminations_eq
  simp only [isStatus, Bool.toNat_true] at hS
  simp only [Bool.toNat_false] at heq hterm
  have hfirst := h.close_first (by omega)
  refine ⟨?_, hle, ?_, ?_⟩
  · show s.call.starts isStatus = (s.call.completeAt i).pending isStatus + 1
    omega
  · intro _
    show (s.call.completeAt i).pending isClose = 0
    omega
  · show (s.rep.finish _).terminations.length = 1
    rw [StreamPromise.length_terminations_finish]
    omega

omit [Serializer Rep] in
/-- As long as something is still to be read, the status was not asked for. -/
theorem Counts.no_status {s : BidirStreamingCallSession Rep} {deleted : Bool}
    (hcounts : Counts s deleted)
    (hreading : 0 < s.call.pending isHandshake + s.call.pending isRead) :
    s.call.starts isStatus = 0 := by
  by_contra hne
  have hrecv := (hcounts.status_started hne).1
  have hside := hcounts.readSide_le
  omega

/-- A batch completes at a session that is alive. -/
theorem orderly_handled {c : BidirClient Req Rep} (hinv : c.Inv)
    (h : Orderly c.session.obj false) {i : ℕ} {r : Received} {b : BidirClientBatch}
    (hb : c.session.obj.call.outstanding[i]? = some b)
    (hguard : c.endReadBeforeClosed (.complete i r) = false)
    (hend : b = .status → ∃ t, finalEnd r.status r.errorString = some t) :
    Orderly (c.session.obj.handled i r b).obj (c.session.obj.handled i r b).deleted := by
  have hcounts := hinv.counts
  obtain ⟨hH, hW, hR, hC, -⟩ := pending_done hb
  cases b with
  | handshake =>
      have hgate := SendStep.openGate (c.session.obj.done i)
      simp only [isHandshake, Bool.toNat_true] at hH
      have hzero := hcounts.no_status (by omega)
      refine (h.done hb rfl).copy ?_ ?_ (fun hne => absurd hzero hne)
        (congrArg StreamPromise.terminations hgate.rep)
      · simp [handled, startBatch, Call.starts_startBatch, isStatus, hgate.startsStatus]
      · simp [handled, startBatch, Call.pending_startBatch, isStatus, hgate.pendingStatus]
  | write m =>
      have hafter := SendStep.afterWrite (c.session.obj.done i)
      have hzero : c.session.obj.call.starts isStatus = 0 := by
        by_contra hne
        have hone := (hcounts.status_started hne).2
        have hidle := hinv.outbox.closed_idle (by simp [toOutbox, hone])
        have hpos := Call.pending_pos hb (p := isWrite) rfl
        have hbusy := hcounts.busy (by omega)
        exact absurd (hbusy.symm.trans hidle) (by simp)
      exact (h.done hb rfl).copy hafter.startsStatus hafter.pendingStatus
        (fun hne => absurd hzero hne) (congrArg StreamPromise.terminations hafter.rep)
  | close =>
      have hdone := h.done hb rfl
      simp only [isClose, Bool.toNat_true] at hC
      have hzero : c.session.obj.call.starts isStatus = 0 := by
        by_contra hne
        have hfirst := h.close_first hne
        omega
      have hone : (c.session.obj.done i).call.pending isClose = 0 := by
        have hle := hcounts.close_le
        have hmax : c.session.obj.call.starts isClose ≤ 1 := hinv.outbox.closes_le
        show (c.session.obj.call.completeAt i).pending isClose = 0
        omega
      simp only [handled]
      split
      · exact hdone.finish hzero hone
      · exact hdone
  | read =>
      have hdone := h.done hb rfl
      cases hmsg : r.message with
      | some data =>
          simp only [handled, hmsg]
          refine hdone.copy ?_ ?_ (fun _ => ?_) ?_
          · simp [afterReply, startBatch, Call.starts_startBatch, isStatus]
          · simp [afterReply, startBatch, Call.pending_startBatch, isStatus]
          · simp [afterReply, startBatch, Call.pending_startBatch, isClose]
          · simp [afterReply, startBatch]
      | none =>
          simp only [isRead, Bool.toNat_true] at hR
          have hzero := hcounts.no_status (by omega)
          -- The guard: no close is in flight.
          simp only [endReadBeforeClosed, hb, hmsg, beq_self_eq_true, Option.isNone_none,
            Bool.true_and, decide_eq_false_iff_not, not_not] at hguard
          have hclosed : (c.session.obj.done i).call.pending isClose = 0 := by
            show (c.session.obj.call.completeAt i).pending isClose = 0
            omega
          simp only [handled, hmsg, afterEnd]
          split
          · exact Orderly.finish (hdone.copy rfl rfl (fun _ => rfl) rfl) hzero hclosed
          · exact hdone.copy rfl rfl (fun _ => rfl) rfl
  | status =>
      obtain ⟨t, ht⟩ := hend rfl
      simp only [handled, ht, Option.elim_some]
      exact h.received hb r t

theorem orderly_step {c c' : BidirClient Req Rep} {e : Event Req} (hinv : c.Inv)
    (hstep : (machine Req Rep).step c e = some c') (hguard : c.endReadBeforeClosed e = false)
    (h : Orderly c.session.obj c.session.deleted) :
    Orderly c'.session.obj c'.session.deleted := by
  have hcloses : c'.session.obj.call.starts isClose ≤ 1 := (inv_step hstep hinv).outbox.closes_le
  rcases step_session hinv hstep with ⟨hsend, hdel, -⟩ | ⟨-, hsess⟩ | ⟨i, r, b, rfl, hb, hcase⟩
  · rw [hdel]
    exact h.send hinv.counts hcloses hsend
  · rw [hsess]
    unfold Live.update
    split
    · exact h
    · exact h.copy rfl rfl (fun _ => rfl) rfl
  · rcases hcase with ⟨hdel, -⟩ | ⟨hlive, hsess⟩
    · -- A deleted session has no batch left to complete.
      rw [hinv.quiet_of_orderly h hdel] at hb
      exact absurd hb (by simp)
    · rw [hlive] at h
      rw [hsess]
      refine orderly_handled hinv h hb hguard ?_
      rintro rfl
      obtain ⟨session, hwork, -⟩ := Option.map_eq_some_iff.1 hstep
      exact finalEnd_of_complete hwork hlive hb

/-- **The status is asked for at most once, the reply stream is terminated at most once, and the
    session is deleted last**, as long as the server's end is never read while the close is still in
    flight. -/
theorem status_once_and_last {c : BidirClient Req Rep}
    (h : ((machine Req Rep).guard (fun c e => !c.endReadBeforeClosed e)).Reachable c) :
    c.DiesLast := by
  have hinv := inv_of_reachable h.of_guard
  have horderly : Orderly c.session.obj c.session.deleted := by
    refine Machine.Reachable.guard_invariant
      (P := fun c => Orderly c.session.obj c.session.deleted) ?_ ?_ h
    · exact ⟨rfl, Nat.zero_le 1, fun hne => absurd rfl hne, rfl⟩
    · intro c c' e hreach hstep hguard ho
      exact orderly_step (inv_of_reachable hreach) hstep (by simpa using hguard) ho
  refine ⟨horderly.status_le, ?_, hinv.quiet_of_orderly horderly⟩
  rw [horderly.terminations_eq]
  exact Bool.toNat_le _

/-- Reading the server's end with the close in flight asks for the status at once. -/
theorem endReadBeforeClosed_asks {c c' : BidirClient Req Rep} {e : Event Req} (hinv : c.Inv)
    (hstep : c.step e = some c') (hearly : c.endReadBeforeClosed e = true) :
    c'.session.obj.finishedReceiving = true ∧ c'.session.obj.call.starts isStatus ≠ 0 ∧
      c'.session.obj.call.pending isClose ≠ 0 := by
  cases e with
  | push req => cases hearly
  | finish t => cases hearly
  | getFuture => cases hearly
  | complete i r =>
      simp only [endReadBeforeClosed, Bool.and_eq_true, beq_iff_eq, decide_eq_true_eq,
        Option.isNone_iff_eq_none] at hearly
      obtain ⟨⟨hb, hmsg⟩, hpending⟩ := hearly
      obtain ⟨hH, hW, hR, hC, hS⟩ := pending_done hb
      have hle := hinv.counts.close_le
      have hclose : c.session.obj.call.starts isClose ≠ 0 := by omega
      have hended : c.session.obj.finishedSending = true := hinv.outbox.closed_ended hclose
      have hsent := hinv.counts.endSent_of_close hclose
      obtain ⟨session, hwork, rfl⟩ := Option.map_eq_some_iff.1 hstep
      obtain ⟨b, hb', ⟨hdel, -⟩ | ⟨hlive, rfl⟩⟩ := complete_cases hwork
      · -- A deleted session has no read outstanding.
        have hstatus := hinv.counts.deleted_status (by simp [hdel])
        have hrecv := (hinv.counts.status_started hstatus).1
        have hside := hinv.counts.readSide_le
        simp only [isRead, Bool.toNat_true] at hR
        omega
      · obtain rfl : b = .read := Option.some.inj (hb'.symm.trans hb)
        simp only [handled, hmsg, afterEnd, done, hended, hsent, Bool.and_self, if_true]
        refine ⟨rfl, ?_, ?_⟩
        · rw [starts_finish_status]
          omega
        · simp only [BidirStreamingCallSession.finish, startBatch, Call.pending_startBatch, isClose,
            Bool.toNat_false] at hC ⊢
          omega

/-- From then on both batches that can complete do damage: the close asks for the status a second
    time, the status deletes the session under the close. -/
theorem endReadBeforeClosed_breaks {c c' : BidirClient Req Rep} {i : ℕ} {r : Received}
    (hlive : c.session.deleted = false) (hrecv : c.session.obj.finishedReceiving = true)
    (hasked : c.session.obj.call.starts isStatus ≠ 0)
    (hclosing : c.session.obj.call.pending isClose ≠ 0)
    (hb : c.session.obj.call.outstanding[i]? = some .close ∨
      c.session.obj.call.outstanding[i]? = some .status)
    (hstep : c.step (.complete i r) = some c') : ¬ c'.DiesLast := by
  intro hlast
  obtain ⟨session, hwork, rfl⟩ := Option.map_eq_some_iff.1 hstep
  obtain ⟨b, hb', ⟨hdel, -⟩ | ⟨-, rfl⟩⟩ := complete_cases hwork
  · rw [hlive] at hdel
    cases hdel
  · rcases hb with hb | hb
    · obtain rfl : b = .close := Option.some.inj (hb'.symm.trans hb)
      have honce := hlast.finish_once
      simp only [handled, hrecv, if_true, starts_finish_status] at honce
      have hstarts : (c.session.obj.done i).call.starts isStatus
          = c.session.obj.call.starts isStatus := rfl
      omega
    · obtain rfl : b = .status := Option.some.inj (hb'.symm.trans hb)
      have hquiet : (c.session.obj.call.completeAt i).outstanding = [] := hlast.deleted_quiet rfl
      have hzero := Call.pending_of_quiet (c := c.session.obj.call.completeAt i)
        (by simp [Call.quiet, hquiet]) isClose
      have hC := Call.pending_completeAt hb isClose
      simp only [isClose, Bool.toNat_false] at hC
      omega

/-- The server's end is read while the close is in flight, then the close completes: `finish` runs
    twice. -/
theorem status_asked_twice :
    ¬ ∀ c : BidirClient Buffer Buffer, (machine Buffer Buffer).Reachable c → c.DiesLast := by
  intro hall
  have hrun : (machine Buffer Buffer).Reachable _ :=
    Machine.reachable_of_run
      [.getFuture, .complete 0 {}, .finish .complete, .complete 0 {}, .complete 0 {}] rfl
  have honce := (hall _ hrun).finish_once
  exact absurd honce (by decide)

/-- A whole call whose close completes before the server's end is read meets the condition. -/
theorem status_once_and_last_close_first :
    ∃ c : BidirClient Buffer Buffer,
      ((machine Buffer Buffer).guard (fun c e => !c.endReadBeforeClosed e)).Reachable c ∧
      c.session.deleted = true ∧ c.DiesLast :=
  have hrun : ((machine Buffer Buffer).guard (fun c e => !c.endReadBeforeClosed e)).Reachable _ :=
    Machine.reachable_of_run
      [.getFuture, .complete 0 {}, .finish .complete, .complete 1 {}, .complete 0 {},
        .complete 0 {}] rfl
  ⟨_, hrun, rfl, status_once_and_last hrun⟩

end BidirClient

end EasyGrpc
