import EasyGrpc.Client.Proofs.BidirStreaming
import EasyGrpc.Client.Proofs.SettleOnce
import EasyGrpc.Queue.Proofs.CallOrder

set_option autoImplicit false

/-! # The order of operations in the sessions

Three of the four sessions start every batch when it may be. The bidirectional session asks for its
status twice if the server's end is read while the close is in flight and the close completes before
the status. -/

namespace EasyGrpc

variable {Req Rep : Type} [Serializer Req] [Serializer Rep]

/-! ## The unary call -/

namespace UnaryClient

/-- The one batch of a call is its first. -/
theorem orderly_of_reachable {req : Req} {c : Live (UnaryCallCompletion Rep)}
    (h : (machine Rep req).Reachable c) : c.obj.call.Orderly := by
  have hwaiting : (waiting Rep req).obj.call.Orderly := by
    refine Call.Orderly.new.startFirst rfl ?_ ?_ <;>
      simp [kindsOf_singleton, BatchSpec.ops, Op.kind]
  rcases cases_of_reachable h with rfl | ⟨r, rfl⟩
  · exact hwaiting
  · exact hwaiting.complete 0

end UnaryClient

/-! ## The server-streaming call -/

namespace StreamingClient

open StreamingCallSession StreamingClientBatch

/-- The final batch is started when `finishing_` is set. -/
theorem startsFinal_of_reachable {req : Req} {c : StreamingClient Rep}
    (h : (startedMachine Rep req).Reachable c) :
    c.session.obj.call.starts isFinal = c.session.obj.finishing.toNat := by
  induction h with
  | init => rfl
  | @step c c' e hreach hstep ih =>
      obtain ⟨r, -, -, rfl⟩ := started_cases (settling_of_reachable hreach) hstep
      cases hfin : c.session.obj.finishing with
      | true =>
          rw [handled_status hfin]
          exact ih
      | false =>
          rw [hfin] at ih
          cases hmsg : r.message with
          | some data =>
              rw [handled_reply hfin hmsg]
              simpa [afterReply, startBatch, done, Call.starts_startBatch, isFinal, hfin] using ih
          | none =>
              rw [handled_end hfin hmsg]
              simpa [afterEnd, startBatch, done, Call.starts_startBatch, isFinal] using ih

theorem orderly_of_reachable {req : Req} {c : StreamingClient Rep}
    (h : (startedMachine Rep req).Reachable c) : c.session.obj.call.Orderly := by
  induction h with
  | init =>
      refine Call.Orderly.new.startFirst rfl ?_ ?_ <;>
        simp [kindsOf_singleton, BatchSpec.ops, Op.kind]
  | @step c c' e hreach hstep ih =>
      have hinv := (settling_of_reachable hreach).inv
      obtain ⟨r, -, hlive, rfl⟩ := started_cases (settling_of_reachable hreach) hstep
      obtain ⟨b, hout, -⟩ := hinv.one hlive
      have hne := ih.started_ne_nil (i := 0) (b := b) (by rw [hout]; rfl)
      have hdone := ih.complete 0
      have hnone : (c.session.obj.call.completeAt 0).outstanding = [] := by
        simp [Call.completeAt, hout]
      cases hfin : c.session.obj.finishing with
      | true =>
          rw [handled_status hfin]
          exact hdone
      | false =>
          cases hmsg : r.message with
          | some data =>
              rw [handled_reply hfin hmsg]
              refine hdone.startRead (p := isRead) hne rfl ?_ ?_
              · intro b' hk
                cases b' <;> simp_all [kindsOf_singleton, BatchSpec.ops, Op.kind, isRead, isFinal]
              · exact Call.pending_of_quiet (c := c.session.obj.call.completeAt 0)
                  (List.isEmpty_iff.2 hnone) isRead
          | none =>
              have hfinal := startsFinal_of_reachable hreach
              rw [hfin] at hfinal
              rw [handled_end hfin hmsg]
              refine hdone.startOnce (p := isFinal) hne ?_ ?_ hfinal
              · simp [kindsOf_singleton, BatchSpec.ops, Op.kind]
              · intro b' k hk hor
                cases b' <;> cases k <;>
                  simp_all [kindsOf_singleton, BatchSpec.ops, Op.kind, isFinal]

end StreamingClient

/-! ## The client-streaming call -/

namespace UploadClient

open ClientStreamingCallSession UploadClientBatch

omit [Serializer Req] [Serializer Rep] in
/-- A request is sent while no other batch is outstanding and the last one was not started. -/
theorem orderly_flush {s : ClientStreamingCallSession Rep} (h : s.call.Orderly)
    (hne : s.call.started ≠ []) (hpending : s.batchInFlight = false → s.call.pending isWrite = 0)
    (hopen : s.call.starts isSendEnd = 0) : s.flush.call.Orderly := by
  unfold ClientStreamingCallSession.flush
  split
  · exact h
  · next hidle =>
      split
      · exact h
      · refine h.startWrite (p := isWrite) (q := isSendEnd) hne rfl ?_ ?_
          (hpending (by simpa using hidle)) hopen
        · intro b' hk
          cases b' <;> simp_all [kindsOf_singleton, BatchSpec.ops, Op.kind, isWrite]
        · intro b' k hk hlast
          cases b' <;> cases k <;>
            simp_all [kindsOf_singleton, BatchSpec.ops, Op.kind, isSendEnd, OpKind.isLast]

omit [Serializer Req] [Serializer Rep] in
/-- The last batch is started once. -/
theorem orderly_sendEnd {s : ClientStreamingCallSession Rep} (h : s.call.Orderly)
    (hne : s.call.started ≠ []) (hnone : s.call.starts isSendEnd = 0) :
    s.sendEnd.call.Orderly := by
  refine h.startOnce (p := isSendEnd) hne ?_ ?_ hnone
  · simp [kindsOf_singleton, BatchSpec.ops, Op.kind]
  · intro b' k hk hor
    cases b' <;> cases k <;> simp_all [kindsOf_singleton, BatchSpec.ops, Op.kind, isSendEnd]

omit [Serializer Rep] in
/-- The handshake or a request completes. -/
theorem orderly_afterBatch {c : UploadClient Req Rep} (hinv : c.Inv)
    (hlive : c.session.deleted = false) (h : c.session.obj.call.Orderly) {i : ℕ}
    {b : UploadClientBatch} (hb : c.session.obj.call.outstanding[i]? = some b)
    (hother : b.isSendEnd = false) : (c.session.obj.done i).afterBatch.call.Orderly := by
  have hne : c.session.obj.call.started ≠ [] := h.started_ne_nil hb
  have hopen : c.session.obj.call.starts isSendEnd = 0 :=
    hinv.outbox.closes_of_busy (hinv.busy_of_pending hlive hb hother)
  have hpending : (c.session.obj.call.completeAt i).pending isWrite = 0 := by
    obtain ⟨hH, hW, -⟩ := pending_done hb
    have hgate := hinv.counts.gate_live hlive
    have hle := Bool.toNat_le c.session.obj.batchInFlight
    have hone : (isHandshake b).toNat + (isWrite b).toNat = 1 := by
      cases b <;> first | rfl | cases hother
    omega
  unfold afterBatch
  split
  · exact orderly_flush (s := { c.session.obj.done i with batchInFlight := false }) (h.complete i)
      hne (fun _ => hpending) hopen
  · split
    · exact orderly_sendEnd (s := { c.session.obj.done i with batchInFlight := false })
        (h.complete i) hne hopen
    · exact h.complete i

theorem orderly_of_reachable {c : UploadClient Req Rep}
    (h : (startedMachine Req Rep).Reachable c) : c.session.obj.call.Orderly := by
  induction h with
  | init =>
      refine Call.Orderly.new.startFirst rfl ?_ ?_ <;>
        simp [kindsOf_singleton, BatchSpec.ops, Op.kind]
  | @step c c' e hreach hstep ih =>
      obtain ⟨hinv, hret⟩ := started_of_reachable hreach
      have hne : c.session.obj.call.started ≠ [] :=
        Party.started_ne_nil (P := party Req Rep) (List.cons_ne_nil _ _) hreach
      have hnotend : c.requests.terminal = none → c.session.obj.call.starts isSendEnd = 0 := by
        intro hopen
        exact hinv.outbox.closes_of_open (by rw [hinv.ended, hopen]; rfl)
      cases moves_of_step hstep with
      | setFlag hfirst => cases hret.symm.trans hfirst
      | listen hset => cases hret.symm.trans hset
      | leave hlistening => cases hret.symm.trans hlistening
      | @push req _ hopen =>
          have hlive := hinv.live_of_open hopen
          rw [Live.update_of_live hlive]
          refine orderly_flush (s := { c.session.obj with
            pendingOps := c.session.obj.pendingOps ++ [serialize req] }) ih hne ?_ (hnotend hopen)
          intro hidle
          have hgate := hinv.counts.gate_live hlive
          have hflag : c.session.obj.batchInFlight = false := hidle
          rw [hflag, Bool.toNat_false] at hgate
          show c.session.obj.call.pending isWrite = 0
          omega
      | finish _ hopen =>
          rw [Live.update_of_live (hinv.live_of_open hopen)]
          simp only [onRequestsEnd]
          split
          · exact orderly_sendEnd (s := { c.session.obj with finished := true }) ih hne
              (hnotend hopen)
          · exact ih
      | @complete i r session hwork =>
          obtain ⟨b, hb, hlive, rfl⟩ := complete_cases hinv hwork
          cases b with
          | handshake => exact orderly_afterBatch hinv hlive ih hb rfl
          | write m => exact orderly_afterBatch hinv hlive ih hb rfl
          | sendEnd => exact ih.complete i

end UploadClient

/-! ## The bidirectional call -/

namespace BidirClient

open BidirStreamingCallSession BidirClientBatch

/-- The close completes although the status was asked for already: `exec` asks for it again. -/
def statusOnce (c : BidirClient Req Rep) : Event Req → Bool
  | .complete i _ => c.session.deleted || c.session.obj.call.outstanding[i]? != some .close ||
      c.session.obj.call.starts isStatus == 0
  | _ => true

omit [Serializer Req] [Serializer Rep] in
/-- A request is sent while none is in flight and the close was not started. -/
theorem orderly_flush {s : BidirStreamingCallSession Rep} (h : s.call.Orderly)
    (hne : s.call.started ≠ []) (hpending : s.canSend = true → s.call.pending isWrite = 0)
    (hopen : s.call.starts isClose = 0) : s.flush.call.Orderly := by
  unfold BidirStreamingCallSession.flush
  split
  · exact h
  · next hgate =>
      split
      · exact h
      · refine h.startWrite (p := isWrite) (q := isClose) hne rfl ?_ ?_
          (hpending (by simpa using hgate)) hopen
        · intro b' hk
          cases b' <;> simp_all [kindsOf_singleton, BatchSpec.ops, Op.kind, isWrite]
        · intro b' k hk hlast
          cases b' <;> cases k <;>
            simp_all [kindsOf_singleton, BatchSpec.ops, Op.kind, isClose, OpKind.isLast]

omit [Serializer Req] [Serializer Rep] in
/-- The close is started once. -/
theorem orderly_sendClientEnd {s : BidirStreamingCallSession Rep} (h : s.call.Orderly)
    (hne : s.call.started ≠ []) (hnone : s.call.starts isClose = 0) :
    s.sendClientEnd.call.Orderly := by
  refine h.startOnce (p := isClose) hne ?_ ?_ hnone
  · simp [kindsOf_singleton, BatchSpec.ops, Op.kind]
  · intro b' k hk hor
    cases b' <;> cases k <;> simp_all [kindsOf_singleton, BatchSpec.ops, Op.kind, isClose]

omit [Serializer Req] [Serializer Rep] in
/-- The status is asked for once. -/
theorem orderly_finish {s : BidirStreamingCallSession Rep} (h : s.call.Orderly)
    (hne : s.call.started ≠ []) (hnone : s.call.starts isStatus = 0) : s.finish.call.Orderly := by
  refine h.startOnce (p := isStatus) hne ?_ ?_ hnone
  · simp [kindsOf_singleton, BatchSpec.ops, Op.kind]
  · intro b' k hk hor
    cases b' <;> cases k <;> simp_all [kindsOf_singleton, BatchSpec.ops, Op.kind, isStatus]

omit [Serializer Req] [Serializer Rep] in
/-- A reply is read while none is being read. -/
theorem orderly_read {s : BidirStreamingCallSession Rep} (h : s.call.Orderly)
    (hne : s.call.started ≠ []) (hnone : s.call.pending isRead = 0) :
    (s.startBatch .read).call.Orderly := by
  refine h.startRead (p := isRead) hne rfl ?_ hnone
  intro b' hk
  cases b' <;> simp_all [kindsOf_singleton, BatchSpec.ops, Op.kind, isRead]

omit [Serializer Rep] in
/-- The handshake or a request is done. -/
theorem orderly_release {c : BidirClient Req Rep} (hinv : c.Inv) (h : c.session.obj.call.Orderly)
    {i : ℕ} {b : BidirClientBatch} (hb : c.session.obj.call.outstanding[i]? = some b)
    (hgate : (isHandshake b).toNat + (isWrite b).toNat = 1) :
    (c.session.obj.done i).openGate.call.Orderly ∧
      (c.session.obj.done i).afterWrite.call.Orderly := by
  obtain ⟨hH, hW, -, -, -⟩ := pending_done hb
  have hle := hinv.counts.sendSide_le
  have hopen : c.session.obj.call.starts isClose = 0 :=
    hinv.outbox.closes_of_busy (hinv.counts.busy (by omega))
  -- Whatever was in flight towards the server, nothing is now.
  have hpending : (c.session.obj.call.completeAt i).pending isWrite = 0 := by omega
  have hflush : { c.session.obj.done i with canSend := true }.flush.call.Orderly :=
    orderly_flush (s := { c.session.obj.done i with canSend := true }) (h.complete i)
      (h.started_ne_nil hb) (fun _ => hpending) hopen
  constructor
  · unfold openGate
    split
    · exact hflush
    · exact h.complete i
  · unfold afterWrite
    split
    · exact hflush
    · split
      · exact orderly_sendClientEnd (s := { c.session.obj.done i with canSend := true })
          (h.complete i) (h.started_ne_nil hb) hopen
      · exact h.complete i

/-- A batch of a session that exists completes. -/
theorem call_orderly_handled {c : BidirClient Req Rep} (hinv : c.Inv)
    (hlive : c.session.deleted = false) (h : c.session.obj.call.Orderly) {i : ℕ}
    {b : BidirClientBatch} (hb : c.session.obj.call.outstanding[i]? = some b)
    (honce : b = .close → c.session.obj.call.starts isStatus = 0) (r : Received) :
    (c.session.obj.handled i r b).obj.call.Orderly := by
  have hne : c.session.obj.call.started ≠ [] := h.started_ne_nil hb
  have hcounts := hinv.counts
  obtain ⟨-, -, hR, -, -⟩ := pending_done hb
  have hread := hcounts.readSide_le
  cases b with
  | handshake =>
      rw [hlive] at hcounts
      have hafter : Counts ((c.session.obj.done i).openGate.startBatch .read) false :=
        hcounts.handshake hb
      have hle := hafter.readSide_le
      simp only [startBatch, Call.pending_startBatch, isRead, Bool.toNat_true] at hle
      have hkept : c.session.obj.call.started <+: (c.session.obj.done i).openGate.call.started := by
        unfold openGate
        split
        · exact (flush_starts { c.session.obj.done i with canSend := true }).started_kept
        · exact List.prefix_rfl
      exact orderly_read (orderly_release hinv h hb rfl).1 (hkept.ne_nil hne) (by omega)
  | write m => exact (orderly_release hinv h hb rfl).2
  | close =>
      simp only [handled]
      split
      · exact orderly_finish (s := c.session.obj.done i) (h.complete i) hne (honce rfl)
      · exact h.complete i
  | read =>
      have hpos := Call.pending_pos hb (p := isRead) rfl
      simp only [isRead, Bool.toNat_true] at hR
      cases hmsg : r.message with
      | some data =>
          simp only [handled, hmsg]
          refine orderly_read (s := { c.session.obj.done i with recvBuffer := none })
            (h.complete i) hne ?_
          show (c.session.obj.call.completeAt i).pending isRead = 0
          omega
      | none =>
          simp only [handled, hmsg, afterEnd]
          split
          · refine orderly_finish (s := { c.session.obj.done i with
              recvBuffer := none, finishedReceiving := true }) (h.complete i) hne ?_
            by_contra hasked
            have hrecv := (hcounts.status_started hasked).1
            omega
          · exact h.complete i
  | status => exact h.complete i

theorem call_orderly_step {c c' : BidirClient Req Rep} {e : Event Req}
    (hreach : (machine Req Rep).Reachable c) (hstep : c.step e = some c')
    (honce : c.statusOnce e = true) (h : c.session.obj.call.Orderly) :
    c'.session.obj.call.Orderly := by
  have hinv := inv_of_reachable hreach
  have hne : c.session.obj.call.started ≠ [] :=
    Party.started_ne_nil (P := party Req Rep) (List.cons_ne_nil _ _) hreach
  have hnotend : c.requests.terminal = none → c.session.obj.call.starts isClose = 0 := by
    intro hopen
    exact hinv.outbox.closes_of_open (hinv.ended.trans (by rw [hopen]; rfl))
  cases moves_of_step hstep with
  | @push req _ hopen =>
      rw [Live.update_of_live (hinv.live_of_open hopen)]
      refine orderly_flush (s := { c.session.obj with
        pendingOps := c.session.obj.pendingOps ++ [serialize req] }) h hne ?_ (hnotend hopen)
      intro hsend
      have hgate : c.session.obj.canSend = true := hsend
      have hle := hinv.counts.sendSide_le
      rw [hgate, Bool.toNat_true] at hle
      show c.session.obj.call.pending isWrite = 0
      omega
  | @finish t _ hopen =>
      have hended : (c.session.obj.requestsEnded t).call.Orderly := by
        unfold requestsEnded
        split
        · exact h
        · exact h.cancel
      have hsame : (c.session.obj.requestsEnded t).call.started = c.session.obj.call.started := by
        unfold requestsEnded
        split <;> rfl
      rw [Live.update_of_live (hinv.live_of_open hopen), onRequestsEnd_eq]
      split
      · refine orderly_sendClientEnd hended (hsame ▸ hne) ?_
        rw [Call.starts, hsame]
        exact hnotend hopen
      · exact hended
  | @complete i r session hwork =>
      obtain ⟨b, hb, ⟨hdel, rfl⟩ | ⟨hlive, rfl⟩⟩ := complete_cases hwork
      · exact h.complete i
      · refine call_orderly_handled hinv hlive h hb ?_ r
        rintro rfl
        simpa [statusOnce, hlive, hb] using honce
  | getFuture =>
      exact Live.update_obj (P := fun s : BidirStreamingCallSession Rep => s.call.Orderly) h h

/-- The second `GRPC_OP_RECV_STATUS_ON_CLIENT` is out of order. -/
theorem not_ordered_of_twice {c c' : BidirClient Req Rep} {e : Event Req}
    (hreach : (machine Req Rep).Reachable c) (hstep : c.step e = some c')
    (htwice : c.statusOnce e = false) : ¬ c'.session.obj.call.Ordered := by
  have hinv := inv_of_reachable hreach
  cases moves_of_step hstep with
  | push => cases htwice
  | finish => cases htwice
  | getFuture => cases htwice
  | @complete i r session hwork =>
      simp only [statusOnce, Bool.or_eq_false_iff, bne_eq_false_iff_eq,
        beq_eq_false_iff_ne] at htwice
      obtain ⟨⟨hlive, hclose⟩, hasked⟩ := htwice
      obtain ⟨b, hb, ⟨hdel, -⟩ | ⟨-, rfl⟩⟩ := complete_cases hwork
      · cases hlive.symm.trans hdel
      · obtain rfl : b = .close := Option.some.inj (hb.symm.trans hclose)
        have hrecv : c.session.obj.finishedReceiving = true := by
          have hone := (hinv.counts.status_started hasked).1
          cases hrecv : c.session.obj.finishedReceiving with
          | true => rfl
          | false =>
              rw [hrecv] at hone
              cases hone
        intro hordered
        simp only [handled, hrecv, if_true] at hordered
        have hfollows := Call.Ordered.follows
          (c := c.session.obj.call.completeAt i) (b := .status) hordered
        refine hfollows.once .recvStatusOnClient ?_ rfl ?_
        · simp [kindsOf_singleton, BatchSpec.ops, Op.kind]
        · refine mem_kindsOf (p := isStatus) ?_ hasked
          intro b hstatus
          cases b <;> simp_all [kindsOf_singleton, BatchSpec.ops, Op.kind, isStatus]

end BidirClient

end EasyGrpc
