import EasyGrpc.Client.Proofs.BidirStreaming
import EasyGrpc.Client.Proofs.ClientStreaming

set_option autoImplicit false

/-! # A failed request stream and the half-close

A server cannot tell why its client has half-closed, so a request stream that has failed is to
cancel the call. The bidirectional session does; the client-streaming session, which does not look
at how the stream ended, never cancels. -/

namespace EasyGrpc

variable {Req Rep : Type}

/-- A half-close was started only for a complete request stream, or on a call that was cancelled. -/
def HonestClose {κ : Type} [BatchSpec κ] (call : Call κ) (requests : Option StreamEnd) : Prop :=
  call.closed = true → requests = some .complete ∨ call.cancelled = true

/-! ## The bidirectional session -/

namespace BidirClient

open BidirStreamingCallSession BidirClientBatch

theorem cancelled_flush (s : BidirStreamingCallSession Rep) :
    s.flush.call.cancelled = s.call.cancelled := by
  unfold flush
  split
  · rfl
  · split <;> rfl

/-- A failed request stream cancels the call before anything else is done. -/
theorem cancelled_requestsEnded (s : BidirStreamingCallSession Rep) {t : StreamEnd}
    (ht : t.isFailed = true) :
    (s.requestsEnded t).call = s.call.cancel := by
  unfold requestsEnded
  split
  · next hcomplete =>
      rw [hcomplete] at ht
      cases ht
  · rfl

theorem cancelled_onRequestsEnd (s : BidirStreamingCallSession Rep) {t : StreamEnd}
    (ht : t.isFailed = true) : (s.onRequestsEnd t).call.cancelled = true := by
  have hcall : (s.requestsEnded t).call.cancelled = true := by
    rw [cancelled_requestsEnded s ht]
    rfl
  rw [onRequestsEnd_eq]
  split
  · exact hcall
  · exact hcall

variable [Serializer Rep]

/-- `exec` does not undo a cancellation. -/
theorem cancelled_handled (s : BidirStreamingCallSession Rep) (i : ℕ) (r : Received)
    (b : BidirClientBatch) : (s.handled i r b).obj.call.cancelled = s.call.cancelled := by
  cases b with
  | handshake =>
      simp only [handled, openGate]
      split
      · exact cancelled_flush _
      · rfl
  | write m =>
      simp only [handled, afterWrite]
      split
      · exact cancelled_flush _
      · split <;> rfl
  | close =>
      simp only [handled]
      split <;> rfl
  | read =>
      simp only [handled]
      split
      · rfl
      · simp only [afterEnd]
        split <;> rfl
  | status => rfl

variable [Serializer Req]

/-- The call of a failed request stream is cancelled. -/
theorem cancelled_of_failed {c : BidirClient Req Rep} (h : (machine Req Rep).Reachable c)
    {t : StreamEnd} (hterm : c.requests.terminal = some t) (ht : t.isFailed = true) :
    c.session.obj.call.cancelled = true := by
  induction h with
  | init => cases hterm
  | @step c c' e hs hnext ih =>
      have hinv := inv_of_reachable hs
      cases moves_of_step hnext with
      | push hret hopen =>
          rw [hopen] at hterm
          cases hterm
      | @finish t' hret hopen =>
          obtain rfl : t' = t := Option.some.inj hterm
          rw [Live.update_of_live (hinv.live_of_open hopen)]
          exact cancelled_onRequestsEnd _ ht
      | complete hwork =>
          obtain ⟨b, -, ⟨-, rfl⟩ | ⟨-, rfl⟩⟩ := complete_cases hwork
          · exact ih hterm
          · rw [cancelled_handled]
            exact ih hterm
      | getFuture hret =>
          exact Live.update_obj (P := fun s : BidirStreamingCallSession Rep =>
            s.call.cancelled = true) (ih hterm) (ih hterm)

/-- The bidirectional session half-closes honestly. -/
theorem honestClose {c : BidirClient Req Rep} (h : (machine Req Rep).Reachable c) :
    HonestClose c.session.obj.call c.requests.terminal := by
  intro hclosed
  have hinv := inv_of_reachable h
  have hended := hinv.outbox.closed_ended ((closed_iff _).1 hclosed)
  have hsome : c.requests.terminal.isSome = true := hinv.ended.symm.trans hended
  obtain ⟨t, ht⟩ := Option.isSome_iff_exists.1 hsome
  cases t with
  | complete => exact Or.inl ht
  | failed e => exact Or.inr (cancelled_of_failed h ht rfl)

end BidirClient

/-! ## The client-streaming session -/

namespace UploadClient

open ClientStreamingCallSession UploadClientBatch

/-- The end is sent only once the request stream has ended. -/
structure Uncancelled (s : ClientStreamingCallSession Rep) : Prop where
  cancelled : s.call.cancelled = false
  closed : s.call.closed = true → s.finished = true

theorem closed_startBatch (call : Call UploadClientBatch) (b : UploadClientBatch) :
    (call.startBatch b).closed = (call.closed || b.isSendEnd) := by
  simp only [Call.closed, Call.ops_startBatch, List.any_append]
  cases b <;> rfl

theorem Uncancelled.flush {s : ClientStreamingCallSession Rep} (h : Uncancelled s) :
    Uncancelled s.flush := by
  unfold ClientStreamingCallSession.flush
  split
  · exact h
  · split
    · exact h
    · refine ⟨h.cancelled, ?_⟩
      intro hclosed
      exact h.closed (by simpa [startBatch, closed_startBatch, isSendEnd] using hclosed)

theorem Uncancelled.sendEnd {s : ClientStreamingCallSession Rep} (h : Uncancelled s)
    (hfin : s.finished = true) : Uncancelled s.sendEnd :=
  ⟨h.cancelled, fun _ => hfin⟩

theorem Uncancelled.exec [Serializer Rep] {s : ClientStreamingCallSession Rep}
    (h : Uncancelled s) (flags : BitVec 4) : Uncancelled (s.exec flags).2 := by
  have hidle : Uncancelled { s with batchInFlight := false } := ⟨h.cancelled, h.closed⟩
  unfold ClientStreamingCallSession.exec
  dsimp only
  split
  · exact hidle.flush
  · split
    · next hfin =>
        split
        · exact ⟨h.cancelled, h.closed⟩
        · exact hidle.sendEnd hfin
    · exact hidle

theorem finished_flush (s : ClientStreamingCallSession Rep) : s.flush.finished = s.finished := by
  unfold ClientStreamingCallSession.flush
  split
  · rfl
  · split <;> rfl

theorem finished_exec [Serializer Rep] (s : ClientStreamingCallSession Rep) (flags : BitVec 4) :
    (s.exec flags).2.finished = s.finished := by
  unfold ClientStreamingCallSession.exec
  dsimp only
  split
  · exact finished_flush _
  · split
    · split <;> rfl
    · rfl

variable [Serializer Req] [Serializer Rep]

/-- The call is never cancelled, and half-closed only after the end of the request stream. -/
structure Plain (c : UploadClient Req Rep) : Prop where
  session : Uncancelled c.session.obj
  finished : c.session.obj.finished = true → c.requests.terminal.isSome = true

theorem plain_step {c c' : UploadClient Req Rep} {e : Event Req} (h : Plain c)
    (hstep : c.step e = some c') : Plain c' := by
  cases moves_of_step hstep with
  | setFlag hfirst =>
      refine ⟨Live.update_obj (P := Uncancelled) h.session
        ⟨h.session.cancelled, h.session.closed⟩, ?_⟩
      exact Live.update_obj (P := fun s : ClientStreamingCallSession Rep =>
        s.finished = true → c.requests.terminal.isSome = true) h.finished h.finished
  | listen hset => exact ⟨h.session, h.finished⟩
  | leave hlistening => exact ⟨h.session, h.finished⟩
  | @push req hret hopen =>
      have hqueued : Uncancelled { c.session.obj with
          pendingOps := c.session.obj.pendingOps ++ [serialize req] } :=
        ⟨h.session.cancelled, h.session.closed⟩
      refine ⟨Live.update_obj (P := Uncancelled) h.session hqueued.flush, ?_⟩
      refine Live.update_obj (P := fun s : ClientStreamingCallSession Rep =>
        s.finished = true → c.requests.terminal.isSome = true) h.finished ?_
      intro hfin
      exact h.finished ((finished_flush { c.session.obj with
        pendingOps := c.session.obj.pendingOps ++ [serialize req] }).symm.trans hfin)
  | @finish t hret hopen =>
      refine ⟨Live.update_obj (P := Uncancelled) h.session ?_, fun _ => rfl⟩
      have hended : Uncancelled { c.session.obj with finished := true } :=
        ⟨h.session.cancelled, fun _ => rfl⟩
      simp only [onRequestsEnd]
      split
      · exact hended.sendEnd rfl
      · exact hended
  | @complete i r session hwork =>
      obtain ⟨b, -, ⟨-, rfl⟩ | ⟨-, rfl⟩⟩ := Live.workerMain_eq_some hwork
      · exact ⟨⟨h.session.cancelled, h.session.closed⟩, h.finished⟩
      · have hdone : Uncancelled (Live.completed c.session.obj i b r) := by
          cases b <;> exact ⟨h.session.cancelled, h.session.closed⟩
        have hsame : (Live.completed c.session.obj i b r).finished = c.session.obj.finished := by
          cases b <;> rfl
        refine ⟨hdone.exec _, ?_⟩
        intro hfin
        exact h.finished (hsame.symm.trans ((finished_exec _ _).symm.trans hfin))

theorem plain_of_reachable {c : UploadClient Req Rep} (h : (machine Req Rep).Reachable c) :
    Plain c := by
  refine h.invariant (P := Plain) ⟨⟨rfl, ?_⟩, ?_⟩ (fun hstep hc => plain_step hc hstep)
  · intro hclosed
    cases hclosed
  · intro hfinished
    cases hfinished

/-- The caller does not fail its request stream. -/
def endsComplete (_ : UploadClient Req Rep) : Event Req → Bool
  | .finish t => t.isComplete
  | _ => true

/-- A request stream that never fails ends with `complete()`. -/
theorem terminal_of_guard {c : UploadClient Req Rep}
    (h : ((machine Req Rep).guard endsComplete).Reachable c) :
    c.requests.terminal = none ∨ c.requests.terminal = some .complete := by
  refine h.guard_invariant (P := fun c : UploadClient Req Rep =>
    c.requests.terminal = none ∨ c.requests.terminal = some .complete) (Or.inl rfl) ?_
  intro c c' e _ hstep hend hc
  cases moves_of_step hstep with
  | setFlag hfirst => exact hc
  | listen hset => exact hc
  | leave hlistening => exact hc
  | push hret hopen => exact Or.inl hopen
  | @finish t hret hopen =>
      cases t with
      | complete => exact Or.inr rfl
      | failed e => cases hend
  | complete hwork => exact hc

/-- The client-streaming session half-closes honestly exactly if it does not half-close for a
    request stream that has failed. -/
theorem honestClose_iff {c : UploadClient Req Rep} (h : (machine Req Rep).Reachable c) :
    HonestClose c.session.obj.call c.requests.terminal ↔
      (c.session.obj.call.closed = true → ∀ e, c.requests.terminal ≠ some (.failed e)) := by
  have hplain := plain_of_reachable h
  constructor
  · intro hhonest hclosed e hterm
    rcases hhonest hclosed with hcomplete | hcancelled
    · rw [hterm] at hcomplete
      cases hcomplete
    · rw [hplain.session.cancelled] at hcancelled
      cases hcancelled
  · intro hnot hclosed
    obtain ⟨t, ht⟩ := Option.isSome_iff_exists.1 (hplain.finished (hplain.session.closed hclosed))
    cases t with
    | complete => exact Or.inl ht
    | failed e => exact absurd ht (hnot hclosed e)

end UploadClient

/-! ## Both sessions -/

variable [Serializer Req] [Serializer Rep]

/-- **A failed request stream is not presented as a clean end**: by the bidirectional session in
    every run, where the call is cancelled before the close is started, and by the client-streaming
    session in the runs whose request stream does not fail. For a failed one it half-closes a call
    that was never cancelled. -/
theorem half_close_honest :
    (∀ c, (BidirClient.machine Req Rep).Reachable c →
      HonestClose c.session.obj.call c.requests.terminal) ∧
    (∀ (s : BidirStreamingCallSession Rep) (t : StreamEnd), t.isFailed = true →
      ∃ s', s'.call = s.call.cancel ∧
        (s.onRequestsEnd t = s' ∨ s.onRequestsEnd t = s'.sendClientEnd)) ∧
    (∀ c, ((UploadClient.machine Req Rep).guard UploadClient.endsComplete).Reachable c →
      HonestClose c.session.obj.call c.requests.terminal) ∧
    (∀ c, (UploadClient.machine Req Rep).Reachable c → c.session.obj.call.closed = true →
      ∀ e, c.requests.terminal = some (.failed e) →
        ¬ HonestClose c.session.obj.call c.requests.terminal) := by
  refine ⟨fun c h => BidirClient.honestClose h, ?_, ?_, ?_⟩
  · intro s t ht
    refine ⟨s.requestsEnded t, BidirClient.cancelled_requestsEnded s ht, ?_⟩
    rw [BidirStreamingCallSession.onRequestsEnd_eq]
    split
    · exact Or.inr rfl
    · exact Or.inl rfl
  · intro c h
    rw [UploadClient.honestClose_iff h.of_guard]
    intro _ e hterm
    rcases UploadClient.terminal_of_guard h with hnone | hcomplete
    · rw [hnone] at hterm
      cases hterm
    · rw [hcomplete] at hterm
      cases hterm
  · intro c h hclosed e hterm hhonest
    exact (UploadClient.honestClose_iff h).1 hhonest hclosed e hterm

/-- A bidirectional call whose request stream fails after one request: it is cancelled and then
    closed. -/
theorem half_close_honest_cancelled :
    ∃ c : BidirClient Buffer Buffer, (BidirClient.machine Buffer Buffer).Reachable c ∧
      c.requests.terminal = some (.failed .other) ∧ c.session.obj.call.closed = true ∧
      c.session.obj.call.cancelled = true ∧
      HonestClose c.session.obj.call c.requests.terminal :=
  have hrun : (BidirClient.machine Buffer Buffer).Reachable _ :=
    Machine.reachable_of_run
      [.getFuture, .complete 0 {}, .push [1], .finish (.failed .other), .complete 1 {}] rfl
  ⟨_, hrun, rfl, rfl, rfl, half_close_honest.1 _ hrun⟩

/-- A client-streaming call whose request stream fails after one request: the end is sent as if the
    stream were complete. -/
theorem failed_upload_half_closed :
    ∃ c : UploadClient Buffer Buffer, (UploadClient.machine Buffer Buffer).Reachable c ∧
      c.requests.pushed = [[1]] ∧ c.requests.terminal = some (.failed .other) ∧
      c.session.obj.call.closed = true ∧ c.session.obj.call.cancelled = false ∧
      ¬ HonestClose c.session.obj.call c.requests.terminal := by
  refine ⟨_, Machine.reachable_of_run
    [.construct, .construct, .construct, .complete 0 {}, .push [1], .finish (.failed .other),
      .complete 0 {}] rfl, rfl, rfl, rfl, rfl, ?_⟩
  intro hhonest
  rcases hhonest rfl with hcomplete | hcancelled
  · cases hcomplete
  · cases hcancelled

end EasyGrpc
