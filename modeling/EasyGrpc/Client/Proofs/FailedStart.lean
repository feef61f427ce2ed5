import EasyGrpc.Client.FailedStart

set_option autoImplicit false

/-! # What becomes of a call that cannot be started

None of the four start functions fails cleanly. What each leaves behind is the same in every state
that can still be reached: `start_unary_call` does fail its future and free its session, but the
destructor reads `recv_buffer_`, which nobody has given a value; `start_server_streaming_call` fails
a stream that has no storage yet; the constructors of the other two sessions go on as if the
handshake were under way, and wait for it forever. -/

namespace EasyGrpc

variable {Req Rep : Type} [Serializer Req] [Serializer Rep]

/-- No completion comes to an object without outstanding batches. -/
theorem Live.workerMain_of_quiet {σ κ : Type} [BatchSpec κ] [CompletionCallback σ κ] {o : Live σ}
    (h : (CompletionCallback.call o.obj).outstanding = []) (i : ℕ) (r : Received) :
    o.workerMain i r = none := by
  simp [Live.workerMain, h]

theorem Live.no_completion_of_quiet {σ κ α : Type} [BatchSpec κ] [CompletionCallback σ κ]
    {o : Live σ} (h : (CompletionCallback.call o.obj).outstanding = []) {i : ℕ} {r : Received}
    {f : Live σ → α} {c' : α} : (o.workerMain i r).map f ≠ some c' := by
  rw [Live.workerMain_of_quiet h, Option.map_none]
  exact (Option.some_ne_none c').symm

/-! ## Unary calls -/

namespace UnaryClient

theorem startMachine_ok (req : Req) : startMachine Rep .ok req = machine Rep req :=
  rfl

/-- Nothing happens any more. -/
theorem eq_of_failed {code : ℕ} {req : Req} {c : Live (UnaryCallCompletion Rep)}
    (h : (startMachine Rep (.error code) req).Reachable c) :
    c = ⟨({} : UnaryCallCompletion Rep).fail, true⟩ := by
  induction h with
  | init => rfl
  | @step c c' e hs hstep ih =>
      obtain ⟨i, r⟩ := e
      subst ih
      have hquiet := Live.workerMain_of_quiet
        (o := ⟨({} : UnaryCallCompletion Rep).fail, true⟩) rfl i r
      cases hquiet.symm.trans hstep

/-- The future is failed and the session freed, but `recv_buffer_` is read without a value. -/
theorem outcome_of_failed {code : ℕ} {req : Req} {c : Live (UnaryCallCompletion Rep)}
    (h : (startMachine Rep (.error code) req).Reachable c) :
    outcome c = ⟨[some failedToStart], 0, true, [.recvBuffer]⟩ := by
  rw [eq_of_failed h]
  rfl

/-- The destructor reads no member without a value where the call was started. -/
theorem junkReads_of_started {req : Req} {c : Live (UnaryCallCompletion Rep)}
    (h : (startMachine Rep .ok req).Reachable c) : (outcome c).junkReads = [] := by
  have hcall : (c.obj.call = ({} : Call UnaryClientBatch).startBatch (.call (serialize req)) ∧
      c.deleted = false) ∨
      c.obj.call = { started := [.call (serialize req)], outstanding := [] } := by
    induction h with
    | init => exact .inl ⟨rfl, rfl⟩
    | @step c c' e hs hstep ih =>
        obtain ⟨i, r⟩ := e
        obtain ⟨b, hb, hcase⟩ := Live.workerMain_eq_some hstep
        have hb' : c.obj.call.outstanding[i]? = some b := hb
        rcases ih with ⟨hcall, hlive⟩ | hcall
        · rw [hcall] at hb'
          obtain ⟨hi, -⟩ := List.getElem?_eq_some_iff.1 hb'
          obtain rfl : i = 0 := by simpa [Call.startBatch] using hi
          rcases hcase with ⟨hdead, -⟩ | ⟨-, rfl⟩
          · cases hlive.symm.trans hdead
          · refine .inr ?_
            have hdone : c.obj.call.completeAt 0
                = { started := [.call (serialize req)], outstanding := [] } := by
              rw [hcall]
              rfl
            exact hdone
        · rw [hcall] at hb'
          cases hb'
  rcases hcall with ⟨-, hlive⟩ | hcall
  · simp [outcome, Member.junkReads, hlive]
  · unfold outcome Member.junkReads
    rw [hcall]
    split
    · rfl
    · rfl

end UnaryClient

/-! ## Server-streaming calls -/

namespace StreamingClient

theorem startMachine_ok (req : Req) : startMachine Rep .ok req = machine Rep req :=
  rfl

/-- The exception was set on a stream without storage, and no completion is to come. -/
structure Unstarted (c : StreamingClient Rep) : Prop where
  quiet : c.session.obj.call.outstanding = []
  live : c.session.deleted = false
  log : c.session.obj.replyStreamPromise.log = []
  faults : c.session.obj.replyStreamPromise.faults = [.finish (.failed failedToStart)]

theorem unstarted_of_failed {code : ℕ} {req : Req} {c : StreamingClient Rep}
    (h : (startMachine Rep (.error code) req).Reachable c) : c.Unstarted := by
  induction h with
  | init => exact ⟨rfl, rfl, rfl, rfl⟩
  | @step c c' e hs hstep ih =>
      cases e with
      | complete i r => exact absurd hstep (Live.no_completion_of_quiet ih.quiet)
      | getFuture =>
          -- The future gets a storage, which comes too late.
          obtain ⟨-, hs⟩ := Option.ite_none_left_eq_some.1 hstep
          cases hs
          rw [Live.update_of_live ih.live]
          exact ⟨ih.quiet, ih.live, ih.log, ih.faults⟩

/-- The stream is never failed, and the session never freed. -/
theorem outcome_of_failed {code : ℕ} {req : Req} {c : StreamingClient Rep}
    (h : (startMachine Rep (.error code) req).Reachable c) : outcome c = ⟨[], 1, false, []⟩ := by
  obtain ⟨-, hlive, hlog, hfaults⟩ := unstarted_of_failed h
  simp [outcome, StreamPromise.ends, hlog, hfaults, hlive, Member.junkReads]

end StreamingClient

/-! ## Client-streaming calls -/

namespace UploadClient

theorem startMachine_ok : startMachine Req Rep .ok = machine Req Rep :=
  rfl

/-- The session waits for a handshake that was not started. -/
structure Unstarted (c : UploadClient Req Rep) : Prop where
  quiet : c.session.obj.call.outstanding = []
  live : c.session.deleted = false
  rep : c.session.obj.rep = []
  waiting : c.construction ≠ .batchStarted → c.session.obj.batchInFlight = true

omit [Serializer Req] [Serializer Rep] in
/-- What the caller does with its requests starts nothing: `flush_` and the `finally` callback wait
    for the batch in flight. -/
theorem Unstarted.update {c : UploadClient Req Rep} (h : c.Unstarted) (requests : Source Req)
    (hbusy : c.session.obj.batchInFlight = true)
    {f : ClientStreamingCallSession Rep → ClientStreamingCallSession Rep}
    (hf : ∀ s, s.batchInFlight = true →
      (f s).call = s.call ∧ (f s).rep = s.rep ∧ (f s).batchInFlight = true) :
    Unstarted { c with requests, session := c.session.update f } := by
  obtain ⟨hcall, hrep, hbusy'⟩ := hf _ hbusy
  rw [Live.update_of_live h.live]
  refine ⟨?_, h.live, hrep.trans h.rep, fun _ => hbusy'⟩
  simpa only [hcall] using h.quiet

theorem unstarted_of_failed {code : ℕ} {c : UploadClient Req Rep}
    (h : (startMachine Req Rep (.error code)).Reachable c) : c.Unstarted := by
  induction h with
  | init => exact ⟨rfl, rfl, rfl, fun hne => absurd rfl hne⟩
  | @step c c' e hs hstep ih =>
      cases e with
      | complete i r => exact absurd hstep (Live.no_completion_of_quiet ih.quiet)
      | construct =>
          simp only [startMachine, step, construct] at hstep
          split at hstep
          · cases hstep
            rw [Live.update_of_live ih.live]
            exact ⟨ih.quiet, ih.live, ih.rep, fun _ => rfl⟩
          · next hflag =>
              cases hstep
              exact ⟨ih.quiet, ih.live, ih.rep, fun _ => ih.waiting (by simp [hflag])⟩
          · next hlistening =>
              cases hstep
              exact ⟨ih.quiet, ih.live, ih.rep, fun _ => ih.waiting (by simp [hlistening])⟩
          · cases hstep
      | push req =>
          obtain ⟨hret, hs⟩ := Option.ite_none_right_eq_some.1 hstep
          obtain ⟨requests, -, rfl⟩ := Option.map_eq_some_iff.1 hs
          refine ih.update requests (ih.waiting (by simp [hret])) ?_
          intro s hbusy
          simp [ClientStreamingCallSession.onRequest, ClientStreamingCallSession.flush, hbusy]
      | finish t =>
          obtain ⟨hret, hs⟩ := Option.ite_none_right_eq_some.1 hstep
          obtain ⟨requests, -, rfl⟩ := Option.map_eq_some_iff.1 hs
          refine ih.update requests (ih.waiting (by simp [hret])) ?_
          intro s hbusy
          simp [ClientStreamingCallSession.onRequestsEnd, hbusy]

/-- The future is never resolved, and the session never freed. -/
theorem outcome_of_failed {code : ℕ} {c : UploadClient Req Rep}
    (h : (startMachine Req Rep (.error code)).Reachable c) : outcome c = ⟨[], 0, false, []⟩ := by
  obtain ⟨-, hlive, hrep, -⟩ := unstarted_of_failed h
  simp [outcome, hrep, hlive, Member.junkReads]

end UploadClient

/-! ## Bidirectional calls -/

namespace BidirClient

theorem startMachine_ok : startMachine Req Rep .ok = machine Req Rep :=
  rfl

/-- The session waits for a handshake that was not started. -/
structure Unstarted (c : BidirClient Req Rep) : Prop where
  quiet : c.session.obj.call.outstanding = []
  live : c.session.deleted = false
  log : c.session.obj.rep.log = []
  faults : c.session.obj.rep.faults = []
  waiting : c.session.obj.canSend = false

omit [Serializer Req] [Serializer Rep] in
theorem Unstarted.update {c : BidirClient Req Rep} (h : c.Unstarted) (requests : Source Req)
    {f : BidirStreamingCallSession Rep → BidirStreamingCallSession Rep}
    (hf : ∀ s, s.canSend = false → (f s).call.outstanding = s.call.outstanding ∧
      (f s).rep = s.rep ∧ (f s).canSend = false) :
    Unstarted { c with requests, session := c.session.update f } := by
  obtain ⟨hcall, hrep, hwaiting⟩ := hf _ h.waiting
  rw [Live.update_of_live h.live]
  refine ⟨hcall.trans h.quiet, h.live, ?_, ?_, hwaiting⟩
  · simpa only [hrep] using h.log
  · simpa only [hrep] using h.faults

theorem unstarted_of_failed {code : ℕ} {c : BidirClient Req Rep}
    (h : (startMachine Req Rep (.error code)).Reachable c) : c.Unstarted := by
  induction h with
  | init => exact ⟨rfl, rfl, rfl, rfl, rfl⟩
  | @step c c' e hs hstep ih =>
      cases e with
      | complete i r => exact absurd hstep (Live.no_completion_of_quiet ih.quiet)
      | getFuture =>
          obtain ⟨-, hs⟩ := Option.ite_none_left_eq_some.1 hstep
          cases hs
          rw [Live.update_of_live ih.live]
          exact ⟨ih.quiet, ih.live, ih.log, ih.faults, ih.waiting⟩
      | push req =>
          obtain ⟨-, hs⟩ := Option.ite_none_right_eq_some.1 hstep
          obtain ⟨requests, -, rfl⟩ := Option.map_eq_some_iff.1 hs
          refine ih.update requests ?_
          intro s hwaiting
          simp [BidirStreamingCallSession.onRequest, BidirStreamingCallSession.flush, hwaiting]
      | finish t =>
          obtain ⟨-, hs⟩ := Option.ite_none_right_eq_some.1 hstep
          obtain ⟨requests, -, rfl⟩ := Option.map_eq_some_iff.1 hs
          refine ih.update requests ?_
          intro s hwaiting
          -- A failed request stream cancels the call, which starts nothing either.
          unfold BidirStreamingCallSession.onRequestsEnd
          split <;> simp [hwaiting, Call.cancel]

/-- The stream is never ended, and the session never freed. -/
theorem outcome_of_failed {code : ℕ} {c : BidirClient Req Rep}
    (h : (startMachine Req Rep (.error code)).Reachable c) : outcome c = ⟨[], 0, false, []⟩ := by
  obtain ⟨-, hlive, hlog, hfaults, -⟩ := unstarted_of_failed h
  simp [outcome, StreamPromise.ends, hlog, hfaults, hlive, Member.junkReads]

end BidirClient

/-! ## All four -/

/-- **No start function fails cleanly**, whatever the error and whatever is done afterwards. -/
theorem no_failed_start_is_clean (code : ℕ) (req : Req) :
    (∀ c, (UnaryClient.startMachine Rep (.error code) req).Reachable c →
      ¬ (UnaryClient.outcome c).Clean) ∧
    (∀ c, (StreamingClient.startMachine Rep (.error code) req).Reachable c →
      ¬ (StreamingClient.outcome c).Clean) ∧
    (∀ c, (UploadClient.startMachine Req Rep (.error code)).Reachable c →
      ¬ (UploadClient.outcome c).Clean) ∧
    (∀ c, (BidirClient.startMachine Req Rep (.error code)).Reachable c →
      ¬ (BidirClient.outcome c).Clean) := by
  refine ⟨?_, ?_, ?_, ?_⟩
  · intro c h hclean
    have hinit := hclean.initialised
    rw [UnaryClient.outcome_of_failed h] at hinit
    cases hinit
  · intro c h hclean
    have hfreed := hclean.freed
    rw [StreamingClient.outcome_of_failed h] at hfreed
    cases hfreed
  · intro c h hclean
    have hfreed := hclean.freed
    rw [UploadClient.outcome_of_failed h] at hfreed
    cases hfreed
  · intro c h hclean
    have hfreed := hclean.freed
    rw [BidirClient.outcome_of_failed h] at hfreed
    cases hfreed

/-- Each call is refused with the error 1; the caller of the streaming ones goes on to use what it
    was given. -/
theorem no_failed_start_is_clean_used :
    (∃ c : Live (UnaryCallCompletion Buffer), ¬ (UnaryClient.outcome c).Clean ∧
      c = (UnaryClient.startMachine Buffer (.error 1) ([1] : Buffer)).init) ∧
    (∃ c : StreamingClient Buffer, c.returned = true ∧ ¬ (StreamingClient.outcome c).Clean) ∧
    (∃ c : UploadClient Buffer Buffer, c.session.obj.pendingOps = [[5]] ∧
      ¬ (UploadClient.outcome c).Clean) ∧
    (∃ c : BidirClient Buffer Buffer, c.session.obj.pendingOps = [[5]] ∧
      ¬ (BidirClient.outcome c).Clean) := by
  obtain ⟨hunary, hstreaming, hupload, hbidir⟩ :=
    @no_failed_start_is_clean Buffer Buffer _ _ 1 [1]
  refine ⟨⟨_, hunary _ .init, rfl⟩, ?_, ?_, ?_⟩
  · exact ⟨_, rfl, hstreaming _ (Machine.reachable_of_run [.getFuture] rfl)⟩
  · have hrun := hupload _ (Machine.reachable_of_run
      [.construct, .construct, .construct, .push [5], .finish .complete] rfl)
    exact ⟨_, rfl, hrun⟩
  · have hrun := hbidir _ (Machine.reachable_of_run
      [.getFuture, .push [5], .finish .complete] rfl)
    exact ⟨_, rfl, hrun⟩

/-- A unary call is refused with the error 1. -/
theorem refused_unary_call_reads_junk :
    UnaryClient.outcome (UnaryClient.startMachine Buffer (.error 1) ([1] : Buffer)).init
        = ⟨[some failedToStart], 0, true, [.recvBuffer]⟩ ∧
      ¬ ∀ code : ℕ, ∃ c, (UnaryClient.startMachine Buffer (.error code) ([1] : Buffer)).Reachable c ∧
        (UnaryClient.outcome c).Clean := by
  refine ⟨rfl, ?_⟩
  intro hall
  obtain ⟨c, hreach, hclean⟩ := hall 1
  have hinit := hclean.initialised
  rw [UnaryClient.outcome_of_failed hreach] at hinit
  cases hinit

end EasyGrpc
