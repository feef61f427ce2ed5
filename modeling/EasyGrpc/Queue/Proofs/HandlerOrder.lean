import EasyGrpc.Rpc.Proofs.StreamingProgress
import EasyGrpc.Rpc.Proofs.UnaryProgress
import EasyGrpc.Server.Proofs.BidirStreaming
import EasyGrpc.Server.Proofs.ClientStreaming
import EasyGrpc.Server.Proofs.ServerStreaming
import EasyGrpc.Queue.Proofs.CallOrder

set_option autoImplicit false

/-! # The order of operations in the handlers

The handlers with one reply start every batch when it may be. The two whose replies are a stream
send what is queued behind the status of a stream that has failed, and the bidirectional one may
start that status before the metadata. -/

namespace EasyGrpc

variable {Req Rep : Type}

/-- Replies that are over have not failed. -/
theorem Feeds.not_failed [Serializer Rep] {src : Source Rep} {o : Outbox Buffer} (h : Feeds src o)
    (hended : o.ended = true) :
    src.attached = true ∧ src.terminal.any StreamEnd.isFailed = false := by
  rw [h.ended, Bool.and_eq_true] at hended
  refine ⟨hended.1, ?_⟩
  cases hterm : src.terminal with
  | none => rfl
  | some t =>
      cases t with
      | complete => rfl
      | failed e => simp [hterm, StreamEnd.isComplete] at hended

/-! ## The unary handler -/

namespace UnaryServer

/-- The answer is the first batch of its call. -/
theorem orderly_finish [Serializer Rep] {h : UnaryCallHandler} (hfresh : h.call = {})
    (o : Except Exception Rep) : (h.finish o).call.Orderly := by
  have hstart : ∀ b : UnaryServerBatch, (h.call.startBatch b).Orderly := by
    intro b
    rw [hfresh]
    refine Call.Orderly.new.startFirst rfl ?_ ?_ <;>
      cases b <;> simp [kindsOf_singleton, BatchSpec.ops, Op.kind]
  cases o with
  | ok rep => exact hstart _
  | error e => exact hstart _

variable [Serializer Req] [Serializer Rep]

theorem orderly_of_reachable {method : UnaryMethod Req Rep} {c : UnaryServer Rep}
    (h : (machine method).Reachable c) :
    c.handler.obj.call.Orderly ∧ (c.performed = false → c.outcome = none) ∧
      (c.outcome = none → c.handler.obj.call = {}) := by
  refine h.invariant (P := fun c : UnaryServer Rep => c.handler.obj.call.Orderly ∧
    (c.performed = false → c.outcome = none) ∧ (c.outcome = none → c.handler.obj.call = {}))
    ⟨.new, fun _ => rfl, fun _ => rfl⟩ ?_
  intro c c' e hstep hc
  obtain ⟨ih, hunperformed, hfresh⟩ := hc
  cases moves_of_step (show c.step method e = some c' from hstep) with
  | @perform payload hnot =>
      have hnew := hfresh (hunperformed hnot)
      cases hinvoke : method.invoke (deserialize payload) with
      | none =>
          simp only [UnaryCallHandler.perform, hinvoke]
          refine ⟨?_, (fun hno => by cases hno), fun _ => ?_⟩
          · exact Live.update_obj (P := fun h : UnaryCallHandler => h.call.Orderly) ih ih
          · exact Live.update_obj (P := fun h : UnaryCallHandler => h.call = {}) hnew hnew
      | some o =>
          simp only [UnaryCallHandler.perform, hinvoke]
          refine ⟨?_, (fun hno => by cases hno), fun hno => by cases hno⟩
          exact Live.update_obj (P := fun h : UnaryCallHandler => h.call.Orderly) ih
            (orderly_finish hnew o)
  | @reply o hperformed hnone =>
      refine ⟨?_, fun hno => ?_, fun hno => by cases hno⟩
      · exact Live.update_obj (P := fun h : UnaryCallHandler => h.call.Orderly) ih
          (orderly_finish (hfresh hnone) o)
      · cases hperformed.symm.trans hno
  | @complete i r handler hwork =>
      obtain ⟨b, hb, hcase⟩ := Live.workerMain_eq_some hwork
      have hsome : c.outcome ≠ none := by
        intro hnone
        have hb' : c.handler.obj.call.outstanding[i]? = some b := hb
        rw [hfresh hnone] at hb'
        cases hb'
      rcases hcase with ⟨-, rfl⟩ | ⟨-, rfl⟩
      · exact ⟨ih.complete i, hunperformed, fun hno => absurd hno hsome⟩
      · exact ⟨ih.complete i, hunperformed, fun hno => absurd hno hsome⟩

end UnaryServer

/-! ## The client-streaming handler -/

namespace UploadServer

open ClientStreamingCallHandler UploadServerBatch

/-- The answer is started once. -/
theorem orderly_finish [Serializer Rep] {h : ClientStreamingCallHandler Req} (ho : h.call.Orderly)
    (hne : h.call.started ≠ []) (hnone : h.call.starts isAnswer = 0) (o : Except Exception Rep) :
    (h.finish o).call.Orderly := by
  have hstart : ∀ b : UploadServerBatch, b.isAnswer = true → (h.call.startBatch b).Orderly := by
    intro b hb
    refine ho.startOnce (p := isAnswer) hne ?_ ?_ hnone
    · cases b <;> simp [kindsOf_singleton, BatchSpec.ops, Op.kind]
    · intro b' k hk hor
      cases b <;> cases b' <;> cases k <;>
        simp_all [kindsOf_singleton, BatchSpec.ops, Op.kind, isAnswer, isRead, OpKind.isLast]
  cases o with
  | ok rep => exact hstart _ rfl
  | error e => exact hstart _ rfl

variable [Serializer Req] [Serializer Rep]

omit [Serializer Req] in
/-- The handler answers once it knows the reply. -/
theorem orderly_answered {c : UploadServer Req Rep} (hinv : c.Inv)
    (h : c.handler.obj.call.Orderly) (hne : c.handler.obj.call.started ≠ [])
    (hnone : c.answer = none) (o : Except Exception Rep) :
    (c.handler.update (·.finish o)).obj.call.Orderly := by
  have hanswers := hinv.counts.answers_eq
  rw [hnone] at hanswers
  exact Live.update_obj (P := fun h : ClientStreamingCallHandler Req => h.call.Orderly) h
    (orderly_finish h hne hanswers o)

omit [Serializer Req] in
theorem started_finish_ne_nil {c : UploadServer Req Rep} (hne : c.handler.obj.call.started ≠ [])
    (o : Except Exception Rep) : (c.handler.update (·.finish o)).obj.call.started ≠ [] :=
  Live.update_obj (P := fun h : ClientStreamingCallHandler Req => h.call.started ≠ []) hne
    ((finish_starts _ o).started_kept.ne_nil hne)

/-- The next read is started when the last one is done. -/
theorem call_orderly_handled {c : UploadServer Req Rep} (hinv : c.Inv)
    (h : c.handler.obj.call.Orderly) {i : ℕ} {b : UploadServerBatch}
    (hb : c.handler.obj.call.outstanding[i]? = some b) (r : Received) :
    (c.handler.obj.handled i r b).obj.call.Orderly ∧
      (c.handler.obj.handled i r b).obj.call.started ≠ [] := by
  have hne := h.started_ne_nil hb
  have hdone := h.complete i
  cases hread : b.isRead with
  | false =>
      simp only [handled, hread, Bool.false_eq_true, if_false]
      exact ⟨hdone, hne⟩
  | true =>
      cases hmsg : r.message with
      | none =>
          simp only [handled, hread, hmsg, if_true]
          exact ⟨hdone, hne⟩
      | some data =>
          simp only [handled, hread, hmsg, if_true]
          have hpending : (c.handler.obj.call.completeAt i).pending isRead = 0 := by
            have hle := hinv.counts.reads_le
            have hone := Bool.toNat_le c.reading
            obtain ⟨hR, -⟩ := pending_done hb
            rw [hread, Bool.toNat_true] at hR
            omega
          refine ⟨hdone.startRead (p := isRead) hne rfl ?_ hpending,
            List.append_ne_nil_of_left_ne_nil hne _⟩
          intro b' hk
          cases b' <;> simp_all [kindsOf_singleton, BatchSpec.ops, Op.kind, isRead]

theorem orderly_of_reachable {c : UploadServer Req Rep} (h : (machine Req Rep).Reachable c) :
    c.handler.obj.call.Orderly ∧ (c.reading = false → c.handler.obj.call = {}) ∧
      (c.reading = true → c.handler.obj.call.started ≠ []) := by
  induction h with
  | init => exact ⟨.new, fun _ => rfl, fun hno => by cases hno⟩
  | @step c c' e hreach hstep ih =>
      obtain ⟨horderly, hfresh, hne⟩ := ih
      have hinv := inv_of_reachable hreach
      cases moves_of_step (show c.step e = some c' from hstep) with
      | @reply o hnone =>
          cases hatt : c.attached with
          | false => exact ⟨horderly, hfresh, hne⟩
          | true =>
              have hreading := hinv.order hatt
              have hunanswered : c.answer = none := by simp [answer, hatt, hnone]
              simp only [if_true]
              refine ⟨orderly_answered hinv horderly (hne hreading) hunanswered o, fun hno => ?_,
                fun _ => started_finish_ne_nil (hne hreading) o⟩
              cases hreading.symm.trans hno
      | startReading hreading =>
          have hunattached : c.attached = false := by
            by_contra hatt
            rw [hinv.order (by simpa using hatt)] at hreading
            cases hreading
          have hlive := hinv.live_of_unanswered (by simp [answer, hunattached])
          rw [Live.update_of_live hlive]
          refine ⟨?_, (fun hno => by cases hno),
            fun _ => List.append_ne_nil_of_right_ne_nil _ (List.cons_ne_nil _ _)⟩
          refine horderly.startFirst (congrArg Call.started (hfresh hreading)) ?_ ?_ <;>
            simp [kindsOf_singleton, BatchSpec.ops, Op.kind]
      | attach hreading hatt =>
          cases hreply : c.reply with
          | none => exact ⟨horderly, hfresh, hne⟩
          | some o =>
              have hunanswered : c.answer = none := by simp [answer, hatt]
              simp only
              refine ⟨orderly_answered hinv horderly (hne hreading) hunanswered o, fun hno => ?_,
                fun _ => started_finish_ne_nil (hne hreading) o⟩
              cases hreading.symm.trans hno
      | @complete i r handler hwork =>
          obtain ⟨b, hb, hcase⟩ := complete_cases hwork
          have hreading : c.reading = true := by
            by_contra hno
            rw [hfresh (by simpa using hno)] at hb
            cases hb
          have hdone := horderly.complete i
          rcases hcase with ⟨-, rfl⟩ | ⟨-, rfl⟩
          · exact ⟨hdone, fun hno => by simp [hreading] at hno, hne⟩
          · obtain ⟨hnext, hstarted⟩ := call_orderly_handled hinv horderly hb r
            exact ⟨hnext, fun hno => by simp [hreading] at hno, fun _ => hstarted⟩

end UploadServer

/-! ## The server-streaming handler -/

namespace StreamingServer

open ServerStreamingCallHandler StreamingServerBatch

/-- A batch is done behind a failure while replies are queued: `exec` sends the next of them. -/
def nothingBehindStatus (c : StreamingServer Req Rep) : Event Rep → Bool
  | .complete i _ => c.handler.deleted ||
      !(c.handler.obj.call.outstanding[i]?.any fun b => b.isMetadata || b.isWrite) ||
      c.handler.obj.call.starts isFail == 0 || c.handler.obj.pendingOps.isEmpty
  | _ => true

theorem starts_isLast {call : Call StreamingServerBatch} (hends : call.starts isSendEnd = 0)
    (hfails : call.starts isFail = 0) : call.starts isLast = 0 :=
  Call.starts_or hends hfails

/-- A reply is sent while no other batch is in flight and the end was not started. -/
theorem orderly_flush {h : ServerStreamingCallHandler} (ho : h.call.Orderly)
    (hne : h.batchInFlight = false → h.call.started ≠ [])
    (hpending : h.batchInFlight = false → h.call.pending isWrite = 0)
    (hopen : h.call.starts isLast = 0) : h.flush.call.Orderly := by
  unfold ServerStreamingCallHandler.flush
  split
  · exact ho
  · next hidle =>
      have hidle : h.batchInFlight = false := by simpa using hidle
      split
      · exact ho
      · refine ho.startWrite (p := isWrite) (q := isLast) (hne hidle) rfl ?_ ?_
          (hpending hidle) hopen
        · intro b' hk
          cases b' <;> simp_all [kindsOf_singleton, BatchSpec.ops, Op.kind, isWrite]
        · intro b' k hk hlast
          cases b' <;> cases k <;> simp_all [kindsOf_singleton, BatchSpec.ops, Op.kind, isLast,
            isSendEnd, isFail, OpKind.isLast]

/-- The call is ended once. -/
theorem orderly_end {h : ServerStreamingCallHandler} (ho : h.call.Orderly)
    (hne : h.call.started ≠ []) (hnone : h.call.starts isLast = 0) {b : StreamingServerBatch}
    (hb : isLast b = true) : (h.startBatch b).call.Orderly := by
  refine ho.startOnce (p := isLast) hne ?_ ?_ hnone
  · cases b <;> simp_all [kindsOf_singleton, BatchSpec.ops, Op.kind, isLast, isSendEnd, isFail]
  · intro b' k hk hor
    cases b <;> cases b' <;> cases k <;> simp_all [kindsOf_singleton, BatchSpec.ops, Op.kind,
      isLast, isSendEnd, isFail, OpKind.isLast]

variable [Serializer Req] [Serializer Rep]

/-- Before `perform` nothing was started, and then the metadata. -/
theorem started_of_reachable {c : StreamingServer Req Rep} (h : (machine Req Rep).Reachable c) :
    (c.req.isSome = false → c.handler.obj.call = {}) ∧
      (c.req.isSome = true → c.handler.obj.call.started ≠ []) := by
  induction h with
  | init => exact ⟨fun _ => rfl, fun hno => by cases hno⟩
  | @step c c' e hreach hstep ih =>
      obtain ⟨hfresh, hne⟩ := ih
      have hinv := inv_of_reachable hreach
      have hkept : c.handler.obj.call.started <+: c'.handler.obj.call.started :=
        Party.started_step (P := party Req Rep) hstep
      cases moves_of_step (show c.step e = some c' from hstep) with
      | push hopen =>
          refine ⟨fun hno => ?_, fun hreq => hkept.ne_nil (hne hreq)⟩
          simpa [(hinv.unperformed hno).1] using hfresh hno
      | finish hopen =>
          refine ⟨fun hno => ?_, fun hreq => hkept.ne_nil (hne hreq)⟩
          simpa [(hinv.unperformed hno).1] using hfresh hno
      | perform hreq =>
          refine ⟨(fun hno => by cases hno), fun _ => ?_⟩
          obtain ⟨hatt, hthrew, -⟩ := hinv.unperformed hreq
          rw [Live.update_of_live (hinv.live_of_open (Or.inl hatt) hthrew)]
          exact List.append_ne_nil_of_right_ne_nil _ (List.cons_ne_nil _ _)
      | attach hreq =>
          refine ⟨fun hno => ?_, fun _ => hkept.ne_nil (hne hreq)⟩
          cases hreq.symm.trans hno
      | throws hreq =>
          refine ⟨fun hno => ?_, fun _ => hkept.ne_nil (hne hreq)⟩
          cases hreq.symm.trans hno
      | complete hwork =>
          refine ⟨fun hno => ?_, fun hreq => hkept.ne_nil (hne hreq)⟩
          obtain ⟨b, hb, -⟩ := complete_cases hwork
          rw [hfresh hno] at hb
          cases hb

omit [Serializer Req] in
/-- Nothing has ended the call while the replies are open. -/
theorem Inv.starts_isLast {c : StreamingServer Req Rep} (h : c.Inv)
    (hopen : c.replies.attached = false ∨ c.replies.terminal = none) (hthrew : c.threw = none) :
    c.handler.obj.call.starts isLast = 0 := by
  refine StreamingServer.starts_isLast (h.feeds.outbox.closes_of_open (h.feeds.not_ended hopen)) ?_
  rw [h.failed, hthrew]
  rcases hopen with hopen | hopen <;> simp [hopen]

omit [Serializer Req] in
theorem orderly_pushed {c : StreamingServer Req Rep} (hinv : c.Inv)
    (hopen : c.replies.terminal = none) (hatt : c.replies.attached = true)
    (h : c.handler.obj.call.Orderly) (hne : c.handler.obj.call.started ≠ []) (rep : Rep) :
    (c.handler.obj.push rep).call.Orderly := by
  refine orderly_flush (h := { c.handler.obj with
    pendingOps := c.handler.obj.pendingOps ++ [serialize rep] }) h (fun _ => hne) ?_
    (hinv.starts_isLast (Or.inr hopen) (hinv.threw_of_attached hatt))
  intro hidle
  have hle := hinv.counts.gate_le
  have hflag : c.handler.obj.batchInFlight = false := hidle
  rw [hflag, Bool.toNat_false] at hle
  show c.handler.obj.call.pending isWrite = 0
  omega

omit [Serializer Req] in
theorem orderly_terminated {c : StreamingServer Req Rep} (hinv : c.Inv)
    (hopen : c.replies.terminal = none) (hatt : c.replies.attached = true)
    (h : c.handler.obj.call.Orderly) (hne : c.handler.obj.call.started ≠ []) (t : StreamEnd) :
    (c.handler.obj.onRepliesEnd t).call.Orderly := by
  have hnone := hinv.starts_isLast (Or.inr hopen) (hinv.threw_of_attached hatt)
  cases t with
  | complete =>
      simp only [onRepliesEnd, ServerStreamingCallHandler.finish]
      split
      · exact orderly_end (h := { c.handler.obj with finished := true }) h hne hnone rfl
      · exact h
  | failed e => exact orderly_end h hne hnone rfl

omit [Serializer Req] in
/-- `perform` attaches to a reply stream that holds something already. -/
theorem orderly_attached {c : StreamingServer Req Rep} (hinv : c.Inv)
    (hatt : c.replies.attached = false) (hreq : c.req.isSome = true) (hthrew : c.threw = none)
    (h : c.handler.obj.call.Orderly) (hne : c.handler.obj.call.started ≠ []) :
    (c.replies.drain ServerStreamingCallHandler.push onRepliesEnd c.handler.obj).call.Orderly := by
  have hlive := hinv.live_of_open (Or.inl hatt) hthrew
  have hnothing : Inv { c with replies := ({ attached := false } : Source Rep) } :=
    hinv.unseen hatt rfl
  have hempty := hnothing.attached rfl hreq hthrew
  rw [Live.update_of_live hlive, hlive] at hempty
  have hall : Inv { c with
        replies := { c.replies with attached := true }
        handler := ⟨c.replies.drain ServerStreamingCallHandler.push onRepliesEnd c.handler.obj,
          false⟩ } ∧
      (c.replies.drain ServerStreamingCallHandler.push onRepliesEnd c.handler.obj).call.Orderly ∧
      (c.replies.drain ServerStreamingCallHandler.push onRepliesEnd c.handler.obj).call.started
        ≠ [] := by
    refine Source.drain_induction
      (P := fun src obj => Inv { c with replies := src, handler := ⟨obj, false⟩ } ∧
        obj.call.Orderly ∧ obj.call.started ≠ []) ⟨hempty, h, hne⟩ ?_ ?_ c.replies
    · rintro src obj rep hsrc hopen ⟨hi, ho, hs⟩
      exact ⟨hi.pushed hopen hsrc rep, orderly_pushed hi hopen hsrc ho hs rep,
        (push_starts obj rep).started_kept.ne_nil hs⟩
    · rintro src obj t hsrc hopen ⟨hi, ho, hs⟩
      exact ⟨hi.terminated hopen hsrc t, orderly_terminated hi hopen hsrc ho hs t,
        (onRepliesEnd_starts obj t).started_kept.ne_nil hs⟩
  exact hall.2.1

omit [Serializer Req] in
/-- A handler whose replies are over has not failed. -/
theorem Inv.startsFail_of_finished {c : StreamingServer Req Rep} (h : c.Inv)
    (hfin : c.handler.obj.finished = true) : c.handler.obj.call.starts isFail = 0 := by
  obtain ⟨hatt, hok⟩ := h.feeds.not_failed hfin
  rw [h.failed, hok, h.threw_of_attached hatt, Bool.and_false]
  rfl

omit [Serializer Req] in
/-- The metadata or a reply is done. -/
theorem orderly_afterBatch {c : StreamingServer Req Rep} (hinv : c.Inv)
    (h : c.handler.obj.call.Orderly) {i : ℕ} {b : StreamingServerBatch}
    (hb : c.handler.obj.call.outstanding[i]? = some b)
    (hgate : (isMetadata b).toNat + (isWrite b).toNat = 1)
    (hturn : c.handler.obj.call.starts isFail = 0 ∨ c.handler.obj.pendingOps = []) :
    (c.handler.obj.done i).afterBatch.call.Orderly := by
  obtain ⟨hM, hW, -, -⟩ := pending_done hb
  have hle := hinv.counts.gate_le
  have hone := Bool.toNat_le c.handler.obj.batchInFlight
  have hbusy : c.handler.obj.batchInFlight = true := Bool.toNat_eq_one.1 (by omega)
  have hends : c.handler.obj.call.starts isSendEnd = 0 := hinv.feeds.outbox.closes_of_busy hbusy
  have hpending : (c.handler.obj.call.completeAt i).pending isWrite = 0 := by omega
  unfold afterBatch
  split
  · next hq =>
      have hfails : c.handler.obj.call.starts isFail = 0 := by
        refine hturn.resolve_right fun hnil => ?_
        simp [done, hnil] at hq
      exact orderly_flush (h := { c.handler.obj.done i with batchInFlight := false })
        (h.complete i) (fun _ => h.started_ne_nil hb) (fun _ => hpending)
        (starts_isLast hends hfails)
  · split
    · next hfin =>
        exact orderly_end (h := { c.handler.obj.done i with batchInFlight := false })
          (h.complete i) (h.started_ne_nil hb)
          (starts_isLast hends (hinv.startsFail_of_finished hfin)) rfl
    · exact h.complete i

theorem call_orderly_step {c c' : StreamingServer Req Rep} {e : Event Rep}
    (hreach : (machine Req Rep).Reachable c) (hstep : c.step e = some c')
    (hturn : c.nothingBehindStatus e = true) (h : c.handler.obj.call.Orderly) :
    c'.handler.obj.call.Orderly := by
  have hinv := inv_of_reachable hreach
  obtain ⟨hfresh, hstarted⟩ := started_of_reachable hreach
  have hperformed : c.replies.attached = true → c.handler.obj.call.started ≠ [] := by
    intro hatt
    refine hstarted ?_
    by_contra hno
    cases hatt.symm.trans (hinv.unperformed (by simpa using hno)).1
  cases moves_of_step hstep with
  | @push rep hopen =>
      dsimp only
      split
      · next hatt =>
          exact Live.update_obj (P := fun o : ServerStreamingCallHandler => o.call.Orderly) h
            (orderly_pushed hinv hopen hatt h (hperformed hatt) rep)
      · exact h
  | @finish t hopen =>
      dsimp only
      split
      · next hatt =>
          exact Live.update_obj (P := fun o : ServerStreamingCallHandler => o.call.Orderly) h
            (orderly_terminated hinv hopen hatt h (hperformed hatt) t)
      · exact h
  | perform hreq =>
      refine Live.update_obj (P := fun o : ServerStreamingCallHandler => o.call.Orderly) h ?_
      refine h.startFirst (congrArg Call.started (hfresh hreq)) ?_ ?_ <;>
        simp [kindsOf_singleton, BatchSpec.ops, Op.kind]
  | attach hreq hthrew hatt =>
      exact Live.update_obj (P := fun o : ServerStreamingCallHandler => o.call.Orderly) h
        (orderly_attached hinv hatt hreq hthrew h (hstarted hreq))
  | throws hreq hthrew hatt =>
      exact Live.update_obj (P := fun o : ServerStreamingCallHandler => o.call.Orderly) h
        (orderly_end h (hstarted hreq) (hinv.starts_isLast (Or.inl hatt) hthrew) rfl)
  | @complete i r handler hwork =>
      obtain ⟨b, hb, ⟨hdel, rfl⟩ | ⟨hlive, rfl⟩⟩ := complete_cases hwork
      · exact h.complete i
      · have hnext : isMetadata b || isWrite b → c.handler.obj.call.starts isFail = 0 ∨
            c.handler.obj.pendingOps = [] := by
          intro hgate
          simpa [nothingBehindStatus, hlive, hb, hgate] using hturn
        cases b with
        | metadata => exact orderly_afterBatch hinv h hb rfl (hnext rfl)
        | write m => exact orderly_afterBatch hinv h hb rfl (hnext rfl)
        | sendEnd => exact h.complete i
        | fail => exact h.complete i

/-- A reply behind the status is out of order. -/
theorem not_ordered_of_behind {c c' : StreamingServer Req Rep} {e : Event Rep}
    (hstep : c.step e = some c') (hbehind : c.nothingBehindStatus e = false) :
    ¬ c'.handler.obj.call.Ordered := by
  cases moves_of_step hstep with
  | @complete i r handler hwork =>
      simp only [nothingBehindStatus, Bool.or_eq_false_iff, Bool.not_eq_false', beq_eq_false_iff_ne]
        at hbehind
      obtain ⟨⟨⟨hlive, hgate⟩, hfails⟩, hq⟩ := hbehind
      obtain ⟨b, hb, ⟨hdel, -⟩ | ⟨-, rfl⟩⟩ := complete_cases hwork
      · cases hlive.symm.trans hdel
      · rw [hb, Option.any_some] at hgate
        have hsent : ∃ m, (c.handler.obj.handled i b).obj.call
            = (c.handler.obj.call.completeAt i).startBatch (.write m) := by
          cases hops : c.handler.obj.pendingOps with
          | nil => simp [hops] at hq
          | cons m rest =>
              refine ⟨m, ?_⟩
              cases b with
              | metadata => simp [handled, afterBatch, done, flush, startBatch, hops]
              | write m' => simp [handled, afterBatch, done, flush, startBatch, hops]
              | sendEnd => cases hgate
              | fail => cases hgate
        obtain ⟨m, hsent⟩ := hsent
        have hstatus : OpKind.sendStatusFromServer ∈ kindsOf c.handler.obj.call.started := by
          refine mem_kindsOf (p := isFail) ?_ hfails
          intro b' hfail
          cases b' <;> simp_all [kindsOf_singleton, BatchSpec.ops, Op.kind, isFail]
        intro hordered
        rw [hsent] at hordered
        cases hordered.follows.last (by simp [kindsOf_singleton, BatchSpec.ops, Op.kind]) _ hstatus
  | _ => cases hbehind

end StreamingServer

/-! ## The bidirectional handler -/

/-- The batch ends the call. -/
def BidirServerBatch.isEnd (b : BidirServerBatch) : Bool := b.isServerEnd || b.isFail

namespace BidirServer

open BidirStreamingCallHandler BidirServerBatch

/-- The replies fail before the metadata was started, or a batch is done behind a failure while
    replies are queued. -/
def statusInTurn (c : BidirServer Req Rep) : Event Rep → Bool
  | .attach => !c.replies.terminal.any StreamEnd.isFailed
  | .finish t => !t.isFailed || !c.replies.attached ||
      c.handler.obj.call.starts isHandshake != 0
  | .complete i _ => c.handler.deleted ||
      !(c.handler.obj.call.outstanding[i]?.any fun b => b.isHandshake || b.isSend) ||
      c.handler.obj.call.starts isFail == 0 || c.handler.obj.pendingOps.isEmpty
  | _ => true

theorem starts_isEnd {call : Call BidirServerBatch} (hends : call.starts isServerEnd = 0)
    (hfails : call.starts isFail = 0) : call.starts isEnd = 0 :=
  Call.starts_or hends hfails

/-- A reply is sent while none is in flight and the end was not started. -/
theorem orderly_flush {h : BidirStreamingCallHandler Req} (ho : h.call.Orderly)
    (hne : h.readyToSend = true → h.call.started ≠ [])
    (hpending : h.readyToSend = true → h.call.pending isSend = 0)
    (hopen : h.call.starts isEnd = 0) : h.flush.call.Orderly := by
  unfold BidirStreamingCallHandler.flush
  split
  · exact ho
  · next hgate =>
      have hready : h.readyToSend = true := by simpa using hgate
      split
      · exact ho
      · refine ho.startWrite (p := isSend) (q := isEnd) (hne hready) rfl ?_ ?_
          (hpending hready) hopen
        · intro b' hk
          cases b' <;> simp_all [kindsOf_singleton, BatchSpec.ops, Op.kind, isSend]
        · intro b' k hk hlast
          cases b' <;> cases k <;> simp_all [kindsOf_singleton, BatchSpec.ops, Op.kind, isEnd,
            isServerEnd, isFail, OpKind.isLast]

/-- The call is ended once. -/
theorem orderly_end {h : BidirStreamingCallHandler Req} (ho : h.call.Orderly)
    (hne : h.call.started ≠ []) (hnone : h.call.starts isEnd = 0) {b : BidirServerBatch}
    (hb : b.isEnd = true) : (h.startBatch b).call.Orderly := by
  refine ho.startOnce (p := isEnd) hne ?_ ?_ hnone
  · cases b <;> simp_all [kindsOf_singleton, BatchSpec.ops, Op.kind, isEnd, isServerEnd, isFail]
  · intro b' k hk hor
    cases b <;> cases b' <;> cases k <;> simp_all [kindsOf_singleton, BatchSpec.ops, Op.kind, isEnd,
      isServerEnd, isFail, OpKind.isLast]

/-- A request is read while none is being read. -/
theorem orderly_recv {h : BidirStreamingCallHandler Req} (ho : h.call.Orderly)
    (hne : h.call.started ≠ []) (hnone : h.call.pending isRecv = 0) :
    (h.startBatch .recv).call.Orderly := by
  refine ho.startRead (p := isRecv) hne rfl ?_ hnone
  intro b' hk
  cases b' <;> simp_all [kindsOf_singleton, BatchSpec.ops, Op.kind, isRecv]

/-- Without the handshake nothing is started in order. -/
theorem started_of_orderly {call : Call BidirServerBatch} (ho : call.Orderly)
    (hnone : call.starts isHandshake = 0) : call.started = [] := by
  cases hstarted : call.started with
  | nil => rfl
  | cons b rest =>
      have hmeta := (ho.ordered [] b rest hstarted).first rfl
      have hhandshake : isHandshake b = true := by
        cases b <;> simp_all [kindsOf_singleton, BatchSpec.ops, Op.kind, isHandshake]
      have hno := List.countP_eq_zero.1 hnone b (hstarted ▸ List.mem_cons_self)
      exact absurd hhandshake hno

/-- With the gate closed replies are queued only. -/
theorem call_flush_of_closed {h : BidirStreamingCallHandler Req} (hclosed : h.readyToSend = false) :
    h.flush = h := by
  simp [BidirStreamingCallHandler.flush, hclosed]

variable [Serializer Rep]

theorem foldl_push_of_closed {h : BidirStreamingCallHandler Req} (hclosed : h.readyToSend = false)
    (vs : List Rep) : (vs.foldl BidirStreamingCallHandler.push h).call = h.call ∧
      (vs.foldl BidirStreamingCallHandler.push h).readyToSend = false := by
  induction vs generalizing h with
  | nil => exact ⟨rfl, hclosed⟩
  | cons v vs ih =>
      have hpush : h.push v = { h with pendingOps := h.pendingOps ++ [serialize v] } :=
        call_flush_of_closed hclosed
      rw [List.foldl_cons, hpush]
      exact ih hclosed

/-- What `perform` starts when it attaches before the handshake: the status, if the replies have
    failed. -/
theorem call_drain_of_closed {h : BidirStreamingCallHandler Req} (hclosed : h.readyToSend = false)
    (replies : Source Rep) :
    (replies.drain BidirStreamingCallHandler.push onRepliesEnd h).call
      = if replies.terminal.any StreamEnd.isFailed then h.call.startBatch .fail else h.call := by
  obtain ⟨hcall, hstill⟩ := foldl_push_of_closed hclosed replies.pushed
  unfold Source.drain
  cases hterm : replies.terminal with
  | none => simpa using hcall
  | some t =>
      cases t with
      | complete =>
          simp [onRepliesEnd, BidirStreamingCallHandler.finish, StreamEnd.isFailed, hstill, hcall]
      | failed e =>
          simp [onRepliesEnd, BidirStreamingCallHandler.fail, startBatch, StreamEnd.isFailed, hcall]

theorem call_onRepliesEnd_of_closed {h : BidirStreamingCallHandler Req}
    (hclosed : h.readyToSend = false) (t : StreamEnd) :
    (h.onRepliesEnd t).call = if t.isFailed then h.call.startBatch .fail else h.call := by
  cases t with
  | complete => simp [onRepliesEnd, BidirStreamingCallHandler.finish, StreamEnd.isFailed, hclosed]
  | failed e => simp [onRepliesEnd, BidirStreamingCallHandler.fail, startBatch, StreamEnd.isFailed]

variable [Serializer Req]

omit [Serializer Req] in
/-- The gate is closed until the handshake was started. -/
theorem Inv.closed {c : BidirServer Req Rep} (h : c.Inv)
    (hnone : c.handler.obj.call.starts isHandshake = 0) : c.handler.obj.readyToSend = false := by
  have hle := h.counts.sendSide_le
  rw [hnone] at hle
  exact Bool.toNat_eq_zero.1 (by omega)

/-- Without the handshake and without a failure nothing was started. -/
theorem call_of_reachable {c : BidirServer Req Rep} (h : (machine Req Rep).Reachable c) :
    c.handler.obj.call.starts isHandshake = 0 → c.handler.obj.call.starts isFail = 0 →
      c.handler.obj.call = {} := by
  induction h with
  | init => exact fun _ _ => rfl
  | @step c c' e hreach hstep ih =>
      intro hhand hfail
      have hinv := inv_of_reachable hreach
      have hkept : c.handler.obj.call.started <+: c'.handler.obj.call.started :=
        Party.started_step (P := party Req Rep) hstep
      have hbefore : ∀ p, c'.handler.obj.call.starts p = 0 → c.handler.obj.call.starts p = 0 :=
        fun p hnone => Nat.le_zero.1 (hnone ▸ hkept.sublist.countP_le)
      have hfresh := ih (hbefore _ hhand) (hbefore _ hfail)
      have hclosed := hinv.closed (hbefore _ hhand)
      revert hhand hfail
      cases moves_of_step (show c.step e = some c' from hstep) with
      | @push rep hopen =>
          intro _ _
          dsimp only
          split
          · refine Live.update_obj
              (P := fun o : BidirStreamingCallHandler Req => o.call = {}) hfresh ?_
            exact (congrArg BidirStreamingCallHandler.call
              (call_flush_of_closed (h := { c.handler.obj with
                pendingOps := c.handler.obj.pendingOps ++ [serialize rep] }) hclosed)).trans hfresh
          · exact hfresh
      | @finish t hopen =>
          dsimp only
          split
          · refine Live.update_obj (P := fun o : BidirStreamingCallHandler Req =>
              o.call.starts isHandshake = 0 → o.call.starts isFail = 0 → o.call = {})
              (fun _ _ => hfresh) ?_
            intro _ hfail
            rw [call_onRepliesEnd_of_closed hclosed] at hfail ⊢
            split at hfail
            · simp [Call.starts_startBatch, isFail] at hfail
            · next hok => rw [if_neg hok, hfresh]
          · exact fun _ _ => hfresh
      | attach hatt =>
          refine Live.update_obj (P := fun o : BidirStreamingCallHandler Req =>
            o.call.starts isHandshake = 0 → o.call.starts isFail = 0 → o.call = {})
            (fun _ _ => hfresh) ?_
          intro _ hfail
          rw [call_drain_of_closed hclosed] at hfail ⊢
          split at hfail
          · simp [Call.starts_startBatch, isFail] at hfail
          · next hok => rw [if_neg hok, hfresh]
      | startHandshake hatt hnone =>
          refine Live.update_obj (P := fun o : BidirStreamingCallHandler Req =>
            o.call.starts isHandshake = 0 → o.call.starts isFail = 0 → o.call = {})
            (fun _ _ => hfresh) ?_
          intro hhand
          simp [startBatch, Call.starts_startBatch, isHandshake] at hhand
      | @complete i r handler hwork =>
          obtain ⟨b, hb, -⟩ := complete_cases hwork
          rw [hfresh] at hb
          cases hb

omit [Serializer Req] in
theorem Inv.starts_isEnd {c : BidirServer Req Rep} (h : c.Inv)
    (hopen : c.replies.attached = false ∨ c.replies.terminal = none) :
    c.handler.obj.call.starts isEnd = 0 := by
  refine BidirServer.starts_isEnd (h.feeds.outbox.closes_of_open (h.feeds.not_ended hopen)) ?_
  rw [h.failed]
  rcases hopen with hopen | hopen <;> simp [hopen]

omit [Serializer Req] in
/-- A handler whose replies are over has not failed. -/
theorem Inv.startsFail_of_finished {c : BidirServer Req Rep} (h : c.Inv)
    (hfin : c.handler.obj.finished = true) : c.handler.obj.call.starts isFail = 0 := by
  obtain ⟨-, hok⟩ := h.feeds.not_failed hfin
  rw [h.failed, hok, Bool.and_false]
  rfl

/-- What was started is there. -/
theorem started_ne_nil_of_starts {call : Call BidirServerBatch} {p : BidirServerBatch → Bool}
    (hsome : call.starts p ≠ 0) : call.started ≠ [] := by
  intro hnil
  exact hsome (by rw [Call.starts, hnil]; rfl)

omit [Serializer Req] in
/-- With the gate open the handshake was started, and nothing is being sent. -/
theorem Inv.idle {c : BidirServer Req Rep} (h : c.Inv) (hready : c.handler.obj.readyToSend = true) :
    c.handler.obj.call.started ≠ [] ∧ c.handler.obj.call.pending isSend = 0 := by
  have hle := h.counts.sendSide_le
  have hone := h.counts.handshake_le
  rw [hready, Bool.toNat_true] at hle
  exact ⟨started_ne_nil_of_starts (p := isHandshake) (by omega), by omega⟩

omit [Serializer Req] in
/-- The handshake or a reply is done. -/
theorem orderly_release {c : BidirServer Req Rep} (hinv : c.Inv) (h : c.handler.obj.call.Orderly)
    {i : ℕ} {b : BidirServerBatch} (hb : c.handler.obj.call.outstanding[i]? = some b)
    (hgate : (isHandshake b).toNat + (isSend b).toNat = 1)
    (hturn : c.handler.obj.call.starts isFail = 0 ∨ c.handler.obj.pendingOps = []) :
    (c.handler.obj.done i).openGate.call.Orderly ∧
      (c.handler.obj.done i).afterSend.call.Orderly := by
  obtain ⟨hH, hS, -, -⟩ := pending_done hb
  have hle := hinv.counts.sendSide_le
  have hone := hinv.counts.handshake_le
  have hends : c.handler.obj.call.starts isServerEnd = 0 :=
    hinv.feeds.outbox.closes_of_busy (hinv.counts.busy (by omega))
  have hpending : (c.handler.obj.call.completeAt i).pending isSend = 0 := by omega
  have hflush : c.handler.obj.pendingOps ≠ [] →
      { c.handler.obj.done i with readyToSend := true }.flush.call.Orderly := by
    intro hq
    exact orderly_flush (h := { c.handler.obj.done i with readyToSend := true }) (h.complete i)
      (fun _ => h.started_ne_nil hb) (fun _ => hpending)
      (BidirServer.starts_isEnd hends (hturn.resolve_right hq))
  unfold openGate afterSend
  cases hq : c.handler.obj.pendingOps with
  | cons op rest =>
      have hsent := hflush (by simp [hq])
      simp only [BidirStreamingCallHandler.done, hq, List.isEmpty_cons, Bool.not_false,
        if_true] at hsent ⊢
      exact ⟨hsent, hsent⟩
  | nil =>
      simp only [BidirStreamingCallHandler.done, hq, List.isEmpty_nil, Bool.not_true,
        Bool.false_eq_true, if_false]
      refine ⟨h.complete i, ?_⟩
      split
      · next hfin =>
          exact orderly_end (h := { c.handler.obj.done i with readyToSend := true }) (h.complete i)
            (h.started_ne_nil hb)
            (BidirServer.starts_isEnd hends (hinv.startsFail_of_finished hfin)) rfl
      · exact h.complete i

theorem call_orderly_handled {c : BidirServer Req Rep} (hinv : c.Inv)
    (hlive : c.handler.deleted = false) (h : c.handler.obj.call.Orderly) {i : ℕ}
    {b : BidirServerBatch} (hb : c.handler.obj.call.outstanding[i]? = some b)
    (hturn : isHandshake b || isSend b → c.handler.obj.call.starts isFail = 0 ∨
      c.handler.obj.pendingOps = []) (r : Received) :
    (c.handler.obj.handled i r b).obj.call.Orderly := by
  have hne := h.started_ne_nil hb
  have hcounts := hinv.counts
  rw [hlive] at hcounts
  cases b with
  | handshake =>
      have hafter : Counts ((c.handler.obj.done i).openGate.startBatch .recv) false :=
        hcounts.handshake hb
      have hle := hafter.recvSide_le
      have hone := hafter.handshake_le
      simp only [startBatch, Call.pending_startBatch, isRecv, Bool.toNat_true] at hle hone
      have hkept : c.handler.obj.call.started <+: (c.handler.obj.done i).openGate.call.started := by
        unfold openGate
        split
        · exact (flush_starts { c.handler.obj.done i with readyToSend := true }).started_kept
        · exact List.prefix_rfl
      exact orderly_recv (orderly_release hinv h hb rfl (hturn rfl)).1 (hkept.ne_nil hne) (by omega)
  | send m => exact (orderly_release hinv h hb rfl (hturn rfl)).2
  | recv =>
      cases hmsg : r.message with
      | none =>
          simp only [handled, hmsg]
          exact h.complete i
      | some data =>
          simp only [handled, hmsg]
          have hpending : (c.handler.obj.call.completeAt i).pending isRecv = 0 := by
            obtain ⟨-, -, hR, -⟩ := pending_done hb
            have hle := hcounts.recvSide_le
            have hone := hcounts.handshake_le
            simp only [isRecv, Bool.toNat_true] at hR
            omega
          exact orderly_recv (h := { c.handler.obj.done i with payload := none }) (h.complete i) hne
            hpending
  | serverEnd => exact h.complete i
  | fail => exact h.complete i

theorem call_orderly_step {c c' : BidirServer Req Rep} {e : Event Rep}
    (hreach : (machine Req Rep).Reachable c) (hstep : c.step e = some c')
    (hturn : c.statusInTurn e = true) (h : c.handler.obj.call.Orderly) :
    c'.handler.obj.call.Orderly := by
  have hinv := inv_of_reachable hreach
  cases moves_of_step hstep with
  | @push rep hopen =>
      dsimp only
      split
      · refine Live.update_obj (P := fun o : BidirStreamingCallHandler Req => o.call.Orderly) h ?_
        exact orderly_flush (h := { c.handler.obj with
          pendingOps := c.handler.obj.pendingOps ++ [serialize rep] }) h
          (fun hready => (hinv.idle hready).1) (fun hready => (hinv.idle hready).2)
          (hinv.starts_isEnd (Or.inr hopen))
      · exact h
  | @finish t hopen =>
      dsimp only
      split
      · next hatt =>
          refine Live.update_obj (P := fun o : BidirStreamingCallHandler Req => o.call.Orderly) h ?_
          have hnone := hinv.starts_isEnd (Or.inr hopen)
          cases t with
          | complete =>
              simp only [onRepliesEnd, BidirStreamingCallHandler.finish]
              split
              · next hready =>
                  exact orderly_end (h := { c.handler.obj with finished := true }) h
                    (hinv.idle hready).1 hnone rfl
              · exact h
          | failed e =>
              have hhand : c.handler.obj.call.starts isHandshake ≠ 0 := by
                have hatt : c.replies.attached = true := hatt
                simpa [statusInTurn, StreamEnd.isFailed, hatt] using hturn
              exact orderly_end h (started_ne_nil_of_starts hhand) hnone rfl
      · exact h
  | attach hatt =>
      refine Live.update_obj (P := fun o : BidirStreamingCallHandler Req => o.call.Orderly) h ?_
      have hok : c.replies.terminal.any StreamEnd.isFailed = false := by
        simpa [statusInTurn] using hturn
      rw [call_drain_of_closed (hinv.closed (hinv.unattached hatt)), hok]
      exact h
  | startHandshake hatt hnone =>
      refine Live.update_obj (P := fun o : BidirStreamingCallHandler Req => o.call.Orderly) h ?_
      refine h.startFirst (started_of_orderly h hnone) ?_ ?_ <;>
        simp [kindsOf_singleton, BatchSpec.ops, Op.kind]
  | @complete i r handler hwork =>
      obtain ⟨b, hb, ⟨hdel, rfl⟩ | ⟨hlive, rfl⟩⟩ := complete_cases hwork
      · exact h.complete i
      · refine call_orderly_handled hinv hlive h hb ?_ r
        intro hgate
        simpa [statusInTurn, hlive, hb, hgate] using hturn

/-- A status before the metadata is out of order. -/
theorem not_ordered_fail : ¬ (({} : Call BidirServerBatch).startBatch .fail).Ordered := by
  intro hordered
  have hmeta := hordered.follows.first rfl
  simp [kindsOf_singleton, BatchSpec.ops, Op.kind] at hmeta

/-- What the gate lets through when it opens: the next reply, then perhaps a read. -/
theorem sent_of_queued {h : BidirStreamingCallHandler Req} {i : ℕ} {b : BidirServerBatch}
    (hgate : (isHandshake b || isSend b) = true) (hq : h.pendingOps ≠ []) (r : Received) :
    ∃ m, ((h.call.completeAt i).startBatch (.send m)).started
      <+: (h.handled i r b).obj.call.started := by
  cases hops : h.pendingOps with
  | nil => exact absurd hops hq
  | cons m rest =>
      refine ⟨m, ?_⟩
      cases b with
      | handshake =>
          simp [handled, openGate, BidirStreamingCallHandler.done, BidirStreamingCallHandler.flush,
            startBatch, hops, Call.startBatch]
      | send m' =>
          simp [handled, afterSend, BidirStreamingCallHandler.done, BidirStreamingCallHandler.flush,
            startBatch, hops, Call.startBatch]
      | recv => cases hgate
      | serverEnd => cases hgate
      | fail => cases hgate

/-- A status before the metadata is out of order, and so is a reply behind the status. -/
theorem not_ordered_of_early {c c' : BidirServer Req Rep} {e : Event Rep}
    (hreach : (machine Req Rep).Reachable c) (hstep : c.step e = some c')
    (hearly : c.statusInTurn e = false) : ¬ c'.handler.obj.call.Ordered := by
  have hinv := inv_of_reachable hreach
  have hfresh := call_of_reachable hreach
  cases moves_of_step hstep with
  | push hopen => cases hearly
  | @finish t hopen =>
      simp only [statusInTurn, Bool.or_eq_false_iff, Bool.not_eq_false', bne_eq_false_iff_eq]
        at hearly
      obtain ⟨⟨hfailed, hatt⟩, hnone⟩ := hearly
      have hnofail : c.handler.obj.call.starts isFail = 0 := by
        rw [hinv.failed, hopen]
        simp
      simp only [hatt, if_true]
      rw [Live.update_of_live (hinv.live_of_open (Or.inr hopen)),
        call_onRepliesEnd_of_closed (hinv.closed hnone), hfailed, hfresh hnone hnofail]
      exact not_ordered_fail
  | attach hatt =>
      have hfailed : c.replies.terminal.any StreamEnd.isFailed = true := by
        simpa [statusInTurn] using hearly
      have hnone := hinv.unattached hatt
      have hnofail : c.handler.obj.call.starts isFail = 0 := by
        rw [hinv.failed, hatt]
        rfl
      rw [Live.update_of_live (hinv.live_of_open (Or.inl hatt)),
        call_drain_of_closed (hinv.closed hnone), hfailed, hfresh hnone hnofail]
      exact not_ordered_fail
  | startHandshake => cases hearly
  | @complete i r handler hwork =>
      simp only [statusInTurn, Bool.or_eq_false_iff, Bool.not_eq_false', beq_eq_false_iff_ne]
        at hearly
      obtain ⟨⟨⟨hlive, hgate⟩, hfails⟩, hq⟩ := hearly
      obtain ⟨b, hb, ⟨hdel, -⟩ | ⟨-, rfl⟩⟩ := complete_cases hwork
      · cases hlive.symm.trans hdel
      · rw [hb, Option.any_some] at hgate
        obtain ⟨m, hsent⟩ := sent_of_queued (i := i) hgate (by simpa using hq) r
        have hstatus : OpKind.sendStatusFromServer ∈ kindsOf c.handler.obj.call.started := by
          refine mem_kindsOf (p := isFail) ?_ hfails
          intro b' hfail
          cases b' <;> simp_all [kindsOf_singleton, BatchSpec.ops, Op.kind, isFail]
        intro hordered
        have hfollows := (hordered.of_prefix hsent).follows
        cases hfollows.last (by simp [kindsOf_singleton, BatchSpec.ops, Op.kind]) _ hstatus

end BidirServer

end EasyGrpc
