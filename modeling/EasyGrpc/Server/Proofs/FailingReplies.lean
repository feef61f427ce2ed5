import EasyGrpc.Server.Proofs.EarlyReply
import EasyGrpc.Server.Proofs.ServerStreaming

set_option autoImplicit false

/-! # A reply stream that fails

`fail` of both streaming handlers starts the status at once, without looking at what is queued or in
flight. The server-streaming handler still sends everything in order and dies with nothing
outstanding if nothing is queued when the failure reaches it and the batch in flight completes
before the status. The bidirectional handler starts the status under a tag that `exec` does not take
for the last one, so it is never deleted. -/

namespace EasyGrpc

variable {Req Rep κ : Type}

/-- The operation sends something. -/
def Op.isSend : Op → Bool
  | .sendInitialMetadata => true
  | .sendMessage _ => true
  | .sendCloseFromClient => true
  | .sendStatusFromServer _ _ => true
  | _ => false

/-- What was started on a call but for the operations that receive. -/
def Call.sendOps [BatchSpec κ] (call : Call κ) : List Op := call.ops.filter Op.isSend

/-- The stream has failed, and the handler knows of it. -/
def Source.failed (src : Source Rep) : Bool := src.attached && src.terminal.any StreamEnd.isFailed

/-- What a failing reply stream is to come to: the metadata, every reply in order and one status,
    and a handler that is deleted when the last of its batches is done. -/
structure FailsClean [Serializer Rep] [BatchSpec κ] (deleted : Bool) (call : Call κ)
    (replies : Source Rep) : Prop where
  ops : replies.failed = true → ∃ status details, call.sendOps
    = .sendInitialMetadata :: replies.pushed.map (fun rep => .sendMessage (serialize rep))
      ++ [.sendStatusFromServer status details]
  life : DiesClean deleted call (replies.failed = true)

theorem Call.sendOps_startBatch [BatchSpec κ] (call : Call κ) (b : κ) :
    (call.startBatch b).sendOps = call.sendOps ++ (BatchSpec.ops b).filter Op.isSend := by
  simp [Call.sendOps, Call.ops_startBatch]

/-- The messages sent are among the operations that send. -/
theorem Call.sent_eq_sendOps [BatchSpec κ] (call : Call κ) :
    call.sent = call.sendOps.filterMap Op.message? := by
  unfold Call.sent Call.sendOps
  induction call.ops with
  | nil => rfl
  | cons op l ih =>
      rw [List.filter_cons, List.filterMap_cons, ih]
      cases op <;> simp [List.filterMap_cons, Op.isSend, Op.message?]

namespace StreamingServer

open ServerStreamingCallHandler StreamingServerBatch

/-! ## The operations before the end of the call -/

/-- Until the end of the call was started, the metadata and the replies sent so far are all there
    is. -/
def InOrder (h : ServerStreamingCallHandler) (performed : Bool) : Prop :=
  h.call.starts isSendEnd = 0 → h.call.starts isFail = 0 →
    h.call.sendOps
      = (if performed then [.sendInitialMetadata] else []) ++ h.call.sent.map .sendMessage

theorem InOrder.flush {h : ServerStreamingCallHandler} {performed : Bool}
    (ho : InOrder h performed) : InOrder h.flush performed := by
  unfold ServerStreamingCallHandler.flush
  split
  · exact ho
  · split
    · exact ho
    · intro hends hfails
      simp only [startBatch, Call.starts_startBatch, isSendEnd, isFail, Bool.toNat_false,
        Nat.add_zero] at hends hfails
      simp [startBatch, Call.sendOps_startBatch, Call.sent_startBatch, ho hends hfails,
        BatchSpec.ops, Op.isSend, Op.message?]

/-- With the end of the call started there is nothing left to say. -/
theorem InOrder.last (h : ServerStreamingCallHandler) {b : StreamingServerBatch}
    (hlast : isSendEnd b = true ∨ isFail b = true) (performed : Bool) :
    InOrder (h.startBatch b) performed := by
  intro hends hfails
  simp only [startBatch, Call.starts_startBatch] at hends hfails
  rcases hlast with hlast | hlast
  · rw [hlast, Bool.toNat_true] at hends
    omega
  · rw [hlast, Bool.toNat_true] at hfails
    omega

/-- `perform` starts the metadata before anything else. -/
theorem InOrder.startMetadata {h : ServerStreamingCallHandler} (ho : InOrder h false)
    (hsent : h.call.sent = []) : InOrder h.startMetadata true := by
  intro hends hfails
  simp only [ServerStreamingCallHandler.startMetadata, startBatch, Call.starts_startBatch, isSendEnd,
    isFail, Bool.toNat_false, Nat.add_zero] at hends hfails
  simp [ServerStreamingCallHandler.startMetadata, startBatch, Call.sendOps_startBatch,
    Call.sent_startBatch, ho hends hfails, hsent, BatchSpec.ops, List.filter_cons,
    List.filterMap_cons, Op.isSend, Op.message?]

theorem InOrder.onRepliesEnd {h : ServerStreamingCallHandler} {performed : Bool}
    (ho : InOrder h performed) (t : StreamEnd) : InOrder (h.onRepliesEnd t) performed := by
  cases t with
  | complete =>
      simp only [ServerStreamingCallHandler.onRepliesEnd, ServerStreamingCallHandler.finish]
      split
      · exact .last _ (Or.inl rfl) _
      · exact ho
  | failed e => exact .last _ (Or.inr rfl) _

theorem InOrder.afterBatch {h : ServerStreamingCallHandler} {performed : Bool}
    (ho : InOrder h performed) : InOrder h.afterBatch performed := by
  unfold ServerStreamingCallHandler.afterBatch
  split
  · exact InOrder.flush (h := { h with batchInFlight := false }) ho
  · split
    · exact .last _ (Or.inl rfl) _
    · exact ho

variable [Serializer Req] [Serializer Rep]

/-- The metadata comes first, then the replies, in every reachable state. -/
theorem inOrder_of_reachable {c : StreamingServer Req Rep} (h : (machine Req Rep).Reachable c) :
    InOrder c.handler.obj c.req.isSome := by
  induction h with
  | init =>
      intro _ _
      rfl
  | @step c c' e hreach hstep ih =>
      have hinv := inv_of_reachable hreach
      by_cases huser : ∀ i r, e ≠ .complete i r
      · by_cases hperform : ∀ payload, e ≠ .perform payload
        · rw [req_step hstep hperform]
          refine (user_step hstep huser (P := fun o => InOrder o c.req.isSome) ih ?_ ?_ ?_).1
          · intro o rep ho
            exact InOrder.flush (h := { o with pendingOps := o.pendingOps ++ [serialize rep] }) ho
          · intro o t ho
            exact ho.onRepliesEnd t
          · intro payload he
            exact absurd he (hperform payload)
        · push Not at hperform
          obtain ⟨payload, rfl⟩ := hperform
          cases moves_of_step (show c.step (.perform payload) = some c' from hstep) with
          | perform hreq =>
              obtain ⟨hatt, hthrew, -⟩ := hinv.unperformed hreq
              rw [Live.update_of_live (hinv.live_of_open (Or.inl hatt) hthrew)]
              rw [hreq] at ih
              refine ih.startMetadata ?_
              have hhistory := hinv.feeds.history
              rw [hatt] at hhistory
              exact (List.append_eq_nil_iff.1 hhistory).1
      · push Not at huser
        obtain ⟨i, r, rfl⟩ := huser
        obtain ⟨handler, hwork, rfl⟩ := Option.map_eq_some_iff.1 hstep
        obtain ⟨b, hb, ⟨hdel, rfl⟩ | ⟨hlive, rfl⟩⟩ := complete_cases hwork
        · exact ih
        · have hdone : InOrder (c.handler.obj.done i) c.req.isSome := ih
          cases b with
          | metadata => exact hdone.afterBatch
          | write m => exact hdone.afterBatch
          | sendEnd => exact hdone
          | fail => exact hdone

/-! ## The failure reaches the handler -/

/-- The steps of a run in which a failure finds nothing queued, and the status of a failed call
    completes after every other batch. A failure that is there when `perform` attaches comes right
    behind the replies, of which only the first is not queued, and that only with no batch in
    flight. -/
def failsInTurn (c : StreamingServer Req Rep) : Event Rep → Bool
  | .finish t => t.isComplete || !c.replies.attached || c.handler.obj.pendingOps.isEmpty
  | .attach => !c.replies.terminal.any StreamEnd.isFailed ||
      decide (c.replies.pushed.length + c.handler.obj.batchInFlight.toNat ≤ 1)
  | .complete i _ => c.handler.obj.call.outstanding[i]? != some .fail ||
      c.handler.obj.call.outstanding.length == 1
  | _ => true

/-- The operations of a call whose reply stream has failed. -/
def failedOps (replies : List Rep) : List Op :=
  .sendInitialMetadata :: replies.map (fun rep => .sendMessage (serialize rep))
    ++ [.sendStatusFromServer .ok none]

omit [Serializer Req] in
theorem Inv.performed {c : StreamingServer Req Rep} (h : c.Inv) (hatt : c.replies.attached = true) :
    c.req.isSome = true := by
  by_contra hno
  have hunattached := (h.unperformed (by simpa using hno)).1
  rw [hatt] at hunattached
  cases hunattached

omit [Serializer Req] in
/-- With nothing queued, a failure follows the last reply. -/
theorem Inv.sendOps_fail {c : StreamingServer Req Rep} (h : c.Inv)
    (horder : InOrder c.handler.obj true) (hopen : c.replies.terminal = none)
    (hatt : c.replies.attached = true) (hq : c.handler.obj.pendingOps = []) (e : Exception) :
    (c.handler.obj.fail e).call.sendOps = failedOps c.replies.pushed := by
  have hends : c.handler.obj.call.starts isSendEnd = 0 :=
    h.feeds.outbox.closes_of_open (h.feeds.not_ended (Or.inr hopen))
  have hfails : c.handler.obj.call.starts isFail = 0 := by
    rw [h.failed, hopen, h.threw_of_attached hatt]
    simp
  have hsent : c.handler.obj.call.sent = c.replies.pushed.map serialize := by
    have hhistory := h.feeds.history
    rw [hatt, if_pos rfl, Outbox.history, show c.handler.obj.toOutbox.queue = [] from hq,
      List.append_nil] at hhistory
    exact hhistory
  simp [ServerStreamingCallHandler.fail, startBatch, Call.sendOps_startBatch, horder hends hfails,
    hsent, failedOps, BatchSpec.ops, List.filter_cons, Op.isSend]

/-! ### A failure that waits in the stream -/

theorem toOutbox_foldl_push (h : ServerStreamingCallHandler) (vs : List Rep) :
    (vs.foldl ServerStreamingCallHandler.push h).toOutbox
      = (vs.map serialize).foldl Outbox.push h.toOutbox := by
  induction vs generalizing h with
  | nil => rfl
  | cons v vs ih => rw [List.foldl_cons, ih, toOutbox_push, List.map_cons, List.foldl_cons]

theorem InOrder.foldl_push {h : ServerStreamingCallHandler} {performed : Bool}
    (ho : InOrder h performed) (vs : List Rep) :
    InOrder (vs.foldl ServerStreamingCallHandler.push h) performed := by
  induction vs generalizing h with
  | nil => exact ho
  | cons v vs ih =>
      exact ih (InOrder.flush (h := { h with pendingOps := h.pendingOps ++ [serialize v] }) ho)

omit [Serializer Req] in
/-- What is queued after `perform` has taken the replies that were waiting. -/
theorem Inv.pendingOps_drained {c : StreamingServer Req Rep} (h : c.Inv)
    (hatt : c.replies.attached = false) :
    (c.replies.pushed.foldl ServerStreamingCallHandler.push c.handler.obj).pendingOps = [] ↔
      c.replies.pushed.length + c.handler.obj.batchInFlight.toNat ≤ 1 := by
  have hhistory := h.feeds.history
  rw [hatt] at hhistory
  have hqueue := h.feeds.outbox.queue_foldl_push (List.append_eq_nil_iff.1 hhistory).2
    (c.replies.pushed.map serialize)
  rw [← toOutbox_foldl_push] at hqueue
  show (c.replies.pushed.foldl ServerStreamingCallHandler.push c.handler.obj).toOutbox.queue = [] ↔ _
  rw [hqueue]
  show (if c.handler.obj.batchInFlight then _ else _) = [] ↔ _
  cases hbusy : c.handler.obj.batchInFlight with
  | true => simp
  | false =>
      cases c.replies.pushed with
      | nil => simp
      | cons v vs => simp

omit [Serializer Req] in
/-- The handler between the replies that were waiting and the end of the stream. -/
theorem Inv.drained {c : StreamingServer Req Rep} (h : c.Inv) (hatt : c.replies.attached = false)
    (hreq : c.req.isSome = true) (hthrew : c.threw = none) :
    Inv { c with
      replies := { c.replies with attached := true, terminal := none }
      handler := c.handler.update
        (c.replies.pushed.foldl ServerStreamingCallHandler.push ·) } := by
  have hopen : Inv { c with replies := { c.replies with terminal := none } } := h.unseen hatt hatt
  exact hopen.attached hatt hreq hthrew

/-! ## After the failure -/

omit [Serializer Req] in
/-- Nothing is started after the status when nothing is queued. -/
theorem Inv.afterBatch_of_failed {c : StreamingServer Req Rep} (h : c.Inv)
    (hfailed : c.replies.failed = true) (hq : c.handler.obj.pendingOps = []) (i : ℕ) :
    (c.handler.obj.done i).afterBatch = { c.handler.obj.done i with batchInFlight := false } := by
  have hfin : c.handler.obj.finished = false := by
    have hended := h.feeds.ended
    simp only [Source.failed, Bool.and_eq_true, Option.any_eq_true] at hfailed
    obtain ⟨-, t, hterm, ht⟩ := hfailed
    rw [hterm] at hended
    cases t with
    | complete => cases ht
    | failed e => simpa [toOutbox, StreamEnd.isComplete] using hended
  simp [afterBatch, done, hq, hfin]

/-- In a run that fails in turn, a failed stream has everything sent in order. -/
theorem sendOps_of_failed {c : StreamingServer Req Rep}
    (h : ((machine Req Rep).guard failsInTurn).Reachable c) (hfailed : c.replies.failed = true) :
    c.handler.obj.pendingOps = [] ∧ c.handler.obj.call.sendOps = failedOps c.replies.pushed := by
  refine Machine.Reachable.guard_invariant
    (P := fun c => c.replies.failed = true → c.handler.obj.pendingOps = [] ∧
      c.handler.obj.call.sendOps = failedOps c.replies.pushed) ?_ ?_ h hfailed
  · intro hno
    cases hno
  · intro c c' e hreach hstep hguard ih hfailed'
    have hinv := inv_of_reachable hreach
    have horder := inOrder_of_reachable hreach
    cases moves_of_step hstep with
    | push hopen => simp [Source.failed, hopen] at hfailed'
    | @finish t hopen =>
        cases t with
        | complete => simp [Source.failed, StreamEnd.isFailed] at hfailed'
        | failed ex =>
            have hatt : c.replies.attached = true := by
              simpa [Source.failed, StreamEnd.isFailed] using hfailed'
            have hq : c.handler.obj.pendingOps = [] := by
              simpa [failsInTurn, StreamEnd.isComplete, hatt] using hguard
            rw [hinv.performed hatt] at horder
            have hlive := hinv.live_of_open (Or.inr hopen) (hinv.threw_of_attached hatt)
            simp only [hatt, if_true, Live.update_of_live hlive]
            exact ⟨hq, hinv.sendOps_fail horder hopen hatt hq ex⟩
    | perform hreq =>
        have hatt := (hinv.unperformed hreq).1
        simp [Source.failed, hatt] at hfailed'
    | attach hreq hthrew hatt =>
        have hterm : c.replies.terminal.any StreamEnd.isFailed = true := by
          simpa [Source.failed] using hfailed'
        simp only [failsInTurn, hterm, Bool.not_true, Bool.false_or, decide_eq_true_eq] at hguard
        have hlive := hinv.live_of_open (Or.inl hatt) hthrew
        have hmid := hinv.drained hatt hreq hthrew
        rw [Live.update_of_live hlive] at hmid ⊢
        rw [hreq] at horder
        have hq := (hinv.pendingOps_drained hatt).2 hguard
        cases hend : c.replies.terminal with
        | none => simp [hend] at hterm
        | some t =>
            cases t with
            | complete => simp [hend, StreamEnd.isFailed] at hterm
            | failed ex =>
                simp only [Source.drain, hend]
                exact ⟨hq, hmid.sendOps_fail (horder.foldl_push _) rfl rfl hq ex⟩
    | throws hreq hthrew hatt => simp [Source.failed, hatt] at hfailed'
    | @complete i r handler hwork =>
        obtain ⟨hq, hops⟩ := ih hfailed'
        obtain ⟨b, hb, ⟨hdel, rfl⟩ | ⟨hlive, rfl⟩⟩ := complete_cases hwork
        · exact ⟨hq, hops⟩
        · have hafter := hinv.afterBatch_of_failed hfailed' hq i
          cases b with
          | metadata =>
              simp only [handled, hafter]
              exact ⟨hq, hops⟩
          | write m =>
              simp only [handled, hafter]
              exact ⟨hq, hops⟩
          | sendEnd => exact ⟨hq, hops⟩
          | fail => exact ⟨hq, hops⟩

/-! ## The end of the handler -/

/-- A failure of a handler that exists is in flight. -/
theorem allPending_of_live {c : StreamingServer Req Rep} (h : (machine Req Rep).Reachable c)
    (hlive : c.handler.deleted = false) : c.handler.obj.call.AllPending isFail := by
  have hflush : ∀ o : ServerStreamingCallHandler, o.call.AllPending isFail →
      o.flush.call.AllPending isFail := by
    intro o ho
    unfold ServerStreamingCallHandler.flush
    split
    · exact ho
    · split
      · exact ho
      · exact ho.startBatch _
  refine Machine.Reachable.invariant
    (P := fun c : StreamingServer Req Rep => c.handler.deleted = false →
      c.handler.obj.call.AllPending isFail) (by intro _; rfl) ?_ h hlive
  intro c c' e hstep ih hlive'
  by_cases huser : ∀ i r, e ≠ .complete i r
  · have hkeep := user_step hstep huser
      (P := fun o => c.handler.deleted = false → o.call.AllPending isFail) ih
      (fun o rep ho hl => hflush _ (ho hl)) ?_ (fun _ _ hl => (ih hl).startBatch _)
    · rw [hkeep.2] at hlive'
      exact hkeep.1 hlive'
    · intro o t ho hl
      cases t with
      | complete =>
          simp only [onRepliesEnd, ServerStreamingCallHandler.finish]
          split
          · exact (ho hl).startBatch _
          · exact ho hl
      | failed ex => exact (ho hl).startBatch _
  · push Not at huser
    obtain ⟨i, r, rfl⟩ := huser
    obtain ⟨handler, hwork, rfl⟩ := Option.map_eq_some_iff.1 hstep
    obtain ⟨b, hb, ⟨hdel, rfl⟩ | ⟨hlive, rfl⟩⟩ := complete_cases hwork
    · cases hlive'
    · have hnext : isFail b = false → (c.handler.obj.done i).afterBatch.call.AllPending isFail := by
        intro hb'
        have hdone := (ih hlive).completeAt hb hb'
        unfold afterBatch
        split
        · exact hflush _ hdone
        · split
          · exact hdone.startBatch _
          · exact hdone
      cases b with
      | metadata => exact hnext rfl
      | write m => exact hnext rfl
      | sendEnd => cases hlive'
      | fail => cases hlive'

/-- A handler that knows of a failure and has nothing outstanding was deleted. -/
theorem deleted_of_failed {c : StreamingServer Req Rep} (h : (machine Req Rep).Reachable c)
    (hfailed : c.replies.failed = true) (hquiet : c.handler.obj.call.quiet = true) :
    c.handler.deleted = true := by
  by_contra hno
  have hzero := (allPending_of_live h (by simpa using hno)).starts_of_quiet hquiet
  have hfails := (inv_of_reachable h).failed
  rw [hzero, show (c.replies.attached && c.replies.terminal.any StreamEnd.isFailed) = true from
    hfailed, Bool.toNat_true] at hfails
  omega

theorem handler_of_deleted {c c' : StreamingServer Req Rep} {e : Event Rep}
    (hstep : c.step e = some c') (huser : ∀ i r, e ≠ .complete i r)
    (hdel : c.handler.deleted = true) : c'.handler = c.handler := by
  cases moves_of_step hstep with
  | push hopen => simp only [Live.update_of_deleted hdel, ite_self]
  | finish hopen => simp only [Live.update_of_deleted hdel, ite_self]
  | perform hreq => exact Live.update_of_deleted hdel _
  | attach hreq hthrew hatt => exact Live.update_of_deleted hdel _
  | throws hreq hthrew hatt => simp only [Live.update_of_deleted hdel]
  | complete hwork => exact absurd rfl (huser _ _)

omit [Serializer Req] in
/-- The normal end is started with no other batch outstanding, so nothing is when it completes. -/
theorem Inv.outstanding_of_ended {c : StreamingServer Req Rep} (h : c.Inv) {i : ℕ}
    (hb : c.handler.obj.call.outstanding[i]? = some .sendEnd)
    (hfail : c.handler.obj.call.AllPending isFail) :
    (c.handler.obj.call.completeAt i).outstanding = [] := by
  have hpos := Call.pending_pos hb (p := isSendEnd) rfl
  have hle := h.counts.ends_le
  have hclosed : c.handler.obj.toOutbox.closes ≠ 0 := by
    show c.handler.obj.call.starts isSendEnd ≠ 0
    unfold Call.AllPending at hfail
    omega
  obtain ⟨hatt, hterm, -⟩ := h.feeds.closed hclosed
  have hidle : c.handler.obj.batchInFlight = false := h.feeds.outbox.closed_idle hclosed
  have hends : c.handler.obj.call.starts isSendEnd ≤ 1 := h.feeds.outbox.closes_le
  have hfails := h.failed
  rw [hterm, h.threw_of_attached hatt] at hfails
  simp only [StreamEnd.isFailed, Option.any_some, Bool.and_false, Option.isSome_none,
    Bool.toNat_false] at hfails
  have hgate := h.counts.gate_le
  rw [hidle, Bool.toNat_false] at hgate
  obtain ⟨hM, hW, hE, hF⟩ := pending_done hb
  simp only [isSendEnd, Bool.toNat_true] at hE
  have hlen := length_outstanding (c.handler.obj.call.completeAt i)
  exact List.length_eq_zero_iff.1 (by omega)

/-- In a run that fails in turn, a deleted handler has nothing outstanding. -/
theorem outstanding_of_deleted {c : StreamingServer Req Rep}
    (h : ((machine Req Rep).guard failsInTurn).Reachable c) (hdel : c.handler.deleted = true) :
    c.handler.obj.call.outstanding = [] := by
  refine Machine.Reachable.guard_invariant
    (P := fun c => c.handler.deleted = true → c.handler.obj.call.outstanding = []) ?_ ?_ h hdel
  · intro hno
    cases hno
  · intro c c' e hreach hstep hguard ih hdel'
    by_cases huser : ∀ i r, e ≠ .complete i r
    · have hsame := (user_step hstep huser (P := fun _ => True) trivial (fun _ _ _ => trivial)
        (fun _ _ _ => trivial) (fun _ _ => trivial)).2
      rw [hsame] at hdel'
      rw [handler_of_deleted hstep huser hdel']
      exact ih hdel'
    · push Not at huser
      obtain ⟨i, r, rfl⟩ := huser
      obtain ⟨handler, hwork, rfl⟩ := Option.map_eq_some_iff.1 hstep
      obtain ⟨b, hb, ⟨hdel, rfl⟩ | ⟨hlive, rfl⟩⟩ := complete_cases hwork
      · simp [ih hdel] at hb
      · cases b with
        | metadata => cases hdel'
        | write m => cases hdel'
        | sendEnd =>
            exact (inv_of_reachable hreach).outstanding_of_ended hb
              (allPending_of_live hreach hlive)
        | fail =>
            have hone : c.handler.obj.call.outstanding.length = 1 := by
              simpa [failsInTurn, hb] using hguard
            obtain ⟨hlt, -⟩ := List.getElem?_eq_some_iff.1 hb
            refine List.length_eq_zero_iff.1 ?_
            show (c.handler.obj.call.outstanding.eraseIdx i).length = 0
            rw [List.length_eraseIdx_of_lt hlt]
            omega

/-! ## A failure out of turn -/

omit [Serializer Req] in
/-- A failed stream with everything sent in order has nothing queued. -/
theorem Inv.pendingOps_of_failsClean {c : StreamingServer Req Rep} (h : c.Inv)
    (hfailed : c.replies.failed = true)
    (hclean : FailsClean c.handler.deleted c.handler.obj.call c.replies) :
    c.handler.obj.pendingOps = [] := by
  obtain ⟨status, details, hops⟩ := hclean.ops hfailed
  have hsent : c.handler.obj.call.sent = c.replies.pushed.map serialize := by
    rw [Call.sent_eq_sendOps, hops]
    simp [List.filterMap_cons, Op.message?, List.filterMap_map, Function.comp_def]
  have hhistory := h.feeds.history
  simp only [Source.failed, Bool.and_eq_true] at hfailed
  rw [hfailed.1, if_pos rfl, Outbox.history,
    show c.handler.obj.toOutbox.sent = _ from hsent] at hhistory
  exact List.append_right_eq_self.1 hhistory

/-- A failure that finds something queued, or whose status completes before another batch, is not
    handled as it should be. -/
theorem not_failsClean_of_step {c c' : StreamingServer Req Rep} {e : Event Rep}
    (hreach : (machine Req Rep).Reachable c) (hstep : (machine Req Rep).step c e = some c')
    (hbad : c.failsInTurn e = false) :
    ¬ FailsClean c'.handler.deleted c'.handler.obj.call c'.replies := by
  have hinv := inv_of_reachable hreach
  have hinv' := inv_step hstep hinv
  intro hclean
  have hnil : c'.replies.failed = true → c'.handler.obj.pendingOps = [] :=
    fun hfailed => hinv'.pendingOps_of_failsClean hfailed hclean
  cases moves_of_step hstep with
  | push hopen => cases hbad
  | @finish t hopen =>
      simp only [failsInTurn, Bool.or_eq_false_iff, Bool.not_eq_false'] at hbad
      obtain ⟨⟨ht, hatt⟩, hq⟩ := hbad
      cases t with
      | complete => cases ht
      | failed ex =>
          have hlive := hinv.live_of_open (Or.inr hopen) (hinv.threw_of_attached hatt)
          simp only [hatt, if_true, Live.update_of_live hlive] at hnil
          have hempty : c.handler.obj.pendingOps = [] :=
            hnil (by simp [Source.failed, StreamEnd.isFailed])
          simp [hempty] at hq
  | perform hreq => cases hbad
  | attach hreq hthrew hatt =>
      simp only [failsInTurn, Bool.or_eq_false_iff, Bool.not_eq_false', decide_eq_false_iff_not]
        at hbad
      obtain ⟨hterm, hmany⟩ := hbad
      have hlive := hinv.live_of_open (Or.inl hatt) hthrew
      have hempty := hnil (by simpa [Source.failed] using hterm)
      rw [Live.update_of_live hlive] at hempty
      refine hmany ((hinv.pendingOps_drained hatt).1 ?_)
      cases hend : c.replies.terminal with
      | none => simp [hend] at hterm
      | some t =>
          cases t with
          | complete => simp [hend, StreamEnd.isFailed] at hterm
          | failed ex =>
              simp only [Source.drain, hend] at hempty
              exact hempty
  | throws hreq hthrew hatt => cases hbad
  | @complete i r handler hwork =>
      simp only [failsInTurn, Bool.or_eq_false_iff, bne_eq_false_iff_eq, beq_eq_false_iff_ne] at hbad
      obtain ⟨hfail, hmany⟩ := hbad
      obtain ⟨hlt, -⟩ := List.getElem?_eq_some_iff.1 hfail
      have hgone : handler.deleted = true ∧
          handler.obj.call.outstanding = c.handler.obj.call.outstanding.eraseIdx i := by
        obtain ⟨b, hb, ⟨hdel, rfl⟩ | ⟨hlive, rfl⟩⟩ := complete_cases hwork
        · exact ⟨rfl, rfl⟩
        · obtain rfl : b = .fail := Option.some.inj (hb.symm.trans hfail)
          exact ⟨rfl, rfl⟩
      have hlen := congrArg List.length (hclean.life.clean hgone.1)
      rw [hgone.2, List.length_eraseIdx_of_lt hlt, List.length_nil] at hlen
      omega

end StreamingServer

/-! ## Both handlers -/

variable [Serializer Req] [Serializer Rep]

/-- The failure of a bidirectional handler is never followed by its deletion: only the completion of
    a normal end makes `exec` return true. -/
theorem BidirServer.live_of_failed {c : BidirServer Req Rep}
    (h : (BidirServer.machine Req Rep).Reachable c) (hfailed : c.replies.failed = true) :
    c.handler.deleted = false := by
  have hinv := BidirServer.inv_of_reachable h
  by_contra hdel
  have hclosed := hinv.counts.deleted_end (by simpa using hdel)
  have hterm := (hinv.feeds.closed hclosed).2.1
  simp [Source.failed, hterm, StreamEnd.isFailed] at hfailed

/-- **A failing reply stream**: the server-streaming handler keeps the order of the operations and
    is deleted with nothing outstanding in exactly the runs in which every failure finds nothing
    queued and its status completes after the batch that was in flight; the bidirectional handler is
    never deleted. -/
theorem failing_replies_clean :
    (∀ c : StreamingServer Req Rep,
      ((StreamingServer.machine Req Rep).guard StreamingServer.failsInTurn).Reachable c →
        FailsClean c.handler.deleted c.handler.obj.call c.replies) ∧
    (∀ (c c' : StreamingServer Req Rep) (e : StreamingServer.Event Rep),
      (StreamingServer.machine Req Rep).Reachable c →
      (StreamingServer.machine Req Rep).step c e = some c' → c.failsInTurn e = false →
        ¬ FailsClean c'.handler.deleted c'.handler.obj.call c'.replies) ∧
    (∀ c : BidirServer Req Rep, (BidirServer.machine Req Rep).Reachable c →
      c.replies.failed = true → c.handler.deleted = false ∧
        (c.handler.obj.call.quiet = true →
          ¬ FailsClean c.handler.deleted c.handler.obj.call c.replies)) := by
  refine ⟨?_, ?_, ?_⟩
  · intro c h
    refine ⟨?_, StreamingServer.outstanding_of_deleted h,
      StreamingServer.deleted_of_failed h.of_guard⟩
    intro hfailed
    exact ⟨.ok, none, (StreamingServer.sendOps_of_failed h hfailed).2⟩
  · intro c c' e hreach hstep hbad
    exact StreamingServer.not_failsClean_of_step hreach hstep hbad
  · intro c h hfailed
    have hlive := BidirServer.live_of_failed h hfailed
    refine ⟨hlive, ?_⟩
    intro hquiet hclean
    have hdel := hclean.life.dies hfailed hquiet
    rw [hlive] at hdel
    cases hdel

/-- A stream that fails when its only reply is done meets the condition. -/
theorem failing_replies_clean_one_reply :
    ∃ c : StreamingServer Buffer Buffer, c.replies.failed = true ∧ c.handler.deleted = true ∧
      FailsClean c.handler.deleted c.handler.obj.call c.replies := by
  have hrun : ((StreamingServer.machine Buffer Buffer).guard
      StreamingServer.failsInTurn).Reachable _ :=
    Machine.reachable_of_run
      [.perform [1], .attach, .complete 0 {}, .push [7], .complete 0 {},
        .finish (.failed .other), .complete 0 {}] rfl
  exact ⟨_, rfl, rfl, failing_replies_clean.1 _ hrun⟩

/-- A server-streaming handler whose stream fails while the metadata is in flight and a reply is
    queued starts the status before the reply. A bidirectional handler whose stream fails is still
    there when nothing is outstanding any more. -/
theorem failing_replies_lost :
    ¬ (∀ c : StreamingServer Buffer Buffer, (StreamingServer.machine Buffer Buffer).Reachable c →
        FailsClean c.handler.deleted c.handler.obj.call c.replies) ∧
    ¬ (∀ c : BidirServer Buffer Buffer, (BidirServer.machine Buffer Buffer).Reachable c →
        FailsClean c.handler.deleted c.handler.obj.call c.replies) := by
  constructor
  · intro hall
    have hrun : (StreamingServer.machine Buffer Buffer).Reachable _ :=
      Machine.reachable_of_run [.perform [1], .attach, .push [7], .finish (.failed .other)] rfl
    obtain ⟨status, details, hops⟩ := (hall _ hrun).ops rfl
    have hlen : 2 = 3 := congrArg List.length hops
    omega
  · intro hall
    have hrun : (BidirServer.machine Buffer Buffer).Reachable _ :=
      Machine.reachable_of_run [.attach, .startHandshake, .finish (.failed .other), .complete 0 {},
        .complete 0 {}, .complete 0 {}] rfl
    have hdel := (hall _ hrun).life.dies rfl rfl
    cases hdel

end EasyGrpc
