import EasyGrpc.Core.Feed
import EasyGrpc.Server.ServerStreaming

set_option autoImplicit false

/-! # Invariants of the server of a server-streaming call

The sending side is an `Outbox` whose first transfer is the metadata batch: a reply is a `push`, the
normal end of the reply stream a `finish`, and every completion but that of the last batch a
`release` that looks at the end of the stream. -/

namespace EasyGrpc

variable {Req Rep : Type}

namespace ServerStreamingCallHandler

open StreamingServerBatch

/-! ## The sending side is an outbox -/

def toOutbox (h : ServerStreamingCallHandler) : Outbox Buffer where
  busy := h.batchInFlight
  queue := h.pendingOps
  ended := h.finished
  sent := h.call.sent
  closes := h.call.starts isSendEnd

theorem toOutbox_flush (h : ServerStreamingCallHandler) : h.flush.toOutbox = h.toOutbox.flush := by
  unfold flush Outbox.flush
  cases hbusy : h.batchInFlight with
  | true => simp [toOutbox, hbusy]
  | false =>
      cases hq : h.pendingOps with
      | nil => simp [toOutbox, hbusy, hq]
      | cons op rest =>
          simp [toOutbox, hbusy, hq, startBatch, Call.sent_startBatch, Call.starts_startBatch,
            BatchSpec.ops, Op.message?, isSendEnd]

theorem toOutbox_sendEnd (h : ServerStreamingCallHandler) :
    h.sendEnd.toOutbox = h.toOutbox.close := by
  simp [toOutbox, sendEnd, startBatch, Outbox.close, Call.sent_startBatch, Call.starts_startBatch,
    BatchSpec.ops, Op.message?, isSendEnd]

theorem toOutbox_startFail (h : ServerStreamingCallHandler) :
    (h.startBatch .fail).toOutbox = h.toOutbox := by
  simp [toOutbox, startBatch, Call.sent_startBatch, Call.starts_startBatch, BatchSpec.ops,
    Op.message?, isSendEnd]

theorem toOutbox_startMetadata (h : ServerStreamingCallHandler) :
    h.startMetadata.toOutbox = { h.toOutbox with busy := true } := by
  simp [toOutbox, startMetadata, startBatch, Call.sent_startBatch, Call.starts_startBatch,
    BatchSpec.ops, Op.message?, isSendEnd]

theorem toOutbox_push [Serializer Rep] (h : ServerStreamingCallHandler) (rep : Rep) :
    (h.push rep).toOutbox = h.toOutbox.push (serialize rep) := by
  rw [push, toOutbox_flush]
  rfl

theorem toOutbox_finish (h : ServerStreamingCallHandler) :
    h.finish.toOutbox = h.toOutbox.finish := by
  unfold finish Outbox.finish
  cases hbusy : h.batchInFlight with
  | true => simp [toOutbox, hbusy]
  | false =>
      simp only [Bool.not_false, if_true, toOutbox_sendEnd]
      simp [toOutbox, hbusy]

/-- `exec` for the metadata and for a reply. -/
def afterBatch (h : ServerStreamingCallHandler) : ServerStreamingCallHandler :=
  if !h.pendingOps.isEmpty then { h with batchInFlight := false }.flush
  else if h.finished then { h with batchInFlight := false }.sendEnd
  else { h with batchInFlight := false }

theorem toOutbox_afterBatch (h : ServerStreamingCallHandler) :
    h.afterBatch.toOutbox = h.toOutbox.release true := by
  unfold afterBatch Outbox.release
  cases hq : h.pendingOps with
  | nil =>
      cases hfin : h.finished with
      | false => simp [toOutbox, hq, hfin]
      | true =>
          simp only [List.isEmpty_nil, Bool.not_true, Bool.false_eq_true, if_false, if_true,
            toOutbox_sendEnd]
          simp [toOutbox, hq, hfin]
  | cons op rest =>
      simp only [List.isEmpty_cons, Bool.not_false, if_true, toOutbox_flush]
      simp [toOutbox, hq]

/-! ## Only `fail` starts a failure -/

theorem startsFail_flush (h : ServerStreamingCallHandler) :
    h.flush.call.starts isFail = h.call.starts isFail := by
  unfold flush
  split
  · rfl
  · split
    · rfl
    · simp [startBatch, Call.starts_startBatch, isFail]

theorem startsFail_sendEnd (h : ServerStreamingCallHandler) :
    h.sendEnd.call.starts isFail = h.call.starts isFail := by
  simp [sendEnd, startBatch, Call.starts_startBatch, isFail]

theorem startsFail_push [Serializer Rep] (h : ServerStreamingCallHandler) (rep : Rep) :
    (h.push rep).call.starts isFail = h.call.starts isFail :=
  startsFail_flush _

theorem startsFail_finish (h : ServerStreamingCallHandler) :
    h.finish.call.starts isFail = h.call.starts isFail := by
  unfold finish
  simp only
  split
  · exact startsFail_sendEnd _
  · rfl

theorem startsFail_afterBatch (h : ServerStreamingCallHandler) :
    h.afterBatch.call.starts isFail = h.call.starts isFail := by
  unfold afterBatch
  split
  · exact startsFail_flush _
  · split
    · exact startsFail_sendEnd _
    · rfl

/-! ## What `exec` does for each batch -/

/-- The handler once its `i`-th outstanding batch is no longer outstanding. -/
def done (h : ServerStreamingCallHandler) (i : ℕ) : ServerStreamingCallHandler :=
  { h with call := h.call.completeAt i }

/-- What a live handler becomes when its `i`-th outstanding batch completes. -/
def handled (h : ServerStreamingCallHandler) (i : ℕ) :
    StreamingServerBatch → Live ServerStreamingCallHandler
  | .metadata => ⟨(h.done i).afterBatch, false⟩
  | .write _ => ⟨(h.done i).afterBatch, false⟩
  | .sendEnd => ⟨h.done i, true⟩
  | .fail => ⟨h.done i, true⟩

/-- **What one turn of `worker_main` can do to a handler.** -/
theorem complete_cases {o o' : Live ServerStreamingCallHandler} {i : ℕ} {r : Received}
    (h : o.workerMain i r = some o') :
    ∃ b, o.obj.call.outstanding[i]? = some b ∧
      ((o.deleted = true ∧ o' = ⟨o.obj.done i, true⟩) ∨
        (o.deleted = false ∧ o' = o.obj.handled i b)) := by
  obtain ⟨b, hb, hcase⟩ := Live.workerMain_eq_some h
  refine ⟨b, hb, ?_⟩
  rcases hcase with ⟨hdel, rfl⟩ | ⟨hlive, rfl⟩
  · exact Or.inl ⟨hdel, by rw [hdel]; rfl⟩
  · refine Or.inr ⟨hlive, ?_⟩
    cases b with
    | metadata => rfl
    | write m =>
        show (⟨(exec _ 0).2, (exec _ 0).1⟩ : Live ServerStreamingCallHandler) = _
        rfl
    | sendEnd => rfl
    | fail => rfl

end ServerStreamingCallHandler

namespace StreamingServer

open ServerStreamingCallHandler StreamingServerBatch

/-! ## The invariant -/

/-- What ties the flags of a handler to its batches, flags read as numbers. -/
structure Counts (h : ServerStreamingCallHandler) (deleted : Bool) : Prop where
  /-- A batch is in flight exactly if the metadata or one reply is outstanding. -/
  gate_le : h.call.pending isMetadata + h.call.pending isWrite ≤ h.batchInFlight.toNat
  gate_live : deleted.toNat = 0 →
    h.call.pending isMetadata + h.call.pending isWrite = h.batchInFlight.toNat
  /-- A handler is deleted when its last batch completes. -/
  ends_le : h.call.pending isSendEnd + h.call.pending isFail
    ≤ h.call.starts isSendEnd + h.call.starts isFail
  deleted_end : deleted.toNat = 1 → h.call.starts isSendEnd + h.call.starts isFail ≠ 0

structure Inv [Serializer Rep] (c : StreamingServer Req Rep) : Prop where
  feeds : Feeds c.replies c.handler.obj.toOutbox
  failed : c.handler.obj.call.starts isFail
    = (c.replies.attached && c.replies.terminal.any StreamEnd.isFailed).toNat
      + c.threw.isSome.toNat
  /-- A handler that threw returned no stream. -/
  exclusive : c.threw.isSome = true → c.replies.attached = false
  unperformed : c.req.isSome = false →
    c.replies.attached = false ∧ c.threw = none ∧ c.handler.obj.batchInFlight = false
  counts : Counts c.handler.obj c.handler.deleted
  /-- A completed stream with no batch in flight has its status sent. -/
  settled : c.handler.obj.toOutbox.Settled

theorem pending_done {call : Call StreamingServerBatch} {i : ℕ} {b : StreamingServerBatch}
    (hb : call.outstanding[i]? = some b) :
    call.pending isMetadata = (call.completeAt i).pending isMetadata + (isMetadata b).toNat ∧
    call.pending isWrite = (call.completeAt i).pending isWrite + (isWrite b).toNat ∧
    call.pending isSendEnd = (call.completeAt i).pending isSendEnd + (isSendEnd b).toNat ∧
    call.pending isFail = (call.completeAt i).pending isFail + (isFail b).toNat :=
  ⟨Call.pending_completeAt hb _, Call.pending_completeAt hb _, Call.pending_completeAt hb _,
    Call.pending_completeAt hb _⟩

/-- Every batch is of one of the four kinds. -/
theorem length_outstanding (call : Call StreamingServerBatch) :
    call.outstanding.length = call.pending isMetadata + call.pending isWrite
      + call.pending isSendEnd + call.pending isFail := by
  rw [call.length_outstanding [isMetadata, isWrite, isSendEnd, isFail]
    (by intro b; cases b <;> rfl)]
  simp [Nat.add_assoc]

/-- `Counts` looks at the batches and at `batch_in_flight_` only. -/
theorem Counts.copy {h h' : ServerStreamingCallHandler} {deleted : Bool} (hc : Counts h deleted)
    (hcall : h'.call = h.call) (hbusy : h'.batchInFlight = h.batchInFlight) :
    Counts h' deleted := by
  obtain ⟨h1, h2, h3, h4⟩ := hc
  constructor <;> simp only [hcall, hbusy] <;> assumption

/-- A batch of a deleted handler goes away. -/
theorem Counts.drop {h : ServerStreamingCallHandler} (hc : Counts h true) {i : ℕ}
    {b : StreamingServerBatch} (hb : h.call.outstanding[i]? = some b) :
    Counts { h with call := h.call.completeAt i } true := by
  obtain ⟨hM, hW, hE, hF⟩ := pending_done hb
  obtain ⟨h1, h2, h3, h4⟩ := hc
  constructor <;> simp only [Call.starts_completeAt, Bool.toNat_true, true_implies] at * <;> omega

/-- The last batch is done: the handler is deleted. -/
theorem Counts.last {h : ServerStreamingCallHandler} (hc : Counts h false) {i : ℕ}
    {b : StreamingServerBatch} (hb : h.call.outstanding[i]? = some b)
    (hlast : (isSendEnd b).toNat + (isFail b).toNat = 1) :
    Counts { h with call := h.call.completeAt i } true := by
  obtain ⟨hM, hW, hE, hF⟩ := pending_done hb
  obtain ⟨h1, h2, h3, h4⟩ := hc
  constructor <;>
    simp only [Call.starts_completeAt, Bool.toNat_true, Bool.toNat_false, true_implies] at * <;>
    omega

theorem Counts.startMetadata {h : ServerStreamingCallHandler} {deleted : Bool}
    (hc : Counts h deleted) (hidle : h.batchInFlight = false) :
    Counts h.startMetadata deleted := by
  obtain ⟨h1, h2, h3, h4⟩ := hc
  constructor <;>
    simp only [hidle, ServerStreamingCallHandler.startMetadata, startBatch, Call.pending_startBatch,
      Call.starts_startBatch, isMetadata, isWrite, isSendEnd, isFail, Bool.toNat_true,
      Bool.toNat_false] at * <;> omega

theorem Counts.startFail {h : ServerStreamingCallHandler} {deleted : Bool} (hc : Counts h deleted) :
    Counts (h.startBatch .fail) deleted := by
  obtain ⟨h1, h2, h3, h4⟩ := hc
  constructor <;>
    simp only [startBatch, Call.pending_startBatch, Call.starts_startBatch, isMetadata, isWrite,
      isSendEnd, isFail, Bool.toNat_true, Bool.toNat_false] at * <;> omega

theorem Counts.sendEnd {h : ServerStreamingCallHandler} {deleted : Bool} (hc : Counts h deleted) :
    Counts h.sendEnd deleted := by
  obtain ⟨h1, h2, h3, h4⟩ := hc
  constructor <;>
    simp only [ServerStreamingCallHandler.sendEnd, startBatch, Call.pending_startBatch,
      Call.starts_startBatch, isMetadata, isWrite, isSendEnd, isFail, Bool.toNat_true,
      Bool.toNat_false] at * <;> omega

theorem Counts.flush {h : ServerStreamingCallHandler} {deleted : Bool} (hc : Counts h deleted) :
    Counts h.flush deleted := by
  unfold ServerStreamingCallHandler.flush
  cases hbusy : h.batchInFlight with
  | true => exact hc
  | false =>
      cases hq : h.pendingOps with
      | nil => exact hc
      | cons op rest =>
          obtain ⟨h1, h2, h3, h4⟩ := hc
          simp only [Bool.false_eq_true, if_false]
          constructor <;>
            simp only [hbusy, startBatch, Call.pending_startBatch, Call.starts_startBatch,
              isMetadata, isWrite, isSendEnd, isFail, Bool.toNat_true, Bool.toNat_false] at * <;>
            omega

theorem Counts.finish {h : ServerStreamingCallHandler} {deleted : Bool} (hc : Counts h deleted) :
    Counts h.finish deleted := by
  have hmarked : Counts { h with finished := true } deleted := hc.copy rfl rfl
  unfold ServerStreamingCallHandler.finish
  simp only
  split
  · exact hmarked.sendEnd
  · exact hmarked

/-- The metadata, or a reply, is done: the next reply, or the normal end, is started. -/
theorem Counts.next {h : ServerStreamingCallHandler} (hc : Counts h false) {i : ℕ}
    {b : StreamingServerBatch} (hb : h.call.outstanding[i]? = some b)
    (hgate : (isMetadata b).toNat + (isWrite b).toNat = 1)
    (hlast : (isSendEnd b).toNat + (isFail b).toNat = 0) :
    Counts { h with call := h.call.completeAt i }.afterBatch false := by
  obtain ⟨hM, hW, hE, hF⟩ := pending_done hb
  have hopen : Counts { h with call := h.call.completeAt i, batchInFlight := false } false := by
    have hbit := Bool.toNat_le h.batchInFlight
    obtain ⟨h1, h2, h3, h4⟩ := hc
    constructor <;>
      simp only [Call.starts_completeAt, Bool.toNat_false, true_implies] at * <;> omega
  unfold afterBatch
  split
  · exact hopen.flush
  · split
    · exact hopen.sendEnd
    · exact hopen

variable [Serializer Req] [Serializer Rep]

/-! ## The steps, with what each requires -/

/-- One constructor for each step that `step` can take. -/
inductive Moves (c : StreamingServer Req Rep) : Event Rep → StreamingServer Req Rep → Prop
  | push {rep : Rep} (hopen : c.replies.terminal = none) : Moves c (.push rep) { c with
      replies := { c.replies with pushed := c.replies.pushed ++ [rep] }
      handler := if c.replies.attached then c.handler.update (·.push rep) else c.handler }
  | finish {t : StreamEnd} (hopen : c.replies.terminal = none) : Moves c (.finish t) { c with
      replies := { c.replies with terminal := some t }
      handler := if c.replies.attached then c.handler.update (·.onRepliesEnd t) else c.handler }
  | perform {payload : Buffer} (hreq : c.req.isSome = false) : Moves c (.perform payload) { c with
      req := some (deserialize payload), handler := c.handler.update startMetadata }
  | attach (hreq : c.req.isSome = true) (hthrew : c.threw = none)
      (hatt : c.replies.attached = false) : Moves c .attach { c with
        replies := { c.replies with attached := true }
        handler := c.handler.update
          (c.replies.drain ServerStreamingCallHandler.push onRepliesEnd) }
  | throws {e : Exception} (hreq : c.req.isSome = true) (hthrew : c.threw = none)
      (hatt : c.replies.attached = false) : Moves c (.throws e) { c with
        threw := some e, handler := c.handler.update (·.fail e) }
  | complete {i : ℕ} {r : Received} {handler : Live ServerStreamingCallHandler}
      (hwork : c.handler.workerMain i r = some handler) : Moves c (.complete i r) { c with handler }

/-- **What one step of a handler, its producer and `perform` can do.** -/
theorem moves_of_step {c c' : StreamingServer Req Rep} {e : Event Rep}
    (hstep : c.step e = some c') : Moves c e c' := by
  cases e with
  | push rep =>
      obtain ⟨replies, hpush, rfl⟩ := Option.map_eq_some_iff.1 hstep
      obtain ⟨hopen, rfl⟩ := Source.push_eq_some.1 hpush
      exact .push hopen
  | finish t =>
      obtain ⟨replies, hfin, rfl⟩ := Option.map_eq_some_iff.1 hstep
      obtain ⟨hopen, rfl⟩ := Source.finish_eq_some.1 hfin
      exact .finish hopen
  | perform payload =>
      simp only [step] at hstep
      split at hstep
      · cases hstep
      · next hreq =>
          obtain rfl := Option.some.inj hstep
          exact .perform (by simpa using hreq)
  | attach =>
      simp only [step] at hstep
      split at hstep
      · next hready =>
          rw [Bool.and_eq_true, Option.isNone_iff_eq_none] at hready
          obtain ⟨replies, hattach, rfl⟩ := Option.map_eq_some_iff.1 hstep
          obtain ⟨hatt, rfl⟩ := Source.attach_eq_some.1 hattach
          exact .attach hready.1 hready.2 hatt
      · cases hstep
  | throws e =>
      simp only [step] at hstep
      split at hstep
      · next hready =>
          simp only [Bool.and_eq_true, Option.isNone_iff_eq_none, Bool.not_eq_true'] at hready
          obtain rfl := Option.some.inj hstep
          exact .throws hready.1.1 hready.1.2 hready.2
      · cases hstep
  | complete i r =>
      obtain ⟨handler, hwork, rfl⟩ := Option.map_eq_some_iff.1 hstep
      exact .complete hwork

/-! ## Every step keeps the invariant -/

omit [Serializer Req] in
/-- A handler is deleted only after the reply stream has ended, or the user's handler has thrown. -/
theorem Inv.live_of_open {c : StreamingServer Req Rep} (h : c.Inv)
    (hopen : c.replies.attached = false ∨ c.replies.terminal = none) (hthrew : c.threw = none) :
    c.handler.deleted = false := by
  cases hdel : c.handler.deleted with
  | false => rfl
  | true =>
      have hend := h.counts.deleted_end (by simp [hdel])
      have hnone : c.handler.obj.call.starts isSendEnd = 0 :=
        h.feeds.outbox.closes_of_open (h.feeds.not_ended hopen)
      have hfail := h.failed
      have hzero : (c.replies.attached && c.replies.terminal.any StreamEnd.isFailed) = false := by
        rcases hopen with hopen | hopen <;> simp [hopen]
      simp only [hzero, hthrew, Option.isSome_none, Bool.toNat_false] at hfail
      omega

omit [Serializer Req] in
theorem Inv.threw_of_attached {c : StreamingServer Req Rep} (h : c.Inv)
    (hatt : c.replies.attached = true) : c.threw = none := by
  cases hthrew : c.threw with
  | none => rfl
  | some e =>
      have hno := h.exclusive (by simp [hthrew])
      rw [hatt] at hno
      cases hno

omit [Serializer Req] in
/-- What happens to a stream that is not attached is not seen. -/
theorem Inv.unseen {c : StreamingServer Req Rep} (h : c.Inv) (hatt : c.replies.attached = false)
    {replies : Source Rep} (hatt' : replies.attached = false) : Inv { c with replies } := by
  refine ⟨h.feeds.unattached hatt hatt', ?_, fun _ => hatt', ?_, h.counts, h.settled⟩
  · simpa [hatt, hatt'] using h.failed
  · intro hreq
    exact ⟨hatt', (h.unperformed hreq).2⟩

omit [Serializer Req] in
/-- A reply on an attached stream. -/
theorem Inv.pushed {c : StreamingServer Req Rep} (h : c.Inv) (hopen : c.replies.terminal = none)
    (hatt : c.replies.attached = true) (rep : Rep) :
    Inv { c with
      replies := { c.replies with pushed := c.replies.pushed ++ [rep] }
      handler := c.handler.update (·.push rep) } := by
  have hlive := h.live_of_open (Or.inr hopen) (h.threw_of_attached hatt)
  rw [Live.update_of_live hlive]
  refine ⟨?_, ?_, h.exclusive, ?_, ?_, ?_⟩
  · rw [toOutbox_push]
    exact h.feeds.push hopen hatt rep
  · rw [startsFail_push]
    exact h.failed
  · intro hreq
    have hno := (h.unperformed hreq).1
    rw [hatt] at hno
    cases hno
  · have hqueued : Counts { c.handler.obj with
        pendingOps := c.handler.obj.pendingOps ++ [serialize rep] } c.handler.deleted :=
      h.counts.copy rfl rfl
    exact hqueued.flush
  · rw [toOutbox_push]
    exact .push (h.feeds.not_ended (Or.inr hopen)) _

omit [Serializer Req] in
/-- The end of an attached stream. -/
theorem Inv.terminated {c : StreamingServer Req Rep} (h : c.Inv) (hopen : c.replies.terminal = none)
    (hatt : c.replies.attached = true) (t : StreamEnd) :
    Inv { c with
      replies := { c.replies with terminal := some t }
      handler := c.handler.update (·.onRepliesEnd t) } := by
  have hthrew := h.threw_of_attached hatt
  have hlive := h.live_of_open (Or.inr hopen) hthrew
  have hnofail : c.handler.obj.call.starts isFail = 0 := by
    have hfail := h.failed
    simpa [hopen, hthrew] using hfail
  have hperformed : c.req.isSome = false → False := by
    intro hreq
    have hno := (h.unperformed hreq).1
    rw [hatt] at hno
    cases hno
  rw [Live.update_of_live hlive]
  cases t with
  | complete =>
      simp only [onRepliesEnd]
      refine ⟨?_, ?_, h.exclusive, fun hreq => (hperformed hreq).elim, h.counts.finish, ?_⟩
      · rw [toOutbox_finish]
        exact h.feeds.complete hopen hatt
      · rw [startsFail_finish, hnofail]
        simp [hthrew, StreamEnd.isFailed]
      · rw [toOutbox_finish]
        exact .finish _
  | failed e =>
      simp only [onRepliesEnd, ServerStreamingCallHandler.fail]
      refine ⟨?_, ?_, h.exclusive, fun hreq => (hperformed hreq).elim, h.counts.startFail, ?_⟩
      · rw [toOutbox_startFail]
        exact h.feeds.fail hopen e
      · simp [startBatch, Call.starts_startBatch, isFail, hnofail, hatt, hthrew, StreamEnd.isFailed]
      · rw [toOutbox_startFail]
        exact h.settled

omit [Serializer Req] in
/-- `perform` attaches: what the stream holds arrives in order, then its end. -/
theorem Inv.attached {c : StreamingServer Req Rep} (h : c.Inv) (hatt : c.replies.attached = false)
    (hreq : c.req.isSome = true) (hthrew : c.threw = none) :
    Inv { c with
      replies := { c.replies with attached := true }
      handler := c.handler.update
        (c.replies.drain ServerStreamingCallHandler.push onRepliesEnd) } := by
  have hlive := h.live_of_open (Or.inl hatt) hthrew
  have hempty : Inv { c with replies := ({ attached := true } : Source Rep) } := by
    refine ⟨h.feeds.attach hatt, ?_, ?_, ?_, h.counts, h.settled⟩
    · simpa [hatt] using h.failed
    · intro hsome
      simp [hthrew] at hsome
    · intro hno
      simp [hreq] at hno
  rw [Live.update_of_live hlive, hlive]
  refine Source.drain_induction
    (P := fun src obj => Inv { c with replies := src, handler := ⟨obj, false⟩ }) ?_ ?_ ?_ c.replies
  · rw [← hlive]
    exact hempty
  · intro src obj rep hsrc hopen ih
    exact ih.pushed hopen hsrc rep
  · intro src obj t hsrc hopen ih
    exact ih.terminated hopen hsrc t

omit [Serializer Req] in
theorem inv_complete {c : StreamingServer Req Rep} {i : ℕ} {r : Received}
    {handler : Live ServerStreamingCallHandler}
    (hwork : c.handler.workerMain i r = some handler) (h : c.Inv) : Inv { c with handler } := by
  obtain ⟨b, hb, hcase⟩ := complete_cases hwork
  have hcounts := h.counts
  rcases hcase with ⟨hdel, rfl⟩ | ⟨hlive, rfl⟩
  · rw [hdel] at hcounts
    exact ⟨h.feeds, h.failed, h.exclusive, h.unperformed, hcounts.drop hb, h.settled⟩
  · rw [hlive] at hcounts
    have hnext : (isMetadata b).toNat + (isWrite b).toNat = 1 →
        (isSendEnd b).toNat + (isFail b).toNat = 0 →
        Inv { c with handler := ⟨(c.handler.obj.done i).afterBatch, false⟩ } := by
      intro hgate hlast
      have hbusy : c.handler.obj.batchInFlight = true := by
        have hpend := hcounts.gate_le
        obtain ⟨hM, hW, -, -⟩ := pending_done hb
        cases hflight : c.handler.obj.batchInFlight with
        | true => rfl
        | false => simp only [hflight, Bool.toNat_false] at hpend; omega
      refine ⟨?_, ?_, h.exclusive, ?_, hcounts.next hb hgate hlast, ?_⟩
      · rw [toOutbox_afterBatch]
        exact h.feeds.release hbusy true
      · rw [startsFail_afterBatch]
        exact h.failed
      · intro hreq
        have hidle := (h.unperformed hreq).2.2
        rw [hbusy] at hidle
        cases hidle
      · rw [toOutbox_afterBatch]
        exact .release _ (Or.inl rfl)
    cases b with
    | metadata => exact hnext rfl rfl
    | write m => exact hnext rfl rfl
    | sendEnd =>
        exact ⟨h.feeds, h.failed, h.exclusive, h.unperformed, hcounts.last hb rfl, h.settled⟩
    | fail => exact ⟨h.feeds, h.failed, h.exclusive, h.unperformed, hcounts.last hb rfl, h.settled⟩

theorem inv_step {c c' : StreamingServer Req Rep} {e : Event Rep}
    (hstep : (machine Req Rep).step c e = some c') (h : c.Inv) : c'.Inv := by
  cases moves_of_step hstep with
  | @push rep hopen =>
      cases hatt : c.replies.attached with
      | false => exact h.unseen hatt hatt
      | true => simpa [hatt] using h.pushed hopen hatt rep
  | @finish t hopen =>
      cases hatt : c.replies.attached with
      | false => exact h.unseen hatt hatt
      | true => simpa [hatt] using h.terminated hopen hatt t
  | perform hreq =>
      obtain ⟨hatt, hthrew, hidle⟩ := h.unperformed hreq
      rw [Live.update_of_live (h.live_of_open (Or.inl hatt) hthrew)]
      refine ⟨?_, ?_, h.exclusive, ?_, h.counts.startMetadata hidle, ?_⟩
      · rw [toOutbox_startMetadata]
        exact h.feeds.block (Or.inl hatt)
      · simpa [startMetadata, startBatch, Call.starts_startBatch, isFail] using h.failed
      · intro hno
        cases hno
      · rw [toOutbox_startMetadata]
        intro _ hidle
        cases hidle
  | attach hreq hthrew hatt => exact h.attached hatt hreq hthrew
  | throws hreq hthrew hatt =>
      rw [Live.update_of_live (h.live_of_open (Or.inl hatt) hthrew)]
      refine ⟨?_, ?_, fun _ => hatt, ?_, h.counts.startFail, ?_⟩
      · exact toOutbox_startFail c.handler.obj ▸ h.feeds
      · have hfail := h.failed
        simp only [hthrew, Option.isSome_none, Bool.toNat_false] at hfail
        simp [ServerStreamingCallHandler.fail, startBatch, Call.starts_startBatch, isFail, hfail]
      · intro hno
        simp [hreq] at hno
      · exact toOutbox_startFail c.handler.obj ▸ h.settled
  | complete hwork => exact inv_complete hwork h

theorem inv_init : ((machine Req Rep).init).Inv := by
  refine ⟨⟨⟨?_, ?_, ?_, ?_⟩, rfl, rfl⟩, rfl, ?_, fun _ => ⟨rfl, rfl, rfl⟩, ?_, ?_⟩
  · intro _; rfl
  · exact Nat.zero_le 1
  · intro _; rfl
  · intro hne; exact absurd rfl hne
  · intro hno; cases hno
  · exact ⟨Nat.le_refl 0, fun _ => rfl, Nat.le_refl 0, fun hdel => by cases hdel⟩
  · intro hno; cases hno

/-- The invariant holds in every reachable state, in whatever order the batches complete. -/
theorem inv_of_reachable {c : StreamingServer Req Rep} (h : (machine Req Rep).Reachable c) :
    c.Inv :=
  h.invariant inv_init inv_step

/-! ## What a step does to the wire and to the reply stream -/

omit [Serializer Req] in
theorem sent_push (h : ServerStreamingCallHandler) (rep : Rep) :
    h.call.sent <+: (h.push rep).call.sent := by
  show h.toOutbox.sent <+: (h.push rep).toOutbox.sent
  rw [toOutbox_push]
  exact Outbox.sent_push _ _

omit [Serializer Req] [Serializer Rep] in
theorem sent_onRepliesEnd (h : ServerStreamingCallHandler) (t : StreamEnd) :
    (h.onRepliesEnd t).call.sent = h.call.sent := by
  cases t with
  | complete =>
      show h.finish.toOutbox.sent = h.toOutbox.sent
      rw [toOutbox_finish, Outbox.sent_finish]
  | failed e =>
      show (h.startBatch .fail).toOutbox.sent = h.toOutbox.sent
      rw [toOutbox_startFail]

/-- What the user's thread and `perform` can do to a handler: what each of their operations keeps,
    every step that is not a completion keeps. -/
theorem user_step {c c' : StreamingServer Req Rep} {e : Event Rep} (hstep : c.step e = some c')
    (huser : ∀ i r, e ≠ .complete i r) {P : ServerStreamingCallHandler → Prop}
    (h : P c.handler.obj) (hpush : ∀ (o : ServerStreamingCallHandler) (rep : Rep), P o →
      P (o.push rep))
    (hend : ∀ o t, P o → P (o.onRepliesEnd t))
    (hmeta : ∀ payload, e = .perform payload → P c.handler.obj.startMetadata) :
    P c'.handler.obj ∧ c'.handler.deleted = c.handler.deleted := by
  cases moves_of_step hstep with
  | push hopen =>
      dsimp only
      split
      · exact ⟨Live.update_obj h (hpush _ _ h), Live.deleted_update _ _⟩
      · exact ⟨h, rfl⟩
  | finish hopen =>
      dsimp only
      split
      · exact ⟨Live.update_obj h (hend _ _ h), Live.deleted_update _ _⟩
      · exact ⟨h, rfl⟩
  | perform hreq => exact ⟨Live.update_obj h (hmeta _ rfl), Live.deleted_update _ _⟩
  | attach hreq hthrew hatt =>
      refine ⟨Live.update_obj h ?_, Live.deleted_update _ _⟩
      exact Source.drain_induction (P := fun (_ : Source Rep) o => P o) h
        (fun _ o rep _ _ ho => hpush o rep ho) (fun _ o t _ _ ho => hend o t ho) c.replies
  | @throws ex hreq hthrew hatt =>
      exact ⟨Live.update_obj h (hend _ (.failed ex) h), Live.deleted_update _ _⟩
  | complete hwork => exact absurd rfl (huser _ _)

/-- What was handed to gRPC core stays handed over. -/
theorem sent_step {c c' : StreamingServer Req Rep} {e : Event Rep} (hstep : c.step e = some c') :
    c.handler.obj.call.sent <+: c'.handler.obj.call.sent := by
  by_cases huser : ∀ i r, e ≠ .complete i r
  · refine (user_step hstep huser
      (P := fun o => c.handler.obj.call.sent <+: o.call.sent) List.prefix_rfl ?_ ?_ ?_).1
    · intro o rep ho
      exact ho.trans (sent_push o rep)
    · intro o t ho
      rwa [sent_onRepliesEnd]
    · intro _ _
      show c.handler.obj.call.sent <+: c.handler.obj.startMetadata.toOutbox.sent
      rw [toOutbox_startMetadata]
      exact List.prefix_rfl
  · push Not at huser
    obtain ⟨i, r, rfl⟩ := huser
    obtain ⟨handler, hwork, rfl⟩ := Option.map_eq_some_iff.1 hstep
    obtain ⟨b, -, ⟨-, rfl⟩ | ⟨-, rfl⟩⟩ := complete_cases hwork
    · exact List.prefix_rfl
    · have hafter : c.handler.obj.call.sent <+: (c.handler.obj.done i).afterBatch.call.sent := by
        show c.handler.obj.toOutbox.sent <+: (c.handler.obj.done i).afterBatch.toOutbox.sent
        rw [toOutbox_afterBatch]
        exact Outbox.sent_release _ _
      cases b with
      | metadata => exact hafter
      | write m => exact hafter
      | sendEnd => exact List.prefix_rfl
      | fail => exact List.prefix_rfl

/-- The reply stream after an enabled step. -/
theorem source_step {c c' : StreamingServer Req Rep} {e : Event Rep} (hstep : c.step e = some c') :
    (c'.replies.pushed = c.replies.pushed ∧ c'.replies.terminal = c.replies.terminal ∧
      (∀ rep, e ≠ .push rep) ∧ ∀ t, e ≠ .finish t) ∨
    (∃ rep, e = .push rep ∧ c.replies.terminal = none ∧
      c'.replies = { c.replies with pushed := c.replies.pushed ++ [rep] }) ∨
    (∃ t, e = .finish t ∧ c.replies.terminal = none ∧
      c'.replies = { c.replies with terminal := some t }) := by
  cases moves_of_step hstep with
  | push hopen => exact Or.inr (Or.inl ⟨_, rfl, hopen, rfl⟩)
  | finish hopen => exact Or.inr (Or.inr ⟨_, rfl, hopen, rfl⟩)
  | perform hreq => exact Or.inl ⟨rfl, rfl, by simp, by simp⟩
  | attach hreq hthrew hatt => exact Or.inl ⟨rfl, rfl, by simp, by simp⟩
  | throws hreq hthrew hatt => exact Or.inl ⟨rfl, rfl, by simp, by simp⟩
  | complete hwork => exact Or.inl ⟨rfl, rfl, by simp, by simp⟩

/-- Only a throw of the user's handler is recorded as one. -/
theorem threw_step {c c' : StreamingServer Req Rep} {e : Event Rep} (hstep : c.step e = some c')
    (hne : ∀ ex, e ≠ .throws ex) : c'.threw = c.threw := by
  cases moves_of_step hstep with
  | throws hreq hthrew hatt => exact absurd rfl (hne _)
  | _ => rfl

/-- Only `perform` sets the request. -/
theorem req_step {c c' : StreamingServer Req Rep} {e : Event Rep} (hstep : c.step e = some c')
    (hne : ∀ payload, e ≠ .perform payload) : c'.req = c.req := by
  cases moves_of_step hstep with
  | perform hreq => exact absurd rfl (hne _)
  | _ => rfl

theorem req_perform {c c' : StreamingServer Req Rep} {payload : Buffer}
    (hstep : c.step (.perform payload) = some c') : c'.req = some (deserialize payload) := by
  cases moves_of_step hstep with
  | perform hreq => rfl

/-- Every status the handler sends is `GRPC_STATUS_OK` without details, at the normal end and at a
    failure alike. -/
theorem statuses_eq (call : Call StreamingServerBatch) :
    call.statuses
      = List.replicate (call.starts isSendEnd + call.starts isFail) (StatusCode.ok, "") := by
  apply Call.statuses_eq_replicate
  intro b
  cases b <;> rfl

end StreamingServer

end EasyGrpc
