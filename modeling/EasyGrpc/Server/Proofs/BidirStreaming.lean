import EasyGrpc.Core.Feed
import EasyGrpc.Server.BidirStreaming

set_option autoImplicit false

/-! # Invariants of the server's bidirectional handler

The sending side of a handler is an `Outbox` again: a reply is a `push`, the normal end of the reply
stream a `finish`, the completion of a send a `release` that looks at the end of the stream and the
completion of the handshake one that does not. `BidirServer.Inv` holds in every reachable state,
whatever the completions bring. -/

namespace EasyGrpc

variable {Req Rep : Type}

namespace BidirStreamingCallHandler

open BidirServerBatch

/-! ## The sending side is an outbox -/

def toOutbox (h : BidirStreamingCallHandler Req) : Outbox Buffer where
  busy := !h.readyToSend
  queue := h.pendingOps
  ended := h.finished
  sent := h.call.sent
  closes := h.call.starts isServerEnd

theorem toOutbox_flush (h : BidirStreamingCallHandler Req) :
    h.flush.toOutbox = h.toOutbox.flush := by
  unfold flush Outbox.flush
  cases hready : h.readyToSend with
  | false => simp [toOutbox, hready]
  | true =>
      cases hq : h.pendingOps with
      | nil => simp [toOutbox, hready, hq]
      | cons op rest =>
          simp [toOutbox, hready, hq, startBatch, Call.sent_startBatch, Call.starts_startBatch,
            BatchSpec.ops, Op.message?, isServerEnd]

theorem toOutbox_sendServerEnd (h : BidirStreamingCallHandler Req) :
    h.sendServerEnd.toOutbox = h.toOutbox.close := by
  simp [toOutbox, sendServerEnd, startBatch, Outbox.close, Call.sent_startBatch,
    Call.starts_startBatch, BatchSpec.ops, Op.message?, isServerEnd]

/-- The batches that are neither a reply nor the normal end leave the sending side alone. -/
theorem toOutbox_startBatch (h : BidirStreamingCallHandler Req) {b : BidirServerBatch}
    (hend : isServerEnd b = false) (hsend : isSend b = false) :
    (h.startBatch b).toOutbox = h.toOutbox := by
  cases b <;>
    simp_all [toOutbox, startBatch, Call.sent_startBatch, Call.starts_startBatch, BatchSpec.ops,
      Op.message?, isServerEnd, isSend]

theorem toOutbox_push [Serializer Rep] (h : BidirStreamingCallHandler Req) (rep : Rep) :
    (h.push rep).toOutbox = h.toOutbox.push (serialize rep) := by
  rw [push, toOutbox_flush]
  rfl

theorem toOutbox_finish (h : BidirStreamingCallHandler Req) :
    h.finish.toOutbox = h.toOutbox.finish := by
  unfold finish Outbox.finish
  cases hready : h.readyToSend with
  | false => simp [toOutbox, hready]
  | true =>
      simp only [if_true, toOutbox_sendServerEnd]
      simp [toOutbox, hready]

/-- The handshake block of `exec` without the read it starts. -/
def openGate (h : BidirStreamingCallHandler Req) : BidirStreamingCallHandler Req :=
  if !h.pendingOps.isEmpty then { h with readyToSend := true }.flush
  else { h with readyToSend := true }

/-- The send block of `exec`. -/
def afterSend (h : BidirStreamingCallHandler Req) : BidirStreamingCallHandler Req :=
  if !h.pendingOps.isEmpty then { h with readyToSend := true }.flush
  else if h.finished then { h with readyToSend := true }.sendServerEnd
  else { h with readyToSend := true }

theorem toOutbox_openGate (h : BidirStreamingCallHandler Req) :
    h.openGate.toOutbox = h.toOutbox.release false := by
  unfold openGate Outbox.release
  cases hq : h.pendingOps with
  | nil => simp [toOutbox, hq]
  | cons op rest =>
      simp only [List.isEmpty_cons, Bool.not_false, if_true, toOutbox_flush]
      simp [toOutbox, hq]

theorem toOutbox_afterSend (h : BidirStreamingCallHandler Req) :
    h.afterSend.toOutbox = h.toOutbox.release true := by
  unfold afterSend Outbox.release
  cases hq : h.pendingOps with
  | nil =>
      cases hfin : h.finished with
      | false => simp [toOutbox, hq, hfin]
      | true =>
          simp only [List.isEmpty_nil, Bool.not_true, Bool.false_eq_true, if_false, if_true,
            toOutbox_sendServerEnd]
          simp [toOutbox, hq, hfin]
  | cons op rest =>
      simp only [List.isEmpty_cons, Bool.not_false, if_true, toOutbox_flush]
      simp [toOutbox, hq]

/-! ## What the sending side leaves alone -/

/-- `h'` comes from `h` by an operation of the sending side, which starts sends and the normal
    end. -/
structure SendStep (h h' : BidirStreamingCallHandler Req) : Prop where
  readerProm : h'.readerProm = h.readerProm
  startsHandshake : h'.call.starts isHandshake = h.call.starts isHandshake
  startsFail : h'.call.starts isFail = h.call.starts isFail

theorem SendStep.flush (h : BidirStreamingCallHandler Req) : SendStep h h.flush := by
  unfold BidirStreamingCallHandler.flush
  split
  · exact ⟨rfl, rfl, rfl⟩
  · split
    · exact ⟨rfl, rfl, rfl⟩
    · refine ⟨rfl, ?_, ?_⟩ <;> simp [startBatch, Call.starts_startBatch, isHandshake, isFail]

theorem SendStep.sendServerEnd (h : BidirStreamingCallHandler Req) :
    SendStep h h.sendServerEnd := by
  refine ⟨rfl, ?_, ?_⟩ <;>
    simp [BidirStreamingCallHandler.sendServerEnd, startBatch, Call.starts_startBatch, isHandshake,
      isFail]

theorem SendStep.push [Serializer Rep] (h : BidirStreamingCallHandler Req) (rep : Rep) :
    SendStep h (h.push rep) := by
  obtain ⟨h1, h2, h3⟩ := SendStep.flush { h with pendingOps := h.pendingOps ++ [serialize rep] }
  exact ⟨h1, h2, h3⟩

theorem SendStep.finish (h : BidirStreamingCallHandler Req) : SendStep h h.finish := by
  unfold BidirStreamingCallHandler.finish
  simp only
  split
  · obtain ⟨h1, h2, h3⟩ := SendStep.sendServerEnd { h with finished := true }
    exact ⟨h1, h2, h3⟩
  · exact ⟨rfl, rfl, rfl⟩

theorem SendStep.openGate (h : BidirStreamingCallHandler Req) : SendStep h h.openGate := by
  unfold BidirStreamingCallHandler.openGate
  split
  · obtain ⟨h1, h2, h3⟩ := SendStep.flush { h with readyToSend := true }
    exact ⟨h1, h2, h3⟩
  · exact ⟨rfl, rfl, rfl⟩

theorem SendStep.afterSend (h : BidirStreamingCallHandler Req) : SendStep h h.afterSend := by
  unfold BidirStreamingCallHandler.afterSend
  split
  · obtain ⟨h1, h2, h3⟩ := SendStep.flush { h with readyToSend := true }
    exact ⟨h1, h2, h3⟩
  · split
    · obtain ⟨h1, h2, h3⟩ := SendStep.sendServerEnd { h with readyToSend := true }
      exact ⟨h1, h2, h3⟩
    · exact ⟨rfl, rfl, rfl⟩

/-! ## What `exec` does for each batch -/

variable [Serializer Req]

/-- The read block of `exec` on a request. -/
def afterRequest (h : BidirStreamingCallHandler Req) (data : Buffer) :
    BidirStreamingCallHandler Req :=
  { { h with payload := none }.startBatch .recv with
    readerProm := h.readerProm.push (deserialize data) }

/-- The handler once its `i`-th outstanding batch is no longer outstanding. -/
def done (h : BidirStreamingCallHandler Req) (i : ℕ) : BidirStreamingCallHandler Req :=
  { h with call := h.call.completeAt i }

/-- What a live handler becomes when its `i`-th outstanding batch completes with `r`. -/
def handled (h : BidirStreamingCallHandler Req) (i : ℕ) (r : Received) :
    BidirServerBatch → Live (BidirStreamingCallHandler Req)
  | .handshake => ⟨(h.done i).openGate.startBatch .recv, false⟩
  | .send _ => ⟨(h.done i).afterSend, false⟩
  | .recv =>
      match r.message with
      | some data => ⟨(h.done i).afterRequest data, false⟩
      | none => ⟨{ h.done i with payload := none, readerProm := h.readerProm.complete }, false⟩
  | .serverEnd => ⟨h.done i, true⟩
  | .fail => ⟨h.done i, false⟩

/-- **What one turn of `worker_main` can do to a handler.** -/
theorem complete_cases {o o' : Live (BidirStreamingCallHandler Req)} {i : ℕ} {r : Received}
    (h : o.workerMain i r = some o') :
    ∃ b, o.obj.call.outstanding[i]? = some b ∧
      ((o.deleted = true ∧ o' = ⟨o.obj.done i, true⟩) ∨
        (o.deleted = false ∧ o' = o.obj.handled i r b)) := by
  obtain ⟨b, hb, hcase⟩ := Live.workerMain_eq_some h
  refine ⟨b, hb, ?_⟩
  rcases hcase with ⟨hdel, rfl⟩ | ⟨hlive, rfl⟩
  · exact Or.inl ⟨hdel, by rw [hdel]; rfl⟩
  · refine Or.inr ⟨hlive, ?_⟩
    cases b with
    | handshake => rfl
    | send m =>
        show (⟨(exec _ 2).2, (exec _ 2).1⟩ : Live (BidirStreamingCallHandler Req)) = _
        rfl
    | recv => rcases r with ⟨_ | data, _, _, _, _⟩ <;> rfl
    | serverEnd => rfl
    | fail => rfl

end BidirStreamingCallHandler

namespace BidirServer

open BidirStreamingCallHandler BidirServerBatch

/-! ## The invariant -/

/-- What ties the flags of a handler to its batches, flags read as numbers. The equations hold until
    the handler is deleted, after which completions no longer run `exec`. -/
structure Counts (h : BidirStreamingCallHandler Req) (deleted : Bool) : Prop where
  handshake_le : h.call.starts isHandshake ≤ 1
  /-- The gate is open, or the handshake or one send is in flight. -/
  sendSide_le : h.call.pending isHandshake + h.call.pending isSend + h.readyToSend.toNat
    ≤ h.call.starts isHandshake
  sendSide_live : deleted.toNat = 0 →
    h.call.pending isHandshake + h.call.pending isSend + h.readyToSend.toNat
      = h.call.starts isHandshake
  /-- The request stream has ended, or the handshake or one read is in flight. -/
  recvSide_le : h.call.pending isHandshake + h.call.pending isRecv
    + h.readerProm.terminations.length ≤ h.call.starts isHandshake
  recvSide_live : deleted.toNat = 0 →
    h.call.pending isHandshake + h.call.pending isRecv + h.readerProm.terminations.length
      = h.call.starts isHandshake
  serverEnd_le : h.call.pending isServerEnd ≤ h.call.starts isServerEnd
  /-- A handler is deleted when its normal end completes. -/
  deleted_end : deleted.toNat = 1 → h.call.starts isServerEnd ≠ 0

structure Inv [Serializer Rep] (c : BidirServer Req Rep) : Prop where
  feeds : Feeds c.replies c.handler.obj.toOutbox
  failed : c.handler.obj.call.starts isFail
    = (c.replies.attached && c.replies.terminal.any StreamEnd.isFailed).toNat
  unattached : c.replies.attached = false → c.handler.obj.call.starts isHandshake = 0
  reader : c.handler.obj.readerProm.Sound
  counts : Counts c.handler.obj c.handler.deleted

/-- A completion takes its batch out of the count of its own kind. -/
theorem pending_done {call : Call BidirServerBatch} {i : ℕ} {b : BidirServerBatch}
    (hb : call.outstanding[i]? = some b) :
    call.pending isHandshake = (call.completeAt i).pending isHandshake + (isHandshake b).toNat ∧
    call.pending isSend = (call.completeAt i).pending isSend + (isSend b).toNat ∧
    call.pending isRecv = (call.completeAt i).pending isRecv + (isRecv b).toNat ∧
    call.pending isServerEnd = (call.completeAt i).pending isServerEnd + (isServerEnd b).toNat :=
  ⟨Call.pending_completeAt hb _, Call.pending_completeAt hb _, Call.pending_completeAt hb _,
    Call.pending_completeAt hb _⟩

/-- `Counts` looks at the batches, the gate and the ends of the request stream only. -/
theorem Counts.copy {h h' : BidirStreamingCallHandler Req} {deleted : Bool} (hc : Counts h deleted)
    (hcall : h'.call = h.call) (hready : h'.readyToSend = h.readyToSend)
    (hprom : h'.readerProm.terminations = h.readerProm.terminations) : Counts h' deleted := by
  obtain ⟨h1, h2, h3, h4, h5, h6, h7⟩ := hc
  constructor <;> simp only [hcall, hready, hprom] <;> assumption

/-- A batch of a deleted handler goes away. -/
theorem Counts.drop {h : BidirStreamingCallHandler Req} (hc : Counts h true) {i : ℕ}
    {b : BidirServerBatch} (hb : h.call.outstanding[i]? = some b) :
    Counts { h with call := h.call.completeAt i } true := by
  obtain ⟨hH, hW, hR, hE⟩ := pending_done hb
  obtain ⟨h1, h2, h3, h4, h5, h6, h7⟩ := hc
  constructor <;> simp only [Call.starts_completeAt, Bool.toNat_true, true_implies] at * <;> omega

/-- The end of a failed reply stream is done. -/
theorem Counts.fail {h : BidirStreamingCallHandler Req} (hc : Counts h false) {i : ℕ}
    (hb : h.call.outstanding[i]? = some .fail) :
    Counts { h with call := h.call.completeAt i } false := by
  obtain ⟨hH, hW, hR, hE⟩ := pending_done hb
  obtain ⟨h1, h2, h3, h4, h5, h6, h7⟩ := hc
  constructor <;>
    simp only [Call.starts_completeAt, isHandshake, isSend, isRecv, isServerEnd,
      Bool.toNat_false, true_implies] at * <;> omega

/-- The normal end is done: the handler is deleted. -/
theorem Counts.serverEnd {h : BidirStreamingCallHandler Req} (hc : Counts h false) {i : ℕ}
    (hb : h.call.outstanding[i]? = some .serverEnd) :
    Counts { h with call := h.call.completeAt i } true := by
  obtain ⟨hH, hW, hR, hE⟩ := pending_done hb
  obtain ⟨h1, h2, h3, h4, h5, h6, h7⟩ := hc
  constructor <;>
    simp only [Call.starts_completeAt, isHandshake, isSend, isRecv, isServerEnd, Bool.toNat_true,
      Bool.toNat_false, true_implies] at * <;> omega

theorem Counts.startHandshake {h : BidirStreamingCallHandler Req} {deleted : Bool}
    (hc : Counts h deleted) (hnone : h.call.starts isHandshake = 0) :
    Counts (h.startBatch .handshake) deleted := by
  obtain ⟨h1, h2, h3, h4, h5, h6, h7⟩ := hc
  constructor <;>
    simp only [startBatch, Call.pending_startBatch, Call.starts_startBatch, isHandshake, isSend,
      isRecv, isServerEnd, Bool.toNat_true, Bool.toNat_false] at * <;> omega

theorem Counts.startFail {h : BidirStreamingCallHandler Req} {deleted : Bool}
    (hc : Counts h deleted) : Counts (h.startBatch .fail) deleted := by
  obtain ⟨h1, h2, h3, h4, h5, h6, h7⟩ := hc
  constructor <;>
    simp only [startBatch, Call.pending_startBatch, Call.starts_startBatch, isHandshake, isSend,
      isRecv, isServerEnd, Bool.toNat_false] at * <;> omega

/-- Starting a send on an open gate closes it. -/
theorem Counts.startSend {h : BidirStreamingCallHandler Req} {deleted : Bool}
    (hc : Counts h deleted) (hready : h.readyToSend = true) (m : Buffer) (q : List Buffer) :
    Counts { h with
      readyToSend := false, pendingOps := q, call := h.call.startBatch (.send m) } deleted := by
  obtain ⟨h1, h2, h3, h4, h5, h6, h7⟩ := hc
  constructor <;>
    simp only [hready, Call.pending_startBatch, Call.starts_startBatch, isHandshake, isSend, isRecv,
      isServerEnd, Bool.toNat_true, Bool.toNat_false] at * <;> omega

theorem Counts.flush {h : BidirStreamingCallHandler Req} {deleted : Bool} (hc : Counts h deleted) :
    Counts h.flush deleted := by
  unfold BidirStreamingCallHandler.flush
  split
  · exact hc
  · next hready =>
      split
      · exact hc
      · exact hc.startSend (by simpa using hready) _ _

/-- The first normal end. -/
theorem Counts.sendServerEnd {h : BidirStreamingCallHandler Req} (hc : Counts h false)
    (hnone : h.call.starts isServerEnd = 0) : Counts h.sendServerEnd false := by
  obtain ⟨h1, h2, h3, h4, h5, h6, h7⟩ := hc
  constructor <;>
    simp only [BidirStreamingCallHandler.sendServerEnd, startBatch, Call.pending_startBatch,
      Call.starts_startBatch, isHandshake, isSend, isRecv, isServerEnd, Bool.toNat_true,
      Bool.toNat_false] at * <;> omega

theorem Counts.finish {h : BidirStreamingCallHandler Req} (hc : Counts h false)
    (hnone : h.call.starts isServerEnd = 0) : Counts h.finish false := by
  have hmarked : Counts { h with finished := true } false := hc.copy rfl rfl rfl
  unfold BidirStreamingCallHandler.finish
  simp only
  split
  · exact hmarked.sendServerEnd hnone
  · exact hmarked

/-- The handshake is done: the gate opens and the first read is started. -/
theorem Counts.handshake {h : BidirStreamingCallHandler Req} (hc : Counts h false) {i : ℕ}
    (hb : h.call.outstanding[i]? = some .handshake) :
    Counts ({ h with call := h.call.completeAt i }.openGate.startBatch .recv) false := by
  obtain ⟨hH, hW, hR, hE⟩ := pending_done hb
  -- Between the two batches of this block the counts are off by the read; close the gap first.
  have hread : Counts { h with
      call := (h.call.completeAt i).startBatch .recv, readyToSend := true } false := by
    obtain ⟨h1, h2, h3, h4, h5, h6, h7⟩ := hc
    constructor <;>
      simp only [Call.pending_startBatch, Call.starts_startBatch, Call.starts_completeAt,
        isHandshake, isSend, isRecv, isServerEnd, Bool.toNat_true, Bool.toNat_false,
        true_implies] at * <;> omega
  cases hq : h.pendingOps with
  | nil => simpa [openGate, hq, startBatch] using hread
  | cons op rest =>
      have hsend := hread.startSend rfl op rest
      obtain ⟨h1, h2, h3, h4, h5, h6, h7⟩ := hsend
      constructor <;>
        simp only [openGate, BidirStreamingCallHandler.flush, hq, List.isEmpty_cons, Bool.not_false,
          Bool.not_true, Bool.false_eq_true, if_false, if_true, startBatch, Call.pending_startBatch,
          Call.starts_startBatch] at * <;> omega

/-- A send is done: the gate opens; the next send, or the normal end, is started. -/
theorem Counts.send {h : BidirStreamingCallHandler Req} (hc : Counts h false) {i : ℕ} {m : Buffer}
    (hb : h.call.outstanding[i]? = some (.send m)) (hnone : h.call.starts isServerEnd = 0) :
    Counts { h with call := h.call.completeAt i }.afterSend false := by
  obtain ⟨hH, hW, hR, hE⟩ := pending_done hb
  have hopen : Counts { h with call := h.call.completeAt i, readyToSend := true } false := by
    obtain ⟨h1, h2, h3, h4, h5, h6, h7⟩ := hc
    constructor <;>
      simp only [Call.starts_completeAt, isHandshake, isSend, isRecv, isServerEnd, Bool.toNat_true,
        Bool.toNat_false, true_implies] at * <;> omega
  unfold afterSend
  split
  · exact hopen.flush
  · split
    · exact hopen.sendServerEnd hnone
    · exact hopen

/-- A request arrived: the read is started again. -/
theorem Counts.request [Serializer Req] {h : BidirStreamingCallHandler Req} (hc : Counts h false)
    {i : ℕ} (hb : h.call.outstanding[i]? = some .recv) (data : Buffer) :
    Counts ({ h with call := h.call.completeAt i }.afterRequest data) false := by
  obtain ⟨hH, hW, hR, hE⟩ := pending_done hb
  obtain ⟨h1, h2, h3, h4, h5, h6, h7⟩ := hc
  constructor <;>
    simp only [afterRequest, startBatch, Call.pending_startBatch, Call.starts_startBatch,
      Call.starts_completeAt, StreamPromise.terminations_push, isHandshake, isSend, isRecv,
      isServerEnd, Bool.toNat_true, Bool.toNat_false, true_implies] at * <;> omega

/-- The client's end arrived: the request stream is completed and no read is started. -/
theorem Counts.requestsEnd {h : BidirStreamingCallHandler Req} (hc : Counts h false) {i : ℕ}
    (hb : h.call.outstanding[i]? = some .recv) :
    Counts { h with
      call := h.call.completeAt i, payload := none, readerProm := h.readerProm.complete }
      false := by
  obtain ⟨hH, hW, hR, hE⟩ := pending_done hb
  obtain ⟨h1, h2, h3, h4, h5, h6, h7⟩ := hc
  constructor <;>
    simp only [StreamPromise.complete, StreamPromise.length_terminations_finish,
      Call.starts_completeAt, isHandshake, isSend, isRecv, isServerEnd, Bool.toNat_true,
      Bool.toNat_false, true_implies] at * <;> omega

variable [Serializer Req] [Serializer Rep]

/-! ## The steps, with what each requires -/

/-- One constructor for each step that `step` can take. -/
inductive Moves (c : BidirServer Req Rep) : Event Rep → BidirServer Req Rep → Prop
  | push {rep : Rep} (hopen : c.replies.terminal = none) : Moves c (.push rep)
      { replies := { c.replies with pushed := c.replies.pushed ++ [rep] }
        handler := if c.replies.attached then c.handler.update (·.push rep) else c.handler }
  | finish {t : StreamEnd} (hopen : c.replies.terminal = none) : Moves c (.finish t)
      { replies := { c.replies with terminal := some t }
        handler := if c.replies.attached then c.handler.update (·.onRepliesEnd t) else c.handler }
  | attach (hatt : c.replies.attached = false) : Moves c .attach
      { replies := { c.replies with attached := true }
        handler := c.handler.update
          (c.replies.drain BidirStreamingCallHandler.push onRepliesEnd) }
  | startHandshake (hatt : c.replies.attached = true)
      (hnone : c.handler.obj.call.starts isHandshake = 0) : Moves c .startHandshake
        { c with handler := c.handler.update (·.startBatch .handshake) }
  | complete {i : ℕ} {r : Received} {handler : Live (BidirStreamingCallHandler Req)}
      (hwork : c.handler.workerMain i r = some handler) : Moves c (.complete i r) { c with handler }

/-- **What one step of a handler, its producer and `perform` can do.** -/
theorem moves_of_step {c c' : BidirServer Req Rep} {e : Event Rep} (hstep : c.step e = some c') :
    Moves c e c' := by
  cases e with
  | push rep =>
      obtain ⟨replies, hpush, rfl⟩ := Option.map_eq_some_iff.1 hstep
      obtain ⟨hopen, rfl⟩ := Source.push_eq_some.1 hpush
      exact .push hopen
  | finish t =>
      obtain ⟨replies, hfin, rfl⟩ := Option.map_eq_some_iff.1 hstep
      obtain ⟨hopen, rfl⟩ := Source.finish_eq_some.1 hfin
      exact .finish hopen
  | attach =>
      obtain ⟨replies, hattach, rfl⟩ := Option.map_eq_some_iff.1 hstep
      obtain ⟨hatt, rfl⟩ := Source.attach_eq_some.1 hattach
      exact .attach hatt
  | startHandshake =>
      simp only [step] at hstep
      split at hstep
      · next hready =>
          rw [Bool.and_eq_true, beq_iff_eq] at hready
          obtain rfl := Option.some.inj hstep
          exact .startHandshake hready.1 hready.2
      · cases hstep
  | complete i r =>
      obtain ⟨handler, hwork, rfl⟩ := Option.map_eq_some_iff.1 hstep
      exact .complete hwork

/-! ## Every step keeps the invariant -/

omit [Serializer Req] in
/-- A handler is deleted only after the reply stream has completed. -/
theorem Inv.live_of_open {c : BidirServer Req Rep} (h : c.Inv)
    (hopen : c.replies.attached = false ∨ c.replies.terminal = none) :
    c.handler.deleted = false := by
  cases hdel : c.handler.deleted with
  | false => rfl
  | true =>
      have hend := h.counts.deleted_end (by simp [hdel])
      have hfin := h.feeds.outbox.closed_ended hend
      rw [h.feeds.not_ended hopen] at hfin
      cases hfin

omit [Serializer Req] in
/-- What happens to a stream that is not attached is not seen. -/
theorem Inv.unseen {c : BidirServer Req Rep} (h : c.Inv) (hatt : c.replies.attached = false)
    {replies : Source Rep} (hatt' : replies.attached = false) : Inv { c with replies } := by
  refine ⟨h.feeds.unattached hatt hatt', ?_, fun _ => h.unattached hatt, h.reader, h.counts⟩
  simpa [hatt, hatt'] using h.failed

omit [Serializer Req] in
/-- A reply on an attached stream. -/
theorem Inv.pushed {c : BidirServer Req Rep} (h : c.Inv) (hopen : c.replies.terminal = none)
    (hatt : c.replies.attached = true) (rep : Rep) :
    Inv { c with
      replies := { c.replies with pushed := c.replies.pushed ++ [rep] }
      handler := c.handler.update (·.push rep) } := by
  have hlive := h.live_of_open (Or.inr hopen)
  have hcounts := h.counts
  rw [hlive] at hcounts
  obtain ⟨hprom, -, hfail⟩ := SendStep.push c.handler.obj rep
  rw [Live.update_of_live hlive, hlive]
  refine ⟨?_, ?_, ?_, ?_, ?_⟩
  · rw [toOutbox_push]
    exact h.feeds.push hopen hatt rep
  · rw [hfail]
    exact h.failed
  · intro hno
    simp [hatt] at hno
  · simpa only [hprom] using h.reader
  · have hqueued : Counts { c.handler.obj with
        pendingOps := c.handler.obj.pendingOps ++ [serialize rep] } false := hcounts.copy rfl rfl rfl
    exact hqueued.flush

omit [Serializer Req] in
/-- The end of an attached stream. -/
theorem Inv.terminated {c : BidirServer Req Rep} (h : c.Inv) (hopen : c.replies.terminal = none)
    (hatt : c.replies.attached = true) (t : StreamEnd) :
    Inv { c with
      replies := { c.replies with terminal := some t }
      handler := c.handler.update (·.onRepliesEnd t) } := by
  have hlive := h.live_of_open (Or.inr hopen)
  have hcounts := h.counts
  rw [hlive] at hcounts
  have hnofail : c.handler.obj.call.starts isFail = 0 := by
    have hfail := h.failed
    simpa [hopen] using hfail
  rw [Live.update_of_live hlive, hlive]
  cases t with
  | complete =>
      obtain ⟨hprom, -, hfail⟩ := SendStep.finish c.handler.obj
      simp only [onRepliesEnd]
      refine ⟨?_, ?_, ?_, ?_, ?_⟩
      · rw [toOutbox_finish]
        exact h.feeds.complete hopen hatt
      · rw [hfail, hnofail]
        simp [StreamEnd.isFailed]
      · intro hno
        simp [hatt] at hno
      · simpa only [hprom] using h.reader
      · exact hcounts.finish (h.feeds.outbox.closes_of_open (h.feeds.not_ended (Or.inr hopen)))
  | failed e =>
      simp only [onRepliesEnd, BidirStreamingCallHandler.fail]
      refine ⟨?_, ?_, ?_, h.reader, hcounts.startFail⟩
      · rw [toOutbox_startBatch c.handler.obj (b := .fail) rfl rfl]
        exact h.feeds.fail hopen e
      · simp [startBatch, Call.starts_startBatch, isFail, hnofail, hatt, StreamEnd.isFailed]
      · intro hno
        simp [hatt] at hno

omit [Serializer Req] in
/-- `perform` attaches: what the stream holds arrives in order, then its end. -/
theorem Inv.attached {c : BidirServer Req Rep} (h : c.Inv) (hatt : c.replies.attached = false) :
    Inv { c with
      replies := { c.replies with attached := true }
      handler := c.handler.update
        (c.replies.drain BidirStreamingCallHandler.push onRepliesEnd) } := by
  have hlive := h.live_of_open (Or.inl hatt)
  have hempty : Inv { c with replies := ({ attached := true } : Source Rep) } := by
    refine ⟨h.feeds.attach hatt, ?_, ?_, h.reader, h.counts⟩
    · simpa [hatt] using h.failed
    · intro hno
      cases hno
  rw [Live.update_of_live hlive, hlive]
  refine Source.drain_induction
    (P := fun src obj => Inv { c with replies := src, handler := ⟨obj, false⟩ }) ?_ ?_ ?_ c.replies
  · rw [← hlive]
    exact hempty
  · intro src obj rep hsrc hopen ih
    exact ih.pushed hopen hsrc rep
  · intro src obj t hsrc hopen ih
    exact ih.terminated hopen hsrc t

omit [Serializer Req] in
/-- While the handshake or a send is in flight, the gate is closed. -/
theorem Counts.busy {h : BidirStreamingCallHandler Req} {deleted : Bool} (hc : Counts h deleted)
    (hpos : 0 < h.call.pending isHandshake + h.call.pending isSend) : h.toOutbox.busy = true := by
  have hle := hc.sendSide_le
  have hone := hc.handshake_le
  cases hready : h.readyToSend with
  | false => simp [toOutbox, hready]
  | true => simp only [hready, Bool.toNat_true] at hle; omega

omit [Serializer Req] in
/-- Nothing the invariant says of the reply stream is affected by a completion that starts neither
    the handshake nor a failure. -/
theorem Inv.completed {c : BidirServer Req Rep} (h : c.Inv) {obj : BidirStreamingCallHandler Req}
    {deleted : Bool} (hfeeds : Feeds c.replies obj.toOutbox)
    (hhand : obj.call.starts isHandshake = c.handler.obj.call.starts isHandshake)
    (hfail : obj.call.starts isFail = c.handler.obj.call.starts isFail)
    (hreader : obj.readerProm.Sound) (hcounts : Counts obj deleted) :
    Inv { c with handler := ⟨obj, deleted⟩ } := by
  refine ⟨hfeeds, ?_, ?_, hreader, hcounts⟩
  · rw [hfail]
    exact h.failed
  · intro hatt
    rw [hhand]
    exact h.unattached hatt

omit [Serializer Req] in
/-- While a read is outstanding the request stream has not ended. -/
theorem Inv.reader_open {c : BidirServer Req Rep} (h : c.Inv) {i : ℕ}
    (hb : c.handler.obj.call.outstanding[i]? = some .recv) :
    c.handler.obj.readerProm.storage = true := by
  have hpos := Call.pending_pos hb (p := isRecv) rfl
  have hle := h.counts.recvSide_le
  have hone := h.counts.handshake_le
  exact h.reader.storage_of_none (by omega)

/-- What a completion makes of the sending side. -/
theorem toOutbox_handled (h : BidirStreamingCallHandler Req) (i : ℕ) (r : Received)
    (b : BidirServerBatch) : (h.handled i r b).obj.toOutbox =
      match b with
      | .handshake => h.toOutbox.release false
      | .send _ => h.toOutbox.release true
      | _ => h.toOutbox := by
  cases b with
  | handshake =>
      simp only [handled, toOutbox_startBatch _ (b := .recv) rfl rfl, toOutbox_openGate]
      rfl
  | send m => exact toOutbox_afterSend _
  | recv =>
      cases hmsg : r.message with
      | some data =>
          simp only [handled, hmsg]
          exact toOutbox_startBatch { h.done i with payload := none } (b := .recv) rfl rfl
      | none =>
          simp only [handled, hmsg]
          rfl
  | serverEnd => rfl
  | fail => rfl

theorem inv_complete {c : BidirServer Req Rep} {i : ℕ} {r : Received}
    {handler : Live (BidirStreamingCallHandler Req)}
    (hwork : c.handler.workerMain i r = some handler) (h : c.Inv) : Inv { c with handler } := by
  obtain ⟨b, hb, hcase⟩ := complete_cases hwork
  have hcounts := h.counts
  rcases hcase with ⟨hdel, rfl⟩ | ⟨hlive, rfl⟩
  · rw [hdel] at hcounts
    exact h.completed h.feeds rfl rfl h.reader (hcounts.drop hb)
  · rw [hlive] at hcounts
    have hbox := toOutbox_handled c.handler.obj i r b
    -- One case for each batch; the read block depends on what arrived.
    cases b with
    | handshake =>
        have hpos := Call.pending_pos hb (p := isHandshake) rfl
        have hbusy := hcounts.busy (by omega)
        have hgate := SendStep.openGate (c.handler.obj.done i)
        refine h.completed ?_ ?_ ?_ ?_ (hcounts.handshake hb)
        · exact hbox ▸ h.feeds.release hbusy false
        · simpa [startBatch, done, Call.starts_startBatch, isHandshake] using hgate.startsHandshake
        · simpa [startBatch, done, Call.starts_startBatch, isFail] using hgate.startsFail
        · rw [show ((c.handler.obj.done i).openGate.startBatch .recv).readerProm
            = c.handler.obj.readerProm from hgate.readerProm]
          exact h.reader
    | send m =>
        have hpos := Call.pending_pos hb (p := isSend) rfl
        have hbusy := hcounts.busy (by omega)
        have hnone : c.handler.obj.call.starts isServerEnd = 0 :=
          h.feeds.outbox.closes_of_busy hbusy
        have hafter := SendStep.afterSend (c.handler.obj.done i)
        refine h.completed ?_ hafter.startsHandshake hafter.startsFail ?_ (hcounts.send hb hnone)
        · exact hbox ▸ h.feeds.release hbusy true
        · rw [hafter.readerProm]
          exact h.reader
    | recv =>
        have hopen := h.reader_open hb
        cases hmsg : r.message with
        | some data =>
            simp only [handled, hmsg] at hbox ⊢
            refine h.completed (hbox ▸ h.feeds) ?_ ?_ (h.reader.push hopen _)
              (hcounts.request hb data)
            · simp [afterRequest, startBatch, done, Call.starts_startBatch, isHandshake]
            · simp [afterRequest, startBatch, done, Call.starts_startBatch, isFail]
        | none =>
            simp only [handled, hmsg]
            exact h.completed h.feeds rfl rfl (h.reader.finish hopen _) (hcounts.requestsEnd hb)
    | serverEnd => exact h.completed h.feeds rfl rfl h.reader (hcounts.serverEnd hb)
    | fail => exact h.completed h.feeds rfl rfl h.reader (hcounts.fail hb)

theorem inv_step {c c' : BidirServer Req Rep} {e : Event Rep}
    (hstep : (machine Req Rep).step c e = some c') (h : c.Inv) : c'.Inv := by
  cases moves_of_step hstep with
  | @push rep hopen =>
      cases hatt : c.replies.attached with
      | false => exact h.unseen hatt hatt
      | true => simpa [hatt] using h.pushed hopen hatt rep
  | @finish t hopen =>
      cases hatt : c.replies.attached with
      | false => exact h.unseen hatt hatt
      | true => simpa [hatt] using h.terminated hopen hatt t
  | attach hatt => exact h.attached hatt
  | startHandshake hatt hnone =>
      -- Without a handshake the gate is closed, so no end was sent and the handler is alive.
      have hbusy : c.handler.obj.toOutbox.busy = true := by
        have hside := h.counts.sendSide_le
        cases hgate : c.handler.obj.readyToSend with
        | false => simp [toOutbox, hgate]
        | true => simp only [hgate, hnone, Bool.toNat_true] at hside; omega
      have hlive : c.handler.deleted = false := by
        cases hdel : c.handler.deleted with
        | false => rfl
        | true =>
            have hend := h.counts.deleted_end (by simp [hdel])
            exact absurd (h.feeds.outbox.closes_of_busy hbusy) hend
      rw [Live.update_of_live hlive]
      refine ⟨?_, ?_, ?_, h.reader, h.counts.startHandshake hnone⟩
      · rw [toOutbox_startBatch c.handler.obj (b := .handshake) rfl rfl]
        exact h.feeds
      · simpa [startBatch, Call.starts_startBatch, isFail] using h.failed
      · intro hno
        simp [hatt] at hno
  | complete hwork => exact inv_complete hwork h

theorem inv_init : ((machine Req Rep).init).Inv := by
  refine ⟨⟨⟨?_, ?_, ?_, ?_⟩, rfl, rfl⟩, rfl, fun _ => rfl, .fresh, ?_⟩
  · intro hidle; cases hidle
  · exact Nat.zero_le 1
  · intro hne; exact absurd rfl hne
  · intro hne; exact absurd rfl hne
  · exact ⟨Nat.zero_le 1, Nat.le_refl 0, fun _ => rfl, Nat.le_refl 0, fun _ => rfl,
      Nat.le_refl 0, fun hdel => by cases hdel⟩

/-- The invariant holds in every reachable state, in whatever order the batches complete and
    whatever they bring. -/
theorem inv_of_reachable {c : BidirServer Req Rep} (h : (machine Req Rep).Reachable c) : c.Inv :=
  h.invariant inv_init inv_step

/-! ## What a step does to the wire and to the request stream -/

omit [Serializer Req] in
theorem sent_push (h : BidirStreamingCallHandler Req) (rep : Rep) :
    h.call.sent <+: (h.push rep).call.sent := by
  show h.toOutbox.sent <+: (h.push rep).toOutbox.sent
  rw [toOutbox_push]
  exact Outbox.sent_push _ _

omit [Serializer Req] in
theorem sent_onRepliesEnd (h : BidirStreamingCallHandler Req) (t : StreamEnd) :
    (h.onRepliesEnd t).call.sent = h.call.sent := by
  cases t with
  | complete =>
      show h.finish.toOutbox.sent = h.toOutbox.sent
      rw [toOutbox_finish, Outbox.sent_finish]
  | failed e =>
      show (h.startBatch .fail).toOutbox.sent = h.toOutbox.sent
      rw [toOutbox_startBatch h rfl rfl]

/-- What the user's thread and `perform` can do to a handler: what each of their three operations
    keeps, every step that is not a completion keeps. -/
theorem user_step {c c' : BidirServer Req Rep} {e : Event Rep} (hstep : c.step e = some c')
    (huser : ∀ i r, e ≠ .complete i r) {P : BidirStreamingCallHandler Req → Prop}
    (h : P c.handler.obj) (hpush : ∀ (o : BidirStreamingCallHandler Req) (rep : Rep), P o →
      P (o.push rep))
    (hend : ∀ o t, P o → P (o.onRepliesEnd t)) (hhand : ∀ o, P o → P (o.startBatch .handshake)) :
    P c'.handler.obj ∧ c'.handler.deleted = c.handler.deleted := by
  cases moves_of_step hstep with
  | push hopen =>
      dsimp only
      split
      · exact ⟨Live.update_obj h (hpush _ _ h), Live.deleted_update _ _⟩
      · exact ⟨h, rfl⟩
  | finish hopen =>
      dsimp only
      split
      · exact ⟨Live.update_obj h (hend _ _ h), Live.deleted_update _ _⟩
      · exact ⟨h, rfl⟩
  | attach hatt =>
      refine ⟨Live.update_obj h ?_, Live.deleted_update _ _⟩
      exact Source.drain_induction (P := fun (_ : Source Rep) o => P o) h
        (fun _ o rep _ _ ho => hpush o rep ho) (fun _ o t _ _ ho => hend o t ho) c.replies
  | startHandshake hatt hnone =>
      exact ⟨Live.update_obj h (hhand _ h), Live.deleted_update _ _⟩
  | complete hwork => exact absurd rfl (huser _ _)

/-- What was handed to gRPC core stays handed over. -/
theorem sent_step {c c' : BidirServer Req Rep} {e : Event Rep} (hstep : c.step e = some c') :
    c.handler.obj.call.sent <+: c'.handler.obj.call.sent := by
  by_cases huser : ∀ i r, e ≠ .complete i r
  · refine (user_step hstep huser
      (P := fun o => c.handler.obj.call.sent <+: o.call.sent) List.prefix_rfl ?_ ?_ ?_).1
    · intro o rep ho
      exact ho.trans (sent_push o rep)
    · intro o t ho
      rwa [sent_onRepliesEnd]
    · intro o ho
      have hbox := toOutbox_startBatch o (b := .handshake) rfl rfl
      rwa [show (o.startBatch .handshake).call.sent = o.call.sent from congrArg Outbox.sent hbox]
  · push Not at huser
    obtain ⟨i, r, rfl⟩ := huser
    obtain ⟨handler, hwork, rfl⟩ := Option.map_eq_some_iff.1 hstep
    obtain ⟨b, -, ⟨-, rfl⟩ | ⟨-, rfl⟩⟩ := complete_cases hwork
    · exact List.prefix_rfl
    · show c.handler.obj.toOutbox.sent <+: (c.handler.obj.handled i r b).obj.toOutbox.sent
      rw [toOutbox_handled]
      cases b with
      | handshake => exact Outbox.sent_release _ _
      | send m => exact Outbox.sent_release _ _
      | recv => exact List.prefix_rfl
      | serverEnd => exact List.prefix_rfl
      | fail => exact List.prefix_rfl

omit [Serializer Req] in
theorem readerProm_onRepliesEnd (h : BidirStreamingCallHandler Req) (t : StreamEnd) :
    (h.onRepliesEnd t).readerProm = h.readerProm := by
  cases t with
  | complete => exact (SendStep.finish h).readerProm
  | failed e => rfl

/-- The reply stream after an enabled step. -/
theorem source_step {c c' : BidirServer Req Rep} {e : Event Rep} (hstep : c.step e = some c') :
    (c'.replies.pushed = c.replies.pushed ∧ c'.replies.terminal = c.replies.terminal ∧
      (∀ rep, e ≠ .push rep) ∧ ∀ t, e ≠ .finish t) ∨
    (∃ rep, e = .push rep ∧ c.replies.terminal = none ∧
      c'.replies = { c.replies with pushed := c.replies.pushed ++ [rep] }) ∨
    (∃ t, e = .finish t ∧ c.replies.terminal = none ∧
      c'.replies = { c.replies with terminal := some t }) := by
  cases moves_of_step hstep with
  | push hopen => exact Or.inr (Or.inl ⟨_, rfl, hopen, rfl⟩)
  | finish hopen => exact Or.inr (Or.inr ⟨_, rfl, hopen, rfl⟩)
  | attach hatt => exact Or.inl ⟨rfl, rfl, by simp, by simp⟩
  | startHandshake hatt hnone => exact Or.inl ⟨rfl, rfl, by simp, by simp⟩
  | complete hwork => exact Or.inl ⟨rfl, rfl, by simp, by simp⟩

/-- The request stream after an enabled step: it is left alone, a request is pushed, or it is
    completed. -/
theorem reader_step {c c' : BidirServer Req Rep} {e : Event Rep} (hstep : c.step e = some c') :
    (c'.handler.obj.readerProm = c.handler.obj.readerProm ∧
      (c.handler.deleted = true → c'.handler.deleted = true) ∧
      ∀ i r, e = .complete i r → c.handler.deleted = true ∨
        c.handler.obj.call.outstanding[i]? ≠ some .recv) ∨
    (∃ i r, e = .complete i r ∧ c.handler.deleted = false ∧ c'.handler.deleted = false ∧
      c.handler.obj.call.outstanding[i]? = some .recv ∧
      ((∃ data, r.message = some data ∧
          c'.handler.obj.readerProm = c.handler.obj.readerProm.push (deserialize data)) ∨
        (r.message = none ∧
          c'.handler.obj.readerProm = c.handler.obj.readerProm.complete))) := by
  by_cases huser : ∀ i r, e ≠ .complete i r
  · obtain ⟨hprom, hdel⟩ := user_step hstep huser
      (P := fun o => o.readerProm = c.handler.obj.readerProm) rfl
      (fun o rep ho => (SendStep.push o rep).readerProm.trans ho)
      (fun o t ho => (readerProm_onRepliesEnd o t).trans ho) (fun o ho => ho)
    exact Or.inl ⟨hprom, fun h => hdel.trans h, fun i r he => absurd he (huser i r)⟩
  · push Not at huser
    obtain ⟨i, r, rfl⟩ := huser
    obtain ⟨handler, hwork, rfl⟩ := Option.map_eq_some_iff.1 hstep
    obtain ⟨b, hb, ⟨hdel, rfl⟩ | ⟨hlive, rfl⟩⟩ := complete_cases hwork
    · exact Or.inl ⟨rfl, fun _ => rfl, fun _ _ _ => Or.inl hdel⟩
    · have hdead : c.handler.deleted = true → (c.handler.obj.handled i r b).deleted = true := by
        intro hdel
        rw [hlive] at hdel
        cases hdel
      have hother : b ≠ .recv → ∀ j q, (Event.complete i r : Event Rep) = .complete j q →
          c.handler.deleted = true ∨ c.handler.obj.call.outstanding[j]? ≠ some .recv := by
        rintro hne j q ⟨rfl, rfl⟩
        exact Or.inr (by simpa [hb] using hne)
      cases b with
      | handshake =>
          exact Or.inl ⟨(SendStep.openGate (c.handler.obj.done i)).readerProm, hdead,
            hother (by simp)⟩
      | send m =>
          exact Or.inl ⟨(SendStep.afterSend (c.handler.obj.done i)).readerProm, hdead,
            hother (by simp)⟩
      | recv =>
          refine Or.inr ⟨i, r, rfl, hlive, ?_, hb, ?_⟩
          · simp only [handled]
            split <;> rfl
          · cases hmsg : r.message with
            | some data =>
                refine Or.inl ⟨data, rfl, ?_⟩
                simp only [handled, hmsg]
                rfl
            | none =>
                refine Or.inr ⟨rfl, ?_⟩
                simp only [handled, hmsg]
      | serverEnd => exact Or.inl ⟨rfl, hdead, hother (by simp)⟩
      | fail => exact Or.inl ⟨rfl, hdead, hother (by simp)⟩

/-- Every status the handler sends is `GRPC_STATUS_OK` without details, at the normal end and at a
    failure alike. -/
theorem statuses_eq (call : Call BidirServerBatch) :
    call.statuses
      = List.replicate (call.starts isServerEnd + call.starts isFail) (StatusCode.ok, "") := by
  apply Call.statuses_eq_replicate
  intro b
  cases b <;> rfl

end BidirServer

end EasyGrpc
