import EasyGrpc.Client.BidirStreaming

set_option autoImplicit false

/-! # Invariants of the client's bidirectional session

The sending side of a session is an `Outbox` (`toOutbox`): a request is a `push`, the end of the
request stream a `finish`, the completion of a write a `release` that looks at the end of the stream
and the completion of the handshake a `release` that does not. `BidirClient.Inv` adds what ties the
flags to the batches outstanding; it holds in every reachable state, whatever the completions
bring. -/

namespace EasyGrpc

variable {Req Rep : Type}

namespace BidirStreamingCallSession

/-! ## The sending side is an outbox -/

def toOutbox (s : BidirStreamingCallSession Rep) : Outbox Buffer where
  busy := !s.canSend
  queue := s.pendingOps
  ended := s.finishedSending
  sent := s.call.sent
  closes := s.call.starts BidirClientBatch.isClose

theorem toOutbox_flush (s : BidirStreamingCallSession Rep) : s.flush.toOutbox = s.toOutbox.flush := by
  unfold flush Outbox.flush
  cases hsend : s.canSend with
  | false => simp [toOutbox, hsend]
  | true =>
      cases hq : s.pendingOps with
      | nil => simp [toOutbox, hsend, hq]
      | cons op rest =>
          simp [toOutbox, hsend, hq, startBatch, Call.sent_startBatch, Call.starts_startBatch,
            BatchSpec.ops, Op.message?, BidirClientBatch.isClose]

theorem toOutbox_sendClientEnd (s : BidirStreamingCallSession Rep) :
    s.sendClientEnd.toOutbox = s.toOutbox.close := by
  simp [toOutbox, sendClientEnd, startBatch, Outbox.close, Call.sent_startBatch,
    Call.starts_startBatch, BatchSpec.ops, Op.message?, BidirClientBatch.isClose]

theorem toOutbox_startRead (s : BidirStreamingCallSession Rep) :
    (s.startBatch .read).toOutbox = s.toOutbox := by
  simp [toOutbox, startBatch, Call.sent_startBatch, Call.starts_startBatch, BatchSpec.ops,
    Op.message?, BidirClientBatch.isClose]

theorem toOutbox_finish (s : BidirStreamingCallSession Rep) : s.finish.toOutbox = s.toOutbox := by
  simp [toOutbox, finish, startBatch, Call.sent_startBatch, Call.starts_startBatch, BatchSpec.ops,
    Op.message?, BidirClientBatch.isClose]

theorem toOutbox_onRequest [Serializer Req] (s : BidirStreamingCallSession Rep) (req : Req) :
    (s.onRequest req).toOutbox = s.toOutbox.push (serialize req) := by
  rw [onRequest, toOutbox_flush]
  rfl

/-- What `onRequestsEnd` does before it looks at the gate. -/
def requestsEnded (s : BidirStreamingCallSession Rep) (t : StreamEnd) :
    BidirStreamingCallSession Rep :=
  { s with
    call := if t = .complete then s.call else s.call.cancel
    finishedSending := true }

theorem onRequestsEnd_eq (s : BidirStreamingCallSession Rep) (t : StreamEnd) :
    s.onRequestsEnd t
      = if s.canSend then (s.requestsEnded t).sendClientEnd else s.requestsEnded t := by
  by_cases ht : t = .complete <;> simp [onRequestsEnd, requestsEnded, ht]

theorem toOutbox_requestsEnded (s : BidirStreamingCallSession Rep) (t : StreamEnd) :
    (s.requestsEnded t).toOutbox = { s.toOutbox with ended := true } := by
  by_cases ht : t = .complete <;> simp [toOutbox, requestsEnded, ht]

theorem toOutbox_onRequestsEnd (s : BidirStreamingCallSession Rep) (t : StreamEnd) :
    (s.onRequestsEnd t).toOutbox = s.toOutbox.finish := by
  rw [onRequestsEnd_eq]
  cases hsend : s.canSend with
  | false =>
      rw [if_neg Bool.false_ne_true, toOutbox_requestsEnded]
      simp [Outbox.finish, toOutbox, hsend]
  | true =>
      rw [if_pos rfl, toOutbox_sendClientEnd, toOutbox_requestsEnded]
      simp [Outbox.finish, toOutbox, hsend]

/-- The client's direction is closed once the close was started. -/
theorem closed_iff (call : Call BidirClientBatch) :
    call.closed = true ↔ call.starts BidirClientBatch.isClose ≠ 0 := by
  apply Call.closed_iff
  intro b
  cases b <;> rfl

/-! ## What `exec` does for each batch -/

/-- The handshake branch without the read it starts. -/
def openGate (s : BidirStreamingCallSession Rep) : BidirStreamingCallSession Rep :=
  if !s.pendingOps.isEmpty then { s with canSend := true }.flush else { s with canSend := true }

/-- The write branch. -/
def afterWrite (s : BidirStreamingCallSession Rep) : BidirStreamingCallSession Rep :=
  if !s.pendingOps.isEmpty then { s with canSend := true }.flush
  else if s.finishedSending then { s with canSend := true }.sendClientEnd
  else { s with canSend := true }

/-- The read branch on a null buffer. -/
def afterEnd (s : BidirStreamingCallSession Rep) : BidirStreamingCallSession Rep :=
  if s.finishedSending && s.endSent then { s with finishedReceiving := true }.finish
  else { s with finishedReceiving := true }

theorem toOutbox_openGate (s : BidirStreamingCallSession Rep) :
    s.openGate.toOutbox = s.toOutbox.release false := by
  unfold openGate Outbox.release
  cases hq : s.pendingOps with
  | nil => simp [toOutbox, hq]
  | cons op rest =>
      simp only [List.isEmpty_cons, Bool.not_false, if_true, toOutbox_flush]
      simp [toOutbox, hq]

theorem toOutbox_afterWrite (s : BidirStreamingCallSession Rep) :
    s.afterWrite.toOutbox = s.toOutbox.release true := by
  unfold afterWrite Outbox.release
  cases hq : s.pendingOps with
  | nil =>
      cases hfin : s.finishedSending with
      | false => simp [toOutbox, hq, hfin]
      | true =>
          simp only [List.isEmpty_nil, Bool.not_true, Bool.false_eq_true, if_false, if_true,
            toOutbox_sendClientEnd]
          simp [toOutbox, hq, hfin]
  | cons op rest =>
      simp only [List.isEmpty_cons, Bool.not_false, if_true, toOutbox_flush]
      simp [toOutbox, hq]

theorem toOutbox_afterEnd (s : BidirStreamingCallSession Rep) :
    s.afterEnd.toOutbox = s.toOutbox := by
  unfold afterEnd
  split
  · rw [toOutbox_finish]
    rfl
  · rfl

variable [Serializer Rep]

/-- The read branch on a reply. -/
def afterReply (s : BidirStreamingCallSession Rep) (data : Buffer) : BidirStreamingCallSession Rep :=
  { { s with recvBuffer := none }.startBatch .read with rep := s.rep.push (deserialize data) }

theorem toOutbox_afterReply (s : BidirStreamingCallSession Rep) (data : Buffer) :
    (s.afterReply data).toOutbox = s.toOutbox :=
  toOutbox_startRead { s with recvBuffer := none }

/-- The session once its `i`-th outstanding batch is no longer outstanding. -/
def done (s : BidirStreamingCallSession Rep) (i : ℕ) : BidirStreamingCallSession Rep :=
  { s with call := s.call.completeAt i }

/-- What a live session becomes when its `i`-th outstanding batch completes with `r`. -/
def handled (s : BidirStreamingCallSession Rep) (i : ℕ) (r : Received) :
    BidirClientBatch → Live (BidirStreamingCallSession Rep)
  | .handshake => ⟨(s.done i).openGate.startBatch .read, false⟩
  | .write _ => ⟨(s.done i).afterWrite, false⟩
  | .close => ⟨if s.finishedReceiving then (s.done i).finish else s.done i, false⟩
  | .read =>
      match r.message with
      | some data => ⟨(s.done i).afterReply data, false⟩
      | none => ⟨{ s.done i with recvBuffer := none }.afterEnd, false⟩
  | .status =>
      ⟨{ s.done i with
          status := r.status, statusDetails := r.statusDetails, errorString := r.errorString
          rep := (finalEnd r.status r.errorString).elim s.rep s.rep.finish }, true⟩

/-- **What one turn of `worker_main` can do to a session.** -/
theorem complete_cases {o o' : Live (BidirStreamingCallSession Rep)} {i : ℕ} {r : Received}
    (h : o.workerMain i r = some o') :
    ∃ b, o.obj.call.outstanding[i]? = some b ∧
      ((o.deleted = true ∧ o' = ⟨o.obj.done i, true⟩) ∨
        (o.deleted = false ∧ o' = o.obj.handled i r b)) := by
  obtain ⟨b, hb, hcase⟩ := Live.workerMain_eq_some h
  refine ⟨b, hb, ?_⟩
  rcases hcase with ⟨hdel, rfl⟩ | ⟨hlive, rfl⟩
  · exact Or.inl ⟨hdel, by rw [hdel]; rfl⟩
  · refine Or.inr ⟨hlive, ?_⟩
    cases b with
    | handshake => rfl
    | write m =>
        show (⟨(exec _ 1).2, (exec _ 1).1⟩ : Live (BidirStreamingCallSession Rep)) = _
        rfl
    | close => rfl
    | read => rcases r with ⟨_ | data, _, _, _, _⟩ <;> rfl
    | status => rfl

/-- The process ends where the final status is an error and `error_string_` null. -/
theorem aborts_status (s : BidirStreamingCallSession Rep) (i : ℕ) (r : Received) :
    CompletionCallback.aborts (Live.completed s i .status r)
      (BatchSpec.flags BidirClientBatch.status) = (finalEnd r.status r.errorString).isNone :=
  aborts_flags _ _

/-- Where the final status was handled, the error could be made. -/
theorem finalEnd_of_complete {o o' : Live (BidirStreamingCallSession Rep)} {i : ℕ} {r : Received}
    (h : o.workerMain i r = some o') (hlive : o.deleted = false)
    (hb : o.obj.call.outstanding[i]? = some .status) :
    ∃ t, finalEnd r.status r.errorString = some t := by
  have hreturns := Live.returns_of_workerMain h hlive hb
  rw [aborts_status] at hreturns
  exact Option.isSome_iff_exists.1 (by simpa using hreturns)

/-- A completion is handled unless it brings an error without `error_string_`. -/
theorem isSome_complete {o : Live (BidirStreamingCallSession Rep)} {i : ℕ} {b : BidirClientBatch}
    (hb : o.obj.call.outstanding[i]? = some b) {r : Received}
    (hend : b = .status → (finalEnd r.status r.errorString).isSome = true) :
    (o.workerMain i r).isSome = true := by
  refine Live.isSome_workerMain hb ?_
  cases b with
  | status =>
      rw [aborts_status]
      simpa using hend rfl
  | _ => exact aborts_flags _ _

end BidirStreamingCallSession

namespace BidirClient

open BidirStreamingCallSession BidirClientBatch

/-! ## The invariant -/

/-- What ties the flags of a session to its batches, flags read as numbers. The bounds hold always;
    that a closed gate or an unfinished read really has a batch outstanding holds until the session
    is deleted, after which completions no longer run `exec`. -/
structure Counts (s : BidirStreamingCallSession Rep) (deleted : Bool) : Prop where
  /-- The gate is open, or the handshake or one write is in flight. -/
  sendSide_le : s.call.pending isHandshake + s.call.pending isWrite + s.canSend.toNat ≤ 1
  sendSide_live : deleted.toNat = 0 →
    s.call.pending isHandshake + s.call.pending isWrite + s.canSend.toNat = 1
  /-- The server's end was read, or the handshake or one read is in flight. -/
  readSide_le : s.call.pending isHandshake + s.call.pending isRead + s.finishedReceiving.toNat ≤ 1
  readSide_live : deleted.toNat = 0 →
    s.call.pending isHandshake + s.call.pending isRead + s.finishedReceiving.toNat = 1
  close_le : s.call.pending isClose ≤ s.call.starts isClose
  endSent_eq : s.endSent.toNat = s.call.starts isClose
  status_le : s.call.pending isStatus ≤ s.call.starts isStatus
  /-- The status is asked for only after the close was started and the server's end was read. -/
  status_started : s.call.starts isStatus ≠ 0 →
    s.finishedReceiving.toNat = 1 ∧ s.call.starts isClose = 1
  deleted_status : deleted.toNat = 1 → s.call.starts isStatus ≠ 0

structure Inv [Serializer Req] (c : BidirClient Req Rep) : Prop where
  outbox : c.session.obj.toOutbox.WF
  history : c.session.obj.toOutbox.history = c.requests.pushed.map serialize
  ended : c.session.obj.finishedSending = c.requests.terminal.isSome
  counts : Counts c.session.obj c.session.deleted

/-- A completion takes its batch out of the count of its own kind. -/
theorem pending_done {call : Call BidirClientBatch} {i : ℕ} {b : BidirClientBatch}
    (hb : call.outstanding[i]? = some b) :
    call.pending isHandshake = (call.completeAt i).pending isHandshake + (isHandshake b).toNat ∧
    call.pending isWrite = (call.completeAt i).pending isWrite + (isWrite b).toNat ∧
    call.pending isRead = (call.completeAt i).pending isRead + (isRead b).toNat ∧
    call.pending isClose = (call.completeAt i).pending isClose + (isClose b).toNat ∧
    call.pending isStatus = (call.completeAt i).pending isStatus + (isStatus b).toNat :=
  ⟨Call.pending_completeAt hb _, Call.pending_completeAt hb _, Call.pending_completeAt hb _,
    Call.pending_completeAt hb _, Call.pending_completeAt hb _⟩

/-- `Counts` looks at the batches and at three flags only. -/
theorem Counts.copy {s s' : BidirStreamingCallSession Rep} {deleted : Bool} (h : Counts s deleted)
    (hpending : ∀ p, s'.call.pending p = s.call.pending p)
    (hstarts : ∀ p, s'.call.starts p = s.call.starts p) (hsend : s'.canSend = s.canSend)
    (hrecv : s'.finishedReceiving = s.finishedReceiving) (hend : s'.endSent = s.endSent) :
    Counts s' deleted := by
  obtain ⟨h1, h2, h3, h4, h5, h6, h7, h8, h9⟩ := h
  constructor <;> simp only [hpending, hstarts, hsend, hrecv, hend] <;> assumption

/-- A close that was started has set `end_sent_`. -/
theorem Counts.endSent_of_close {s : BidirStreamingCallSession Rep} {deleted : Bool}
    (h : Counts s deleted) (hclose : s.call.starts isClose ≠ 0) : s.endSent = true := by
  have heq := h.endSent_eq
  cases hend : s.endSent with
  | true => rfl
  | false => simp only [hend, Bool.toNat_false] at heq; omega

/-- A completion that runs no `exec` keeps the bounds. -/
theorem Counts.drop {s : BidirStreamingCallSession Rep} (h : Counts s true) {i : ℕ}
    {b : BidirClientBatch} (hb : s.call.outstanding[i]? = some b) :
    Counts { s with call := s.call.completeAt i } true := by
  obtain ⟨hH, hW, hR, hC, hS⟩ := pending_done hb
  obtain ⟨h1, h2, h3, h4, h5, h6, h7, h8, h9⟩ := h
  constructor <;> simp only [Call.starts_completeAt, Bool.toNat_true, true_implies] at * <;> omega

/-- Starting a write on an open gate closes it. -/
theorem Counts.startWrite {s : BidirStreamingCallSession Rep} {deleted : Bool}
    (h : Counts s deleted) (hsend : s.canSend = true) (m : Buffer) (q : List Buffer) :
    Counts { s with
      canSend := false, pendingOps := q, call := s.call.startBatch (.write m) } deleted := by
  obtain ⟨h1, h2, h3, h4, h5, h6, h7, h8, h9⟩ := h
  constructor <;>
    simp only [hsend, Call.pending_startBatch, Call.starts_startBatch, isHandshake, isWrite, isRead,
      isClose, isStatus, Bool.toNat_true, Bool.toNat_false] at * <;> omega

/-- The first close. -/
theorem Counts.sendClientEnd {s : BidirStreamingCallSession Rep} {deleted : Bool}
    (h : Counts s deleted) (hnone : s.call.starts isClose = 0) :
    Counts s.sendClientEnd deleted := by
  obtain ⟨h1, h2, h3, h4, h5, h6, h7, h8, h9⟩ := h
  constructor <;>
    simp only [BidirStreamingCallSession.sendClientEnd, startBatch, Call.pending_startBatch,
      Call.starts_startBatch, isHandshake, isWrite, isRead, isClose, isStatus, Bool.toNat_true,
      Bool.toNat_false] at * <;> omega

theorem Counts.finish {s : BidirStreamingCallSession Rep} {deleted : Bool}
    (h : Counts s deleted) (hrecv : s.finishedReceiving = true)
    (hclose : s.call.starts isClose = 1) : Counts s.finish deleted := by
  obtain ⟨h1, h2, h3, h4, h5, h6, h7, h8, h9⟩ := h
  constructor <;>
    simp only [BidirStreamingCallSession.finish, startBatch, hrecv, Call.pending_startBatch,
      Call.starts_startBatch, isHandshake, isWrite, isRead, isClose, isStatus, Bool.toNat_true,
      Bool.toNat_false, true_and] at * <;> omega

/-- The handshake is done: the gate opens and the first read is started. -/
theorem Counts.handshake {s : BidirStreamingCallSession Rep} (h : Counts s false) {i : ℕ}
    (hb : s.call.outstanding[i]? = some .handshake) :
    Counts ({ s with call := s.call.completeAt i }.openGate.startBatch .read) false := by
  obtain ⟨hH, hW, hR, hC, hS⟩ := pending_done hb
  obtain ⟨h1, h2, h3, h4, h5, h6, h7, h8, h9⟩ := h
  cases hq : s.pendingOps with
  | nil =>
      constructor <;>
        simp only [openGate, hq, List.isEmpty_nil, Bool.not_true, Bool.false_eq_true, if_false,
          startBatch, Call.pending_startBatch, Call.starts_startBatch, Call.starts_completeAt,
          isHandshake, isWrite, isRead, isClose, isStatus, Bool.toNat_true, Bool.toNat_false,
          true_implies] at * <;> omega
  | cons op rest =>
      constructor <;>
        simp only [openGate, flush, hq, List.isEmpty_cons, Bool.not_false, Bool.not_true,
          Bool.false_eq_true, if_false, if_true, startBatch, Call.pending_startBatch,
          Call.starts_startBatch, Call.starts_completeAt, isHandshake, isWrite, isRead, isClose,
          isStatus, Bool.toNat_true, Bool.toNat_false, true_implies] at * <;> omega

/-- A write is done: the gate opens; the next write, or the close, is started. -/
theorem Counts.write {s : BidirStreamingCallSession Rep} (h : Counts s false) {i : ℕ} {m : Buffer}
    (hb : s.call.outstanding[i]? = some (.write m)) (hnone : s.call.starts isClose = 0) :
    Counts { s with call := s.call.completeAt i }.afterWrite false := by
  obtain ⟨hH, hW, hR, hC, hS⟩ := pending_done hb
  have hopen : Counts { s with call := s.call.completeAt i, canSend := true } false := by
    obtain ⟨h1, h2, h3, h4, h5, h6, h7, h8, h9⟩ := h
    constructor <;>
      simp only [Call.starts_completeAt, isHandshake, isWrite, isRead, isClose, isStatus,
        Bool.toNat_true, Bool.toNat_false, true_implies] at * <;> omega
  cases hq : s.pendingOps with
  | nil =>
      cases hfin : s.finishedSending with
      | false => simpa [afterWrite, hq, hfin] using hopen
      | true => simpa [afterWrite, hq, hfin] using hopen.sendClientEnd (by simpa using hnone)
  | cons op rest => simpa [afterWrite, flush, hq, startBatch] using hopen.startWrite rfl op rest

/-- The close is done: the status is asked for if the server's end was read already. -/
theorem Counts.close {s : BidirStreamingCallSession Rep} (h : Counts s false) {i : ℕ}
    (hb : s.call.outstanding[i]? = some .close) :
    Counts (if s.finishedReceiving then
      { s with call := s.call.completeAt i }.finish else { s with call := s.call.completeAt i })
      false := by
  obtain ⟨hH, hW, hR, hC, hS⟩ := pending_done hb
  have hdone : Counts { s with call := s.call.completeAt i } false := by
    obtain ⟨h1, h2, h3, h4, h5, h6, h7, h8, h9⟩ := h
    constructor <;>
      simp only [Call.starts_completeAt, isHandshake, isWrite, isRead, isClose, isStatus,
        Bool.toNat_true, Bool.toNat_false, true_implies] at * <;> omega
  cases hrecv : s.finishedReceiving with
  | false => simpa [hrecv] using hdone
  | true =>
      have hone : s.call.starts isClose = 1 := by
        have h1 := h.close_le
        have h2 := h.endSent_eq
        have h3 := Bool.toNat_le s.endSent
        simp only [isClose, Bool.toNat_true] at hC
        omega
      simpa [hrecv] using hdone.finish hrecv (by simpa using hone)

/-- A reply arrived: the read is started again. -/
theorem Counts.reply {s : BidirStreamingCallSession Rep} [Serializer Rep] (h : Counts s false)
    {i : ℕ} (hb : s.call.outstanding[i]? = some .read) (buffer : Option Buffer) (data : Buffer) :
    Counts ({ s with call := s.call.completeAt i, recvBuffer := buffer }.afterReply data)
      false := by
  obtain ⟨hH, hW, hR, hC, hS⟩ := pending_done hb
  obtain ⟨h1, h2, h3, h4, h5, h6, h7, h8, h9⟩ := h
  constructor <;>
    simp only [afterReply, startBatch, Call.pending_startBatch, Call.starts_startBatch,
      Call.starts_completeAt, isHandshake, isWrite, isRead, isClose, isStatus, Bool.toNat_true,
      Bool.toNat_false, true_implies] at * <;> omega

/-- The server's end arrived: the status is asked for if the close was started already. -/
theorem Counts.null {s : BidirStreamingCallSession Rep} (h : Counts s false) {i : ℕ}
    (hb : s.call.outstanding[i]? = some .read) (buffer : Option Buffer) :
    Counts { s with call := s.call.completeAt i, recvBuffer := buffer }.afterEnd false := by
  obtain ⟨hH, hW, hR, hC, hS⟩ := pending_done hb
  have hdone : Counts { s with
      call := s.call.completeAt i, recvBuffer := buffer, finishedReceiving := true } false := by
    obtain ⟨h1, h2, h3, h4, h5, h6, h7, h8, h9⟩ := h
    constructor <;>
      simp only [Call.starts_completeAt, isHandshake, isWrite, isRead, isClose, isStatus,
        Bool.toNat_true, Bool.toNat_false, true_and,
        true_implies] at * <;> omega
  cases hask : s.finishedSending && s.endSent with
  | false => simpa [afterEnd, hask] using hdone
  | true =>
      have hsent : s.endSent = true := (Bool.and_eq_true _ _ ▸ hask).2
      have hone : s.call.starts isClose = 1 := by
        rw [← h.endSent_eq, hsent]
        rfl
      simpa [afterEnd, hask] using hdone.finish rfl (by simpa using hone)

/-- The status arrived: the session is deleted. -/
theorem Counts.status {s : BidirStreamingCallSession Rep} (h : Counts s false) {i : ℕ}
    (hb : s.call.outstanding[i]? = some .status) : Counts { s with call := s.call.completeAt i }
      true := by
  obtain ⟨hH, hW, hR, hC, hS⟩ := pending_done hb
  obtain ⟨h1, h2, h3, h4, h5, h6, h7, h8, h9⟩ := h
  constructor <;>
    simp only [Call.starts_completeAt, isHandshake, isWrite, isRead, isClose, isStatus,
      Bool.toNat_true, Bool.toNat_false, true_implies] at * <;> omega

variable [Serializer Req] [Serializer Rep]

/-! ## The steps, with what each requires -/

/-- One constructor for each event that `step` can accept. -/
inductive Moves (c : BidirClient Req Rep) : Event Req → BidirClient Req Rep → Prop
  | push {req : Req} (hret : c.returned = true) (hopen : c.requests.terminal = none) :
      Moves c (.push req) { c with
        requests := { c.requests with pushed := c.requests.pushed ++ [req] }
        session := c.session.update (·.onRequest req) }
  | finish {t : StreamEnd} (hret : c.returned = true) (hopen : c.requests.terminal = none) :
      Moves c (.finish t) { c with
        requests := { c.requests with terminal := some t }
        session := c.session.update (·.onRequestsEnd t) }
  | complete {i : ℕ} {r : Received} {session : Live (BidirStreamingCallSession Rep)}
      (hwork : c.session.workerMain i r = some session) :
      Moves c (.complete i r) { c with session }
  | getFuture (hret : c.returned = false) : Moves c .getFuture { c with
      returned := true
      lateFuture := c.session.deleted
      session := c.session.update (fun s => { s with rep := s.rep.getFuture }) }

/-- **What a step of the session and its caller can do.** -/
theorem moves_of_step {c c' : BidirClient Req Rep} {e : Event Req} (hstep : c.step e = some c') :
    Moves c e c' := by
  cases e with
  | push req =>
      simp only [step] at hstep
      split at hstep
      · next hret =>
          obtain ⟨requests, hpush, rfl⟩ := Option.map_eq_some_iff.1 hstep
          obtain ⟨hopen, rfl⟩ := Source.push_eq_some.1 hpush
          exact .push hret hopen
      · cases hstep
  | finish t =>
      simp only [step] at hstep
      split at hstep
      · next hret =>
          obtain ⟨requests, hfin, rfl⟩ := Option.map_eq_some_iff.1 hstep
          obtain ⟨hopen, rfl⟩ := Source.finish_eq_some.1 hfin
          exact .finish hret hopen
      · cases hstep
  | complete i r =>
      obtain ⟨session, hwork, rfl⟩ := Option.map_eq_some_iff.1 hstep
      exact .complete hwork
  | getFuture =>
      simp only [step] at hstep
      split at hstep
      · cases hstep
      · next hret =>
          obtain rfl := Option.some.inj hstep
          exact .getFuture (by simpa using hret)

/-! ## Every step keeps the invariant -/

omit [Serializer Rep] in
/-- A session is deleted only after the request stream has ended. -/
theorem Inv.live_of_open {c : BidirClient Req Rep} (h : c.Inv) (hopen : c.requests.terminal = none) :
    c.session.deleted = false := by
  cases hdel : c.session.deleted with
  | false => rfl
  | true =>
      have hstatus := h.counts.deleted_status (by simp [hdel])
      have hclose := (h.counts.status_started hstatus).2
      have hended := h.outbox.closed_ended (by simp [toOutbox, hclose])
      have hsome : c.session.obj.finishedSending = true := hended
      rw [h.ended, hopen] at hsome
      cases hsome

omit [Serializer Rep] in
theorem Inv.pushed {c : BidirClient Req Rep} (h : c.Inv) (hopen : c.requests.terminal = none)
    (req : Req) : Inv { c with
      requests := { c.requests with pushed := c.requests.pushed ++ [req] }
      session := c.session.update (·.onRequest req) } := by
  have hend : c.session.obj.finishedSending = false := by rw [h.ended, hopen]; rfl
  rw [Live.update_of_live (h.live_of_open hopen)]
  refine ⟨?_, ?_, ?_, ?_⟩
  · rw [toOutbox_onRequest]
    exact h.outbox.push hend _
  · rw [toOutbox_onRequest, Outbox.history_push, h.history]
    simp
  · have hsame : (c.session.obj.onRequest req).finishedSending
        = c.session.obj.finishedSending := by
      unfold onRequest flush
      split
      · rfl
      · split <;> rfl
    exact hsame.trans h.ended
  · cases hsend : c.session.obj.canSend with
    | false =>
        have hreq : c.session.obj.onRequest req = { c.session.obj with
            pendingOps := c.session.obj.pendingOps ++ [serialize req] } := by
          simp [onRequest, flush, hsend]
        rw [hreq]
        exact h.counts.copy (fun _ => rfl) (fun _ => rfl) rfl rfl rfl
    | true =>
        have hq : c.session.obj.pendingOps = [] :=
          h.outbox.idle_queue (by simp [toOutbox, hsend])
        have hreq : c.session.obj.onRequest req = { c.session.obj with
            canSend := false, pendingOps := []
            call := c.session.obj.call.startBatch (.write (serialize req)) } := by
          simp [onRequest, flush, hsend, hq, startBatch]
        rw [hreq]
        exact h.counts.startWrite hsend _ _

omit [Serializer Rep] in
/-- Ending the request stream starts the first close, or no batch at all. -/
theorem Counts.requestsEnd {s : BidirStreamingCallSession Rep} {deleted : Bool}
    (h : Counts s deleted) (hnone : s.call.starts isClose = 0) (t : StreamEnd) :
    Counts (s.onRequestsEnd t) deleted := by
  -- Cancelling the call touches no batch.
  have hmarked : Counts (s.requestsEnded t) deleted := by
    unfold requestsEnded
    split <;> exact h.copy (fun _ => rfl) (fun _ => rfl) rfl rfl rfl
  have hnone' : (s.requestsEnded t).call.starts isClose = 0 := by
    unfold requestsEnded
    split <;> exact hnone
  rw [onRequestsEnd_eq]
  split
  · exact hmarked.sendClientEnd hnone'
  · exact hmarked

omit [Serializer Rep] in
theorem finishedSending_onRequestsEnd (s : BidirStreamingCallSession Rep) (t : StreamEnd) :
    (s.onRequestsEnd t).finishedSending = true := by
  have hend := congrArg Outbox.ended (toOutbox_onRequestsEnd s t)
  rw [Outbox.ended_finish] at hend
  exact hend

omit [Serializer Rep] in
theorem Inv.terminated {c : BidirClient Req Rep} (h : c.Inv) (hopen : c.requests.terminal = none)
    (t : StreamEnd) : Inv { c with
      requests := { c.requests with terminal := some t }
      session := c.session.update (·.onRequestsEnd t) } := by
  have hend : c.session.obj.finishedSending = false := by rw [h.ended, hopen]; rfl
  have hnone : c.session.obj.call.starts isClose = 0 := h.outbox.closes_of_open hend
  rw [Live.update_of_live (h.live_of_open hopen)]
  refine ⟨?_, ?_, ?_, ?_⟩
  · rw [toOutbox_onRequestsEnd]
    exact h.outbox.finish hend
  · rw [toOutbox_onRequestsEnd, Outbox.history_finish, h.history]
  · rw [finishedSending_onRequestsEnd]
    rfl
  · exact h.counts.requestsEnd hnone t

omit [Serializer Rep] in
/-- While the handshake or a write is in flight, the gate is closed. -/
theorem Counts.busy {s : BidirStreamingCallSession Rep} {deleted : Bool} (h : Counts s deleted)
    (hpos : 0 < s.call.pending isHandshake + s.call.pending isWrite) : s.toOutbox.busy = true := by
  have hle := h.sendSide_le
  cases hsend : s.canSend with
  | false => simp [toOutbox, hsend]
  | true => simp only [hsend, Bool.toNat_true] at hle; omega

omit [Serializer Rep] in
theorem finishedSending_eq_ended {s s' : BidirStreamingCallSession Rep} {final : Bool}
    (h : s'.toOutbox = s.toOutbox.release final) : s'.finishedSending = s.finishedSending := by
  have hend := congrArg Outbox.ended h
  rw [Outbox.ended_release] at hend
  exact hend

omit [Serializer Rep] in
/-- A completion that hands on the send gate keeps the invariant. -/
theorem Inv.released {c : BidirClient Req Rep} (h : c.Inv) {s : BidirStreamingCallSession Rep}
    {deleted final : Bool} (hbox : s.toOutbox = c.session.obj.toOutbox.release final)
    (hbusy : c.session.obj.toOutbox.busy = true) (hcounts : Counts s deleted) :
    Inv { c with session := ⟨s, deleted⟩ } := by
  refine ⟨?_, ?_, ?_, hcounts⟩
  · rw [hbox]
    exact h.outbox.release hbusy final
  · rw [hbox, Outbox.history_release]
    exact h.history
  · rw [finishedSending_eq_ended hbox]
    exact h.ended

omit [Serializer Rep] in
/-- A completion that leaves the sending side alone keeps the invariant. -/
theorem Inv.kept {c : BidirClient Req Rep} (h : c.Inv) {s : BidirStreamingCallSession Rep}
    {deleted : Bool} (hbox : s.toOutbox = c.session.obj.toOutbox) (hcounts : Counts s deleted) :
    Inv { c with session := ⟨s, deleted⟩ } := by
  refine ⟨?_, ?_, ?_, hcounts⟩
  · rw [hbox]
    exact h.outbox
  · rw [hbox]
    exact h.history
  · exact (congrArg Outbox.ended hbox).trans h.ended

theorem Inv.completed {c : BidirClient Req Rep} (h : c.Inv) {i : ℕ} {r : Received}
    {session : Live (BidirStreamingCallSession Rep)}
    (hwork : c.session.workerMain i r = some session) : Inv { c with session } := by
  obtain ⟨b, hb, hcase⟩ := complete_cases hwork
  have hcounts := h.counts
  rcases hcase with ⟨hdel, rfl⟩ | ⟨hlive, rfl⟩
  · rw [hdel] at hcounts
    exact h.kept rfl (hcounts.drop hb)
  · rw [hlive] at hcounts
    -- One case for each batch; the read branch depends on what arrived.
    cases b with
    | handshake =>
        have hpos := Call.pending_pos hb (p := isHandshake) rfl
        have hbox : (c.session.obj.handled i r .handshake).obj.toOutbox
            = c.session.obj.toOutbox.release false := by
          simp only [handled, toOutbox_startRead, toOutbox_openGate]
          rfl
        exact h.released hbox (hcounts.busy (by omega)) (hcounts.handshake hb)
    | write m =>
        have hpos := Call.pending_pos hb (p := isWrite) rfl
        have hbusy := hcounts.busy (by omega)
        have hnone : c.session.obj.call.starts isClose = 0 := h.outbox.closes_of_busy hbusy
        exact h.released (toOutbox_afterWrite _) hbusy (hcounts.write hb hnone)
    | close =>
        refine h.kept ?_ (hcounts.close hb)
        split
        · rw [toOutbox_finish]
          rfl
        · rfl
    | read =>
        cases hmsg : r.message with
        | some data =>
            simp only [handled, hmsg]
            exact h.kept (toOutbox_afterReply _ data) (hcounts.reply hb _ data)
        | none =>
            simp only [handled, hmsg]
            exact h.kept (toOutbox_afterEnd _) (hcounts.null hb _)
    | status =>
        exact h.kept rfl ((hcounts.status hb).copy (fun _ => rfl) (fun _ => rfl) rfl rfl rfl)

theorem inv_step {c c' : BidirClient Req Rep} {e : Event Req}
    (hstep : (machine Req Rep).step c e = some c') (h : c.Inv) : c'.Inv := by
  cases moves_of_step hstep with
  | push hret hopen => exact h.pushed hopen _
  | finish hret hopen => exact h.terminated hopen _
  | complete hwork => exact h.completed hwork
  | getFuture hret =>
      cases hdel : c.session.deleted with
      | true =>
          rw [Live.update_of_deleted hdel]
          exact ⟨h.outbox, h.history, h.ended, h.counts⟩
      | false =>
          rw [Live.update_of_live hdel]
          exact ⟨h.outbox, h.history, h.ended,
            h.counts.copy (fun _ => rfl) (fun _ => rfl) rfl rfl rfl⟩

theorem inv_init : ((machine Req Rep).init).Inv := by
  refine ⟨⟨?_, ?_, ?_, ?_⟩, rfl, rfl, ?_⟩
  · intro hidle; cases hidle
  · exact Nat.zero_le 1
  · intro hne; exact absurd rfl hne
  · intro hne; exact absurd rfl hne
  · exact ⟨Nat.le_refl 1, fun _ => rfl, Nat.le_refl 1, fun _ => rfl, Nat.le_refl 0, rfl,
      Nat.le_refl 0, fun hne => absurd rfl hne, fun hdel => by cases hdel⟩

/-- The invariant holds in every reachable state, in whatever order the batches complete and
    whatever they bring. -/
theorem inv_of_reachable {c : BidirClient Req Rep} (h : (machine Req Rep).Reachable c) : c.Inv :=
  h.invariant inv_init inv_step

end BidirClient

end EasyGrpc
