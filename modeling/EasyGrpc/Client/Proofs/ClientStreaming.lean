import EasyGrpc.Library.Outbox
import EasyGrpc.Client.ClientStreaming

set_option autoImplicit false

/-! # Invariants of the client of a client-streaming call

The sending side is an `Outbox` whose gate is `batch_in_flight_`: the callbacks on the request
stream are its `push` and `finish`, and `exec` its `release`. As long as the constructor has set
`batch_in_flight_` before the handshake completes, the flag says exactly whether a batch other than
the last is outstanding, and a session with nothing outstanding owes nothing. A handshake that
completes earlier leaves the flag set for good, and the session never starts another batch. -/

namespace EasyGrpc

variable {Req Rep : Type}

namespace ClientStreamingCallSession

open UploadClientBatch

/-! ## The sending side is an outbox -/

def toOutbox (s : ClientStreamingCallSession Rep) : Outbox Buffer where
  busy := s.batchInFlight
  queue := s.pendingOps
  ended := s.finished
  sent := s.call.sent
  closes := s.call.starts isSendEnd

theorem toOutbox_flush (s : ClientStreamingCallSession Rep) :
    s.flush.toOutbox = s.toOutbox.flush := by
  unfold flush Outbox.flush
  cases hbusy : s.batchInFlight with
  | true => simp [toOutbox, hbusy]
  | false =>
      cases hq : s.pendingOps with
      | nil => simp [toOutbox, hbusy, hq]
      | cons op rest =>
          simp [toOutbox, hbusy, hq, startBatch, Call.sent_startBatch, Call.starts_startBatch,
            BatchSpec.ops, Op.message?, isSendEnd]

theorem toOutbox_sendEnd (s : ClientStreamingCallSession Rep) :
    s.sendEnd.toOutbox = s.toOutbox.close := by
  simp [toOutbox, sendEnd, startBatch, Outbox.close, Call.sent_startBatch, Call.starts_startBatch,
    BatchSpec.ops, Op.message?, isSendEnd]

theorem toOutbox_onRequest [Serializer Req] (s : ClientStreamingCallSession Rep) (req : Req) :
    (s.onRequest req).toOutbox = s.toOutbox.push (serialize req) := by
  rw [onRequest, toOutbox_flush]
  rfl

theorem toOutbox_onRequestsEnd (s : ClientStreamingCallSession Rep) (t : StreamEnd) :
    (s.onRequestsEnd t).toOutbox = s.toOutbox.finish := by
  unfold onRequestsEnd Outbox.finish
  cases hbusy : s.batchInFlight with
  | true => simp [toOutbox, hbusy]
  | false =>
      simp only [Bool.not_false, if_true, toOutbox_sendEnd]
      simp [toOutbox, hbusy]

/-- `exec` for the handshake and for a request. -/
def afterBatch (s : ClientStreamingCallSession Rep) : ClientStreamingCallSession Rep :=
  if !s.pendingOps.isEmpty then { s with batchInFlight := false }.flush
  else if s.finished then { s with batchInFlight := false }.sendEnd
  else { s with batchInFlight := false }

theorem toOutbox_afterBatch (s : ClientStreamingCallSession Rep) :
    s.afterBatch.toOutbox = s.toOutbox.release true := by
  unfold afterBatch Outbox.release
  cases hq : s.pendingOps with
  | nil =>
      cases hfin : s.finished with
      | false => simp [toOutbox, hq, hfin]
      | true =>
          simp only [List.isEmpty_nil, Bool.not_true, Bool.false_eq_true, if_false, if_true,
            toOutbox_sendEnd]
          simp [toOutbox, hq, hfin]
  | cons op rest =>
      simp only [List.isEmpty_cons, Bool.not_false, if_true, toOutbox_flush]
      simp [toOutbox, hq]

theorem closed_iff (call : Call UploadClientBatch) :
    call.closed = true ↔ call.starts isSendEnd ≠ 0 := by
  apply Call.closed_iff
  intro b
  cases b <;> rfl

/-! ## What `exec` does for each batch -/

/-- The session once its `i`-th outstanding batch is no longer outstanding. -/
def done (s : ClientStreamingCallSession Rep) (i : ℕ) : ClientStreamingCallSession Rep :=
  { s with call := s.call.completeAt i }

variable [Serializer Rep]

/-- The session after its last batch, which has brought `r`. -/
def resolved (s : ClientStreamingCallSession Rep) (i : ℕ) (r : Received) :
    ClientStreamingCallSession Rep :=
  let s := { s.done i with
    batchInFlight := false, recvBuffer := r.message, status := r.status
    statusDetails := r.statusDetails }
  { s with rep := s.rep ++ [s.reply] }

/-- What a live session becomes when its `i`-th outstanding batch completes with `r`. -/
def handled (s : ClientStreamingCallSession Rep) (i : ℕ) (r : Received) :
    UploadClientBatch → Live (ClientStreamingCallSession Rep)
  | .sendEnd => ⟨s.resolved i r, true⟩
  | _ => ⟨(s.done i).afterBatch, false⟩

/-- `end_sent_` tells `exec` which batch has completed, as long as it is set exactly when the last
    batch was started. -/
theorem exec_handled {s : ClientStreamingCallSession Rep} {b : UploadClientBatch}
    (hlast : b.isSendEnd = true → s.pendingOps = [] ∧ s.finished = true ∧ s.endSent = true)
    (hother : b.isSendEnd = false → s.endSent = false) (i : ℕ) (r : Received) :
    (⟨((s.done i).receive b r).exec 0 |>.2, ((s.done i).receive b r).exec 0 |>.1⟩ :
      Live (ClientStreamingCallSession Rep)) = s.handled i r b := by
  have hafter : s.endSent = false →
      (⟨((s.done i).exec 0).2, ((s.done i).exec 0).1⟩ : Live (ClientStreamingCallSession Rep))
        = ⟨(s.done i).afterBatch, false⟩ := by
    intro hnot
    cases hq : s.pendingOps <;> cases hfin : s.finished <;>
      simp [exec, afterBatch, done, hq, hfin, hnot]
  cases b with
  | handshake => exact hafter (hother rfl)
  | write m => exact hafter (hother rfl)
  | sendEnd =>
      obtain ⟨hq, hfin, hsent⟩ := hlast rfl
      simp [receive, exec, handled, resolved, done, hq, hfin, hsent]

end ClientStreamingCallSession

namespace UploadClient

open ClientStreamingCallSession UploadClientBatch

/-! ## The invariant -/

/-- What ties the flags of a session to its batches, flags read as numbers. -/
structure Counts (s : ClientStreamingCallSession Rep) (deleted : Bool) : Prop where
  endSent_eq : s.endSent.toNat = s.call.starts isSendEnd
  /-- A batch is in flight exactly if the handshake or one request is outstanding. -/
  gate_live : deleted = false →
    s.call.pending isHandshake + s.call.pending isWrite = s.batchInFlight.toNat
  /-- The last batch is outstanding until the session is deleted, and resolves the reply. -/
  last_live : deleted = false → s.call.pending isSendEnd = s.call.starts isSendEnd ∧ s.rep = []
  last_deleted : deleted = true →
    s.call.quiet = true ∧ s.call.starts isSendEnd ≠ 0 ∧ s.rep.length = 1

structure Inv [Serializer Req] (c : UploadClient Req Rep) : Prop where
  outbox : c.session.obj.toOutbox.WF
  settled : c.session.obj.toOutbox.Settled
  history : c.session.obj.toOutbox.history = c.requests.pushed.map serialize
  ended : c.session.obj.toOutbox.ended = c.requests.terminal.isSome
  counts : Counts c.session.obj c.session.deleted

/-- A completion takes its batch out of the count of its own kind. -/
theorem pending_done {call : Call UploadClientBatch} {i : ℕ} {b : UploadClientBatch}
    (hb : call.outstanding[i]? = some b) :
    call.pending isHandshake = (call.completeAt i).pending isHandshake + (isHandshake b).toNat ∧
    call.pending isWrite = (call.completeAt i).pending isWrite + (isWrite b).toNat ∧
    call.pending isSendEnd = (call.completeAt i).pending isSendEnd + (isSendEnd b).toNat :=
  ⟨Call.pending_completeAt hb _, Call.pending_completeAt hb _, Call.pending_completeAt hb _⟩

/-- Every batch is of one of the three kinds. -/
theorem length_outstanding (call : Call UploadClientBatch) :
    call.outstanding.length
      = call.pending isHandshake + call.pending isWrite + call.pending isSendEnd := by
  rw [call.length_outstanding [isHandshake, isWrite, isSendEnd] (by intro b; cases b <;> rfl)]
  simp [Nat.add_assoc]

theorem Counts.flush {s : ClientStreamingCallSession Rep} (hc : Counts s false) :
    Counts s.flush false := by
  unfold ClientStreamingCallSession.flush
  split
  · exact hc
  · next hidle =>
      have hflag : s.batchInFlight = false := by simpa using hidle
      have hgate := hc.gate_live rfl
      rw [hflag] at hgate
      simp only [Bool.toNat_false] at hgate
      split
      · exact hc
      · refine ⟨?_, ?_, ?_, fun hno => by cases hno⟩
        · simpa [startBatch, Call.starts_startBatch, isSendEnd] using hc.endSent_eq
        · intro _
          simp only [startBatch, Call.pending_startBatch, isHandshake, isWrite, Bool.toNat_false,
            Bool.toNat_true]
          omega
        · intro _
          simpa [startBatch, Call.pending_startBatch, Call.starts_startBatch, isSendEnd]
            using hc.last_live rfl

/-- `send_end`, when it was not called before. -/
theorem Counts.sendEnd {s : ClientStreamingCallSession Rep} (hc : Counts s false)
    (hnone : s.call.starts isSendEnd = 0) : Counts s.sendEnd false := by
  obtain ⟨hlast, hrep⟩ := hc.last_live rfl
  refine ⟨?_, ?_, ?_, fun hno => by cases hno⟩
  · simp [ClientStreamingCallSession.sendEnd, startBatch, Call.starts_startBatch, isSendEnd, hnone]
  · intro _
    simpa [ClientStreamingCallSession.sendEnd, startBatch, Call.pending_startBatch, isHandshake,
      isWrite] using hc.gate_live rfl
  · intro _
    simp [ClientStreamingCallSession.sendEnd, startBatch, Call.pending_startBatch,
      Call.starts_startBatch, isSendEnd, hlast, hnone, hrep]

/-- The handshake or a request has completed. -/
theorem Counts.released {s : ClientStreamingCallSession Rep} (hc : Counts s false) {i : ℕ}
    {b : UploadClientBatch} (hb : s.call.outstanding[i]? = some b)
    (hother : b.isSendEnd = false) :
    Counts { s.done i with batchInFlight := false } false := by
  obtain ⟨hH, hW, hE⟩ := pending_done hb
  have hgate := hc.gate_live rfl
  obtain ⟨hlast, hrep⟩ := hc.last_live rfl
  have hle := Bool.toNat_le s.batchInFlight
  have hone : (isHandshake b).toNat + (isWrite b).toNat = 1 := by
    cases b <;> first | rfl | cases hother
  rw [hother, Bool.toNat_false, Nat.add_zero] at hE
  refine ⟨hc.endSent_eq, ?_, ?_, fun hno => by cases hno⟩
  · intro _
    show (s.call.completeAt i).pending isHandshake + (s.call.completeAt i).pending isWrite = 0
    omega
  · intro _
    exact ⟨hE.symm.trans hlast, hrep⟩

variable [Serializer Req] [Serializer Rep]

/-! ## The steps, with what each requires -/

/-- One constructor for each step that `step` can take; the constructor of the session takes
    three. -/
inductive Moves (c : UploadClient Req Rep) : Event Req → UploadClient Req Rep → Prop
  | setFlag (hfirst : c.construction = .batchStarted) : Moves c .construct { c with
      construction := .flagSet
      session := c.session.update (fun s => { s with batchInFlight := true }) }
  | listen (hset : c.construction = .flagSet) : Moves c .construct { c with
      construction := .listening, requests := { c.requests with attached := true } }
  | leave (hlistening : c.construction = .listening) : Moves c .construct { c with
      construction := .returned }
  | push {req : Req} (hret : c.construction = .returned) (hopen : c.requests.terminal = none) :
      Moves c (.push req) { c with
        requests := { c.requests with pushed := c.requests.pushed ++ [req] }
        session := c.session.update (·.onRequest req) }
  | finish {t : StreamEnd} (hret : c.construction = .returned)
      (hopen : c.requests.terminal = none) :
      Moves c (.finish t) { c with
        requests := { c.requests with terminal := some t }
        session := c.session.update (·.onRequestsEnd t) }
  | complete {i : ℕ} {r : Received} {session : Live (ClientStreamingCallSession Rep)}
      (hwork : c.session.workerMain i r = some session) :
      Moves c (.complete i r) { c with session }

/-- **What one step of a session and its caller can do.** -/
theorem moves_of_step {c c' : UploadClient Req Rep} {e : Event Req} (hstep : c.step e = some c') :
    Moves c e c' := by
  cases e with
  | construct =>
      simp only [step, construct] at hstep
      split at hstep
      · next hfirst =>
          obtain rfl := Option.some.inj hstep
          exact .setFlag hfirst
      · next hset =>
          obtain rfl := Option.some.inj hstep
          exact .listen hset
      · next hlistening =>
          obtain rfl := Option.some.inj hstep
          exact .leave hlistening
      · cases hstep
  | push req =>
      simp only [step] at hstep
      split at hstep
      · next hret =>
          obtain ⟨requests, hpush, rfl⟩ := Option.map_eq_some_iff.1 hstep
          obtain ⟨hopen, rfl⟩ := Source.push_eq_some.1 hpush
          exact .push hret hopen
      · cases hstep
  | finish t =>
      simp only [step] at hstep
      split at hstep
      · next hret =>
          obtain ⟨requests, hfin, rfl⟩ := Option.map_eq_some_iff.1 hstep
          obtain ⟨hopen, rfl⟩ := Source.finish_eq_some.1 hfin
          exact .finish hret hopen
      · cases hstep
  | complete i r =>
      obtain ⟨session, hwork, rfl⟩ := Option.map_eq_some_iff.1 hstep
      exact .complete hwork

/-! ## Every step keeps the invariant -/

omit [Serializer Rep] in
theorem Inv.live_of_open {c : UploadClient Req Rep} (h : c.Inv)
    (hopen : c.requests.terminal = none) : c.session.deleted = false := by
  cases hdel : c.session.deleted with
  | false => rfl
  | true =>
      obtain ⟨-, hne, -⟩ := h.counts.last_deleted hdel
      have hended := h.outbox.closed_ended hne
      rw [h.ended, hopen] at hended
      cases hended

omit [Serializer Rep] in
theorem Inv.pushed {c : UploadClient Req Rep} (h : c.Inv) (hopen : c.requests.terminal = none)
    (req : Req) :
    Inv { c with
      requests := { c.requests with pushed := c.requests.pushed ++ [req] }
      session := c.session.update (·.onRequest req) } := by
  have hlive := h.live_of_open hopen
  have hnotend : c.session.obj.toOutbox.ended = false := by rw [h.ended, hopen]; rfl
  have hcounts := h.counts
  rw [hlive] at hcounts
  rw [Live.update_of_live hlive, hlive]
  refine ⟨?_, ?_, ?_, ?_, ?_⟩
  · rw [toOutbox_onRequest]
    exact h.outbox.push hnotend _
  · rw [toOutbox_onRequest]
    exact .push hnotend _
  · rw [toOutbox_onRequest, Outbox.history_push, h.history]
    simp
  · rw [toOutbox_onRequest, Outbox.ended_push]
    exact h.ended
  · have hqueued : Counts { c.session.obj with
        pendingOps := c.session.obj.pendingOps ++ [serialize req] } false :=
      ⟨hcounts.endSent_eq, hcounts.gate_live, hcounts.last_live, hcounts.last_deleted⟩
    exact hqueued.flush

omit [Serializer Rep] in
theorem Inv.terminated {c : UploadClient Req Rep} (h : c.Inv) (hopen : c.requests.terminal = none)
    (t : StreamEnd) :
    Inv { c with
      requests := { c.requests with terminal := some t }
      session := c.session.update (·.onRequestsEnd t) } := by
  have hlive := h.live_of_open hopen
  have hnotend : c.session.obj.toOutbox.ended = false := by rw [h.ended, hopen]; rfl
  have hnone : c.session.obj.call.starts isSendEnd = 0 := h.outbox.closes_of_open hnotend
  have hcounts := h.counts
  rw [hlive] at hcounts
  rw [Live.update_of_live hlive, hlive]
  refine ⟨?_, ?_, ?_, ?_, ?_⟩
  · rw [toOutbox_onRequestsEnd]
    exact h.outbox.finish hnotend
  · rw [toOutbox_onRequestsEnd]
    exact .finish _
  · rw [toOutbox_onRequestsEnd, Outbox.history_finish]
    exact h.history
  · rw [toOutbox_onRequestsEnd, Outbox.ended_finish]
    rfl
  · have hflagged : Counts { c.session.obj with finished := true } false :=
      ⟨hcounts.endSent_eq, hcounts.gate_live, hcounts.last_live, hcounts.last_deleted⟩
    simp only [onRequestsEnd]
    split
    · exact hflagged.sendEnd hnone
    · exact hflagged

omit [Serializer Rep] in
/-- At most one batch is outstanding: the last one is started only when nothing is in flight. -/
theorem Inv.one_outstanding {c : UploadClient Req Rep} (h : c.Inv) :
    c.session.obj.call.outstanding.length ≤ 1 := by
  cases hdel : c.session.deleted with
  | true =>
      obtain ⟨hquiet, -⟩ := h.counts.last_deleted hdel
      rw [List.isEmpty_iff.1 hquiet]
      exact Nat.zero_le 1
  | false =>
      have hgate := h.counts.gate_live hdel
      have hlast := (h.counts.last_live hdel).1
      have hclose : c.session.obj.call.starts isSendEnd ≤ 1 := h.outbox.closes_le
      rw [length_outstanding]
      cases hbusy : c.session.obj.batchInFlight with
      | true =>
          have hzero : c.session.obj.call.starts isSendEnd = 0 := h.outbox.closes_of_busy hbusy
          rw [hbusy, Bool.toNat_true] at hgate
          omega
      | false =>
          rw [hbusy, Bool.toNat_false] at hgate
          omega

omit [Serializer Rep] in
/-- While a batch other than the last is in flight, the gate is closed. -/
theorem Inv.busy_of_pending {c : UploadClient Req Rep} (h : c.Inv)
    (hlive : c.session.deleted = false) {i : ℕ} {b : UploadClientBatch}
    (hb : c.session.obj.call.outstanding[i]? = some b) (hother : b.isSendEnd = false) :
    c.session.obj.toOutbox.busy = true := by
  obtain ⟨hH, hW, -⟩ := pending_done hb
  have hgate := h.counts.gate_live hlive
  have hone : (isHandshake b).toNat + (isWrite b).toNat = 1 := by
    cases b <;> first | rfl | cases hother
  show c.session.obj.batchInFlight = true
  cases hflag : c.session.obj.batchInFlight with
  | true => rfl
  | false =>
      rw [hflag, Bool.toNat_false] at hgate
      omega

/-- **What a completion does to a session.** The batch that completes is the one `exec` takes it
    for. -/
theorem complete_cases {c : UploadClient Req Rep} {session : Live (ClientStreamingCallSession Rep)}
    {i : ℕ} {r : Received} (h : c.Inv) (hwork : c.session.workerMain i r = some session) :
    ∃ b, c.session.obj.call.outstanding[i]? = some b ∧ c.session.deleted = false ∧
      session = c.session.obj.handled i r b := by
  obtain ⟨b, hb, hcase⟩ := Live.workerMain_eq_some hwork
  have hb' : c.session.obj.call.outstanding[i]? = some b := hb
  have hlive : c.session.deleted = false := by
    by_contra hdel
    obtain ⟨hquiet, -⟩ := h.counts.last_deleted (by simpa using hdel)
    rw [List.isEmpty_iff.1 hquiet] at hb'
    cases hb'
  refine ⟨b, hb', hlive, ?_⟩
  rcases hcase with ⟨hdel, -⟩ | ⟨-, rfl⟩
  · rw [hlive] at hdel
    cases hdel
  · -- While the gate is closed the last batch was not started, and afterwards it is the only one.
    have hlast := (h.counts.last_live hlive).1
    have hsent := h.counts.endSent_eq
    obtain ⟨hH, hW, hE⟩ := pending_done hb'
    refine exec_handled ?_ ?_ i r
    · intro hend
      have hne : c.session.obj.call.starts isSendEnd ≠ 0 := by
        rw [hend, Bool.toNat_true] at hE
        omega
      refine ⟨h.outbox.closed_queue hne, h.outbox.closed_ended hne, ?_⟩
      cases hflag : c.session.obj.endSent with
      | true => rfl
      | false => rw [hflag] at hsent; exact absurd hsent.symm hne
    · intro hother
      have hzero : c.session.obj.call.starts isSendEnd = 0 :=
        h.outbox.closes_of_busy (h.busy_of_pending hlive hb' hother)
      rw [hzero] at hsent
      exact Bool.toNat_eq_zero.1 hsent

theorem inv_handled {c : UploadClient Req Rep} {i : ℕ} {b : UploadClientBatch} (h : c.Inv)
    (hlive : c.session.deleted = false) (hb : c.session.obj.call.outstanding[i]? = some b)
    (r : Received) : Inv { c with session := c.session.obj.handled i r b } := by
  have hcounts := h.counts
  rw [hlive] at hcounts
  obtain ⟨hH, hW, hE⟩ := pending_done hb
  have hgate := hcounts.gate_live rfl
  obtain ⟨hlast, hrep⟩ := hcounts.last_live rfl
  have hnext : b.isSendEnd = false →
      Inv { c with session := ⟨(c.session.obj.done i).afterBatch, false⟩ } := by
    intro hother
    have hbusy := h.busy_of_pending hlive hb hother
    refine ⟨?_, ?_, ?_, ?_, ?_⟩
    · rw [toOutbox_afterBatch]
      exact h.outbox.release hbusy true
    · rw [toOutbox_afterBatch]
      exact .release _ (Or.inl rfl)
    · rw [toOutbox_afterBatch, Outbox.history_release]
      exact h.history
    · rw [toOutbox_afterBatch, Outbox.ended_release]
      exact h.ended
    · have hreleased := hcounts.released hb hother
      have hzero : c.session.obj.call.starts isSendEnd = 0 := h.outbox.closes_of_busy hbusy
      unfold afterBatch
      split
      · exact hreleased.flush
      · split
        · exact hreleased.sendEnd hzero
        · exact hreleased
  cases b with
  | handshake => exact hnext rfl
  | write m => exact hnext rfl
  | sendEnd =>
      have hne : c.session.obj.call.starts isSendEnd ≠ 0 := by
        simp only [isSendEnd, Bool.toNat_true] at hE
        omega
      have hidle : c.session.obj.batchInFlight = false := h.outbox.closed_idle hne
      have hsame : (c.session.obj.resolved i r).toOutbox = c.session.obj.toOutbox := by
        simp [toOutbox, resolved, done, hidle]
      refine ⟨hsame ▸ h.outbox, hsame ▸ h.settled, hsame ▸ h.history, hsame ▸ h.ended, ?_⟩
      refine ⟨hcounts.endSent_eq, ?_, ?_, ?_⟩
      · intro hno
        cases hno
      · intro hno
        cases hno
      intro _
      refine ⟨?_, hne, ?_⟩
      · have hlength := length_outstanding (c.session.obj.call.completeAt i)
        have hle : c.session.obj.call.starts isSendEnd ≤ 1 := h.outbox.closes_le
        rw [hidle, Bool.toNat_false] at hgate
        simp only [isHandshake, isWrite, isSendEnd, Bool.toNat_false, Bool.toNat_true] at hH hW hE
        show (c.session.obj.call.completeAt i).quiet = true
        rw [Call.quiet, List.isEmpty_iff_length_eq_zero]
        omega
      · show (c.session.obj.rep ++ [_]).length = 1
        rw [hrep]
        rfl

theorem inv_step {c c' : UploadClient Req Rep} {e : Event Req} (hstep : c.step e = some c')
    (hflag : c.construction ≠ .batchStarted) (h : c.Inv) : c'.Inv := by
  cases moves_of_step hstep with
  | setFlag hfirst => exact absurd hfirst hflag
  | listen hset => exact ⟨h.outbox, h.settled, h.history, h.ended, h.counts⟩
  | leave hlistening => exact ⟨h.outbox, h.settled, h.history, h.ended, h.counts⟩
  | push hret hopen => exact h.pushed hopen _
  | finish hret hopen => exact h.terminated hopen _
  | complete hwork =>
      obtain ⟨b, hb, hlive, rfl⟩ := complete_cases h hwork
      exact inv_handled h hlive hb _

/-! ## What a step does to the wire and to the reply -/

/-- What was handed to gRPC core stays handed over. -/
theorem sent_step {c c' : UploadClient Req Rep} {e : Event Req} (h : c.Inv)
    (hstep : c.step e = some c') :
    c.session.obj.call.sent <+: c'.session.obj.call.sent := by
  let P : ClientStreamingCallSession Rep → Prop := fun s =>
    c.session.obj.call.sent <+: s.call.sent
  have hrefl : P c.session.obj := List.prefix_rfl
  cases moves_of_step hstep with
  | setFlag hfirst => exact Live.update_obj (P := P) hrefl hrefl
  | listen hset => exact hrefl
  | leave hlistening => exact hrefl
  | @push req hret hopen =>
      refine Live.update_obj (P := P) hrefl ?_
      show c.session.obj.toOutbox.sent <+: (c.session.obj.onRequest req).toOutbox.sent
      rw [toOutbox_onRequest]
      exact Outbox.sent_push _ _
  | @finish t hret hopen =>
      refine Live.update_obj (P := P) hrefl ?_
      show c.session.obj.toOutbox.sent <+: (c.session.obj.onRequestsEnd t).toOutbox.sent
      rw [toOutbox_onRequestsEnd]
      exact ⟨[], by rw [Outbox.sent_finish, List.append_nil]⟩
  | @complete i r session hwork =>
      obtain ⟨b, -, -, rfl⟩ := complete_cases h hwork
      have hafter : P (c.session.obj.done i).afterBatch := by
        show c.session.obj.toOutbox.sent <+: (c.session.obj.done i).afterBatch.toOutbox.sent
        rw [toOutbox_afterBatch]
        exact Outbox.sent_release _ _
      cases b with
      | handshake => exact hafter
      | write m => exact hafter
      | sendEnd => exact hrefl

/-- How a reply that was received resolves `rep_`. -/
def resolution (Rep : Type) [Serializer Rep] (r : Received) : Resolution Rep :=
  if r.status = .ok then .ofBuffer r.message
  else .error (.rpcError ⟨r.status, .ofText r.statusDetails⟩)

omit [Serializer Req] [Serializer Rep] in
theorem rep_flush (s : ClientStreamingCallSession Rep) : s.flush.rep = s.rep := by
  unfold ClientStreamingCallSession.flush
  split
  · rfl
  · split <;> rfl

omit [Serializer Req] [Serializer Rep] in
theorem rep_onRequestsEnd (s : ClientStreamingCallSession Rep) (t : StreamEnd) :
    (s.onRequestsEnd t).rep = s.rep := by
  unfold onRequestsEnd
  dsimp only
  split <;> rfl

omit [Serializer Req] [Serializer Rep] in
theorem rep_afterBatch (s : ClientStreamingCallSession Rep) : s.afterBatch.rep = s.rep := by
  unfold afterBatch
  split
  · exact rep_flush _
  · split <;> rfl

/-- The reply after an enabled step: it is left alone, or resolved by the last batch. -/
theorem rep_step {c c' : UploadClient Req Rep} {e : Event Req} (h : c.Inv)
    (hstep : c.step e = some c') :
    (c'.session.obj.rep = c.session.obj.rep ∧ c'.session.deleted = c.session.deleted ∧
      ∀ i r, e = .complete i r →
        ∃ b, c.session.obj.call.outstanding[i]? = some b ∧ b.isSendEnd = false) ∨
    (∃ i r, e = .complete i r ∧ c.session.deleted = false ∧ c'.session.deleted = true ∧
      c.session.obj.call.outstanding[i]? = some .sendEnd ∧
      c'.session.obj.rep = [resolution Rep r]) := by
  let P : ClientStreamingCallSession Rep → Prop := fun s => s.rep = c.session.obj.rep
  cases moves_of_step hstep with
  | setFlag hfirst => exact Or.inl ⟨Live.update_obj (P := P) rfl rfl, by simp, by simp⟩
  | listen hset => exact Or.inl ⟨rfl, rfl, by simp⟩
  | leave hlistening => exact Or.inl ⟨rfl, rfl, by simp⟩
  | push hret hopen =>
      exact Or.inl ⟨Live.update_obj (P := P) rfl (rep_flush _), by simp, by simp⟩
  | finish hret hopen =>
      exact Or.inl ⟨Live.update_obj (P := P) rfl (rep_onRequestsEnd _ _), by simp, by simp⟩
  | @complete i r session hwork =>
      obtain ⟨b, hb, hlive, rfl⟩ := complete_cases h hwork
      cases hend : b.isSendEnd with
      | false =>
          have hsame : c.session.obj.handled i r b = ⟨(c.session.obj.done i).afterBatch, false⟩ := by
            cases b <;> first | rfl | cases hend
          refine Or.inl ⟨?_, ?_, ?_⟩
          · rw [hsame]
            exact rep_afterBatch _
          · rw [hsame, hlive]
          · rintro j q ⟨rfl, rfl⟩
            exact ⟨b, hb, hend⟩
      | true =>
          obtain rfl : b = .sendEnd := by cases b <;> first | rfl | cases hend
          refine Or.inr ⟨i, r, rfl, hlive, rfl, hb, ?_⟩
          show c.session.obj.rep ++ [_] = _
          rw [(h.counts.last_live hlive).2]
          rfl

/-! ## The constructor -/

theorem construction_step {c c' : UploadClient Req Rep} {e : Event Req}
    (hstep : c.step e = some c') (hflag : c.construction ≠ .batchStarted) :
    c'.construction ≠ .batchStarted ∧
      (c.construction = .returned → c'.construction = .returned) := by
  cases moves_of_step hstep with
  | setFlag hfirst => exact absurd hfirst hflag
  | listen hset => exact ⟨by simp, fun hret => by simp [hset] at hret⟩
  | leave hlistening => exact ⟨by simp, fun _ => rfl⟩
  | push hret hopen => exact ⟨hflag, id⟩
  | finish hret hopen => exact ⟨hflag, id⟩
  | complete hwork => exact ⟨hflag, id⟩

/-- The handshake does not complete before the constructor has set `batch_in_flight_`. -/
def flagFirst (c : UploadClient Req Rep) : Event Req → Bool
  | .complete _ _ => c.construction != .batchStarted
  | _ => true

/-- The runs in which it does not. -/
def orderedMachine (Req Rep : Type) [Serializer Req] [Serializer Rep] :
    Machine (UploadClient Req Rep) (Event Req) :=
  (machine Req Rep).guard flagFirst

omit [Serializer Rep] in
/-- Setting the flag establishes the invariant. -/
theorem inv_flagSet {c : UploadClient Req Rep}
    (hsession : c.session = ⟨{ (.create : ClientStreamingCallSession Rep) with
      batchInFlight := true }, false⟩)
    (hpushed : c.requests.pushed = []) (hterm : c.requests.terminal = none) : c.Inv := by
  obtain ⟨session, requests, construction⟩ := c
  obtain ⟨attached, pushed, terminal⟩ := requests
  subst hsession hpushed hterm
  refine ⟨⟨?_, Nat.zero_le 1, ?_, ?_⟩, ?_, rfl, rfl, rfl, fun _ => rfl, fun _ => ⟨rfl, rfl⟩, ?_⟩
  · intro hidle; cases hidle
  · intro hne; exact absurd rfl hne
  · intro hne; exact absurd rfl hne
  · intro hended; cases hended
  · intro hdel; cases hdel

/-- Until the flag is set nothing has happened; afterwards the invariant holds. -/
theorem inv_of_reachable {c : UploadClient Req Rep} (h : (orderedMachine Req Rep).Reachable c) :
    (c.construction = .batchStarted → c = (machine Req Rep).init) ∧
      (c.construction ≠ .batchStarted → c.Inv) := by
  refine Machine.Reachable.guard_invariant (P := fun c : UploadClient Req Rep =>
    (c.construction = .batchStarted → c = (machine Req Rep).init) ∧
      (c.construction ≠ .batchStarted → c.Inv)) ⟨fun _ => rfl, fun hne => absurd rfl hne⟩ ?_ h
  intro c c' e _ hstep hordered ih
  by_cases hfirst : c.construction = .batchStarted
  · obtain rfl := ih.1 hfirst
    cases e with
    | construct =>
        obtain rfl := Option.some.inj hstep
        refine ⟨?_, fun _ => inv_flagSet rfl rfl rfl⟩
        intro hno
        cases hno
    | push req => cases hstep
    | finish t => cases hstep
    | complete i r => cases hordered
  · have hlater := (construction_step hstep hfirst).1
    exact ⟨fun hno => absurd hno hlater, fun _ => inv_step hstep hfirst (ih.2 hfirst)⟩

/-- **A client-streaming call does not stall**, as long as the handshake does not complete before
    the constructor has set `batch_in_flight_`: with nothing outstanding, nothing is queued, and the
    end of an ended stream was sent. -/
theorem upload_never_stalls {c : UploadClient Req Rep} (h : (orderedMachine Req Rep).Reachable c)
    (hreturned : c.construction = .returned) (hquiet : c.session.obj.call.quiet = true) :
    c.session.obj.pendingOps = [] ∧
      (c.session.obj.finished = true → c.session.obj.call.starts isSendEnd ≠ 0) := by
  have hinv := (inv_of_reachable h).2 (by rw [hreturned]; decide)
  cases hdel : c.session.deleted with
  | true =>
      obtain ⟨-, hne, -⟩ := hinv.counts.last_deleted hdel
      exact ⟨hinv.outbox.closed_queue hne, fun _ => hne⟩
  | false =>
      have hgate := hinv.counts.gate_live hdel
      rw [Call.pending_of_quiet hquiet, Call.pending_of_quiet hquiet] at hgate
      have hidle : c.session.obj.batchInFlight = false := Bool.toNat_eq_zero.1 hgate.symm
      exact ⟨hinv.outbox.idle_queue hidle, fun hended => hinv.settled hended hidle⟩

/-- The handshake completes after the constructor, then one request and the end are sent. -/
theorem upload_never_stalls_one_request :
    ∃ c : UploadClient Buffer Buffer, (orderedMachine Buffer Buffer).Reachable c ∧
      c.construction = .returned ∧ c.session.obj.call.quiet = true ∧
      c.session.obj.rep = [.value [7]] ∧ c.session.obj.pendingOps = [] ∧
      (c.session.obj.finished = true → c.session.obj.call.starts isSendEnd ≠ 0) :=
  have hrun : (orderedMachine Buffer Buffer).Reachable _ :=
    Machine.reachable_of_run
      [.construct, .construct, .construct, .push [1], .complete 0 {}, .finish .complete,
        .complete 0 {}, .complete 0 { message := some [7] }] rfl
  ⟨_, hrun, rfl, rfl, rfl, upload_never_stalls hrun rfl rfl⟩

/-- The handshake completes between `grpc_call_start_batch` and the write of `batch_in_flight_`:
    with nothing outstanding, a request stays queued and the end of the stream is never sent. -/
theorem upload_stalled_by_handshake :
    ∃ c : UploadClient Buffer Buffer, (machine Buffer Buffer).Reachable c ∧
      c.construction = .returned ∧ c.session.obj.call.quiet = true ∧
      c.session.obj.pendingOps = [[1]] ∧ c.session.obj.finished = true ∧
      c.session.obj.call.starts isSendEnd = 0 :=
  have hrun : (machine Buffer Buffer).Reachable _ :=
    Machine.reachable_of_run
      [.complete 0 {}, .construct, .construct, .construct, .push [1], .finish .complete] rfl
  ⟨_, hrun, rfl, rfl, rfl, rfl, rfl⟩

/-! ## The stall is exact -/

/-- A session whose handshake completed too early: nothing is outstanding, and once the constructor
    has set the flag nothing clears it. -/
structure Stalled (c : UploadClient Req Rep) : Prop where
  live : c.session.deleted = false
  quiet : c.session.obj.call.quiet = true
  queued : c.session.obj.pendingOps = c.requests.pushed.map serialize
  ended : c.session.obj.finished = c.requests.terminal.isSome
  unsent : c.session.obj.call.starts isSendEnd = 0
  flag : c.construction ≠ .batchStarted → c.session.obj.batchInFlight = true

/-- A handshake that completes before the flag is set stalls the session. -/
theorem stalled_of_early_handshake {c c' : UploadClient Req Rep} {i : ℕ} {r : Received}
    (h : c = (machine Req Rep).init) (hstep : c.step (.complete i r) = some c') : c'.Stalled := by
  subst h
  cases i with
  | zero =>
      obtain rfl := Option.some.inj hstep
      exact ⟨rfl, rfl, rfl, rfl, rfl, fun hne => absurd rfl hne⟩
  | succ i => cases hstep

/-- A stalled session stays stalled. -/
theorem Stalled.step {c c' : UploadClient Req Rep} {e : Event Req} (h : c.Stalled)
    (hstep : c.step e = some c') : c'.Stalled := by
  cases moves_of_step hstep with
  | setFlag hfirst =>
      rw [Live.update_of_live h.live]
      exact ⟨h.live, h.quiet, h.queued, h.ended, h.unsent, fun _ => rfl⟩
  | listen hset =>
      refine ⟨h.live, h.quiet, h.queued, h.ended, h.unsent, fun _ => h.flag ?_⟩
      rw [hset]
      decide
  | leave hlistening =>
      refine ⟨h.live, h.quiet, h.queued, h.ended, h.unsent, fun _ => h.flag ?_⟩
      rw [hlistening]
      decide
  | push hret hopen =>
      -- The request is queued behind a flag that no completion will clear.
      have hbusy := h.flag (by rw [hret]; decide)
      rw [Live.update_of_live h.live]
      simp only [onRequest, ClientStreamingCallSession.flush, hbusy, if_true]
      refine ⟨h.live, h.quiet, ?_, h.ended, h.unsent, fun _ => rfl⟩
      simp [h.queued]
  | finish hret hopen =>
      have hbusy := h.flag (by rw [hret]; decide)
      rw [Live.update_of_live h.live]
      simp only [onRequestsEnd, hbusy, Bool.not_true, Bool.false_eq_true, if_false]
      exact ⟨h.live, h.quiet, h.queued, rfl, h.unsent, fun _ => rfl⟩
  | @complete i r session hwork =>
      obtain ⟨b, hb, -⟩ := Live.workerMain_eq_some hwork
      have hb' : c.session.obj.call.outstanding[i]? = some b := hb
      rw [List.isEmpty_iff.1 h.quiet] at hb'
      cases hb'

omit [Serializer Rep] in
/-- A stalled session owes everything the caller has asked of it. -/
theorem Stalled.owes {c : UploadClient Req Rep} (h : c.Stalled) :
    (c.session.obj.pendingOps = [] ∧
      (c.session.obj.finished = true → c.session.obj.call.starts isSendEnd ≠ 0)) ↔
    c.requests.pushed = [] ∧ c.requests.terminal = none := by
  rw [h.queued, h.ended, h.unsent]
  simp

end UploadClient

end EasyGrpc
