import EasyGrpc.Server.ClientStreaming

set_option autoImplicit false

/-! # Invariants of the server of a client-streaming call

Until the request stream is complete exactly one read is outstanding, so nothing is pushed into it
after its end. What is on the wire is determined by the reply: nothing until `perform` has attached
to it, and then the one answer of `finish`. -/

namespace EasyGrpc

variable {Req Rep : Type}

namespace ClientStreamingCallHandler

open UploadServerBatch

/-- The handler once its `i`-th outstanding batch is no longer outstanding. -/
def done (h : ClientStreamingCallHandler Req) (i : ℕ) : ClientStreamingCallHandler Req :=
  { h with call := h.call.completeAt i }

variable [Serializer Req]

/-- The handler after a request. -/
def afterRequest (h : ClientStreamingCallHandler Req) (i : ℕ) (data : Buffer) :
    ClientStreamingCallHandler Req :=
  { { h.done i with payload := none }.startBatch .recv with
    readerProm := h.readerProm.push (deserialize data) }

/-- The handler after the end of the requests. -/
def afterRequests (h : ClientStreamingCallHandler Req) (i : ℕ) : ClientStreamingCallHandler Req :=
  { h.done i with payload := none, readerProm := h.readerProm.complete }

/-- What a live handler becomes when its `i`-th outstanding batch completes with `r`. -/
def handled (h : ClientStreamingCallHandler Req) (i : ℕ) (r : Received) (b : UploadServerBatch) :
    Live (ClientStreamingCallHandler Req) :=
  if b.isRead then
    match r.message with
    | some data => ⟨h.afterRequest i data, false⟩
    | none => ⟨h.afterRequests i, false⟩
  else ⟨h.done i, true⟩

/-- **What one turn of `worker_main` can do to a handler.** -/
theorem complete_cases {o o' : Live (ClientStreamingCallHandler Req)} {i : ℕ} {r : Received}
    (h : o.workerMain i r = some o') :
    ∃ b, o.obj.call.outstanding[i]? = some b ∧
      ((o.deleted = true ∧ o' = ⟨o.obj.done i, true⟩) ∨
        (o.deleted = false ∧ o' = o.obj.handled i r b)) := by
  obtain ⟨b, hb, hcase⟩ := Live.workerMain_eq_some h
  refine ⟨b, hb, ?_⟩
  rcases hcase with ⟨hdel, rfl⟩ | ⟨hlive, rfl⟩
  · exact Or.inl ⟨hdel, by rw [hdel]; rfl⟩
  · refine Or.inr ⟨hlive, ?_⟩
    cases hmsg : r.message with
    | some data =>
        cases b <;>
          simp [Live.completed, CompletionCallback.exec, CompletionCallback.receive,
            CompletionCallback.setCall, CompletionCallback.call, exec, receive, handled,
            afterRequest, done, startBatch, BatchSpec.flags, isRead, hmsg]
    | none =>
        cases b <;>
          simp [Live.completed, CompletionCallback.exec, CompletionCallback.receive,
            CompletionCallback.setCall, CompletionCallback.call, exec, receive, handled,
            afterRequests, done, BatchSpec.flags, isRead, hmsg]

end ClientStreamingCallHandler

namespace UploadServer

open ClientStreamingCallHandler UploadServerBatch

/-! ## The answer -/

/-- The reply as far as the handler knows it. -/
def answer (c : UploadServer Req Rep) : Option (Except Exception Rep) :=
  if c.attached then c.reply else none

/-- The messages an answer puts on the wire. -/
def answerMessages [Serializer Rep] : Option (Except Exception Rep) → List Buffer
  | some (.ok rep) => [serialize rep]
  | _ => []

/-- The statuses an answer puts on the wire. -/
def answerStatuses : Option (Except Exception Rep) → List (StatusCode × String)
  | none => []
  | some (.ok _) => [(.ok, "")]
  | some (.error e) => [getErrorDetails e]

/-! ## The invariant -/

/-- What ties the request stream of a handler to its reads. -/
structure Counts (h : ClientStreamingCallHandler Req) (deleted reading answered : Bool) :
    Prop where
  /-- The request stream has ended, or one read is in flight. -/
  reads_le : h.call.pending isRead + h.readerProm.terminations.length ≤ reading.toNat
  reads_live : deleted = false →
    h.call.pending isRead + h.readerProm.terminations.length = reading.toNat
  /-- A handler is deleted when its answer completes. -/
  answers_eq : h.call.starts isAnswer = answered.toNat
  answers_le : h.call.pending isAnswer ≤ h.call.starts isAnswer
  deleted_answered : deleted = true → answered = true

structure Inv [Serializer Rep] (c : UploadServer Req Rep) : Prop where
  sent : c.handler.obj.call.sent = answerMessages c.answer
  statuses : c.handler.obj.call.statuses = answerStatuses c.answer
  reader : c.handler.obj.readerProm.Sound
  /-- `perform` attaches to the reply after it has started to read. -/
  order : c.attached = true → c.reading = true
  counts : Counts c.handler.obj c.handler.deleted c.reading c.answer.isSome

theorem pending_done {call : Call UploadServerBatch} {i : ℕ} {b : UploadServerBatch}
    (hb : call.outstanding[i]? = some b) :
    call.pending isRead = (call.completeAt i).pending isRead + (isRead b).toNat ∧
    call.pending isAnswer = (call.completeAt i).pending isAnswer + (isAnswer b).toNat :=
  ⟨Call.pending_completeAt hb _, Call.pending_completeAt hb _⟩

/-- Without an answer the handler still exists. -/
theorem Inv.live_of_unanswered [Serializer Rep] {c : UploadServer Req Rep} (h : c.Inv)
    (hnone : c.answer = none) : c.handler.deleted = false := by
  cases hdel : c.handler.deleted with
  | false => rfl
  | true =>
      have hanswered := h.counts.deleted_answered hdel
      rw [hnone] at hanswered
      cases hanswered

/-- A read in flight keeps the request stream open. -/
theorem Inv.reader_open [Serializer Rep] {c : UploadServer Req Rep} (h : c.Inv) {i : ℕ}
    {b : UploadServerBatch} (hb : c.handler.obj.call.outstanding[i]? = some b)
    (hread : b.isRead = true) : c.handler.obj.readerProm.storage = true := by
  have hpos := Call.pending_pos hb (p := isRead) hread
  have hle := h.counts.reads_le
  have hone := Bool.toNat_le c.reading
  exact h.reader.storage_of_none (by omega)

/-! ## What each operation does to the counts -/

section Counts

variable {h : ClientStreamingCallHandler Req} {deleted reading answered : Bool} {i : ℕ}
  {b : UploadServerBatch}

theorem Counts.startFirst (hc : Counts h false false answered) :
    Counts (h.startBatch .first) false true answered := by
  obtain ⟨h1, h2, h3, h4, h5⟩ := hc
  have hreads := h2 rfl
  constructor <;>
    simp only [startBatch, Call.pending_startBatch, Call.starts_startBatch, isAnswer, isRead,
      Bool.not_true, Bool.toNat_true, Bool.toNat_false, true_implies] at * <;>
    omega

theorem Counts.startAnswer (hc : Counts h false reading false) (hb : b.isAnswer = true) :
    Counts (h.startBatch b) false reading true := by
  obtain ⟨h1, h2, h3, h4, -⟩ := hc
  have hread : b.isRead = false := by simpa [isAnswer] using hb
  constructor <;>
    simp only [startBatch, Call.pending_startBatch, Call.starts_startBatch, hb, hread,
      Bool.toNat_true, Bool.toNat_false, true_implies] at * <;>
    first | omega | exact fun _ => trivial

/-- The answer completes and the handler is deleted, or a batch of a deleted handler completes. -/
theorem Counts.done (hc : Counts h deleted reading answered)
    (hb : h.call.outstanding[i]? = some b) (hcase : deleted = true ∨ b.isAnswer = true) :
    Counts (h.done i) true reading answered := by
  obtain ⟨hR, hA⟩ := pending_done hb
  obtain ⟨h1, -, h3, h4, h5⟩ := hc
  have hanswered : answered = true := by
    rcases hcase with hdel | hans
    · exact h5 hdel
    · have hle := Bool.toNat_le answered
      rw [hans, Bool.toNat_true] at hA
      exact Bool.toNat_eq_one.1 (by omega)
  refine ⟨?_, ?_, h3, ?_, fun _ => hanswered⟩
  · show (h.call.completeAt i).pending isRead + h.readerProm.terminations.length ≤ reading.toNat
    omega
  · intro hno
    cases hno
  · show (h.call.completeAt i).pending isAnswer ≤ h.call.starts isAnswer
    omega

/-- A null buffer is read: the end of the request stream takes the place of the read. -/
theorem Counts.requestsEnd (hc : Counts h false reading answered)
    (hb : h.call.outstanding[i]? = some b) (hread : b.isRead = true) :
    Counts (h.afterRequests i) false reading answered := by
  obtain ⟨hR, hA⟩ := pending_done hb
  have hans : b.isAnswer = false := by simp [isAnswer, hread]
  obtain ⟨h1, h2, h3, h4, h5⟩ := hc
  have hreads := h2 rfl
  rw [hread, Bool.toNat_true] at hR
  rw [hans, Bool.toNat_false] at hA
  constructor <;>
    simp only [afterRequests, ClientStreamingCallHandler.done, Call.starts_completeAt,
      StreamPromise.complete, StreamPromise.length_terminations_finish, true_implies] at * <;>
    omega

variable [Serializer Req]

/-- A request is read: the next read takes the place of the one that has completed. -/
theorem Counts.request (hc : Counts h false reading answered)
    (hb : h.call.outstanding[i]? = some b) (hread : b.isRead = true) (data : Buffer) :
    Counts (h.afterRequest i data) false reading answered := by
  obtain ⟨hR, hA⟩ := pending_done hb
  have hans : b.isAnswer = false := by simp [isAnswer, hread]
  obtain ⟨h1, h2, h3, h4, h5⟩ := hc
  have hreads := h2 rfl
  rw [hread, Bool.toNat_true] at hR
  rw [hans, Bool.toNat_false] at hA
  constructor <;>
    simp only [afterRequest, startBatch, ClientStreamingCallHandler.done, Call.pending_startBatch,
      Call.starts_startBatch, Call.starts_completeAt, StreamPromise.terminations_push, isAnswer,
      isRead, Bool.not_true, Bool.toNat_true, Bool.toNat_false, true_implies] at * <;>
    omega

end Counts

/-- A read puts nothing on the wire. -/
theorem startBatch_read (h : ClientStreamingCallHandler Req) {b : UploadServerBatch}
    (hread : b.isRead = true) : (h.startBatch b).call.sent = h.call.sent ∧
      (h.startBatch b).call.statuses = h.call.statuses := by
  cases b with
  | first => simp [startBatch, Call.sent, Call.statuses, Call.ops_startBatch, BatchSpec.ops,
      List.filterMap_cons, Op.message?, Op.status?]
  | recv => simp [startBatch, Call.sent, Call.statuses, Call.ops_startBatch, BatchSpec.ops,
      List.filterMap_cons, Op.message?, Op.status?]
  | response m => cases hread
  | failure status details => cases hread

variable [Serializer Req] [Serializer Rep]

/-! ## The steps, with what each requires -/

/-- One constructor for each step that `step` can take. -/
inductive Moves (c : UploadServer Req Rep) : Event Rep → UploadServer Req Rep → Prop
  | reply {o : Except Exception Rep} (hnone : c.reply = none) : Moves c (.reply o) { c with
      reply := some o
      handler := if c.attached then c.handler.update (·.finish o) else c.handler }
  | startReading (hreading : c.reading = false) : Moves c .startReading { c with
      reading := true, handler := c.handler.update (·.startBatch .first) }
  | attach (hreading : c.reading = true) (hatt : c.attached = false) : Moves c .attach { c with
      attached := true
      handler := match c.reply with
        | some o => c.handler.update (·.finish o)
        | none => c.handler }
  | complete {i : ℕ} {r : Received} {handler : Live (ClientStreamingCallHandler Req)}
      (hwork : c.handler.workerMain i r = some handler) : Moves c (.complete i r) { c with handler }

/-- **What one step of a handler, the user's handler and `perform` can do.** -/
theorem moves_of_step {c c' : UploadServer Req Rep} {e : Event Rep} (hstep : c.step e = some c') :
    Moves c e c' := by
  cases e with
  | reply o =>
      simp only [step] at hstep
      split at hstep
      · cases hstep
      · next hopen =>
          obtain rfl := Option.some.inj hstep
          exact .reply (by simpa using hopen)
  | startReading =>
      simp only [step] at hstep
      split at hstep
      · cases hstep
      · next hnot =>
          obtain rfl := Option.some.inj hstep
          exact .startReading (by simpa using hnot)
  | attach =>
      simp only [step] at hstep
      split at hstep
      · next hready =>
          simp only [Bool.and_eq_true, Bool.not_eq_true'] at hready
          obtain rfl := Option.some.inj hstep
          exact .attach hready.1 hready.2
      · cases hstep
  | complete i r =>
      obtain ⟨handler, hwork, rfl⟩ := Option.map_eq_some_iff.1 hstep
      exact .complete hwork

/-! ## Every step keeps the invariant -/

omit [Serializer Req] in
/-- `finish` puts the answer on the wire. -/
theorem Inv.answered {c : UploadServer Req Rep} (h : c.Inv) (hnone : c.answer = none)
    (hreading : c.reading = true) (o : Except Exception Rep) :
    Inv { c with
      reply := some o, attached := true, handler := c.handler.update (·.finish o) } := by
  have hlive := h.live_of_unanswered hnone
  have hcounts := h.counts
  have hsent := h.sent
  have hstatuses := h.statuses
  rw [hnone] at hcounts hsent hstatuses
  rw [hlive] at hcounts
  rw [Live.update_of_live hlive, hlive]
  cases o with
  | ok rep =>
      refine ⟨?_, ?_, h.reader, fun _ => hreading, hcounts.startAnswer rfl⟩
      · simp [finish, sendUnaryResponse, startBatch, Call.sent_startBatch, hsent, BatchSpec.ops,
          List.filterMap_cons, Op.message?, answer, answerMessages]
      · simp [finish, sendUnaryResponse, startBatch, Call.statuses_startBatch, hstatuses,
          BatchSpec.ops, List.filterMap_cons, Op.status?, answer, answerStatuses]
  | error e =>
      refine ⟨?_, ?_, h.reader, fun _ => hreading, hcounts.startAnswer rfl⟩
      · simp [finish, sendFailure, startBatch, Call.sent_startBatch, hsent, BatchSpec.ops,
          List.filterMap_cons, Op.message?, answer, answerMessages]
      · simp [finish, sendFailure, startBatch, Call.statuses_startBatch, hstatuses,
          BatchSpec.ops, List.filterMap_cons, Op.status?, answer, answerStatuses]

theorem inv_complete {c : UploadServer Req Rep} {i : ℕ} {r : Received}
    {handler : Live (ClientStreamingCallHandler Req)}
    (hwork : c.handler.workerMain i r = some handler) (h : c.Inv) : Inv { c with handler } := by
  obtain ⟨b, hb, ⟨hdel, rfl⟩ | ⟨hlive, rfl⟩⟩ := complete_cases hwork
  · exact ⟨h.sent, h.statuses, h.reader, h.order, h.counts.done hb (Or.inl hdel)⟩
  · cases hread : b.isRead with
    | false =>
        have hanswer : b.isAnswer = true := by simp [isAnswer, hread]
        simp only [handled, hread, Bool.false_eq_true, if_false]
        exact ⟨h.sent, h.statuses, h.reader, h.order, h.counts.done hb (Or.inr hanswer)⟩
    | true =>
        have hopen := h.reader_open hb hread
        have hcounts := h.counts
        rw [hlive] at hcounts
        simp only [handled, hread, if_true]
        cases hmsg : r.message with
        | some data =>
            obtain ⟨hsent, hstatuses⟩ :=
              startBatch_read { c.handler.obj.done i with payload := none } (b := .recv) rfl
            exact ⟨hsent.trans h.sent, hstatuses.trans h.statuses, h.reader.push hopen _, h.order,
              hcounts.request hb hread data⟩
        | none =>
            exact ⟨h.sent, h.statuses, h.reader.finish hopen _, h.order,
              hcounts.requestsEnd hb hread⟩

omit [Serializer Req] in
/-- As long as the handler does not know of a new answer, nothing else of `perform` and of the
    user's handler is seen on the wire. -/
theorem Inv.unseen {c c' : UploadServer Req Rep} (h : c.Inv) (hhandler : c'.handler = c.handler)
    (hreading : c'.reading = c.reading) (hanswer : c'.answer = c.answer)
    (horder : c'.attached = true → c'.reading = true) : c'.Inv := by
  refine ⟨?_, ?_, ?_, horder, ?_⟩
  · rw [hhandler, hanswer]
    exact h.sent
  · rw [hhandler, hanswer]
    exact h.statuses
  · rw [hhandler]
    exact h.reader
  · rw [hhandler, hreading, hanswer]
    exact h.counts

theorem inv_step {c c' : UploadServer Req Rep} {e : Event Rep}
    (hstep : (machine Req Rep).step c e = some c') (h : c.Inv) : c'.Inv := by
  cases moves_of_step hstep with
  | @reply o hreply =>
      cases hatt : c.attached with
      | true =>
          have hnone : c.answer = none := by simp [answer, hreply]
          simpa [hatt] using h.answered hnone (h.order hatt) o
      | false =>
          refine h.unseen rfl rfl (by simp [answer, hatt]) ?_
          intro hno
          cases hno
  | startReading hreading =>
      -- `perform` attaches later, so nothing was answered and the handler still exists.
      have hunattached : c.attached = false := by
        by_contra hatt
        have hno := h.order (by simpa using hatt)
        rw [hreading] at hno
        cases hno
      have hlive := h.live_of_unanswered (by simp [answer, hunattached])
      have hcounts := h.counts
      rw [hlive, hreading] at hcounts
      obtain ⟨hsent, hstatuses⟩ := startBatch_read c.handler.obj (b := .first) rfl
      rw [Live.update_of_live hlive, hlive]
      exact ⟨hsent.trans h.sent, hstatuses.trans h.statuses, h.reader, fun _ => rfl,
        hcounts.startFirst⟩
  | attach hreading hatt =>
      have hnone : c.answer = none := by simp [answer, hatt]
      cases hreply : c.reply with
      | some o => exact h.answered hnone hreading o
      | none => exact h.unseen rfl rfl (by simp [answer, hreply]) (fun _ => hreading)
  | complete hwork => exact inv_complete hwork h

theorem inv_init : ((machine Req Rep).init).Inv := by
  refine ⟨rfl, rfl, .fresh, ?_, Nat.le_refl 0, fun _ => rfl, rfl, Nat.le_refl 0, ?_⟩
  · intro hno; cases hno
  · intro hno; cases hno

/-- The invariant holds in every reachable state, in whatever order the batches complete. -/
theorem inv_of_reachable {c : UploadServer Req Rep} (h : (machine Req Rep).Reachable c) : c.Inv :=
  h.invariant inv_init inv_step

/-! ## What a step does to the answer and to the request stream -/

/-- An answer is final. -/
theorem answer_step {c c' : UploadServer Req Rep} {e : Event Rep} (hstep : c.step e = some c')
    {o : Except Exception Rep} (h : c.answer = some o) : c'.answer = some o := by
  have hatt : c.attached = true := by
    by_contra hno
    simp [answer, hno] at h
  have hreply : c.reply = some o := by simpa [answer, hatt] using h
  cases moves_of_step hstep with
  | reply hnone =>
      rw [hreply] at hnone
      cases hnone
  | startReading hreading => exact h
  | attach hreading hunattached =>
      rw [hatt] at hunattached
      cases hunattached
  | complete hwork => exact h

omit [Serializer Req] in
theorem readerProm_finish (h : ClientStreamingCallHandler Req) (o : Except Exception Rep) :
    (h.finish o).readerProm = h.readerProm := by
  cases o <;> rfl

/-- The request stream after an enabled step: it is left alone, a request is pushed, or it is
    completed. -/
theorem reader_step {c c' : UploadServer Req Rep} {e : Event Rep} (hstep : c.step e = some c') :
    (c'.handler.obj.readerProm = c.handler.obj.readerProm ∧
      (c.handler.deleted = true → c'.handler.deleted = true) ∧
      ∀ i r, e = .complete i r → c.handler.deleted = true ∨
        ∃ b, c.handler.obj.call.outstanding[i]? = some b ∧ b.isRead = false) ∨
    (∃ i r b, e = .complete i r ∧ c.handler.deleted = false ∧ c'.handler.deleted = false ∧
      c.handler.obj.call.outstanding[i]? = some b ∧ b.isRead = true ∧
      ((∃ data, r.message = some data ∧
          c'.handler.obj.readerProm = c.handler.obj.readerProm.push (deserialize data)) ∨
        (r.message = none ∧
          c'.handler.obj.readerProm = c.handler.obj.readerProm.complete))) := by
  let P : ClientStreamingCallHandler Req → Prop := fun h =>
    h.readerProm = c.handler.obj.readerProm
  cases moves_of_step hstep with
  | @reply o hnone =>
      refine Or.inl ⟨?_, ?_, by simp⟩
      · dsimp only
        split
        · exact Live.update_obj (P := P) rfl (readerProm_finish _ o)
        · rfl
      · dsimp only
        split <;> simp
  | startReading hreading => exact Or.inl ⟨Live.update_obj (P := P) rfl rfl, by simp, by simp⟩
  | attach hreading hatt =>
      refine Or.inl ⟨?_, ?_, by simp⟩
      · dsimp only
        split
        · exact Live.update_obj (P := P) rfl (readerProm_finish _ _)
        · rfl
      · dsimp only
        split <;> simp
  | @complete i r handler hwork =>
      obtain ⟨b, hb, ⟨hdel, rfl⟩ | ⟨hlive, rfl⟩⟩ := complete_cases hwork
      · exact Or.inl ⟨rfl, fun _ => rfl, fun _ _ _ => Or.inl hdel⟩
      · cases hread : b.isRead with
        | false =>
            simp only [handled, hread, Bool.false_eq_true, if_false]
            refine Or.inl ⟨rfl, fun _ => trivial, ?_⟩
            rintro j q ⟨rfl, rfl⟩
            exact Or.inr ⟨b, hb, hread⟩
        | true =>
            refine Or.inr ⟨i, r, b, rfl, hlive, ?_, hb, hread, ?_⟩
            · simp only [handled, hread, if_true]
              split <;> rfl
            · cases hmsg : r.message with
              | some data =>
                  refine Or.inl ⟨data, rfl, ?_⟩
                  simp only [handled, hread, if_true, hmsg]
                  rfl
              | none =>
                  refine Or.inr ⟨rfl, ?_⟩
                  simp only [handled, hread, if_true, hmsg]
                  rfl

end UploadServer

end EasyGrpc
