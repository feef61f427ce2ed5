import EasyGrpc.Server.Proofs.ClientStreaming
import EasyGrpc.Server.Proofs.BidirProgress

set_option autoImplicit false

/-! # A handler that replies while it is still reading

Only the reply decides when a handler is deleted. As long as the last batch of the reply completes
with no read outstanding, the handler is deleted once and nothing is left that carries its tag. A
reply that comes before the end of the requests frees a handler with a read in flight. -/

namespace EasyGrpc

variable {Req Rep κ : Type}

/-- A handler is deleted once nothing of it is outstanding, and is deleted then if it has
    replied. -/
structure DiesClean (deleted : Bool) (call : Call κ) (replied : Prop) : Prop where
  /-- `exec` has returned true: no batch is outstanding, so it does not run again. -/
  clean : deleted = true → call.outstanding = []
  /-- The reply was given and no batch is outstanding: `exec` has returned true. -/
  dies : replied → call.quiet = true → deleted = true

/-! ## Batches that have not completed yet -/

/-- Every batch of the kind `p` that was started is still outstanding. -/
def Call.AllPending (call : Call κ) (p : κ → Bool) : Prop := call.pending p = call.starts p

theorem Call.AllPending.startBatch {call : Call κ} {p : κ → Bool} (h : call.AllPending p) (b : κ) :
    (call.startBatch b).AllPending p := by
  unfold Call.AllPending at h ⊢
  rw [Call.pending_startBatch, Call.starts_startBatch, h]

theorem Call.AllPending.completeAt {call : Call κ} {p : κ → Bool} (h : call.AllPending p) {i : ℕ}
    {b : κ} (hb : call.outstanding[i]? = some b) (hp : p b = false) :
    (call.completeAt i).AllPending p := by
  unfold Call.AllPending at h ⊢
  have hdone := Call.pending_completeAt hb p
  rw [hp, Bool.toNat_false] at hdone
  rw [Call.starts_completeAt, ← h]
  omega

/-- With nothing outstanding, no batch of the kind was started. -/
theorem Call.AllPending.starts_of_quiet {call : Call κ} {p : κ → Bool} (h : call.AllPending p)
    (hquiet : call.quiet = true) : call.starts p = 0 := by
  rw [← h]
  exact Call.pending_of_quiet hquiet p

/-! ## The client-streaming handler -/

namespace UploadServer

open ClientStreamingCallHandler UploadServerBatch

/-- The answer of a handler that still exists completes while a read is outstanding. -/
def answersWhileReading (c : UploadServer Req Rep) : Event Rep → Bool
  | .complete i _ => !c.handler.deleted && c.handler.obj.call.outstanding[i]?.any isAnswer &&
      c.handler.obj.call.pending isRead != 0
  | _ => false

/-- Every batch reads or answers. -/
theorem length_outstanding (call : Call UploadServerBatch) :
    call.outstanding.length = call.pending isRead + call.pending isAnswer := by
  rw [call.length_outstanding [isRead, isAnswer] (by intro b; cases b <;> rfl)]
  simp

variable [Serializer Req] [Serializer Rep]

omit [Serializer Req] in
theorem finish_eq_startBatch (h : ClientStreamingCallHandler Req) (o : Except Exception Rep) :
    ∃ b, h.finish o = h.startBatch b := by
  cases o with
  | ok rep => exact ⟨_, rfl⟩
  | error e => exact ⟨_, rfl⟩

omit [Serializer Req] in
theorem update_finish (o : Live (ClientStreamingCallHandler Req)) (rep : Except Exception Rep) :
    ∃ b, o.update (·.finish rep) = o.update (·.startBatch b) := by
  obtain ⟨b, hb⟩ := finish_eq_startBatch o.obj rep
  exact ⟨b, by simp only [Live.update, hb]⟩

/-- `perform` and the user's handler start at most one batch at a time. -/
theorem user_step {c c' : UploadServer Req Rep} {e : Event Rep} (hstep : c.step e = some c')
    (huser : ∀ i r, e ≠ .complete i r) :
    c'.handler = c.handler ∨ ∃ b, c'.handler = c.handler.update (·.startBatch b) := by
  cases moves_of_step hstep with
  | @reply o hnone =>
      dsimp only
      split
      · exact Or.inr (update_finish c.handler o)
      · exact Or.inl rfl
  | startReading hreading => exact Or.inr ⟨_, rfl⟩
  | attach hreading hatt =>
      dsimp only
      split
      · exact Or.inr (update_finish c.handler _)
      · exact Or.inl rfl
  | complete hwork => exact absurd rfl (huser _ _)

/-- The answer of a handler that exists is in flight. -/
theorem allPending_of_live {c : UploadServer Req Rep} (h : (machine Req Rep).Reachable c)
    (hlive : c.handler.deleted = false) : c.handler.obj.call.AllPending isAnswer := by
  refine Machine.Reachable.invariant
    (P := fun c : UploadServer Req Rep => c.handler.deleted = false →
      c.handler.obj.call.AllPending isAnswer) (by intro _; rfl) ?_ h hlive
  intro c c' e hstep ih hlive'
  by_cases huser : ∀ i r, e ≠ .complete i r
  · rcases user_step hstep huser with hsame | ⟨b, hstart⟩
    · rw [hsame] at hlive' ⊢
      exact ih hlive'
    · rw [hstart, Live.deleted_update] at hlive'
      rw [hstart, Live.update_of_live hlive']
      exact (ih hlive').startBatch b
  · push Not at huser
    obtain ⟨i, r, rfl⟩ := huser
    obtain ⟨handler, hwork, rfl⟩ := Option.map_eq_some_iff.1 hstep
    obtain ⟨b, hb, ⟨hdel, rfl⟩ | ⟨hlive, rfl⟩⟩ := complete_cases hwork
    · cases hlive'
    · by_cases hread : b.isRead
      · have hdone := (ih hlive).completeAt hb (p := isAnswer) (by simp [isAnswer, hread])
        simp only [handled, hread, if_true]
        split
        · exact hdone.startBatch _
        · exact hdone
      · simp only [handled, hread, Bool.false_eq_true, if_false] at hlive'
        cases hlive'

/-- A handler that has answered and has nothing outstanding was deleted. -/
theorem deleted_of_quiet {c : UploadServer Req Rep} (h : (machine Req Rep).Reachable c)
    (hanswered : c.answer.isSome = true) (hquiet : c.handler.obj.call.quiet = true) :
    c.handler.deleted = true := by
  by_contra hlive
  have hstarts := (allPending_of_live h (by simpa using hlive)).starts_of_quiet hquiet
  rw [(inv_of_reachable h).counts.answers_eq, hanswered] at hstarts
  cases hstarts

omit [Serializer Req] in
/-- Once the answer completes with no read outstanding, nothing is. -/
theorem outstanding_of_answered {c : UploadServer Req Rep} (h : c.Inv) {i : ℕ}
    {b : UploadServerBatch} (hb : c.handler.obj.call.outstanding[i]? = some b)
    (hans : b.isAnswer = true) (hread : c.handler.obj.call.pending isRead = 0) :
    (c.handler.obj.call.completeAt i).outstanding = [] := by
  obtain ⟨hR, hA⟩ := pending_done hb
  have hlen := length_outstanding (c.handler.obj.call.completeAt i)
  have heq := h.counts.answers_eq
  have hle := h.counts.answers_le
  have hone := Bool.toNat_le c.answer.isSome
  rw [hans, Bool.toNat_true] at hA
  exact List.length_eq_zero_iff.1 (by omega)

/-- As long as no answer completes while a read is outstanding, a deleted handler has nothing
    outstanding. -/
theorem outstanding_of_deleted {c : UploadServer Req Rep}
    (h : ((machine Req Rep).guard (fun c e => !c.answersWhileReading e)).Reachable c)
    (hdel : c.handler.deleted = true) : c.handler.obj.call.outstanding = [] := by
  refine Machine.Reachable.guard_invariant
    (P := fun c => c.handler.deleted = true → c.handler.obj.call.outstanding = []) ?_ ?_ h hdel
  · intro hno
    cases hno
  · intro c c' e hreach hstep hguard ih hdel'
    by_cases huser : ∀ i r, e ≠ .complete i r
    · rcases user_step hstep huser with hsame | ⟨b, hstart⟩
      · rw [hsame] at hdel' ⊢
        exact ih hdel'
      · rw [hstart, Live.deleted_update] at hdel'
        rw [hstart, Live.update_of_deleted hdel']
        exact ih hdel'
    · push Not at huser
      obtain ⟨i, r, rfl⟩ := huser
      obtain ⟨handler, hwork, rfl⟩ := Option.map_eq_some_iff.1 hstep
      obtain ⟨b, hb, ⟨hdel, rfl⟩ | ⟨hlive, rfl⟩⟩ := complete_cases hwork
      · simp [ih hdel] at hb
      · by_cases hread : b.isRead
        · simp only [handled, hread, if_true] at hdel'
          split at hdel' <;> cases hdel'
        · have hans : b.isAnswer = true := by simp [isAnswer, hread]
          simp only [handled, hread, Bool.false_eq_true, if_false]
          refine outstanding_of_answered (inv_of_reachable hreach) hb hans ?_
          simpa [answersWhileReading, hlive, hb, hans] using hguard

/-- An answer that completes while a read is outstanding deletes the handler and leaves the read. -/
theorem answersWhileReading_frees {c c' : UploadServer Req Rep} {e : Event Rep}
    (hstep : (machine Req Rep).step c e = some c') (hearly : c.answersWhileReading e = true) :
    c'.handler.deleted = true ∧ c'.handler.obj.call.pending isRead ≠ 0 := by
  cases moves_of_step hstep with
  | reply hnone => cases hearly
  | startReading hreading => cases hearly
  | attach hreading hatt => cases hearly
  | @complete i r handler hwork =>
      obtain ⟨b, hb, hcase⟩ := complete_cases hwork
      simp only [answersWhileReading, hb, Option.any_some, Bool.and_eq_true, Bool.not_eq_true',
        bne_iff_ne] at hearly
      obtain ⟨⟨hlive, hans⟩, hpos⟩ := hearly
      have hread : b.isRead = false := by simpa [isAnswer] using hans
      rcases hcase with ⟨hdel, -⟩ | ⟨-, rfl⟩
      · rw [hlive] at hdel
        cases hdel
      · have hR := (pending_done hb).1
        rw [hread, Bool.toNat_false] at hR
        simp only [handled, hread, Bool.false_eq_true, if_false]
        exact ⟨trivial, fun hzero => hpos (hR.trans hzero)⟩

end UploadServer

/-! ## The bidirectional handler -/

namespace BidirServer

open BidirStreamingCallHandler BidirServerBatch

/-- The end of the replies of a handler that still exists completes while a read is outstanding. -/
def endsWhileReading (c : BidirServer Req Rep) : Event Rep → Bool
  | .complete i _ => !c.handler.deleted &&
      c.handler.obj.call.outstanding[i]? == some .serverEnd &&
      c.handler.obj.call.pending isRecv != 0
  | _ => false

/-- The reply stream does not fail. -/
def endsNormally : Event Rep → Bool
  | .finish t => t.isComplete
  | _ => true

/-- The reply stream has completed, and `perform` has done its part. -/
def Replied (c : BidirServer Req Rep) : Prop :=
  c.replies.attached = true ∧ c.replies.terminal = some .complete ∧
    c.handler.obj.call.starts isHandshake = 1

/-- Every batch is of one of the five kinds. -/
theorem length_outstanding (call : Call BidirServerBatch) :
    call.outstanding.length = call.pending isHandshake + call.pending isSend + call.pending isRecv
      + call.pending isServerEnd + call.pending isFail := by
  rw [call.length_outstanding [isHandshake, isSend, isRecv, isServerEnd, isFail]
    (by intro b; cases b <;> rfl)]
  simp [Nat.add_assoc]

section Starts

variable {Q : Call BidirServerBatch → Prop} {h : BidirStreamingCallHandler Req}

/-! What starting a batch keeps, every operation of a handler keeps. -/

theorem call_flush (hstart : ∀ call b, Q call → Q (call.startBatch b)) (hq : Q h.call) :
    Q h.flush.call := by
  unfold BidirStreamingCallHandler.flush
  split
  · exact hq
  · split
    · exact hq
    · exact hstart _ _ hq

theorem call_onRepliesEnd (hstart : ∀ call b, Q call → Q (call.startBatch b)) (hq : Q h.call)
    (t : StreamEnd) : Q (h.onRepliesEnd t).call := by
  cases t with
  | complete =>
      simp only [onRepliesEnd, BidirStreamingCallHandler.finish]
      split
      · exact hstart _ _ hq
      · exact hq
  | failed e => exact hstart _ _ hq

theorem call_handled [Serializer Req] (hstart : ∀ call b, Q call → Q (call.startBatch b)) {i : ℕ}
    (hq : Q (h.call.completeAt i)) (r : Received) (b : BidirServerBatch) :
    Q (h.handled i r b).obj.call := by
  cases b with
  | handshake =>
      refine hstart _ _ ?_
      unfold openGate
      split
      · exact call_flush hstart hq
      · exact hq
  | send m =>
      simp only [handled, afterSend]
      split
      · exact call_flush hstart hq
      · split
        · exact hstart _ _ hq
        · exact hq
  | recv =>
      simp only [handled]
      split
      · exact hstart _ _ hq
      · exact hq
  | serverEnd => exact hq
  | fail => exact hq

end Starts

variable [Serializer Req] [Serializer Rep]

/-- What starting a batch keeps and the completion of one keeps as long as the handler exists
    afterwards, holds of every handler that exists. -/
theorem call_of_live {Q : Call BidirServerBatch → Prop} (hnil : Q {})
    (hstart : ∀ call b, Q call → Q (call.startBatch b))
    (hdone : ∀ call i b, call.outstanding[i]? = some b → b ≠ .serverEnd → Q call →
      Q (call.completeAt i))
    {c : BidirServer Req Rep} (h : (machine Req Rep).Reachable c)
    (hlive : c.handler.deleted = false) : Q c.handler.obj.call := by
  refine Machine.Reachable.invariant
    (P := fun c : BidirServer Req Rep => c.handler.deleted = false → Q c.handler.obj.call)
    (fun _ => hnil) ?_ h hlive
  intro c c' e hstep ih hlive'
  by_cases huser : ∀ i r, e ≠ .complete i r
  · have hkeep := user_step hstep huser (P := fun o => c.handler.deleted = false → Q o.call) ih
      (fun o rep ho hl => call_flush hstart (ho hl))
      (fun o t ho hl => call_onRepliesEnd hstart (ho hl) t)
      (fun o ho hl => hstart _ _ (ho hl))
    rw [hkeep.2] at hlive'
    exact hkeep.1 hlive'
  · push Not at huser
    obtain ⟨i, r, rfl⟩ := huser
    obtain ⟨handler, hwork, rfl⟩ := Option.map_eq_some_iff.1 hstep
    obtain ⟨b, hb, ⟨hdel, rfl⟩ | ⟨hlive, rfl⟩⟩ := complete_cases hwork
    · cases hlive'
    · refine call_handled hstart (hdone _ i b hb ?_ (ih hlive)) r b
      rintro rfl
      cases hlive'

/-- The end of the replies of a handler that exists is in flight. -/
theorem allPending_of_live {c : BidirServer Req Rep} (h : (machine Req Rep).Reachable c)
    (hlive : c.handler.deleted = false) : c.handler.obj.call.AllPending isServerEnd := by
  refine call_of_live (Q := fun call => call.AllPending isServerEnd) rfl
    (fun call b hq => hq.startBatch b) ?_ h hlive
  intro call i b hb hne hq
  refine hq.completeAt hb ?_
  cases b <;> simp_all [isServerEnd]

theorem fail_le_of_live {c : BidirServer Req Rep} (h : (machine Req Rep).Reachable c)
    (hlive : c.handler.deleted = false) :
    c.handler.obj.call.pending isFail ≤ c.handler.obj.call.starts isFail := by
  refine call_of_live (Q := fun call => call.pending isFail ≤ call.starts isFail) (Nat.le_refl 0)
    ?_ ?_ h hlive
  · intro call b hq
    rw [Call.pending_startBatch, Call.starts_startBatch]
    omega
  · intro call i b hb _ hq
    have hdone := Call.pending_completeAt hb isFail
    rw [Call.starts_completeAt]
    omega

/-- The steps of a run in which every reply stream completes, no handshake comes too late and no end
    of the replies completes while a read is outstanding. -/
def repliesInTurn (c : BidirServer Req Rep) (e : Event Rep) : Bool :=
  endsNormally e && !c.handshakeAfterEnd e && !c.endsWhileReading e

theorem handler_of_deleted {c c' : BidirServer Req Rep} {e : Event Rep} (hstep : c.step e = some c')
    (huser : ∀ i r, e ≠ .complete i r) (hdel : c.handler.deleted = true) :
    c'.handler = c.handler := by
  cases moves_of_step hstep with
  | push hopen => simp only [Live.update_of_deleted hdel, ite_self]
  | finish hopen => simp only [Live.update_of_deleted hdel, ite_self]
  | attach hatt => exact Live.update_of_deleted hdel _
  | startHandshake hatt hnone => simp only [Live.update_of_deleted hdel]
  | complete hwork => exact absurd rfl (huser _ _)

/-- A handler that has replied and has nothing outstanding was deleted, unless its handshake came
    too late. -/
theorem deleted_of_quiet {c : BidirServer Req Rep}
    (h : ((machine Req Rep).guard (fun c e => !c.handshakeAfterEnd e)).Reachable c)
    (hreplied : c.Replied) (hquiet : c.handler.obj.call.quiet = true) :
    c.handler.deleted = true := by
  have hinv := inv_of_reachable h.of_guard
  obtain ⟨hatt, hterm, hshaken⟩ := hreplied
  by_contra hno
  have hlive : c.handler.deleted = false := by simpa using hno
  have hnone := (allPending_of_live h.of_guard hlive).starts_of_quiet hquiet
  have hside := hinv.counts.sendSide_live (by simp [hlive])
  rw [Call.pending_of_quiet hquiet, Call.pending_of_quiet hquiet, hshaken] at hside
  have hidle : c.handler.obj.toOutbox.busy = false := by
    simp [toOutbox, Bool.toNat_eq_one.1 (by omega : c.handler.obj.readyToSend.toNat = 1)]
  have hended : c.handler.obj.toOutbox.ended = true := by
    rw [hinv.feeds.ended, hatt, hterm]
    rfl
  exact settled_of_guard h hended hidle hnone

/-- Once the end of the replies completes with no read outstanding, nothing is. -/
theorem outstanding_of_ended {c : BidirServer Req Rep} (hreach : (machine Req Rep).Reachable c)
    (hlive : c.handler.deleted = false) {i : ℕ}
    (hb : c.handler.obj.call.outstanding[i]? = some .serverEnd)
    (hread : c.handler.obj.call.pending isRecv = 0) :
    (c.handler.obj.call.completeAt i).outstanding = [] := by
  have hinv := inv_of_reachable hreach
  have hpos := Call.pending_pos hb (p := isServerEnd) rfl
  have hle := hinv.counts.serverEnd_le
  have hclosed : c.handler.obj.toOutbox.closes ≠ 0 := by
    show c.handler.obj.call.starts isServerEnd ≠ 0
    omega
  -- An announced end finds the gate open, so no send is in flight; and the stream did not fail.
  have hready : c.handler.obj.readyToSend = true := by
    simpa [toOutbox] using hinv.feeds.outbox.closed_idle hclosed
  have hends : c.handler.obj.call.starts isServerEnd ≤ 1 := hinv.feeds.outbox.closes_le
  have hfail : c.handler.obj.call.starts isFail = 0 := by
    rw [hinv.failed, (hinv.feeds.closed hclosed).2.1]
    simp [StreamEnd.isFailed]
  have hfailed := fail_le_of_live hreach hlive
  have hside := hinv.counts.sendSide_le
  have hone := hinv.counts.handshake_le
  obtain ⟨hH, hS, hR, hE⟩ := pending_done hb
  have hF := Call.pending_completeAt hb isFail
  have hlen := length_outstanding (c.handler.obj.call.completeAt i)
  simp only [hready, isServerEnd, Bool.toNat_true] at hside hE
  exact List.length_eq_zero_iff.1 (by omega)

/-- In a run that replies in turn, a deleted handler has nothing outstanding. -/
theorem outstanding_of_deleted {c : BidirServer Req Rep}
    (h : ((machine Req Rep).guard repliesInTurn).Reachable c) (hdel : c.handler.deleted = true) :
    c.handler.obj.call.outstanding = [] := by
  refine Machine.Reachable.guard_invariant
    (P := fun c => c.handler.deleted = true → c.handler.obj.call.outstanding = []) ?_ ?_ h hdel
  · intro hno
    cases hno
  · intro c c' e hreach hstep hguard ih hdel'
    by_cases huser : ∀ i r, e ≠ .complete i r
    · have hsame := (user_step hstep huser (P := fun _ => True) trivial (fun _ _ _ => trivial)
        (fun _ _ _ => trivial) (fun _ _ => trivial)).2
      rw [hsame] at hdel'
      rw [handler_of_deleted hstep huser hdel']
      exact ih hdel'
    · push Not at huser
      obtain ⟨i, r, rfl⟩ := huser
      obtain ⟨handler, hwork, rfl⟩ := Option.map_eq_some_iff.1 hstep
      obtain ⟨b, hb, ⟨hdel, rfl⟩ | ⟨hlive, rfl⟩⟩ := complete_cases hwork
      · simp [ih hdel] at hb
      · cases b with
        | handshake => cases hdel'
        | send m => cases hdel'
        | recv =>
            simp only [handled] at hdel'
            split at hdel' <;> cases hdel'
        | serverEnd =>
            refine outstanding_of_ended hreach hlive hb ?_
            simpa [repliesInTurn, endsNormally, handshakeAfterEnd, endsWhileReading, hlive, hb]
              using hguard
        | fail => cases hdel'

/-- An end of the replies that completes while a read is outstanding deletes the handler and leaves
    the read. -/
theorem endsWhileReading_frees {c c' : BidirServer Req Rep} {e : Event Rep}
    (hstep : (machine Req Rep).step c e = some c') (hearly : c.endsWhileReading e = true) :
    c'.handler.deleted = true ∧ c'.handler.obj.call.pending isRecv ≠ 0 := by
  cases moves_of_step hstep with
  | push hopen => cases hearly
  | finish hopen => cases hearly
  | attach hatt => cases hearly
  | startHandshake hatt hnone => cases hearly
  | @complete i r handler hwork =>
      simp only [endsWhileReading, Bool.and_eq_true, Bool.not_eq_true', bne_iff_ne,
        beq_iff_eq] at hearly
      obtain ⟨⟨hlive, hend⟩, hpos⟩ := hearly
      obtain ⟨b, hb, ⟨hdel, -⟩ | ⟨-, rfl⟩⟩ := complete_cases hwork
      · rw [hlive] at hdel
        cases hdel
      · obtain rfl : b = .serverEnd := Option.some.inj (hb.symm.trans hend)
        have hR := (pending_done hb).2.2.1
        exact ⟨rfl, fun hzero => hpos (hR.trans hzero)⟩

/-- A handler that is stuck stays stuck. -/
theorem endStalled_step {c c' : BidirServer Req Rep} {e : Event Rep}
    (hreach : (machine Req Rep).Reachable c) (hstep : (machine Req Rep).step c e = some c')
    (hstalled : c.EndStalled) : c'.EndStalled := by
  have hinv := inv_of_reachable hreach
  obtain ⟨hshaken, hH, hS, hE, hfin, hnone⟩ := hstalled
  have hended := hinv.feeds.ended
  rw [show c.handler.obj.toOutbox.ended = true from hfin, eq_comm, Bool.and_eq_true] at hended
  cases moves_of_step hstep with
  | push hopen => simp [hopen] at hended
  | finish hopen => simp [hopen] at hended
  | attach hatt => simp [hatt] at hended
  | startHandshake hatt hzero => omega
  | @complete i r handler hwork =>
      obtain ⟨b, hb, hcase⟩ := complete_cases hwork
      obtain ⟨hH', hS', -, hE'⟩ := pending_done hb
      -- Only a read or the end of a failed stream can be left.
      have hkind : isHandshake b = false ∧ isSend b = false ∧ isServerEnd b = false := by
        refine ⟨?_, ?_, ?_⟩
        · exact Bool.toNat_eq_zero.1 (by omega)
        · exact Bool.toNat_eq_zero.1 (by omega)
        · exact Bool.toNat_eq_zero.1 (by omega)
      have hdone : BidirServer.EndStalled
          { c with handler := ⟨c.handler.obj.done i, c.handler.deleted⟩ } := by
        refine ⟨hshaken, ?_, ?_, ?_, hfin, hnone⟩
        · show (c.handler.obj.call.completeAt i).pending isHandshake = 0
          omega
        · show (c.handler.obj.call.completeAt i).pending isSend = 0
          omega
        · show (c.handler.obj.call.completeAt i).pending isServerEnd = 0
          omega
      rcases hcase with ⟨-, rfl⟩ | ⟨-, rfl⟩
      · exact hdone
      · cases b with
        | handshake => cases hkind.1
        | send m => cases hkind.2.1
        | serverEnd => cases hkind.2.2
        | fail => exact hdone
        | recv =>
            simp only [EndStalled, handled]
            split
            · simpa [EndStalled, afterRequest, startBatch, Call.starts_startBatch,
                Call.pending_startBatch, isHandshake, isSend, isServerEnd] using hdone
            · exact hdone

/-- After a handshake that came too late `exec` never returns true. -/
theorem live_after_handshakeAfterEnd {c c' c'' : BidirServer Req Rep} {e : Event Rep}
    {es : List (Event Rep)} (hreach : (machine Req Rep).Reachable c)
    (hstep : (machine Req Rep).step c e = some c') (hlate : c.handshakeAfterEnd e = true)
    (hrun : (machine Req Rep).run c' es = some c'') : c''.handler.deleted = false := by
  have hreach' := hreach.step hstep
  have hstalled := hreach'.run_invariant (P := fun c => c.EndStalled) endStalled_step
    (handshakeAfterEnd_stalls hreach hstep hlate) hrun
  by_contra hdel
  exact (inv_of_reachable (hreach'.run hrun)).counts.deleted_end (by simpa using hdel)
    hstalled.2.2.2.2.2

end BidirServer

/-! ## Both handlers -/

open UploadServerBatch BidirServerBatch

variable [Serializer Req] [Serializer Rep]

/-- **A handler dies once and leaves nothing behind**, in every run in which its answer, or the end
    of its replies, completes with no read outstanding and, for the bidirectional handler, no
    handshake comes too late. Each step that breaks the condition breaks the property: it frees a
    handler that is being read into, or leaves one that is never freed. -/
theorem handlers_die_clean :
    (∀ c : UploadServer Req Rep,
      ((UploadServer.machine Req Rep).guard (fun c e => !c.answersWhileReading e)).Reachable c →
        DiesClean c.handler.deleted c.handler.obj.call (c.answer.isSome = true)) ∧
    (∀ c : BidirServer Req Rep,
      ((BidirServer.machine Req Rep).guard BidirServer.repliesInTurn).Reachable c →
        DiesClean c.handler.deleted c.handler.obj.call c.Replied) ∧
    (∀ (c c' : UploadServer Req Rep) (e : UploadServer.Event Rep),
      (UploadServer.machine Req Rep).step c e = some c' → c.answersWhileReading e = true →
        c'.handler.deleted = true ∧ c'.handler.obj.call.pending isRead ≠ 0) ∧
    (∀ (c c' : BidirServer Req Rep) (e : BidirServer.Event Rep),
      (BidirServer.machine Req Rep).step c e = some c' → c.endsWhileReading e = true →
        c'.handler.deleted = true ∧ c'.handler.obj.call.pending isRecv ≠ 0) ∧
    (∀ (c c' c'' : BidirServer Req Rep) (e : BidirServer.Event Rep)
      (es : List (BidirServer.Event Rep)), (BidirServer.machine Req Rep).Reachable c →
      (BidirServer.machine Req Rep).step c e = some c' → c.handshakeAfterEnd e = true →
      (BidirServer.machine Req Rep).run c' es = some c'' → c''.handler.deleted = false) := by
  refine ⟨?_, ?_, ?_, ?_, ?_⟩
  · intro c h
    exact ⟨UploadServer.outstanding_of_deleted h, UploadServer.deleted_of_quiet h.of_guard⟩
  · intro c h
    refine ⟨BidirServer.outstanding_of_deleted h, BidirServer.deleted_of_quiet (h.guard_mono ?_)⟩
    intro c e hturn
    simp only [BidirServer.repliesInTurn, Bool.and_eq_true] at hturn
    exact hturn.1.2
  · intro c c' e hstep hearly
    exact UploadServer.answersWhileReading_frees hstep hearly
  · intro c c' e hstep hearly
    exact BidirServer.endsWhileReading_frees hstep hearly
  · intro c c' c'' e es hreach hstep hlate hrun
    exact BidirServer.live_after_handshakeAfterEnd hreach hstep hlate hrun

/-- Handlers that reply after the client's half-close are deleted with nothing outstanding. -/
theorem handlers_die_clean_after_half_close :
    (∃ c : UploadServer Buffer Buffer, c.handler.deleted = true ∧
      DiesClean c.handler.deleted c.handler.obj.call (c.answer.isSome = true)) ∧
    ∃ c : BidirServer Buffer Buffer, c.handler.deleted = true ∧
      DiesClean c.handler.deleted c.handler.obj.call c.Replied := by
  have hupload : ((UploadServer.machine Buffer Buffer).guard
      (fun c e => !c.answersWhileReading e)).Reachable _ :=
    Machine.reachable_of_run [.startReading, .attach, .complete 0 { message := some [1] },
      .complete 0 {}, .reply (.ok [7]), .complete 0 {}] rfl
  have hbidir : ((BidirServer.machine Buffer Buffer).guard BidirServer.repliesInTurn).Reachable _ :=
    Machine.reachable_of_run [.attach, .startHandshake, .complete 0 {}, .push [7],
      .complete 0 {}, .complete 0 {}, .finish .complete, .complete 0 {}] rfl
  exact ⟨⟨_, rfl, handlers_die_clean.1 _ hupload⟩, ⟨_, rfl, handlers_die_clean.2.1 _ hbidir⟩⟩

/-- Both handlers reply before the client has half-closed, and the end of the reply completes before
    the read that is in flight: each is deleted with that read outstanding. -/
theorem early_reply_frees_reader :
    ¬ (∀ c : UploadServer Buffer Buffer, (UploadServer.machine Buffer Buffer).Reachable c →
        DiesClean c.handler.deleted c.handler.obj.call (c.answer.isSome = true)) ∧
    ¬ (∀ c : BidirServer Buffer Buffer,
        ((BidirServer.machine Buffer Buffer).guard
          (fun _ e => BidirServer.endsNormally e)).Reachable c →
          DiesClean c.handler.deleted c.handler.obj.call c.Replied) := by
  constructor
  · intro hall
    have hrun : (UploadServer.machine Buffer Buffer).Reachable _ :=
      Machine.reachable_of_run [.startReading, .attach, .reply (.ok [7]), .complete 1 {}] rfl
    have hclean := (hall _ hrun).clean rfl
    cases hclean
  · intro hall
    have hrun : ((BidirServer.machine Buffer Buffer).guard
        (fun _ e => BidirServer.endsNormally e)).Reachable _ :=
      Machine.reachable_of_run [.attach, .startHandshake, .complete 0 {}, .finish .complete,
        .complete 1 {}] rfl
    have hclean := (hall _ hrun).clean rfl
    cases hclean

end EasyGrpc
