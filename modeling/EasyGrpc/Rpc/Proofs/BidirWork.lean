import EasyGrpc.Library.Quiescence
import EasyGrpc.Queue.Proofs.Parties
import EasyGrpc.Rpc.Proofs.BidirStreaming

set_option autoImplicit false

/-! # What is left to do in a bidirectional RPC

Each side's batches, those outstanding and those still to come of them and of what is queued, are
counted by `load`. A completion lowers it, or hands a value over to the user: so what the two sides
and gRPC core do of their own is finite (`quiesces`). -/

namespace EasyGrpc

variable {Req Rep : Type}

/-! ## What a session still has to do -/

namespace BidirStreamingCallSession

open BidirClientBatch

/-- The batches that are outstanding, those that are to be started for the queued requests and the
    end, and those that come of one that is outstanding: a read comes of the handshake, and the
    status is asked for after the close and after the last read. -/
def load (s : BidirStreamingCallSession Rep) : ℕ :=
  s.call.outstanding.length + 2 * s.call.pending isHandshake + s.call.pending isRead
    + s.call.pending isClose + s.pendingOps.length + 2 * (1 - s.call.starts isClose)

theorem load_flush (s : BidirStreamingCallSession Rep) : s.flush.load = s.load := by
  unfold flush
  split
  · rfl
  · cases hq : s.pendingOps with
    | nil => rfl
    | cons op rest =>
        simp only [load, startBatch, Call.length_startBatch, Call.starts_startBatch,
          Call.pending_startBatch, isHandshake, isRead, isClose, hq, List.length_cons,
          Bool.toNat_false]
        omega

/-- The close is to be started once. -/
theorem load_sendClientEnd {s : BidirStreamingCallSession Rep}
    (hnone : s.call.starts isClose = 0) : s.sendClientEnd.load = s.load := by
  simp only [load, sendClientEnd, startBatch, Call.length_startBatch, Call.starts_startBatch,
    Call.pending_startBatch, isHandshake, isRead, isClose, hnone, Bool.toNat_false, Bool.toNat_true]
  omega

theorem load_finish (s : BidirStreamingCallSession Rep) : s.finish.load = s.load + 1 := by
  simp only [load, finish, startBatch, Call.length_startBatch, Call.starts_startBatch,
    Call.pending_startBatch, isHandshake, isRead, isClose, Bool.toNat_false]
  omega

theorem load_startRead (s : BidirStreamingCallSession Rep) :
    (s.startBatch .read).load = s.load + 2 := by
  simp only [load, startBatch, Call.length_startBatch, Call.starts_startBatch,
    Call.pending_startBatch, isHandshake, isRead, isClose, Bool.toNat_false, Bool.toNat_true]
  omega

theorem load_openGate (s : BidirStreamingCallSession Rep) : s.openGate.load = s.load := by
  unfold openGate
  split
  · exact load_flush _
  · rfl

theorem load_afterWrite {s : BidirStreamingCallSession Rep} (hnone : s.call.starts isClose = 0) :
    s.afterWrite.load = s.load := by
  unfold afterWrite
  split
  · exact load_flush _
  · split
    · exact load_sendClientEnd hnone
    · rfl

/-- A null read may ask for the status. -/
theorem load_afterEnd_le (s : BidirStreamingCallSession Rep) :
    ({ s with recvBuffer := none }).afterEnd.load ≤ s.load + 1 := by
  unfold afterEnd
  split
  · exact (load_finish _).le
  · exact Nat.le_succ _

theorem rep_afterEnd (s : BidirStreamingCallSession Rep) :
    ({ s with recvBuffer := none }).afterEnd.rep = s.rep := by
  unfold afterEnd
  split <;> rfl

/-- What a batch leaves to do. -/
def weight : BidirClientBatch → ℕ
  | .handshake => 3
  | .write _ => 1
  | .close => 2
  | .read => 2
  | .status => 1

theorem load_done {s : BidirStreamingCallSession Rep} {i : ℕ} {b : BidirClientBatch}
    (hb : s.call.outstanding[i]? = some b) : (s.done i).load + weight b = s.load := by
  have hlength := Call.length_completeAt hb
  obtain ⟨hH, -, hR, hC, -⟩ := BidirClient.pending_done hb
  simp only [load, done, Call.starts_completeAt, hH, hR, hC]
  cases b <;> simp only [weight, isHandshake, isRead, isClose, Bool.toNat_false, Bool.toNat_true] <;>
    omega

end BidirStreamingCallSession

namespace BidirClient

open BidirStreamingCallSession BidirClientBatch

variable [Serializer Req] [Serializer Rep]

/-- **A turn of the completion thread lowers the load, or hands over a reply.** -/
theorem load_complete {c : BidirClient Req Rep} {session : Live (BidirStreamingCallSession Rep)}
    {i : ℕ} {r : Received} (h : c.Inv)
    (hopen : c.session.deleted = false → c.session.obj.rep.storage = true)
    (hwork : c.session.workerMain i r = some session) :
    session.obj.load + c.session.obj.rep.values.length
      < c.session.obj.load + session.obj.rep.values.length := by
  obtain ⟨b, hb, hcase⟩ := complete_cases hwork
  have hdone := load_done hb
  rcases hcase with ⟨-, rfl⟩ | ⟨hlive, rfl⟩
  · have hpos : 0 < weight b := by cases b <;> exact Nat.succ_pos _
    have hrep : (c.session.obj.done i).rep = c.session.obj.rep := rfl
    simp only [hrep]
    omega
  · cases b with
    | handshake =>
        have hrep : ((c.session.obj.done i).openGate.startBatch .read).rep = c.session.obj.rep :=
          (SendStep.openGate (c.session.obj.done i)).rep
        simp only [handled, load_startRead, load_openGate, hrep]
        simp only [weight] at hdone
        omega
    | write m =>
        -- The write holds the gate, so the close was not started.
        have hpos := Call.pending_pos hb (p := isWrite) rfl
        have hnone : (c.session.obj.done i).call.starts isClose = 0 :=
          h.outbox.closes_of_busy (h.counts.busy (by omega))
        have hrep : (c.session.obj.done i).afterWrite.rep = c.session.obj.rep :=
          (SendStep.afterWrite (c.session.obj.done i)).rep
        simp only [handled, load_afterWrite hnone, hrep]
        simp only [weight] at hdone
        omega
    | close =>
        simp only [weight] at hdone
        simp only [handled]
        split
        · have hrep : (c.session.obj.done i).finish.rep = c.session.obj.rep := rfl
          rw [load_finish, hrep]
          omega
        · have hrep : (c.session.obj.done i).rep = c.session.obj.rep := rfl
          rw [hrep]
          omega
    | read =>
        simp only [weight] at hdone
        cases hmsg : r.message with
        | some data =>
            have hload : ((c.session.obj.done i).afterReply data).load
                = (c.session.obj.done i).load + 2 :=
              load_startRead { c.session.obj.done i with recvBuffer := none }
            have hvalues : ((c.session.obj.done i).afterReply data).rep.values
                = c.session.obj.rep.values ++ [deserialize data] :=
              StreamPromise.values_push (hopen hlive) _
            simp only [handled, hmsg, hload, hvalues, List.length_append, List.length_singleton]
            omega
        | none =>
            have hload := load_afterEnd_le (c.session.obj.done i)
            have hrep : ({ c.session.obj.done i with recvBuffer := none }).afterEnd.rep
                = c.session.obj.rep := rep_afterEnd (c.session.obj.done i)
            simp only [handled, hmsg, hrep]
            omega
    | status =>
        simp only [weight] at hdone
        have hload : (c.session.obj.handled i r .status).obj.load
            = (c.session.obj.done i).load := rfl
        have hvalues : (c.session.obj.handled i r .status).obj.rep.values
            = c.session.obj.rep.values := by
          obtain ⟨t, ht⟩ := finalEnd_of_complete hwork hlive hb
          simp only [handled, ht, Option.elim_some, StreamPromise.values_finish]
        rw [hload, hvalues]
        omega

end BidirClient

/-! ## What a handler still has to do -/

namespace BidirStreamingCallHandler

open BidirServerBatch

/-- The batches that are outstanding, those that are to be started for the queued replies and the
    end, and the read that comes of the handshake. -/
def load (h : BidirStreamingCallHandler Req) : ℕ :=
  h.call.outstanding.length + h.call.pending isHandshake + h.pendingOps.length
    + (1 - h.call.starts isServerEnd)

theorem load_startBatch (h : BidirStreamingCallHandler Req) {b : BidirServerBatch}
    (hhand : isHandshake b = false) (hend : isServerEnd b = false) :
    (h.startBatch b).load = h.load + 1 := by
  simp only [load, startBatch, Call.length_startBatch, Call.starts_startBatch,
    Call.pending_startBatch, hhand, hend, Bool.toNat_false]
  omega

theorem load_startHandshake (h : BidirStreamingCallHandler Req) :
    (h.startBatch .handshake).load = h.load + 2 := by
  simp only [load, startBatch, Call.length_startBatch, Call.starts_startBatch,
    Call.pending_startBatch, isHandshake, isServerEnd, Bool.toNat_false, Bool.toNat_true]
  omega

theorem load_sendServerEnd_le (h : BidirStreamingCallHandler Req) :
    h.sendServerEnd.load ≤ h.load + 1 := by
  simp only [load, sendServerEnd, startBatch, Call.length_startBatch, Call.starts_startBatch,
    Call.pending_startBatch, isHandshake, Bool.toNat_false]
  omega

/-- The end is to be sent once. -/
theorem load_sendServerEnd {h : BidirStreamingCallHandler Req}
    (hnone : h.call.starts isServerEnd = 0) : h.sendServerEnd.load = h.load := by
  simp only [load, sendServerEnd, startBatch, Call.length_startBatch, Call.starts_startBatch,
    Call.pending_startBatch, isHandshake, isServerEnd, hnone, Bool.toNat_false, Bool.toNat_true]
  omega

theorem load_flush (h : BidirStreamingCallHandler Req) : h.flush.load = h.load := by
  unfold flush
  split
  · rfl
  · cases hq : h.pendingOps with
    | nil => rfl
    | cons op rest =>
        rw [load_startBatch _ rfl rfl]
        simp only [load, hq, List.length_cons]
        omega

theorem load_push [Serializer Rep] (h : BidirStreamingCallHandler Req) (rep : Rep) :
    (h.push rep).load = h.load + 1 := by
  rw [push, load_flush]
  simp only [load, List.length_append, List.length_singleton]
  omega

theorem load_foldl_push [Serializer Rep] (h : BidirStreamingCallHandler Req) (reps : List Rep) :
    (reps.foldl BidirStreamingCallHandler.push h).load = h.load + reps.length := by
  induction reps generalizing h with
  | nil => rfl
  | cons rep reps ih =>
      rw [List.foldl_cons, ih, load_push, List.length_cons]
      omega

theorem load_onRepliesEnd_le (h : BidirStreamingCallHandler Req) (t : StreamEnd) :
    (h.onRepliesEnd t).load ≤ h.load + 1 := by
  cases t with
  | complete =>
      simp only [onRepliesEnd, BidirStreamingCallHandler.finish]
      split
      · exact load_sendServerEnd_le _
      · exact Nat.le_succ _
  | failed e => exact (load_startBatch h rfl rfl).le

theorem load_drain_le [Serializer Rep] (h : BidirStreamingCallHandler Req) (replies : Source Rep) :
    (replies.drain BidirStreamingCallHandler.push onRepliesEnd h).load
      ≤ h.load + replies.pushed.length + 1 := by
  unfold Source.drain
  have hvalues := load_foldl_push h replies.pushed
  cases replies.terminal with
  | none => exact hvalues.le.trans (Nat.le_succ _)
  | some t => exact (load_onRepliesEnd_le _ t).trans (by omega)

theorem load_openGate (h : BidirStreamingCallHandler Req) : h.openGate.load = h.load := by
  unfold openGate
  split
  · exact load_flush _
  · rfl

theorem load_afterSend {h : BidirStreamingCallHandler Req}
    (hnone : h.call.starts isServerEnd = 0) : h.afterSend.load = h.load := by
  unfold afterSend
  split
  · exact load_flush _
  · split
    · exact load_sendServerEnd hnone
    · rfl

theorem load_done {h : BidirStreamingCallHandler Req} {i : ℕ} {b : BidirServerBatch}
    (hb : h.call.outstanding[i]? = some b) :
    (h.done i).load + 1 + (isHandshake b).toNat = h.load := by
  have hlength := Call.length_completeAt hb
  have hpending := Call.pending_completeAt hb isHandshake
  simp only [load, done, Call.starts_completeAt]
  omega

end BidirStreamingCallHandler

namespace BidirServer

open BidirStreamingCallHandler BidirServerBatch

variable [Serializer Req] [Serializer Rep]

/-- What is left of `perform` is still to be done, and replies in a stream that is not attached yet
    are still to be sent. -/
def work (c : BidirServer Req Rep) : ℕ :=
  c.handler.obj.load + (if c.handler.obj.call.starts isHandshake = 0 then 3 else 0)
    + (if c.replies.attached then 0 else c.replies.pushed.length + 2)

/-- The steps of `perform` and of the completion thread. -/
def Event.isInternal : Event Rep → Bool
  | .push _ | .finish _ => false
  | _ => true

omit [Serializer Req] in
/-- A handler is deleted after its handshake. -/
theorem Inv.live_of_unshaken {c : BidirServer Req Rep} (h : c.Inv)
    (hnone : c.handler.obj.call.starts isHandshake = 0) : c.handler.deleted = false := by
  by_contra hdel
  have hend := h.counts.deleted_end (by simp [hdel])
  have hidle := h.feeds.outbox.closed_idle hend
  have hready : c.handler.obj.readyToSend = true := by simpa [toOutbox] using hidle
  have hside := h.counts.sendSide_le
  simp only [hready, Bool.toNat_true] at hside
  omega

/-- **A turn of the completion thread lowers the load, or hands over a request.** -/
theorem load_complete {c : BidirServer Req Rep} {handler : Live (BidirStreamingCallHandler Req)}
    {i : ℕ} {r : Received} (h : c.Inv) (hwork : c.handler.workerMain i r = some handler) :
    handler.obj.load + c.handler.obj.readerProm.values.length
        < c.handler.obj.load + handler.obj.readerProm.values.length ∧
      handler.obj.call.starts isHandshake = c.handler.obj.call.starts isHandshake := by
  obtain ⟨b, hb, hcase⟩ := complete_cases hwork
  have hdone := load_done hb
  have hstarts : (c.handler.obj.done i).call.starts isHandshake
      = c.handler.obj.call.starts isHandshake := Call.starts_completeAt ..
  have hprom : (c.handler.obj.done i).readerProm = c.handler.obj.readerProm := rfl
  rcases hcase with ⟨-, rfl⟩ | ⟨hlive, rfl⟩
  · refine ⟨?_, hstarts⟩
    simp only [hprom]
    omega
  · cases b with
    | handshake =>
        have hgate := SendStep.openGate (c.handler.obj.done i)
        have hread : ((c.handler.obj.done i).openGate.startBatch .recv).readerProm
            = c.handler.obj.readerProm := hgate.readerProm
        simp only [isHandshake, Bool.toNat_true] at hdone
        constructor
        · simp only [handled, load_startBatch (b := .recv) _ rfl rfl, load_openGate, hread]
          omega
        · simp only [handled, startBatch, Call.starts_startBatch, hgate.startsHandshake, hstarts]
          rfl
    | send m =>
        -- The reply holds the gate, so the end was not sent.
        have hpos := Call.pending_pos hb (p := isSend) rfl
        have hnone : (c.handler.obj.done i).call.starts isServerEnd = 0 :=
          h.feeds.outbox.closes_of_busy (h.counts.busy (by omega))
        have hafter := SendStep.afterSend (c.handler.obj.done i)
        have hread : (c.handler.obj.done i).afterSend.readerProm = c.handler.obj.readerProm :=
          hafter.readerProm
        refine ⟨?_, hafter.startsHandshake.trans hstarts⟩
        simp only [handled, load_afterSend hnone, hread]
        omega
    | recv =>
        have hopen := h.reader_open hb
        cases hmsg : r.message with
        | some data =>
            have hload : ((c.handler.obj.done i).afterRequest data).load
                = (c.handler.obj.done i).load + 1 :=
              load_startBatch { c.handler.obj.done i with payload := none } rfl rfl
            have hvalues : ((c.handler.obj.done i).afterRequest data).readerProm.values
                = c.handler.obj.readerProm.values ++ [deserialize data] :=
              StreamPromise.values_push hopen _
            constructor
            · simp only [handled, hmsg, hload, hvalues, List.length_append, List.length_singleton]
              omega
            · simp only [handled, hmsg, afterRequest, startBatch, Call.starts_startBatch, hstarts]
              rfl
        | none =>
            have hvalues : c.handler.obj.readerProm.complete.values
                = c.handler.obj.readerProm.values := StreamPromise.values_finish ..
            have hload : (c.handler.obj.handled i r .recv).obj.load
                = (c.handler.obj.done i).load := by
              simp only [handled, hmsg]
              rfl
            refine ⟨?_, ?_⟩
            · rw [hload]
              simp only [handled, hmsg, hvalues]
              omega
            · simp only [handled, hmsg]
              exact hstarts
    | serverEnd =>
        refine ⟨?_, hstarts⟩
        simp only [handled, hprom]
        omega
    | fail =>
        refine ⟨?_, hstarts⟩
        simp only [handled, hprom]
        omega

/-- **A step lowers the work, or hands over a request.** -/
theorem work_step {c c' : BidirServer Req Rep} {e : Event Rep} (h : c.Inv)
    (hstep : c.step e = some c') (hinternal : e.isInternal = true) :
    c'.work + c.handler.obj.readerProm.values.length
      < c.work + c'.handler.obj.readerProm.values.length := by
  cases moves_of_step hstep with
  | push => cases hinternal
  | finish => cases hinternal
  | attach hatt =>
      have hload := load_drain_le c.handler.obj c.replies
      have hprom := (user_step hstep (fun _ _ he => by cases he)
        (P := fun o => o.readerProm = c.handler.obj.readerProm) rfl
        (fun o rep ho => (SendStep.push o rep).readerProm.trans ho)
        (fun o t ho => (readerProm_onRepliesEnd o t).trans ho) (fun o ho => ho)).1
      have hone := h.unattached hatt
      simp only [Live.update_of_live (h.live_of_open (Or.inl hatt))] at hprom ⊢
      simp only [work, hatt, hone, hprom, if_true, Bool.false_eq_true, if_false]
      split <;> omega
  | startHandshake hatt hnone =>
      have hload := load_startHandshake c.handler.obj
      have hprom : (c.handler.obj.startBatch .handshake).readerProm = c.handler.obj.readerProm :=
        rfl
      have hone : (c.handler.obj.startBatch .handshake).call.starts isHandshake = 1 := by
        simp [startBatch, Call.starts_startBatch, hnone, isHandshake]
      simp only [Live.update_of_live (h.live_of_unshaken hnone)]
      simp only [work, hatt, hnone, hone, hprom, if_true, one_ne_zero, if_false]
      omega
  | complete hwork =>
      obtain ⟨hload, hstarts⟩ := load_complete h hwork
      simp only [work, hstarts]
      omega

omit [Serializer Req] in
theorem starts_onRepliesEnd (h : BidirStreamingCallHandler Req) (t : StreamEnd) :
    (h.onRepliesEnd t).call.starts isHandshake = h.call.starts isHandshake := by
  cases t with
  | complete => exact (SendStep.finish h).startsHandshake
  | failed e =>
      simp [onRepliesEnd, BidirStreamingCallHandler.fail, startBatch, Call.starts_startBatch,
        isHandshake]

/-- The user's handler adds to the work what it gives. -/
theorem work_user_le {c c' : BidirServer Req Rep} {e : Event Rep} (h : c.Inv)
    (hstep : c.step e = some c') (huser : e.isInternal = false) : c'.work ≤ c.work + 1 := by
  cases moves_of_step hstep with
  | @push rep hopen =>
      have hload := load_push c.handler.obj rep
      have hstarts := (SendStep.push c.handler.obj rep).startsHandshake
      simp only [Live.update_of_live (h.live_of_open (Or.inr hopen))]
      cases hatt : c.replies.attached with
      | true =>
          simp only [work, if_true, hatt, hload, hstarts]
          omega
      | false =>
          simp only [work, Bool.false_eq_true, if_false, hatt, List.length_append,
            List.length_singleton]
          omega
  | @finish t hopen =>
      have hload := load_onRepliesEnd_le c.handler.obj t
      have hstarts := starts_onRepliesEnd c.handler.obj t
      simp only [Live.update_of_live (h.live_of_open (Or.inr hopen))]
      cases hatt : c.replies.attached with
      | true =>
          simp only [work, if_true, hatt, hstarts]
          omega
      | false =>
          simp only [work, Bool.false_eq_true, if_false, hatt]
          omega
  | attach hatt => cases huser
  | startHandshake hatt hnone => cases huser
  | complete hwork => cases huser

/-- The end of the replies of a handler that exists is outstanding. -/
theorem lasts_outstanding {c : BidirServer Req Rep} (h : (machine Req Rep).Reachable c)
    (hlive : c.handler.deleted = false) :
    c.handler.obj.call.pending isServerEnd = c.handler.obj.call.starts isServerEnd := by
  refine Party.lasts_outstanding (P := party Req Rep) ?_ h hlive
  intro o b hb
  have hflags : BatchSpec.flags b = 4 := by
    cases b with
    | serverEnd => rfl
    | _ => cases hb
  show (BidirStreamingCallHandler.exec o (BatchSpec.flags b)).1 = true
  rw [hflags]
  rfl

/-- The request stream is only ever completed. -/
theorem ends_eq_complete {c : BidirServer Req Rep} (h : (machine Req Rep).Reachable c) :
    ∀ t ∈ c.handler.obj.readerProm.ends, t = .complete := by
  induction h with
  | init =>
      intro t ht
      cases ht
  | @step c c' e hc hnext ih =>
      rcases reader_step hnext with ⟨hprom, -⟩ | ⟨i, r, -, -, -, hb, hcase⟩
      · rw [hprom]
        exact ih
      · rcases hcase with ⟨data, -, hprom⟩ | ⟨-, hprom⟩
        · rw [hprom, StreamPromise.ends_push]
          exact ih
        · have hopen := (inv_of_reachable hc).reader_open hb
          rw [hprom, StreamPromise.complete, StreamPromise.ends_finish hopen]
          intro t ht
          rcases List.mem_append.1 ht with hbefore | hlast
          · exact ih t hbefore
          · exact List.mem_singleton.1 hlast

end BidirServer

namespace BidirClient

open BidirClientBatch

/-- The status of a session that exists is outstanding. -/
theorem lasts_outstanding [Serializer Req] [Serializer Rep] {c : BidirClient Req Rep}
    (h : (machine Req Rep).Reachable c) (hlive : c.session.deleted = false) :
    c.session.obj.call.pending isStatus = c.session.obj.call.starts isStatus := by
  refine Party.lasts_outstanding (P := party Req Rep) ?_ h hlive
  intro o b hb
  have hflags : BatchSpec.flags b = 8 := by
    cases b with
    | status => rfl
    | _ => cases hb
  show (BidirStreamingCallSession.exec o (BatchSpec.flags b)).1 = true
  rw [hflags]
  rfl

end BidirClient

/-! ## Both sides together -/

namespace BidirRpc

/-- A step of the two sides and of gRPC core, as opposed to the users'. -/
def Event.isInternal : Event Req Rep → Bool
  | .callerPush _ | .callerEnd | .handlerPush _ | .handlerEnd _ => false
  | _ => true

variable [Serializer Req] [Serializer Rep]

/-- What is left to do: each side's work, and what was pushed on one side and not yet handed over on
    the other. -/
def work (s : BidirRpc Req Rep) : ℕ :=
  s.client.session.obj.load + s.server.work
    + (s.client.requests.pushed.length - s.server.handler.obj.readerProm.values.length)
    + (s.server.replies.pushed.length - s.client.session.obj.rep.values.length)

variable {s s' : BidirRpc Req Rep}

theorem length_requests_le (h : (machine Req Rep).Reachable s) :
    s.server.handler.obj.readerProm.values.length ≤ s.client.requests.pushed.length := by
  have hlink := FifoLink.inv_of_reachable (requestSimulation.reachable h)
  exact hlink.delivered_prefix.length_le

theorem length_replies_le (h : (machine Req Rep).Reachable s) :
    s.client.session.obj.rep.values.length ≤ s.server.replies.pushed.length := by
  have hvalues := (wire_of_reachable h).replies.values_sent.length_le
  have hhistory := congrArg List.length (server_inv h).feeds.history
  have hsent : s.serverPeer.sent = s.server.handler.obj.call.sent := rfl
  simp only [Outbox.history, BidirStreamingCallHandler.toOutbox, List.length_append] at hhistory
  rw [List.length_map, hsent] at hvalues
  split at hhistory
  · rw [List.length_map] at hhistory
    omega
  · rw [List.length_nil] at hhistory
    omega

theorem work_server {e : BidirServer.Event Rep} (h : (machine Req Rep).Reachable s)
    (h' : (machine Req Rep).Reachable s') (hmove : ServerMove s s' e)
    (hinternal : e.isInternal = true) : s'.work < s.work := by
  have hserver := BidirServer.work_step (server_inv h) hmove.step hinternal
  have hle := length_requests_le h
  have hle' := length_requests_le h'
  have hpushed : s'.server.replies.pushed = s.server.replies.pushed := by
    rcases BidirServer.source_step hmove.step with ⟨heq, -⟩ | ⟨rep, rfl, -⟩ | ⟨t, rfl, -⟩
    · exact heq
    · cases hinternal
    · cases hinternal
  simp only [work, hmove.client, hpushed] at hle' ⊢
  omega

theorem work_client {i : ℕ} {r : Received} (h : (machine Req Rep).Reachable s)
    (h' : (machine Req Rep).Reachable s') (hmove : ClientMove s s' (.complete i r)) :
    s'.work < s.work := by
  obtain ⟨session, hwork, hclient⟩ := Option.map_eq_some_iff.1 hmove.step
  have hload := BidirClient.load_complete (client_inv h) (wire_of_reachable h).storage hwork
  have hle := length_replies_le h
  have hle' := length_replies_le h'
  rw [hmove.server] at hle'
  rw [← hclient] at hle'
  simp only [work, hmove.server, ← hclient]
  simp only at hle'
  omega

/-- What the two sides and gRPC core do pushes no request. -/
theorem requests_of_internal {e : Event Req Rep} (hstep : s.step e = some s')
    (hinternal : e.isInternal = true) : s'.client.requests = s.client.requests := by
  cases e with
  | callerPush req => cases hinternal
  | callerEnd => cases hinternal
  | handlerPush rep => cases hinternal
  | handlerEnd t => cases hinternal
  | attach => rw [(serverMove_of_user hstep (fun _ _ he => by cases he)).client]
  | startHandshake => rw [(serverMove_of_user hstep (fun _ _ he => by cases he)).client]
  | clientDone i err =>
      obtain ⟨r, hmove⟩ := clientMove_of_done hstep
      obtain ⟨session, -, hclient⟩ := Option.map_eq_some_iff.1 hmove.step
      rw [← hclient]
  | serverDone i =>
      obtain ⟨r, hmove⟩ := serverMove_of_done hstep
      rw [hmove.client]

/-- The steps of the two sides and of gRPC core come to an end. -/
theorem quiesces : (machine Req Rep).Quiesces Event.isInternal work := by
  constructor
  intro s s' e hs hinternal hstep
  have hs' := hs.step hstep
  cases e with
  | callerPush req => cases hinternal
  | callerEnd => cases hinternal
  | handlerPush rep => cases hinternal
  | handlerEnd t => cases hinternal
  | attach => exact work_server hs hs' (serverMove_of_user hstep (fun _ _ he => by cases he)) rfl
  | startHandshake =>
      exact work_server hs hs' (serverMove_of_user hstep (fun _ _ he => by cases he)) rfl
  | clientDone i err =>
      obtain ⟨r, hmove⟩ := clientMove_of_done hstep
      exact work_client hs hs' hmove
  | serverDone i =>
      obtain ⟨r, hmove⟩ := serverMove_of_done hstep
      exact work_server hs hs' hmove rfl

end BidirRpc

end EasyGrpc
