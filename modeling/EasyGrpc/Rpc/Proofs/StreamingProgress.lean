import EasyGrpc.Library.Quiescence
import EasyGrpc.Queue.Proofs.Parties
import EasyGrpc.Rpc.Proofs.ServerStreaming

set_option autoImplicit false

/-! # A server-streaming RPC waits for nobody but the user's handler

What the two sides and gRPC core still have to do is finite (`work`). When nothing of it is left,
either the reply stream has ended and so has the caller's, or the user's handler has not ended its
stream and the caller has everything that was pushed so far. -/

namespace EasyGrpc

variable {Req Rep : Type}

/-! ## What a handler still has to do -/

namespace ServerStreamingCallHandler

open StreamingServerBatch

/-- The batches that are outstanding, and those that are to be started: one for each reply that is
    queued, and the end. -/
def load (h : ServerStreamingCallHandler) : ℕ :=
  h.call.outstanding.length + h.pendingOps.length + (1 - h.call.starts isSendEnd)

theorem load_startBatch (h : ServerStreamingCallHandler) {b : StreamingServerBatch}
    (hb : isSendEnd b = false) : (h.startBatch b).load = h.load + 1 := by
  simp only [load, startBatch, Call.starts_startBatch, Call.length_startBatch, hb, Bool.toNat_false]
  omega

theorem load_sendEnd_le (h : ServerStreamingCallHandler) : h.sendEnd.load ≤ h.load + 1 := by
  simp only [load, sendEnd, startBatch, Call.starts_startBatch, Call.length_startBatch]
  omega

/-- The end is to be sent once. -/
theorem load_sendEnd {h : ServerStreamingCallHandler} (hnone : h.call.starts isSendEnd = 0) :
    h.sendEnd.load = h.load := by
  simp only [load, sendEnd, startBatch, Call.starts_startBatch, Call.length_startBatch, hnone,
    isSendEnd, Bool.toNat_true]
  omega

theorem load_flush (h : ServerStreamingCallHandler) : h.flush.load = h.load := by
  unfold flush
  split
  · rfl
  · cases hq : h.pendingOps with
    | nil => rfl
    | cons op rest =>
        rw [load_startBatch _ rfl]
        simp only [load, hq, List.length_cons]
        omega

theorem load_push [Serializer Rep] (h : ServerStreamingCallHandler) (rep : Rep) :
    (h.push rep).load = h.load + 1 := by
  rw [push, load_flush]
  simp only [load, List.length_append, List.length_singleton]
  omega

theorem load_foldl_push [Serializer Rep] (h : ServerStreamingCallHandler) (reps : List Rep) :
    (reps.foldl ServerStreamingCallHandler.push h).load = h.load + reps.length := by
  induction reps generalizing h with
  | nil => rfl
  | cons rep reps ih =>
      rw [List.foldl_cons, ih, load_push, List.length_cons]
      omega

theorem load_onRepliesEnd_le (h : ServerStreamingCallHandler) (t : StreamEnd) :
    (h.onRepliesEnd t).load ≤ h.load + 1 := by
  cases t with
  | complete =>
      simp only [onRepliesEnd, finish]
      split
      · exact load_sendEnd_le _
      · exact Nat.le_succ _
  | failed e => exact (load_startBatch h rfl).le

theorem load_drain_le [Serializer Rep] (h : ServerStreamingCallHandler) (replies : Source Rep) :
    (replies.drain ServerStreamingCallHandler.push onRepliesEnd h).load
      ≤ h.load + replies.pushed.length + 1 := by
  unfold Source.drain
  have hvalues := load_foldl_push h replies.pushed
  cases replies.terminal with
  | none => exact hvalues.le.trans (Nat.le_succ _)
  | some t => exact (load_onRepliesEnd_le _ t).trans (by omega)

theorem load_done {h : ServerStreamingCallHandler} {i : ℕ} {b : StreamingServerBatch}
    (hb : h.call.outstanding[i]? = some b) : (h.done i).load + 1 = h.load := by
  have hlength := Call.length_completeAt hb
  simp only [load, done, Call.starts_completeAt]
  omega

theorem load_afterBatch {h : ServerStreamingCallHandler} (hnone : h.call.starts isSendEnd = 0) :
    h.afterBatch.load = h.load := by
  unfold afterBatch
  split
  · exact load_flush _
  · split
    · exact load_sendEnd hnone
    · rfl

end ServerStreamingCallHandler

namespace StreamingServer

open ServerStreamingCallHandler StreamingServerBatch

/-- The batches with the status. -/
def isLast (b : StreamingServerBatch) : Bool := b.isSendEnd || b.isFail

theorem statuses_eq_nil_iff (call : Call StreamingServerBatch) :
    call.statuses = [] ↔ call.starts isLast = 0 := by
  rw [statuses_eq]
  have hkinds : call.starts isLast = call.starts isSendEnd + call.starts isFail := by
    unfold Call.starts
    induction call.started with
    | nil => rfl
    | cons b l ih =>
        simp only [List.countP_cons, ih, isLast]
        cases b <;> simp [isSendEnd, isFail] <;> omega
  rw [List.replicate_eq_nil_iff, hkinds]

/-- They are outstanding as long as the handler exists. -/
theorem lasts_outstanding [Serializer Req] [Serializer Rep] {c : StreamingServer Req Rep}
    (h : (machine Req Rep).Reachable c) (hlive : c.handler.deleted = false) :
    c.handler.obj.call.pending isLast = c.handler.obj.call.starts isLast := by
  refine Party.lasts_outstanding (P := party Req Rep) ?_ h hlive
  intro o b hb
  have hflags : BatchSpec.flags b = 1 := by
    cases b with
    | metadata => cases hb
    | write m => cases hb
    | sendEnd => rfl
    | fail => rfl
  show (ServerStreamingCallHandler.exec o (BatchSpec.flags b)).1 = true
  rw [hflags]
  rfl

variable [Serializer Req] [Serializer Rep]

/-- Replies in a stream that is not attached yet are still to be sent. -/
def work (c : StreamingServer Req Rep) : ℕ :=
  c.handler.obj.load + (if c.req.isSome then 0 else 2)
    + (if c.replies.attached then 0 else c.replies.pushed.length + 2)

omit [Serializer Req] [Serializer Rep] in
theorem load_update_le {o : Live ServerStreamingCallHandler}
    {f : ServerStreamingCallHandler → ServerStreamingCallHandler} {n : ℕ}
    (h : (f o.obj).load ≤ o.obj.load + n) : (o.update f).obj.load ≤ o.obj.load + n :=
  Live.update_obj (P := fun h : ServerStreamingCallHandler => h.load ≤ o.obj.load + n) (Nat.le_add_right _ _) h

omit [Serializer Req] in
/-- A turn of the completion thread lowers the load. -/
theorem load_complete {c : StreamingServer Req Rep} (h : c.Inv) {i : ℕ} {r : Received}
    {handler : Live ServerStreamingCallHandler} (hwork : c.handler.workerMain i r = some handler) :
    handler.obj.load < c.handler.obj.load := by
  obtain ⟨b, hb, hcase⟩ := complete_cases hwork
  have hdone := load_done hb
  rcases hcase with ⟨-, rfl⟩ | ⟨hlive, rfl⟩
  · simp only
    omega
  · have hnext : (isMetadata b).toNat + (isWrite b).toNat = 1 →
        (c.handler.obj.done i).afterBatch.load < c.handler.obj.load := by
      intro hgate
      -- The batch holds the gate, so the end was not sent.
      have hbusy : c.handler.obj.toOutbox.busy = true := by
        have hpend := h.counts.gate_le
        obtain ⟨hM, hW, -, -⟩ := pending_done hb
        cases hflight : c.handler.obj.batchInFlight with
        | true => exact hflight
        | false => simp only [hflight, Bool.toNat_false] at hpend; omega
      have hnone : (c.handler.obj.done i).call.starts isSendEnd = 0 :=
        h.feeds.outbox.closes_of_busy hbusy
      rw [load_afterBatch hnone]
      omega
    cases b with
    | metadata => exact hnext rfl
    | write m => exact hnext rfl
    | sendEnd => simp only [handled]; omega
    | fail => simp only [handled]; omega

/-- The steps of `perform` and of the completion thread. -/
def Event.isInternal : Event Rep → Bool
  | .perform _ | .attach | .complete _ _ => true
  | _ => false

theorem work_step {c c' : StreamingServer Req Rep} {e : Event Rep} (h : c.Inv)
    (hstep : c.step e = some c') (hinternal : e.isInternal = true) : c'.work < c.work := by
  cases moves_of_step hstep with
  | push => cases hinternal
  | finish => cases hinternal
  | throws => cases hinternal
  | perform hreq =>
      have hload : (c.handler.update startMetadata).obj.load ≤ c.handler.obj.load + 1 :=
        load_update_le (load_startBatch _ rfl).le
      simp only [work, hreq, Option.isSome_some, if_true, Bool.false_eq_true, if_false]
      omega
  | attach _ _ hatt =>
      have hload := load_update_le (o := c.handler) (n := c.replies.pushed.length + 1)
        (load_drain_le c.handler.obj c.replies)
      simp only [work, hatt, if_true, Bool.false_eq_true, if_false]
      omega
  | complete hwork =>
      have hload := load_complete h hwork
      simp only [work]
      omega

end StreamingServer

/-! ## Both sides together -/

namespace StreamingRpc

open StreamingServer StreamingServerBatch

/-- A step of the two sides and of gRPC core, as opposed to the user's handler's. -/
def Event.isInternal : Event Rep → Bool
  | .handlerThrows _ | .handlerPush _ | .handlerEnd _ => false
  | _ => true

variable [Serializer Req] [Serializer Rep]

/-- The batches a session has yet to see complete, but for those that bring a reply. -/
def clientWork (c : StreamingClient Rep) : ℕ :=
  if c.session.deleted then 0 else if c.session.obj.finishing then 1 else 2

/-- What is left to do: the server's work, the replies the caller does not have yet, and the end of
    the session. -/
def work (s : StreamingRpc Req Rep) : ℕ :=
  s.server.work + (s.server.replies.pushed.length
    - s.client.session.obj.replyStreamPromise.values.length) + clientWork s.client

omit [Serializer Req] in
/-- The replies that were sent are replies that were pushed. -/
theorem length_sent_le {c : StreamingServer Req Rep} (h : c.Inv) :
    c.handler.obj.call.sent.length ≤ c.replies.pushed.length := by
  have hhistory := congrArg List.length h.feeds.history
  simp only [Outbox.history, ServerStreamingCallHandler.toOutbox, List.length_append] at hhistory
  split at hhistory
  · rw [List.length_map] at hhistory
    omega
  · rw [List.length_nil] at hhistory
    omega

theorem length_values_le {req : Req} {s : StreamingRpc Req Rep}
    (h : (machine Rep req).Reachable s) :
    s.client.session.obj.replyStreamPromise.values.length ≤ s.server.replies.pushed.length := by
  have hvalues := (wire_of_reachable h).replies.values_sent.length_le
  rw [List.length_map] at hvalues
  exact hvalues.trans (length_sent_le (server_inv h))

theorem work_server {s s' : StreamingRpc Req Rep} {e : StreamingServer.Event Rep}
    (hinv : s.server.Inv) (hmove : ServerMove s s' e) (hinternal : e.isInternal = true) :
    s'.work < s.work := by
  have hserver := StreamingServer.work_step hinv hmove.step hinternal
  have hpushed : s'.server.replies.pushed = s.server.replies.pushed := by
    rcases StreamingServer.source_step hmove.step with ⟨heq, -⟩ | ⟨rep, rfl, -⟩ | ⟨t, rfl, -⟩
    · exact heq
    · cases hinternal
    · cases hinternal
  simp only [work, hmove.client, hpushed]
  omega

theorem work_client {req : Req} {s s' : StreamingRpc Req Rep} {i : ℕ} {r : Received}
    (h : (machine Rep req).Reachable s) (h' : (machine Rep req).Reachable s')
    (hmove : ClientMove s s' i r) : s'.work < s.work := by
  obtain ⟨hlive, hclient, -, -⟩ := client_handled (client_inv h) hmove
  have hstorage := (wire_of_reachable h).storage hlive
  have hle := length_values_le h'
  have hbefore : clientWork s.client = if s.client.session.obj.finishing then 1 else 2 := by
    simp [clientWork, hlive]
  simp only [work, hmove.server, hbefore] at hle ⊢
  cases hfin : s.client.session.obj.finishing with
  | true =>
      rw [hclient, StreamingCallSession.handled_status hfin]
      simp [clientWork, StreamingCallSession.afterStatus]
  | false =>
      cases hmsg : r.message with
      | some data =>
          rw [hclient, StreamingCallSession.handled_reply hfin hmsg] at hle ⊢
          simp only [StreamingCallSession.afterReply, StreamPromise.values_push hstorage,
            List.length_append, List.length_singleton] at hle ⊢
          simp [clientWork, StreamingCallSession.startBatch, StreamingCallSession.done, hfin]
          omega
      | none =>
          rw [hclient, StreamingCallSession.handled_end hfin hmsg]
          simp [clientWork, StreamingCallSession.afterEnd, StreamingCallSession.startBatch,
            StreamingCallSession.done]

/-- The steps of the two sides and of gRPC core come to an end. -/
theorem quiesces (req : Req) : (machine Rep req).Quiesces Event.isInternal work := by
  constructor
  intro s s' e hs hinternal hstep
  have hinv := server_inv hs
  cases e with
  | perform =>
      obtain ⟨payload, -, hmove⟩ := serverMove_of_perform hstep
      exact work_server hinv hmove rfl
  | attach => exact work_server hinv (serverMove_of_step hstep) rfl
  | handlerThrows ex => cases hinternal
  | handlerPush rep => cases hinternal
  | handlerEnd t => cases hinternal
  | clientDone i err =>
      obtain ⟨r, hmove⟩ := clientMove_of_done hstep
      exact work_client hs (hs.step hstep) hmove
  | serverDone i =>
      obtain ⟨r, hmove⟩ := serverMove_of_done hstep
      exact work_server hinv hmove rfl

/-! ## When nothing of it is left -/

/-- A session that has read the server's end has a status to receive. -/
theorem status_of_finishing {req : Req} {s : StreamingRpc Req Rep}
    (h : (machine Rep req).Reachable s) (hfin : s.client.session.obj.finishing = true) :
    s.server.handler.obj.call.statuses ≠ [] := by
  revert hfin
  induction h with
  | init =>
      intro hno
      cases hno
  | @step s s' e hs hnext ih =>
      intro hfin
      rcases step_moves hnext with ⟨i, r, hmove⟩ | ⟨se, hmove⟩
      · obtain ⟨hlive, hclient, hread, -⟩ := client_handled (client_inv hs) hmove
        rw [hmove.server]
        by_cases hbefore : s.client.session.obj.finishing = true
        · exact ih hbefore
        · have hbefore' : s.client.session.obj.finishing = false := by simpa using hbefore
          have hwire := hread hbefore'
          cases hmsg : r.message with
          | some data =>
              rw [hclient, StreamingCallSession.handled_reply hbefore' hmsg] at hfin
              exact absurd hfin hbefore
          | none =>
              rw [hmsg] at hwire
              have hclosed := (Peer.read_null hwire).2
              simpa [serverPeer, Peer.ofServer] using hclosed
      · rw [hmove.client] at hfin
        have hkept : s.server.handler.obj.call.statuses <+: s'.server.handler.obj.call.statuses :=
          Party.statuses_step (P := StreamingServer.party Req Rep) hmove.step
        intro hnone
        rw [hnone] at hkept
        exact ih hfin (List.prefix_nil.1 hkept)

/-- The request is read by `perform` only. -/
theorem unread_of_uncalled {req : Req} {s : StreamingRpc Req Rep}
    (h : (machine Rep req).Reachable s) (hreq : s.server.req = none) : s.toServer = 0 := by
  induction h with
  | init => rfl
  | step hs hnext ih =>
      rcases step_moves hnext with ⟨i, r, hmove⟩ | ⟨se, hmove⟩
      · rw [hmove.toServer]
        exact ih (hmove.server ▸ hreq)
      · by_cases hperform : ∃ payload, se = .perform payload
        · obtain ⟨payload, rfl⟩ := hperform
          rw [StreamingServer.req_perform hmove.step] at hreq
          cases hreq
        · have hne : ∀ payload, se ≠ .perform payload := fun payload he => hperform ⟨payload, he⟩
          rw [StreamingServer.req_step hmove.step hne] at hreq
          rw [hmove.toServer hne]
          exact ih hreq

section Rest

variable {req : Req} {s : StreamingRpc Req Rep}

/-- The handler was called. -/
theorem called_of_atRest (h : (machine Rep req).Reachable s)
    (hrest : (machine Rep req).AtRest Event.isInternal s) : s.server.req = some req := by
  cases hreq : s.server.req with
  | some q => rw [request_of_reachable h q hreq]
  | none =>
      have hread : s.clientPeer.read = some (some (serialize req)) := by
        simp [clientPeer, Peer.read, Peer.ofClient, (client_inv h).sent, unread_of_uncalled h hreq]
      have hperform := hrest .perform rfl
      simp [machine, step, hread, stepServer, StreamingServer.step, hreq] at hperform

/-- It has returned its stream, or thrown. -/
theorem returned_of_atRest (h : (machine Rep req).Reachable s)
    (hrest : (machine Rep req).AtRest Event.isInternal s) (hthrew : s.server.threw = none) :
    s.server.replies.attached = true := by
  have hattach := hrest .attach rfl
  cases hatt : s.server.replies.attached with
  | true => rfl
  | false =>
      simp [machine, step, stepServer, StreamingServer.step, called_of_atRest h hrest, hthrew,
        Source.attach, hatt] at hattach

/-- Every batch of the server can complete, so none is outstanding. -/
theorem server_quiet_of_atRest (hrest : (machine Rep req).AtRest Event.isInternal s) :
    s.server.handler.obj.call.outstanding = [] := by
  cases hout : s.server.handler.obj.call.outstanding with
  | nil => rfl
  | cons b rest =>
      have hb : s.server.handler.obj.call.outstanding[0]? = some b := by rw [hout]; rfl
      have hreceive : s.clientPeer.receive (BatchSpec.ops b) none = some {} := by
        cases b <;> rfl
      have hwork := Live.isSome_workerMain (o := s.server.handler) hb (r := {}) rfl
      have hdone := hrest (.serverDone 0) rfl
      simp only [machine, step, hb, Option.bind_some, hreceive, stepServer, StreamingServer.step,
        Option.map_eq_none_iff] at hdone
      rw [hdone] at hwork
      cases hwork

/-- A session that exists waits for a message. -/
theorem client_waits_of_atRest (h : (machine Rep req).Reachable s)
    (hrest : (machine Rep req).AtRest Event.isInternal s)
    (hlive : s.client.session.deleted = false) :
    s.client.session.obj.finishing = false ∧ s.serverPeer.read = none := by
  obtain ⟨b, hout, hfinal⟩ := (client_inv h).one hlive
  have hb : s.client.session.obj.call.outstanding[0]? = some b := by rw [hout]; rfl
  have hreceive : s.serverPeer.receive (BatchSpec.ops b) none = none := by
    by_contra hsome
    obtain ⟨r, hr⟩ := Option.ne_none_iff_exists'.1 hsome
    have hwork := Live.isSome_workerMain (o := s.client.session) hb (r := r) rfl
    have hdone := hrest (.clientDone 0 none) rfl
    simp only [machine, step, hb, Option.bind_some, hr, StreamingClient.step,
      Option.map_eq_none_iff] at hdone
    rw [hdone] at hwork
    cases hwork
  have hfin : s.client.session.obj.finishing = false := by
    by_contra hyes
    have hyes' : s.client.session.obj.finishing = true := by simpa using hyes
    -- The final status is there to be received.
    have hstatus := status_of_finishing h hyes'
    obtain ⟨status, rest, hlist⟩ := List.exists_cons_of_ne_nil hstatus
    rw [hyes'] at hfinal
    cases b with
    | final =>
        simp [Peer.receive, BatchSpec.ops, Op.isRecvMessage, Op.isRecvStatus, serverPeer,
          Peer.ofServer, hlist] at hreceive
    | first m => cases hfinal
    | read => cases hfinal
  refine ⟨hfin, ?_⟩
  rw [hfin] at hfinal
  cases b with
  | final => cases hfinal
  | first m => exact Peer.read_of_receive_eq_none hreceive rfl rfl
  | read => exact Peer.read_of_receive_eq_none hreceive rfl rfl

/-- The status is sent once the reply stream has ended, or the handler has thrown. -/
theorem status_of_atRest (h : (machine Rep req).Reachable s)
    (hrest : (machine Rep req).AtRest Event.isInternal s)
    (hended : s.server.replies.terminal ≠ none ∨ s.server.threw ≠ none) :
    s.server.handler.obj.call.statuses ≠ [] := by
  have hinv := server_inv h
  rw [StreamingServer.statuses_eq, ne_eq, List.replicate_eq_nil_iff]
  by_cases hthrew : s.server.threw = none
  · have hatt := returned_of_atRest h hrest hthrew
    obtain ⟨t, hterm⟩ := Option.ne_none_iff_exists'.1 (hended.resolve_right (by simp [hthrew]))
    cases t with
    | failed e =>
        have hfailed := hinv.failed
        simp [hatt, hterm, StreamEnd.isFailed, hthrew] at hfailed
        omega
    | complete =>
        cases hdel : s.server.handler.deleted with
        | true => exact hinv.counts.deleted_end (by simp [hdel])
        | false =>
            have hgate := hinv.counts.gate_live (by simp [hdel])
            simp only [Call.pending, server_quiet_of_atRest hrest, List.countP_nil] at hgate
            have hclose := hinv.settled (by rw [hinv.feeds.ended, hatt, hterm]; rfl)
              (Bool.toNat_eq_zero.1 hgate.symm)
            have hstarts : s.server.handler.obj.call.starts isSendEnd ≠ 0 := hclose
            omega
  · have hfailed := hinv.failed
    have hsome : s.server.threw.isSome = true := Option.isSome_iff_ne_none.2 hthrew
    simp only [hsome, Bool.toNat_true] at hfailed
    omega

/-- While the handler can still push, everything it has pushed was sent. -/
theorem sent_of_atRest (h : (machine Rep req).Reachable s)
    (hrest : (machine Rep req).AtRest Event.isInternal s)
    (hopen : s.server.replies.terminal = none) (hthrew : s.server.threw = none) :
    s.server.handler.obj.call.sent = s.server.replies.pushed.map serialize := by
  have hinv := server_inv h
  have hgate := hinv.counts.gate_live (by simp [hinv.live_of_open (Or.inr hopen) hthrew])
  simp only [Call.pending, server_quiet_of_atRest hrest, List.countP_nil] at hgate
  have hqueue : s.server.handler.obj.pendingOps = [] :=
    hinv.feeds.outbox.idle_queue (Bool.toNat_eq_zero.1 hgate.symm)
  have hhistory := hinv.feeds.history
  rw [returned_of_atRest h hrest hthrew, if_pos rfl] at hhistory
  simpa [Outbox.history, ServerStreamingCallHandler.toOutbox, hqueue] using hhistory

/-- While the handler can still push, no status is sent. -/
theorem statuses_of_open (h : (machine Rep req).Reachable s)
    (hopen : s.server.replies.terminal = none) (hthrew : s.server.threw = none) :
    s.server.handler.obj.call.statuses = [] := by
  have hinv := server_inv h
  have hclose : s.server.handler.obj.call.starts isSendEnd = 0 :=
    hinv.feeds.outbox.closes_of_open (hinv.feeds.not_ended (Or.inr hopen))
  have hfailed := hinv.failed
  simp only [hopen, hthrew, Option.any_none, Bool.and_false, Option.isSome_none,
    Bool.toNat_false] at hfailed
  rw [StreamingServer.statuses_eq, hclose, hfailed]
  rfl

/-! ## The RPC waits for nobody but the user's handler -/

/-- What there is when only the user's handler can do something. -/
structure Rests (req : Req) (s : StreamingRpc Req Rep) : Prop where
  /-- It was called with the caller's request. -/
  called : s.server.req = some req
  /-- It may still push: both objects exist, and the caller has every reply there is. -/
  waits : s.server.replies.terminal = none → s.server.threw = none →
    s.client.session.deleted = false ∧ s.server.handler.deleted = false ∧
      s.client.session.obj.replyStreamPromise.log = s.server.replies.pushed.map .push
  /-- It has ended its stream, or thrown: both objects are deleted with nothing outstanding, and the
      caller's stream was ended once. -/
  ended : s.server.replies.terminal ≠ none ∨ s.server.threw ≠ none →
    s.client.session.deleted = true ∧ s.server.handler.deleted = true ∧
      s.client.session.obj.call.outstanding = [] ∧ s.server.handler.obj.call.outstanding = [] ∧
      s.client.session.obj.replyStreamPromise.ends = [.complete]

theorem waits_of_atRest (h : (machine Rep req).Reachable s)
    (hrest : (machine Rep req).AtRest Event.isInternal s)
    (hopen : s.server.replies.terminal = none) (hthrew : s.server.threw = none) :
    s.client.session.deleted = false ∧ s.server.handler.deleted = false ∧
      s.client.session.obj.replyStreamPromise.log = s.server.replies.pushed.map .push := by
  have hwire := wire_of_reachable h
  have hlive : s.client.session.deleted = false := by
    by_contra hdel
    have hfin := ((client_inv h).none (by simpa using hdel)).2
    exact status_of_finishing h hfin (statuses_of_open h hopen hthrew)
  refine ⟨hlive, (server_inv h).live_of_open (Or.inr hopen) hthrew, ?_⟩
  have hsent : s.serverPeer.sent = s.server.replies.pushed.map serialize :=
    sent_of_atRest h hrest hopen hthrew
  have hvalues := hwire.replies.values_sent
  have hpos := hwire.replies.pos_eq hlive
  have hall : s.server.replies.pushed.map (deserialize ∘ serialize) = s.server.replies.pushed := by
    rw [funext (f := deserialize ∘ serialize) (g := (id : Rep → Rep))
      Serializer.deserialize_serialize, List.map_id]
  rw [hsent, List.map_map, hall] at hvalues
  -- Nothing is left to be read.
  have hunread := (Peer.unread_of_read_eq_none (client_waits_of_atRest h hrest hlive).2).1
  rw [hsent, hpos, List.getElem?_eq_none_iff, List.length_map] at hunread
  have heq := hvalues.eq_of_length_le hunread
  have hends := hwire.rep_ends
  simp only [hlive, Bool.false_eq_true, if_false] at hends
  rw [hwire.rep.log_eq, heq, hends]
  simp

theorem ended_of_atRest (h : (machine Rep req).Reachable s)
    (hrest : (machine Rep req).AtRest Event.isInternal s)
    (hended : s.server.replies.terminal ≠ none ∨ s.server.threw ≠ none) :
    s.client.session.deleted = true ∧ s.server.handler.deleted = true ∧
      s.client.session.obj.call.outstanding = [] ∧ s.server.handler.obj.call.outstanding = [] ∧
      s.client.session.obj.replyStreamPromise.ends = [.complete] := by
  have hstatuses := status_of_atRest h hrest hended
  have hquiet := server_quiet_of_atRest hrest
  have hclient : s.client.session.deleted = true := by
    by_contra hlive
    have hread := (client_waits_of_atRest h hrest (by simpa using hlive)).2
    have hopen := (Peer.unread_of_read_eq_none hread).2
    simp [serverPeer, Peer.ofServer, hstatuses] at hopen
  have hserver : s.server.handler.deleted = true := by
    by_contra hlive
    have hstarts : s.server.handler.obj.call.starts isLast = 0 := by
      rw [← lasts_outstanding (reachable_sides h).2 (by simpa using hlive), Call.pending, hquiet]
      rfl
    exact hstatuses ((statuses_eq_nil_iff _).2 hstarts)
  have hends := (wire_of_reachable h).rep_ends
  rw [hclient, if_pos rfl] at hends
  exact ⟨hclient, hserver, ((client_inv h).none hclient).1, hquiet, hends⟩

theorem rests_of_atRest (h : (machine Rep req).Reachable s)
    (hrest : (machine Rep req).AtRest Event.isInternal s) : s.Rests req where
  called := called_of_atRest h hrest
  waits := waits_of_atRest h hrest
  ended := ended_of_atRest h hrest

/-- **A server-streaming RPC waits for nobody but the user's handler.** In every reachable state,
    whatever the handler does, what the two sides and gRPC core do of their own comes to an end, in
    whatever order they do it, and then the RPC rests as `Rests` says. -/
theorem streaming_waits_for_handler (h : (machine Rep req).Reachable s) :
    (machine Rep req).ComesToRest Event.isInternal work (Rests req) s :=
  (quiesces req).comesToRest (fun _ => rests_of_atRest) h

end Rest

/-- The handler has pushed a reply and then fails; the client has read nothing yet. -/
theorem streaming_waits_for_handler_failed :
    ∃ s : StreamingRpc Buffer Buffer, s.server.replies.terminal = some (.failed .other) ∧
      (machine Buffer ([9] : Buffer)).ComesToRest Event.isInternal work (Rests [9]) s := by
  have hrun : (machine Buffer ([9] : Buffer)).Reachable _ :=
    Machine.reachable_of_run
      [.perform, .attach, .handlerPush [1], .serverDone 0, .handlerEnd (.failed .other)] rfl
  exact ⟨_, rfl, streaming_waits_for_handler hrun⟩

end StreamingRpc

end EasyGrpc
