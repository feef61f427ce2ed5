import EasyGrpc.Library.Quiescence
import EasyGrpc.Queue.Proofs.Parties
import EasyGrpc.Rpc.Proofs.Outcome

set_option autoImplicit false

/-! # A client-streaming RPC waits for nobody but its two users

The caller may push or end its requests, and the handler may reply. What the two sides and gRPC core
have to do of their own is finite (`work`), and when nothing of it is left, whatever one of the two
could wait for has happened. -/

namespace EasyGrpc

variable {Req Rep : Type}

/-! ## What a session still has to do -/

namespace ClientStreamingCallSession

open UploadClientBatch

/-- The batches that are outstanding, and those that are to be started: one for each request that is
    queued, and the last. -/
def load (s : ClientStreamingCallSession Rep) : ℕ :=
  s.call.outstanding.length + s.pendingOps.length + (1 - s.call.starts isSendEnd)

theorem load_flush (s : ClientStreamingCallSession Rep) : s.flush.load = s.load := by
  unfold flush
  split
  · rfl
  · cases hq : s.pendingOps with
    | nil => rfl
    | cons op rest =>
        simp only [load, startBatch, Call.length_startBatch, Call.starts_startBatch, isSendEnd, hq,
          List.length_cons, Bool.toNat_false]
        omega

/-- The last batch is to be started once. -/
theorem load_sendEnd {s : ClientStreamingCallSession Rep} (hnone : s.call.starts isSendEnd = 0) :
    s.sendEnd.load = s.load := by
  simp only [load, sendEnd, startBatch, Call.length_startBatch, Call.starts_startBatch, hnone,
    isSendEnd, Bool.toNat_true]
  omega

theorem load_afterBatch {s : ClientStreamingCallSession Rep}
    (hnone : s.call.starts isSendEnd = 0) : s.afterBatch.load = s.load := by
  unfold afterBatch
  split
  · exact load_flush _
  · split
    · exact load_sendEnd hnone
    · rfl

theorem load_done {s : ClientStreamingCallSession Rep} {i : ℕ} {b : UploadClientBatch}
    (hb : s.call.outstanding[i]? = some b) : (s.done i).load + 1 = s.load := by
  have hlength := Call.length_completeAt hb
  simp only [load, done, Call.starts_completeAt]
  omega

end ClientStreamingCallSession

namespace UploadClient

open ClientStreamingCallSession UploadClientBatch

variable [Serializer Req] [Serializer Rep]

/-- A turn of the completion thread lowers the load. -/
theorem load_complete {c : UploadClient Req Rep} {session : Live (ClientStreamingCallSession Rep)}
    {i : ℕ} {r : Received} (h : c.Inv) (hwork : c.session.workerMain i r = some session) :
    session.obj.load < c.session.obj.load := by
  obtain ⟨b, hb, hlive, rfl⟩ := complete_cases h hwork
  have hdone := load_done hb
  have hnext : b.isSendEnd = false →
      (c.session.obj.done i).afterBatch.load < c.session.obj.load := by
    intro hother
    have hnone : (c.session.obj.done i).call.starts isSendEnd = 0 :=
      h.outbox.closes_of_busy (h.busy_of_pending hlive hb hother)
    rw [load_afterBatch hnone]
    omega
  cases b with
  | handshake => exact hnext rfl
  | write m => exact hnext rfl
  | sendEnd =>
      have hsame : (c.session.obj.resolved i r).load = (c.session.obj.done i).load := rfl
      show (c.session.obj.resolved i r).load < c.session.obj.load
      omega

end UploadClient

/-! ## What a handler still has to do -/

namespace UploadServer

open ClientStreamingCallHandler UploadServerBatch

/-- The batches that are outstanding, and the two that `perform` is to start. A request that is read
    costs nothing: the next read takes the place of the one that has completed. -/
def work (c : UploadServer Req Rep) : ℕ :=
  c.handler.obj.call.outstanding.length + (if c.reading then 0 else 2)
    + (if c.attached then 0 else 2)

theorem length_finish [Serializer Rep] (h : ClientStreamingCallHandler Req)
    (o : Except Exception Rep) :
    (h.finish o).call.outstanding.length = h.call.outstanding.length + 1 := by
  cases o with
  | ok rep => exact Call.length_startBatch h.call _
  | error e => exact Call.length_startBatch h.call _

/-- The steps of `perform` and of the completion thread. -/
def Event.isInternal : Event Rep → Bool
  | .reply _ => false
  | _ => true

variable [Serializer Req] [Serializer Rep]

/-- **A step lowers the work, or hands over a request.** -/
theorem work_step {c c' : UploadServer Req Rep} {e : Event Rep} (h : c.Inv)
    (hstep : c.step e = some c') (hinternal : e.isInternal = true) :
    c'.work + c.handler.obj.readerProm.values.length
      < c.work + c'.handler.obj.readerProm.values.length := by
  have hone : ∀ {f : ClientStreamingCallHandler Req → ClientStreamingCallHandler Req},
      (f c.handler.obj).call.outstanding.length = c.handler.obj.call.outstanding.length + 1 →
      (f c.handler.obj).readerProm = c.handler.obj.readerProm →
      (c.handler.update f).obj.call.outstanding.length
          ≤ c.handler.obj.call.outstanding.length + 1 ∧
        (c.handler.update f).obj.readerProm = c.handler.obj.readerProm := by
    intro f hlength hprom
    exact Live.update_obj (P := fun g : ClientStreamingCallHandler Req =>
      g.call.outstanding.length ≤ c.handler.obj.call.outstanding.length + 1 ∧
        g.readerProm = c.handler.obj.readerProm) ⟨Nat.le_succ _, rfl⟩ ⟨hlength.le, hprom⟩
  cases moves_of_step hstep with
  | reply => cases hinternal
  | startReading hreading =>
      obtain ⟨hlength, hprom⟩ := hone (f := (·.startBatch .first)) (Call.length_startBatch _ _) rfl
      simp only [work, hreading, hprom, if_true, Bool.false_eq_true, if_false]
      omega
  | attach hreading hatt =>
      cases hreply : c.reply with
      | none =>
          simp only [work, hatt, if_true, Bool.false_eq_true, if_false]
          omega
      | some o =>
          obtain ⟨hlength, hprom⟩ :=
            hone (f := (·.finish o)) (length_finish _ o) (readerProm_finish _ o)
          simp only [work, hatt, hprom, if_true, Bool.false_eq_true, if_false]
          omega
  | @complete i r handler hwork =>
      obtain ⟨b, hb, hcase⟩ := complete_cases hwork
      have hlength := Call.length_completeAt hb
      rcases hcase with ⟨-, rfl⟩ | ⟨hlive, rfl⟩
      · simp only [work, ClientStreamingCallHandler.done]
        omega
      · cases hread : b.isRead with
        | false =>
            simp only [work, handled, hread, ClientStreamingCallHandler.done, Bool.false_eq_true,
              if_false]
            omega
        | true =>
            have hopen := h.reader_open hb hread
            cases hmsg : r.message with
            | some data =>
                simp only [work, handled, hread, hmsg, if_true, afterRequest, startBatch,
                  ClientStreamingCallHandler.done, Call.length_startBatch,
                  StreamPromise.values_push hopen, List.length_append, List.length_singleton]
                omega
            | none =>
                simp only [work, handled, hread, hmsg, if_true, afterRequests,
                  ClientStreamingCallHandler.done, StreamPromise.complete,
                  StreamPromise.values_finish]
                omega

/-- An answer is outstanding as long as the handler exists. -/
theorem lasts_outstanding {c : UploadServer Req Rep} (h : (machine Req Rep).Reachable c)
    (hlive : c.handler.deleted = false) :
    c.handler.obj.call.pending isAnswer = c.handler.obj.call.starts isAnswer := by
  refine Party.lasts_outstanding (P := party Req Rep) ?_ h hlive
  intro o b hb
  have hflags : BatchSpec.flags b = 1 := by
    cases b with
    | first => cases hb
    | recv => cases hb
    | response m => rfl
    | failure status details => rfl
  show (ClientStreamingCallHandler.exec o (BatchSpec.flags b)).1 = true
  rw [hflags]
  rfl

/-- The request stream is only ever completed. -/
theorem ends_eq_complete {c : UploadServer Req Rep} (h : (machine Req Rep).Reachable c) :
    ∀ t ∈ c.handler.obj.readerProm.ends, t = .complete := by
  induction h with
  | init =>
      intro t ht
      cases ht
  | @step c c' e hc hnext ih =>
      rcases reader_step hnext with ⟨hprom, -⟩ | ⟨i, r, b, -, -, -, hb, hread, hcase⟩
      · rw [hprom]
        exact ih
      · rcases hcase with ⟨data, -, hprom⟩ | ⟨-, hprom⟩
        · rw [hprom, StreamPromise.ends_push]
          exact ih
        · have hopen := (inv_of_reachable hc).reader_open hb hread
          rw [hprom, StreamPromise.complete, StreamPromise.ends_finish hopen]
          intro t ht
          rcases List.mem_append.1 ht with hbefore | hlast
          · exact ih t hbefore
          · exact List.mem_singleton.1 hlast

end UploadServer

/-! ## Both sides together -/

namespace UploadRpc

open UploadServer UploadServerBatch

/-- What is left to do: each side's work, and the requests that were not read. -/
def work (s : UploadRpc Req Rep) : ℕ :=
  s.client.session.obj.load + s.server.work
    + (s.client.requests.pushed.length - s.server.handler.obj.readerProm.values.length)

variable [Serializer Req] [Serializer Rep]

theorem length_values_le {s : UploadRpc Req Rep} (h : (machine Req Rep).Reachable s) :
    s.server.handler.obj.readerProm.values.length ≤ s.client.requests.pushed.length := by
  have hlink := FifoLink.inv_of_reachable (requestSimulation.reachable h)
  exact hlink.delivered_prefix.length_le

theorem work_server {s s' : UploadRpc Req Rep} {e : UploadServer.Event Rep}
    (h : (machine Req Rep).Reachable s) (h' : (machine Req Rep).Reachable s')
    (hmove : ServerMove s s' e) (hinternal : e.isInternal = true) : s'.work < s.work := by
  have hserver := UploadServer.work_step (server_inv h) hmove.step hinternal
  have hle := length_values_le h
  have hle' := length_values_le h'
  simp only [work, hmove.client] at hle' ⊢
  omega

theorem work_client {s s' : UploadRpc Req Rep} {i : ℕ} {r : Received} (hinv : s.client.Inv)
    (hmove : ClientMove s s' (.complete i r)) : s'.work < s.work := by
  obtain ⟨session, hwork, hclient⟩ := Option.map_eq_some_iff.1 hmove.step
  have hload := UploadClient.load_complete hinv hwork
  simp only [work, hmove.server, ← hclient]
  omega

/-- The steps of the two sides and of gRPC core come to an end. -/
theorem quiesces : (machine Req Rep).Quiesces Event.isInternal work := by
  constructor
  intro s s' e hs hinternal hstep
  have hs' := hs.step hstep
  cases e with
  | callerPush req => cases hinternal
  | callerEnd t => cases hinternal
  | handlerReply o => cases hinternal
  | startReading =>
      exact work_server hs hs' (serverMove_of_user hstep (fun _ _ he => by cases he)) rfl
  | attach => exact work_server hs hs' (serverMove_of_user hstep (fun _ _ he => by cases he)) rfl
  | clientDone i err =>
      obtain ⟨r, hmove⟩ := clientMove_of_done hstep
      exact work_client (client_inv hs) hmove
  | serverDone i =>
      obtain ⟨r, hmove⟩ := serverMove_of_done hstep
      exact work_server hs hs' hmove rfl

/-! ## When nothing of it is left -/

section Rest

variable {s : UploadRpc Req Rep}

/-- `perform` has returned. -/
theorem performed_of_atRest (hrest : (machine Req Rep).AtRest Event.isInternal s) :
    s.server.reading = true ∧ s.server.attached = true := by
  have hreading : s.server.reading = true := by
    have hstart := hrest .startReading rfl
    by_contra hno
    simp [machine, step, stepServer, UploadServer.step, hno] at hstart
  refine ⟨hreading, ?_⟩
  have hattach := hrest .attach rfl
  by_contra hno
  simp [machine, step, stepServer, UploadServer.step, hreading, hno] at hattach

theorem answer_of_atRest (hrest : (machine Req Rep).AtRest Event.isInternal s) :
    s.server.answer = s.server.reply := by
  rw [answer, (performed_of_atRest hrest).2, if_pos rfl]

/-- The client waits for nothing but the answer. -/
theorem client_blocks (h : (machine Req Rep).Reachable s)
    (hrest : (machine Req Rep).AtRest Event.isInternal s) {b : UploadClientBatch}
    (hb : s.client.session.obj.call.outstanding[0]? = some b) :
    b = .sendEnd ∧ s.server.reply = none := by
  have hreceive : s.serverPeer.receive (BatchSpec.ops b) none = none := by
    by_contra hsome
    obtain ⟨r, hr⟩ := Option.ne_none_iff_exists'.1 hsome
    have hwork := Live.isSome_workerMain (o := s.client.session) hb (r := r) rfl
    have hdone := hrest (.clientDone 0 none) rfl
    simp only [machine, step, hb, Option.bind_some, hr, UploadClient.step,
      Option.map_eq_none_iff] at hdone
    rw [hdone] at hwork
    cases hwork
  cases b with
  | handshake => cases hreceive
  | write m => cases hreceive
  | sendEnd =>
      refine ⟨rfl, Option.eq_none_iff_forall_ne_some.2 ?_⟩
      intro o ho
      have hserver := server_inv h
      have hlive : s.client.session.deleted = false := by
        by_contra hdel
        have hquiet := ((client_inv h).counts.last_deleted (by simpa using hdel)).1
        rw [List.isEmpty_iff.1 hquiet] at hb
        cases hb
      have hsent := hserver.sent
      have hstatuses := hserver.statuses
      rw [answer_of_atRest hrest, ho] at hsent hstatuses
      obtain ⟨r, hr⟩ := receive_of_answer hsent hstatuses
        (BatchSpec.ops UploadClientBatch.sendEnd)
      rw [← (wire_of_reachable h).unread hlive] at hr
      cases hr.symm.trans hreceive

/-- The handler waits for nothing but requests. -/
theorem server_blocks (hrest : (machine Req Rep).AtRest Event.isInternal s) {i : ℕ}
    {b : UploadServerBatch} (hb : s.server.handler.obj.call.outstanding[i]? = some b) :
    b.isRead = true ∧ s.clientPeer.read = none := by
  have hreceive : s.clientPeer.receive (BatchSpec.ops b) none = none := by
    by_contra hsome
    obtain ⟨r, hr⟩ := Option.ne_none_iff_exists'.1 hsome
    have hwork := Live.isSome_workerMain (o := s.server.handler) hb (r := r) rfl
    have hdone := hrest (.serverDone i) rfl
    simp only [machine, step, hb, Option.bind_some, hr, UploadServer.step,
      Option.map_eq_none_iff] at hdone
    rw [hdone] at hwork
    cases hwork
  cases b with
  | first => exact ⟨rfl, Peer.read_of_receive_eq_none hreceive rfl rfl⟩
  | recv => exact ⟨rfl, Peer.read_of_receive_eq_none hreceive rfl rfl⟩
  | response m => cases hreceive
  | failure status details => cases hreceive

/-- Nothing holds the client's gate. -/
theorem idle_of_atRest (h : (machine Req Rep).Reachable s)
    (hrest : (machine Req Rep).AtRest Event.isInternal s) :
    s.client.session.obj.toOutbox.busy = false := by
  have hinv := client_inv h
  cases hdel : s.client.session.deleted with
  | true => exact hinv.outbox.closed_idle (hinv.counts.last_deleted hdel).2.1
  | false =>
      have hgate := hinv.counts.gate_live hdel
      have hnone : s.client.session.obj.call.pending UploadClientBatch.isHandshake
          + s.client.session.obj.call.pending UploadClientBatch.isWrite = 0 := by
        have hone := hinv.one_outstanding
        cases hout : s.client.session.obj.call.outstanding with
        | nil => simp [Call.pending, hout]
        | cons b rest =>
            obtain ⟨rfl, -⟩ := client_blocks h hrest (b := b) (by rw [hout]; rfl)
            rw [hout, List.length_cons] at hone
            obtain rfl : rest = [] := List.length_eq_zero_iff.1 (by omega)
            simp [Call.pending, hout, UploadClientBatch.isHandshake, UploadClientBatch.isWrite]
      exact Bool.toNat_eq_zero.1 (hgate.symm.trans hnone)

/-- Every request is on the wire. -/
theorem sent_of_atRest (h : (machine Req Rep).Reachable s)
    (hrest : (machine Req Rep).AtRest Event.isInternal s) :
    s.clientPeer.sent = s.client.requests.pushed.map serialize := by
  have hinv := client_inv h
  have hqueue := hinv.outbox.idle_queue (idle_of_atRest h hrest)
  have hhistory := hinv.history
  rwa [Outbox.history, hqueue, List.append_nil] at hhistory

/-- And so is the end of the requests. -/
theorem closed_of_atRest (h : (machine Req Rep).Reachable s)
    (hrest : (machine Req Rep).AtRest Event.isInternal s) :
    s.clientPeer.closed = s.client.requests.terminal.isSome := by
  have hinv := client_inv h
  have hclosed : s.clientPeer.closed = true ↔
      s.client.session.obj.call.starts UploadClientBatch.isSendEnd ≠ 0 :=
    ClientStreamingCallSession.closed_iff _
  rw [← hinv.ended, Bool.eq_iff_iff, hclosed]
  exact ⟨fun hclose => hinv.outbox.closed_ended hclose,
    fun hended => hinv.settled hended (idle_of_atRest h hrest)⟩

/-- A null read is due once the requests have ended. -/
theorem read_of_ended (h : (machine Req Rep).Reachable s)
    (hrest : (machine Req Rep).AtRest Event.isInternal s)
    (hended : s.client.requests.terminal.isSome = true) : s.clientPeer.read ≠ none := by
  intro hread
  have hopen := (Peer.unread_of_read_eq_none hread).2
  rw [closed_of_atRest h hrest, hended] at hopen
  cases hopen

/-- A read that cannot complete means that every request was read. -/
theorem values_of_blocked (h : (machine Req Rep).Reachable s)
    (hrest : (machine Req Rep).AtRest Event.isInternal s)
    (hlive : s.server.handler.deleted = false) (hread : s.clientPeer.read = none) :
    s.server.handler.obj.readerProm.values = s.client.requests.pushed := by
  have hlink := FifoLink.inv_of_reachable (requestSimulation.reachable h)
  have hdelivered := hlink.delivered_prefix
  have hpos := (wire_of_reachable h).requests.pos_eq hlive
  have hunread := (Peer.unread_of_read_eq_none hread).1
  rw [sent_of_atRest h hrest, hpos, List.getElem?_eq_none_iff, List.length_map] at hunread
  exact hdelivered.eq_of_length_le hunread

/-- A handler that has not replied has everything there is of the requests. -/
theorem reads_of_atRest (h : (machine Req Rep).Reachable s)
    (hrest : (machine Req Rep).AtRest Event.isInternal s) (hreply : s.server.reply = none) :
    s.server.handler.deleted = false ∧
      s.server.handler.obj.readerProm.log = s.client.requests.pushed.map .push
        ++ (if s.client.requests.terminal.isSome then [.finish .complete] else []) := by
  have hserver := server_inv h
  have hlink := FifoLink.inv_of_reachable (requestSimulation.reachable h)
  have hlive := hserver.live_of_unanswered (by rw [answer_of_atRest hrest, hreply])
  have hreads := hserver.counts.reads_live hlive
  rw [(performed_of_atRest hrest).1, hserver.reader.terminations_eq, Bool.toNat_true] at hreads
  refine ⟨hlive, ?_⟩
  rw [hserver.reader.log_eq]
  cases hends : s.server.handler.obj.readerProm.ends with
  | nil =>
      -- A read is outstanding and cannot complete.
      rw [hends, List.length_nil, Nat.add_zero] at hreads
      obtain ⟨b, hb, hread⟩ := List.countP_pos_iff.1 (hreads ▸ Nat.one_pos)
      obtain ⟨i, hi⟩ := List.getElem?_of_mem hb
      have hblocked := (server_blocks hrest hi).2
      have hopen : s.client.requests.terminal.isSome = false := by
        by_contra hended
        exact read_of_ended h hrest (Bool.eq_true_of_not_eq_false hended) hblocked
      rw [values_of_blocked h hrest hlive hblocked, hopen]
      rfl
  | cons t rest =>
      rw [hends, List.length_cons] at hreads
      obtain rfl : rest = [] := List.length_eq_zero_iff.1 (by omega)
      obtain rfl := ends_eq_complete (sides_of_reachable h).2.2 t (by rw [hends]; simp)
      have hcompleted : s.requestLink.completed = true := by simp [requestLink, hends]
      have hended : s.client.requests.terminal.isSome = true := hlink.completed_ended hcompleted
      have hall : s.server.handler.obj.readerProm.values = s.client.requests.pushed :=
        hlink.completed_all hcompleted
      rw [hall, hended]
      rfl

/-- A caller that has not ended its requests has a session that waits for the next, with its gate
    open. -/
theorem waits_of_atRest (h : (machine Req Rep).Reachable s)
    (hrest : (machine Req Rep).AtRest Event.isInternal s)
    (hopen : s.client.requests.terminal = none) :
    s.client.session.deleted = false ∧ s.client.session.obj.batchInFlight = false ∧
      s.client.session.obj.call.outstanding = [] := by
  have hinv := client_inv h
  have hlive := hinv.live_of_open hopen
  refine ⟨hlive, idle_of_atRest h hrest, ?_⟩
  cases hout : s.client.session.obj.call.outstanding with
  | nil => rfl
  | cons b rest =>
      obtain ⟨rfl, -⟩ := client_blocks h hrest (b := b) (by rw [hout]; rfl)
      -- The last batch is started for an ended stream only.
      have hclose := hinv.outbox.closes_of_open (hinv.ended.trans (by rw [hopen]; rfl))
      have hlast := (hinv.counts.last_live hlive).1
      have hpos : 0 < s.client.session.obj.call.pending UploadClientBatch.isSendEnd :=
        Call.pending_pos (i := 0) (by rw [hout]; rfl) rfl
      have hsame : s.client.session.obj.call.starts UploadClientBatch.isSendEnd = 0 := hclose
      omega

/-- A call whose requests have ended and whose handler has replied is over. -/
theorem ended_of_atRest (h : (machine Req Rep).Reachable s)
    (hrest : (machine Req Rep).AtRest Event.isInternal s)
    (hended : s.client.requests.terminal.isSome = true) {o : Except Exception Rep}
    (hreply : s.server.reply = some o) :
    s.client.session.deleted = true ∧ s.server.handler.deleted = true ∧
      s.client.session.obj.call.outstanding = [] ∧ s.server.handler.obj.call.outstanding = [] ∧
      s.client.session.obj.rep = [resolutionOf o] := by
  have hclient : s.client.session.obj.call.outstanding = [] := by
    cases hout : s.client.session.obj.call.outstanding with
    | nil => rfl
    | cons b rest =>
        have hnone := (client_blocks h hrest (b := b) (by rw [hout]; rfl)).2
        rw [hreply] at hnone
        cases hnone
  have hserver : s.server.handler.obj.call.outstanding = [] := by
    cases hout : s.server.handler.obj.call.outstanding with
    | nil => rfl
    | cons b rest =>
        have hread := (server_blocks hrest (i := 0) (b := b) (by rw [hout]; rfl)).2
        exact absurd hread (read_of_ended h hrest hended)
  have hrep := resolved_of_quiet h (List.isEmpty_iff.2 hclient) hended hreply
  refine ⟨?_, ?_, hclient, hserver, hrep⟩
  · by_contra hlive
    have hnone := ((client_inv h).counts.last_live (by simpa using hlive)).2
    rw [hrep] at hnone
    cases hnone
  · by_contra hlive
    have hpending := lasts_outstanding (sides_of_reachable h).2.2 (by simpa using hlive)
    rw [(server_inv h).counts.answers_eq, answer_of_atRest hrest, hreply, Call.pending,
      hserver] at hpending
    cases hpending

/-! ## The RPC waits for nobody but its two users -/

/-- What there is when only the caller and the user's handler can do something. -/
structure Rests (s : UploadRpc Req Rep) : Prop where
  /-- Every request is on the wire, and so is the end of the requests. -/
  sent : s.clientPeer.sent = s.client.requests.pushed.map serialize
  closed : s.clientPeer.closed = s.client.requests.terminal.isSome
  /-- A handler that has not replied exists, has every request, and was told if there are no
      more. -/
  reads : s.server.reply = none → s.server.handler.deleted = false ∧
    s.server.handler.obj.readerProm.log = s.client.requests.pushed.map .push
      ++ (if s.client.requests.terminal.isSome then [.finish .complete] else [])
  /-- A caller that has not ended its requests can push one, which is sent at once. -/
  waits : s.client.requests.terminal = none → s.client.session.deleted = false ∧
    s.client.session.obj.batchInFlight = false ∧ s.client.session.obj.call.outstanding = []
  /-- If both have ended, so have their objects, with nothing outstanding, and the caller has the
      reply. -/
  ended : s.client.requests.terminal.isSome = true → ∀ o, s.server.reply = some o →
    s.client.session.deleted = true ∧ s.server.handler.deleted = true ∧
      s.client.session.obj.call.outstanding = [] ∧ s.server.handler.obj.call.outstanding = [] ∧
      s.client.session.obj.rep = [resolutionOf o]

theorem rests_of_atRest (h : (machine Req Rep).Reachable s)
    (hrest : (machine Req Rep).AtRest Event.isInternal s) : s.Rests where
  sent := sent_of_atRest h hrest
  closed := closed_of_atRest h hrest
  reads := reads_of_atRest h hrest
  waits := waits_of_atRest h hrest
  ended hended _ hreply := ended_of_atRest h hrest hended hreply

end Rest

end UploadRpc

end EasyGrpc
