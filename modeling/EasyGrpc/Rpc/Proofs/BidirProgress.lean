import EasyGrpc.Rpc.Proofs.BidirWork
import EasyGrpc.Server.Proofs.EarlyReply

set_option autoImplicit false

/-! # Where a bidirectional RPC comes to rest

When the two sides and gRPC core have nothing left to do, everything the two users have said has
arrived (`Rests`), unless one of the two sides never announces the end of its stream (`Stalled`).
That happens exactly if a handshake completes after that end with nothing queued: its branch of
`exec` does not look at the end, as the branch of a write does. -/

namespace EasyGrpc

variable {Req Rep : Type} [Serializer Req] [Serializer Rep]

namespace BidirServer

omit [Serializer Req] in
/-- A handler whose sending side is settled is not stuck. -/
theorem Inv.not_endStalled {c : BidirServer Req Rep} (h : c.Inv)
    (hset : c.handler.obj.toOutbox.Settled) : ¬ c.EndStalled := by
  rintro ⟨hshaken, hH, hS, -, hfin, hnone⟩
  have hlive : c.handler.deleted = false := by
    by_contra hdel
    exact h.counts.deleted_end (by simpa using hdel) hnone
  have hside := h.counts.sendSide_live (by simp [hlive])
  have hidle : c.handler.obj.toOutbox.busy = false := by
    simp [BidirStreamingCallHandler.toOutbox, Bool.toNat_eq_one.1 (by omega : c.handler.obj.readyToSend.toNat = 1)]
  exact hset hfin hidle hnone

end BidirServer

namespace BidirRpc

variable {s s' : BidirRpc Req Rep}

/-! ## When nothing of it is left -/

/-- A session that has read the server's end has a status to receive. -/
theorem statuses_of_received (h : (machine Req Rep).Reachable s)
    (hrecv : s.client.session.obj.finishedReceiving = true) :
    s.server.handler.obj.call.statuses ≠ [] := by
  revert hrecv
  induction h with
  | init =>
      intro hno
      cases hno
  | @step s s' e hs hnext ih =>
      intro hrecv
      rcases step_moves hnext with ⟨ce, hmove⟩ | ⟨se, hmove⟩
      · rw [hmove.server]
        rcases BidirClient.rep_step (client_inv hs) (returned_of_reachable hs) hmove.step with
          ⟨-, -, hsame, -⟩ | ⟨i, r, rfl, -, -, hb, hread⟩ | ⟨-, -, -, -, -, -, -, hsame⟩
        · exact ih (hsame.symm.trans hrecv)
        · obtain ⟨b, err, hb', hr, -⟩ := hmove.received i r rfl
          obtain rfl : b = .read := Option.some.inj (hb'.symm.trans hb)
          have hwire := Peer.receive_read hr rfl
          rcases hread with ⟨-, -, -, hsame⟩ | ⟨hmsg, -, -⟩
          · exact ih (hsame.symm.trans hrecv)
          · rw [hmsg] at hwire
            simpa [serverPeer, Peer.ofServer] using (Peer.read_null hwire).2
        · exact ih (hsame.symm.trans hrecv)
      · rw [hmove.client] at hrecv
        have hkept : s.server.handler.obj.call.statuses <+: s'.server.handler.obj.call.statuses :=
          Party.statuses_step (P := BidirServer.party Req Rep) hmove.step
        intro hnone
        rw [hnone] at hkept
        exact ih hrecv (List.prefix_nil.1 hkept)

section Rest

/-- `perform` has returned. -/
theorem performed_of_atRest (h : (machine Req Rep).Reachable s)
    (hrest : (machine Req Rep).AtRest Event.isInternal s) :
    s.server.replies.attached = true ∧
      s.server.handler.obj.call.starts BidirServerBatch.isHandshake = 1 := by
  have hatt : s.server.replies.attached = true := by
    have hattach := hrest .attach rfl
    by_contra hno
    simp [machine, step, stepServer, BidirServer.step, Source.attach, hno] at hattach
  refine ⟨hatt, ?_⟩
  have hstart := hrest .startHandshake rfl
  have hone := (server_inv h).counts.handshake_le
  by_contra hno
  have hzero : s.server.handler.obj.call.starts BidirServerBatch.isHandshake = 0 := by omega
  simp [machine, step, stepServer, BidirServer.step, hatt, hzero] at hstart

/-- The client waits for nothing but replies. -/
theorem client_blocks (h : (machine Req Rep).Reachable s)
    (hrest : (machine Req Rep).AtRest Event.isInternal s) {i : ℕ} {b : BidirClientBatch}
    (hb : s.client.session.obj.call.outstanding[i]? = some b) :
    b = .read ∧ s.serverPeer.read = none := by
  have hreceive : s.serverPeer.receive (BatchSpec.ops b) (some (.ofText "")) = none := by
    by_contra hsome
    obtain ⟨r, hr⟩ := Option.ne_none_iff_exists'.1 hsome
    have hend : b = .status →
        (BidirStreamingCallSession.finalEnd r.status r.errorString).isSome = true := by
      rintro rfl
      rw [Peer.receive_errorString hr rfl]
      exact BidirStreamingCallSession.isSome_finalEnd _ _
    have hwork := BidirStreamingCallSession.isSome_complete hb hend
    have hdone := hrest (.clientDone i (some (.ofText ""))) rfl
    simp only [machine, step, hb, Option.bind_some, hr, BidirClient.step,
      Option.map_eq_none_iff] at hdone
    rw [hdone] at hwork
    cases hwork
  cases b with
  | handshake => cases hreceive
  | write m => cases hreceive
  | close => cases hreceive
  | read => exact ⟨rfl, Peer.read_of_receive_eq_none hreceive rfl rfl⟩
  | status =>
      -- The status was asked for after the server's end was read.
      have hcounts := (client_inv h).counts
      have hpos := Call.pending_pos hb (p := BidirClientBatch.isStatus) rfl
      have hle := hcounts.status_le
      have hrecv := (hcounts.status_started (by omega)).1
      have hstatuses := statuses_of_received h (Bool.toNat_eq_one.1 hrecv)
      obtain ⟨status, rest, hlist⟩ := List.exists_cons_of_ne_nil hstatuses
      simp [Peer.receive, BatchSpec.ops, Op.isRecvMessage, Op.isRecvStatus, serverPeer,
        Peer.ofServer, hlist] at hreceive

/-- The handler waits for nothing but requests. -/
theorem server_blocks (hrest : (machine Req Rep).AtRest Event.isInternal s) {i : ℕ}
    {b : BidirServerBatch} (hb : s.server.handler.obj.call.outstanding[i]? = some b) :
    b = .recv ∧ s.clientPeer.read = none := by
  have hreceive : s.clientPeer.receive (BatchSpec.ops b) none = none := by
    by_contra hsome
    obtain ⟨r, hr⟩ := Option.ne_none_iff_exists'.1 hsome
    have hwork := Live.isSome_workerMain (o := s.server.handler) hb (r := r) rfl
    have hdone := hrest (.serverDone i) rfl
    simp only [machine, step, hb, Option.bind_some, hr, BidirServer.step,
      Option.map_eq_none_iff] at hdone
    rw [hdone] at hwork
    cases hwork
  cases b with
  | recv => exact ⟨rfl, Peer.read_of_receive_eq_none hreceive rfl rfl⟩
  | _ => cases hreceive

theorem client_pending_of_atRest (h : (machine Req Rep).Reachable s)
    (hrest : (machine Req Rep).AtRest Event.isInternal s) {p : BidirClientBatch → Bool}
    (hp : p .read = false) : s.client.session.obj.call.pending p = 0 := by
  refine List.countP_eq_zero.2 fun b hb => ?_
  obtain ⟨i, hi⟩ := List.getElem?_of_mem hb
  obtain ⟨rfl, -⟩ := client_blocks h hrest hi
  simp [hp]

theorem server_pending_of_atRest (hrest : (machine Req Rep).AtRest Event.isInternal s)
    {p : BidirServerBatch → Bool} (hp : p .recv = false) :
    s.server.handler.obj.call.pending p = 0 := by
  refine List.countP_eq_zero.2 fun b hb => ?_
  obtain ⟨i, hi⟩ := List.getElem?_of_mem hb
  obtain ⟨rfl, -⟩ := server_blocks hrest hi
  simp [hp]

/-- Nothing holds the client's gate. -/
theorem canSend_of_atRest (h : (machine Req Rep).Reachable s)
    (hrest : (machine Req Rep).AtRest Event.isInternal s) :
    s.client.session.obj.canSend = true := by
  have hinv := client_inv h
  cases hdel : s.client.session.deleted with
  | true =>
      have hstatus := hinv.counts.deleted_status (by simp [hdel])
      have hclose := (hinv.counts.status_started hstatus).2
      have hone : s.client.session.obj.toOutbox.closes ≠ 0 := by
        show s.client.session.obj.call.starts BidirClientBatch.isClose ≠ 0
        omega
      simpa [BidirStreamingCallSession.toOutbox] using hinv.outbox.closed_idle hone
  | false =>
      have hside := hinv.counts.sendSide_live (by simp [hdel])
      rw [client_pending_of_atRest h hrest (p := BidirClientBatch.isHandshake) rfl,
        client_pending_of_atRest h hrest (p := BidirClientBatch.isWrite) rfl] at hside
      exact Bool.toNat_eq_one.1 (by omega)

/-- Nor the server's. -/
theorem readyToSend_of_atRest (h : (machine Req Rep).Reachable s)
    (hrest : (machine Req Rep).AtRest Event.isInternal s) :
    s.server.handler.obj.readyToSend = true := by
  have hinv := server_inv h
  cases hdel : s.server.handler.deleted with
  | true =>
      have hidle := hinv.feeds.outbox.closed_idle (hinv.counts.deleted_end (by simp [hdel]))
      simpa [BidirStreamingCallHandler.toOutbox] using hidle
  | false =>
      have hside := hinv.counts.sendSide_live (by simp [hdel])
      rw [server_pending_of_atRest hrest (p := BidirServerBatch.isHandshake) rfl,
        server_pending_of_atRest hrest (p := BidirServerBatch.isSend) rfl,
        (performed_of_atRest h hrest).2] at hside
      exact Bool.toNat_eq_one.1 (by omega)

/-- Every request is on the wire. -/
theorem sent_of_atRest (h : (machine Req Rep).Reachable s)
    (hrest : (machine Req Rep).AtRest Event.isInternal s) :
    s.clientPeer.sent = s.client.requests.pushed.map serialize := by
  have hinv := client_inv h
  have hidle : s.client.session.obj.toOutbox.busy = false := by
    simp [BidirStreamingCallSession.toOutbox, canSend_of_atRest h hrest]
  have hhistory := hinv.history
  rwa [Outbox.history, hinv.outbox.idle_queue hidle, List.append_nil] at hhistory

/-- And so is every reply. -/
theorem replied_of_atRest (h : (machine Req Rep).Reachable s)
    (hrest : (machine Req Rep).AtRest Event.isInternal s) :
    s.serverPeer.sent = s.server.replies.pushed.map serialize := by
  have hfeeds := (server_inv h).feeds
  have hidle : s.server.handler.obj.toOutbox.busy = false := by
    simp [BidirStreamingCallHandler.toOutbox, readyToSend_of_atRest h hrest]
  have hhistory := hfeeds.history
  rwa [(performed_of_atRest h hrest).1, if_pos rfl, Outbox.history,
    hfeeds.outbox.idle_queue hidle, List.append_nil] at hhistory

/-! ### The ends -/

/-- One of the two sides has a stream that has ended and an end that it never announces. -/
def Stalled (s : BidirRpc Req Rep) : Prop := s.client.CloseStalled ∨ s.server.EndStalled

/-- The end of the requests is on the wire. -/
theorem closed_of_atRest (h : (machine Req Rep).Reachable s)
    (hrest : (machine Req Rep).AtRest Event.isInternal s) (hgo : ¬ s.client.CloseStalled) :
    s.clientPeer.closed = s.client.requests.terminal.isSome := by
  have hinv := client_inv h
  have hclosed : s.clientPeer.closed = true ↔
      s.client.session.obj.call.starts BidirClientBatch.isClose ≠ 0 :=
    BidirStreamingCallSession.closed_iff _
  rw [← hinv.ended, Bool.eq_iff_iff, hclosed]
  constructor
  · intro hclose
    exact hinv.outbox.closed_ended hclose
  · intro hended hzero
    exact hgo ⟨client_pending_of_atRest h hrest rfl, client_pending_of_atRest h hrest rfl,
      client_pending_of_atRest h hrest rfl, hended, hzero⟩

/-- The end of the replies too, whether they completed or failed. -/
theorem announced_of_atRest (h : (machine Req Rep).Reachable s)
    (hrest : (machine Req Rep).AtRest Event.isInternal s) (hgo : ¬ s.server.EndStalled) :
    s.serverPeer.closed = s.server.replies.terminal.isSome := by
  have hinv := server_inv h
  obtain ⟨hatt, hshaken⟩ := performed_of_atRest h hrest
  have hfailed := hinv.failed
  have hended := hinv.feeds.ended
  rw [hatt, Bool.true_and] at hfailed hended
  have hclosed : s.serverPeer.closed
      = decide (s.server.handler.obj.call.starts BidirServerBatch.isServerEnd
        + s.server.handler.obj.call.starts BidirServerBatch.isFail ≠ 0) := by
    simp only [serverPeer, Peer.ofServer, BidirServer.statuses_eq]
    cases s.server.handler.obj.call.starts BidirServerBatch.isServerEnd
      + s.server.handler.obj.call.starts BidirServerBatch.isFail <;> rfl
  rw [hclosed]
  cases hterm : s.server.replies.terminal with
  | none =>
      rw [hterm] at hfailed hended
      have hnone : s.server.handler.obj.call.starts BidirServerBatch.isServerEnd = 0 :=
        hinv.feeds.outbox.closes_of_open hended
      rw [hnone, hfailed]
      rfl
  | some t =>
      rw [hterm] at hfailed hended
      cases t with
      | complete =>
          have hsent : s.server.handler.obj.call.starts BidirServerBatch.isServerEnd ≠ 0 := by
            intro hzero
            exact hgo ⟨hshaken, server_pending_of_atRest hrest rfl,
              server_pending_of_atRest hrest rfl, server_pending_of_atRest hrest rfl, hended, hzero⟩
          exact decide_eq_true (by omega)
      | failed e =>
          rw [hfailed]
          exact decide_eq_true (Nat.succ_ne_zero _)

/-! ### The values -/

/-- A handler that was told that the requests are complete has them all. -/
theorem log_of_ended (h : (machine Req Rep).Reachable s)
    (hends : s.server.handler.obj.readerProm.ends ≠ []) :
    s.server.handler.obj.readerProm.log = s.client.requests.pushed.map .push
      ++ (if s.client.requests.terminal.isSome then [.finish .complete] else []) := by
  have hserver := server_inv h
  have hlink := FifoLink.inv_of_reachable (requestSimulation.reachable h)
  have hside := hserver.counts.recvSide_le
  have hone := hserver.counts.handshake_le
  have hcompleted : s.requestLink.completed = true := by simp [requestLink, hends]
  have hended : s.client.requests.terminal.isSome = true := hlink.completed_ended hcompleted
  have hall : s.server.handler.obj.readerProm.values = s.client.requests.pushed :=
    hlink.completed_all hcompleted
  obtain ⟨t, rest, hlist⟩ := List.exists_cons_of_ne_nil hends
  rw [hserver.reader.terminations_eq, hlist, List.length_cons] at hside
  obtain rfl : rest = [] := List.length_eq_zero_iff.1 (by omega)
  obtain rfl := BidirServer.ends_eq_complete (reachable_sides h).2 t (by rw [hlist]; simp)
  rw [hserver.reader.log_eq, hall, hlist, hended]
  rfl

/-- A handler that exists has everything there is of the requests. -/
theorem reads_of_atRest (h : (machine Req Rep).Reachable s)
    (hrest : (machine Req Rep).AtRest Event.isInternal s) (hgo : ¬ s.client.CloseStalled)
    (hlive : s.server.handler.deleted = false) :
    s.server.handler.obj.readerProm.log = s.client.requests.pushed.map .push
      ++ (if s.client.requests.terminal.isSome then [.finish .complete] else []) := by
  have hserver := server_inv h
  have hlink := FifoLink.inv_of_reachable (requestSimulation.reachable h)
  have hreads := hserver.counts.recvSide_live (by simp [hlive])
  rw [server_pending_of_atRest hrest (p := BidirServerBatch.isHandshake) rfl,
    (performed_of_atRest h hrest).2, hserver.reader.terminations_eq, Nat.zero_add] at hreads
  cases hends : s.server.handler.obj.readerProm.ends with
  | nil =>
      -- A read is outstanding and cannot complete.
      rw [hends, List.length_nil, Nat.add_zero] at hreads
      rw [hserver.reader.log_eq, hends]
      obtain ⟨b, hb, -⟩ := List.countP_pos_iff.1 (hreads ▸ Nat.one_pos)
      obtain ⟨i, hi⟩ := List.getElem?_of_mem hb
      obtain ⟨hunread, hopen⟩ := Peer.unread_of_read_eq_none (server_blocks hrest hi).2
      rw [closed_of_atRest h hrest hgo] at hopen
      rw [sent_of_atRest h hrest, (wire_of_reachable h).requests.pos_eq hlive,
        List.getElem?_eq_none_iff, List.length_map] at hunread
      have hdelivered := hlink.delivered_prefix
      have hall : s.server.handler.obj.readerProm.values = s.client.requests.pushed :=
        hdelivered.eq_of_length_le hunread
      rw [hall, hopen]
      rfl
  | cons t rest => exact log_of_ended h (by simp [hends])

/-- A run in which the replies have not failed is one of `normalMachine`. -/
theorem normal_of_not_failed (h : (machine Req Rep).Reachable s)
    (hok : s.server.replies.terminal.any StreamEnd.isFailed = false) :
    (normalMachine Req Rep).Reachable s := by
  induction h with
  | init => exact .init
  | @step s s' e hs hnext ih =>
      by_cases hend : ∃ t, e = .handlerEnd t
      · obtain ⟨t, rfl⟩ := hend
        obtain ⟨server, hserver, rfl⟩ := Option.map_eq_some_iff.1 hnext
        obtain ⟨replies, hfin, rfl⟩ := Option.map_eq_some_iff.1 hserver
        obtain ⟨hopen, rfl⟩ := Source.finish_eq_some.1 hfin
        have hbefore : s.server.replies.terminal.any StreamEnd.isFailed = false := by rw [hopen]; rfl
        refine (ih hbefore).step (Machine.guard_step.2 ⟨?_, hnext⟩)
        cases t with
        | complete => rfl
        | failed ex => cases hok
      · rcases serverMove_finish hnext with hsame | ⟨t, rfl, -⟩
        · refine (ih (hsame ▸ hok)).step (Machine.guard_step.2 ⟨?_, hnext⟩)
          cases e with
          | handlerEnd t => exact absurd ⟨t, rfl⟩ hend
          | _ => rfl
        · exact absurd ⟨t, rfl⟩ hend

/-- A caller whose handler has not failed has every reply. -/
theorem values_of_atRest (h : (machine Req Rep).Reachable s)
    (hrest : (machine Req Rep).AtRest Event.isInternal s)
    (hok : s.server.replies.terminal.any StreamEnd.isFailed = false) :
    s.client.session.obj.rep.values = s.server.replies.pushed := by
  have hnormal := normal_of_not_failed h hok
  have hcounts := (client_inv h).counts
  by_cases hrecv : s.client.session.obj.finishedReceiving = true
  · exact (drained_of_normal hnormal hrecv).2
  · have hopen : s.client.session.obj.finishedReceiving = false := by simpa using hrecv
    -- The server's end was not read, so a read is outstanding, and it cannot complete.
    have hlive : s.client.session.deleted = false := by
      by_contra hdel
      have hstatus := hcounts.deleted_status (by simpa using hdel)
      have hone := (hcounts.status_started hstatus).1
      rw [hopen] at hone
      cases hone
    have hside := hcounts.readSide_live (by simp [hlive])
    rw [client_pending_of_atRest h hrest (p := BidirClientBatch.isHandshake) rfl, hopen] at hside
    have hpos : 0 < s.client.session.obj.call.pending BidirClientBatch.isRead := by
      rw [Bool.toNat_false] at hside
      omega
    obtain ⟨b, hb, -⟩ := List.countP_pos_iff.1 hpos
    obtain ⟨i, hi⟩ := List.getElem?_of_mem hb
    have hunread := (Peer.unread_of_read_eq_none (client_blocks h hrest hi).2).1
    rw [replied_of_atRest h hrest, (wire_of_reachable h).replies.pos_eq hlive,
      List.getElem?_eq_none_iff, List.length_map] at hunread
    have hlink := FifoLink.inv_of_reachable (replySimulation.reachable hnormal)
    have hdelivered := hlink.delivered_prefix
    exact hdelivered.eq_of_length_le hunread

/-- And has been told that there are no more, if the session is over. -/
theorem receives_of_atRest (h : (machine Req Rep).Reachable s)
    (hrest : (machine Req Rep).AtRest Event.isInternal s)
    (hok : s.server.replies.terminal.any StreamEnd.isFailed = false) :
    s.client.session.obj.rep.log = s.server.replies.pushed.map .push
      ++ (if s.client.session.deleted then [.finish .complete] else []) := by
  have hwire := wire_of_reachable h
  rw [hwire.rep.log_eq, hwire.rep_ends, values_of_atRest h hrest hok]
  split <;> rfl

/-! ### The two objects -/

/-- A call whose two streams have ended is over: the session and, unless the replies have failed,
    the handler are deleted. -/
theorem ended_of_atRest (h : (machine Req Rep).Reachable s)
    (hrest : (machine Req Rep).AtRest Event.isInternal s) (hgo : ¬ s.Stalled)
    (hended : s.client.requests.terminal.isSome = true) {t : StreamEnd}
    (hterm : s.server.replies.terminal = some t) :
    s.client.session.obj.call.outstanding = [] ∧ s.server.handler.obj.call.outstanding = [] ∧
      s.client.session.deleted = true ∧ s.server.handler.deleted = t.isComplete := by
  obtain ⟨hclient, hserver⟩ := not_or.1 hgo
  have hclosed := closed_of_atRest h hrest hclient
  have hannounced := announced_of_atRest h hrest hserver
  rw [hended] at hclosed
  rw [hterm] at hannounced
  have hnone : s.client.session.obj.call.outstanding = [] := by
    cases hout : s.client.session.obj.call.outstanding with
    | nil => rfl
    | cons b rest =>
        have hblocked := (client_blocks h hrest (i := 0) (b := b) (by rw [hout]; rfl)).2
        rw [(Peer.unread_of_read_eq_none hblocked).2] at hannounced
        cases hannounced
  have hnone' : s.server.handler.obj.call.outstanding = [] := by
    cases hout : s.server.handler.obj.call.outstanding with
    | nil => rfl
    | cons b rest =>
        have hblocked := (server_blocks hrest (i := 0) (b := b) (by rw [hout]; rfl)).2
        rw [(Peer.unread_of_read_eq_none hblocked).2] at hclosed
        cases hclosed
  refine ⟨hnone, hnone', ?_, ?_⟩
  · by_contra hdel
    have hlive : s.client.session.deleted = false := by simpa using hdel
    have hquiet : s.client.session.obj.call.quiet = true := by simp [Call.quiet, hnone]
    have hidle := fun p => Call.pending_of_quiet hquiet p
    have hside := (client_inv h).counts.readSide_live (by simp [hlive])
    rw [hidle, hidle] at hside
    have hstarted : s.client.session.obj.call.starts BidirClientBatch.isClose ≠ 0 :=
      (BidirStreamingCallSession.closed_iff _).1 hclosed
    -- Both ends are known, so the status was asked for; and nothing is outstanding.
    have hasked := BidirClient.asked_of_reachable (reachable_sides h).1
      (Bool.toNat_eq_one.1 (by omega)) hstarted (hidle _)
    have hlasts := BidirClient.lasts_outstanding (reachable_sides h).1 hlive
    rw [hidle] at hlasts
    exact hasked hlasts.symm
  · have hinv := server_inv h
    cases t with
    | complete =>
        by_contra hdel
        have hlive : s.server.handler.deleted = false := by simpa [StreamEnd.isComplete] using hdel
        obtain ⟨hatt, hshaken⟩ := performed_of_atRest h hrest
        have hfin := hinv.feeds.ended
        rw [hatt, hterm] at hfin
        have hlasts := BidirServer.lasts_outstanding (reachable_sides h).2 hlive
        have hidle : ∀ p, s.server.handler.obj.call.pending p = 0 := by
          intro p
          simp [Call.pending, hnone']
        exact hserver ⟨hshaken, hidle _, hidle _, hidle _, hfin, hlasts.symm.trans (hidle _)⟩
    | failed e =>
        by_contra hdel
        have hclosed := hinv.counts.deleted_end (by simpa [StreamEnd.isComplete] using hdel)
        have hcomplete := (hinv.feeds.closed hclosed).2.1
        rw [hterm] at hcomplete
        cases hcomplete

/-! ## The RPC waits for nobody but its two users -/

/-- What there is when only the caller and the user's handler can do something. -/
structure Rests (s : BidirRpc Req Rep) : Prop where
  /-- Everything pushed is on the wire, and so are the ends. -/
  sent : s.clientPeer.sent = s.client.requests.pushed.map serialize
  replied : s.serverPeer.sent = s.server.replies.pushed.map serialize
  closed : s.clientPeer.closed = s.client.requests.terminal.isSome
  announced : s.serverPeer.closed = s.server.replies.terminal.isSome
  /-- A handler that exists has every request, and was told if there are no more. -/
  reads : s.server.handler.deleted = false →
    s.server.handler.obj.readerProm.log = s.client.requests.pushed.map .push
      ++ (if s.client.requests.terminal.isSome then [.finish .complete] else [])
  /-- The caller has every reply of a handler that has not failed. -/
  receives : s.server.replies.terminal.any StreamEnd.isFailed = false →
    s.client.session.obj.rep.log = s.server.replies.pushed.map .push
      ++ (if s.client.session.deleted then [.finish .complete] else [])
  /-- A user who has not ended a stream can push a value, which is sent at once. -/
  waits : s.client.requests.terminal = none →
    s.client.session.deleted = false ∧ s.client.session.obj.canSend = true
  serves : s.server.replies.terminal = none →
    s.server.handler.deleted = false ∧ s.server.handler.obj.readyToSend = true
  /-- If both streams have ended, nothing is outstanding and the session is deleted; so is the
      handler, if its replies did not fail. -/
  ended : s.client.requests.terminal.isSome = true → ∀ t, s.server.replies.terminal = some t →
    s.client.session.obj.call.outstanding = [] ∧ s.server.handler.obj.call.outstanding = [] ∧
      s.client.session.deleted = true ∧ s.server.handler.deleted = t.isComplete

theorem rests_of_atRest (h : (machine Req Rep).Reachable s)
    (hrest : (machine Req Rep).AtRest Event.isInternal s) (hgo : ¬ s.Stalled) : s.Rests where
  sent := sent_of_atRest h hrest
  replied := replied_of_atRest h hrest
  closed := closed_of_atRest h hrest (not_or.1 hgo).1
  announced := announced_of_atRest h hrest (not_or.1 hgo).2
  reads := reads_of_atRest h hrest (not_or.1 hgo).1
  receives := receives_of_atRest h hrest
  waits hopen := ⟨(client_inv h).live_of_open hopen, canSend_of_atRest h hrest⟩
  serves hopen := ⟨(server_inv h).live_of_open (Or.inr hopen), readyToSend_of_atRest h hrest⟩
  ended hended _ hterm := ended_of_atRest h hrest hgo hended hterm

/-- **A bidirectional RPC waits for nobody but its two users**, unless one of its sides is stalled.
    In every reachable state, what the two sides and gRPC core do of their own comes to an end, in
    whatever order they do it, and then the RPC rests as `Rests` says. -/
theorem bidir_waits_for_users (h : (machine Req Rep).Reachable s) :
    (machine Req Rep).ComesToRest Event.isInternal work (fun s => s.Stalled ∨ s.Rests) s :=
  quiesces.comesToRest (fun _ h hrest => or_iff_not_imp_left.2 (rests_of_atRest h hrest)) h

end Rest

/-- A whole call, seen when its handler has just ended the replies. -/
theorem bidir_waits_for_users_whole_call :
    ∃ s : BidirRpc Buffer Buffer, s.server.replies.terminal = some .complete ∧
      s.client.session.deleted = false ∧
      (machine Buffer Buffer).ComesToRest Event.isInternal work (fun s => s.Stalled ∨ s.Rests) s := by
  have hrun : (machine Buffer Buffer).Reachable _ :=
    Machine.reachable_of_run
      [.callerPush [1], .callerEnd, .attach, .startHandshake, .clientDone 0 none, .serverDone 0,
        .serverDone 0, .handlerPush [3], .handlerEnd .complete] rfl
  exact ⟨_, rfl, rfl, bidir_waits_for_users hrun⟩

/-! ## When a side is stalled -/

/-- The step completes no handshake whose side's stream has already ended with nothing queued. -/
def inTime (s : BidirRpc Req Rep) : Event Req Rep → Bool
  | .clientDone i _ => !s.client.handshakeAfterEnd (.complete i {})
  | .serverDone i => !s.server.handshakeAfterEnd (.complete i {})
  | _ => true

/-- A step of the RPC is in time if the step of its side is. -/
theorem inTime_moves {e : Event Req Rep} (hstep : s.step e = some s') :
    (∃ ce, ClientMove s s' ce ∧ s.inTime e = !s.client.handshakeAfterEnd ce) ∨
      (∃ se, ServerMove s s' se ∧ s.inTime e = !s.server.handshakeAfterEnd se) := by
  cases e with
  | callerPush req =>
      exact Or.inl ⟨_, clientMove_of_user hstep (fun _ _ he => by cases he), rfl⟩
  | callerEnd => exact Or.inl ⟨_, clientMove_of_user hstep (fun _ _ he => by cases he), rfl⟩
  | handlerPush rep =>
      exact Or.inr ⟨_, serverMove_of_user hstep (fun _ _ he => by cases he), rfl⟩
  | handlerEnd t => exact Or.inr ⟨_, serverMove_of_user hstep (fun _ _ he => by cases he), rfl⟩
  | attach => exact Or.inr ⟨_, serverMove_of_user hstep (fun _ _ he => by cases he), rfl⟩
  | startHandshake =>
      exact Or.inr ⟨_, serverMove_of_user hstep (fun _ _ he => by cases he), rfl⟩
  | clientDone i err =>
      obtain ⟨r, hmove⟩ := clientMove_of_done hstep
      exact Or.inl ⟨_, hmove, rfl⟩
  | serverDone i =>
      obtain ⟨r, hmove⟩ := serverMove_of_done hstep
      exact Or.inr ⟨_, hmove, rfl⟩

/-- Both sides of a run in time are in time on their own. -/
theorem sides_inTime (h : ((machine Req Rep).guard inTime).Reachable s) :
    ((BidirClient.machine Req Rep).guard (fun c e => !c.handshakeAfterEnd e)).Reachable s.client ∧
      ((BidirServer.machine Req Rep).guard
        (fun c e => !c.handshakeAfterEnd e)).Reachable s.server := by
  induction h with
  | init => exact ⟨Machine.reachable_of_run [.getFuture] rfl, .init⟩
  | step _ hnext ih =>
      obtain ⟨hguard, hstep⟩ := Machine.guard_step.1 hnext
      rcases inTime_moves hstep with ⟨ce, hmove, htime⟩ | ⟨se, hmove, htime⟩
      · exact ⟨ih.1.step (Machine.guard_step.2 ⟨htime.symm.trans hguard, hmove.step⟩),
          hmove.server ▸ ih.2⟩
      · exact ⟨hmove.client ▸ ih.1,
          ih.2.step (Machine.guard_step.2 ⟨htime.symm.trans hguard, hmove.step⟩)⟩

/-- A run in time stalls neither side. -/
theorem not_stalled_of_inTime (h : ((machine Req Rep).guard inTime).Reachable s) :
    ¬ s.Stalled := by
  obtain ⟨hclient, hserver⟩ := sides_inTime h
  rintro (hstalled | hstalled)
  · exact (client_inv h.of_guard).not_closeStalled (BidirClient.settled_of_guard hclient) hstalled
  · exact (server_inv h.of_guard).not_endStalled (BidirServer.settled_of_guard hserver) hstalled

/-- A step that is not in time stalls its side. -/
theorem stalled_of_late {e : Event Req Rep} (h : (machine Req Rep).Reachable s)
    (hstep : s.step e = some s') (hlate : s.inTime e = false) : s'.Stalled := by
  obtain ⟨hclient, hserver⟩ := reachable_sides h
  rcases inTime_moves hstep with ⟨ce, hmove, htime⟩ | ⟨se, hmove, htime⟩
  · rw [hlate, eq_comm, Bool.not_eq_false'] at htime
    exact Or.inl (BidirClient.handshakeAfterEnd_stalls hclient hmove.step htime)
  · rw [hlate, eq_comm, Bool.not_eq_false'] at htime
    exact Or.inr (BidirServer.handshakeAfterEnd_stalls hserver hmove.step htime)

/-- A side that is stalled stays stalled. -/
structure KeepsStalled (s s' : BidirRpc Req Rep) : Prop where
  client : s.client.CloseStalled → s'.client.CloseStalled
  server : s.server.EndStalled → s'.server.EndStalled

theorem keepsStalled_step {e : Event Req Rep} (h : (machine Req Rep).Reachable s)
    (hstep : s.step e = some s') : s.KeepsStalled s' := by
  rcases step_moves hstep with ⟨ce, hmove⟩ | ⟨se, hmove⟩
  · refine ⟨BidirClient.closeStalled_step (client_inv h) hmove.step, ?_⟩
    rw [hmove.server]
    exact id
  · refine ⟨?_, BidirServer.endStalled_step (reachable_sides h).2 hmove.step⟩
    rw [hmove.client]
    exact id

theorem keepsStalled_run {es : List (Event Req Rep)} (h : (machine Req Rep).Reachable s)
    (hrun : (machine Req Rep).run s es = some s') : s.KeepsStalled s' := by
  refine h.run_invariant (P := s.KeepsStalled) ?_ ⟨id, id⟩ hrun
  intro t t' e ht hstep hkeeps
  have hnext := keepsStalled_step ht hstep
  exact ⟨hnext.client ∘ hkeeps.client, hnext.server ∘ hkeeps.server⟩

theorem stalled_step {e : Event Req Rep} (h : (machine Req Rep).Reachable s)
    (hstep : s.step e = some s') (hstalled : s.Stalled) : s'.Stalled :=
  have hkeeps := keepsStalled_step h hstep
  hstalled.imp hkeeps.client hkeeps.server

/-- **A bidirectional RPC is stalled exactly if a handshake came late**: at the end of a run one of
    its sides is stalled if and only if, in some step of the run, the handshake of one of them
    completed after its stream had ended with nothing queued. A side that is stalled stays so. -/
theorem stalled_iff_late {es : List (Event Req Rep)}
    (hrun : (machine Req Rep).run (machine Req Rep).init es = some s) :
    (s.Stalled ↔ ((machine Req Rep).guard inTime).run (machine Req Rep).init es = none) ∧
      ∀ es' s', (machine Req Rep).run s es' = some s' → s.KeepsStalled s' := by
  refine ⟨(Machine.guard_run_eq_none_iff not_stalled_of_inTime stalled_of_late stalled_step .init
    hrun).symm, fun es' s' hrun' => ?_⟩
  exact keepsStalled_run (Machine.reachable_of_run es hrun) hrun'

/-- The handler completes its replies before the handshake, without any reply. -/
theorem stalled_iff_late_no_replies :
    ∃ s : BidirRpc Buffer Buffer, (machine Buffer Buffer).run (machine Buffer Buffer).init
        [.handlerEnd .complete, .attach, .startHandshake, .clientDone 0 none, .serverDone 0]
          = some s ∧ s.Stalled := by
  have hrun : (machine Buffer Buffer).run (machine Buffer Buffer).init
      [.handlerEnd .complete, .attach, .startHandshake, .clientDone 0 none, .serverDone 0]
        = some _ := rfl
  exact ⟨_, hrun, (stalled_iff_late hrun).1.2 rfl⟩

end BidirRpc

end EasyGrpc
