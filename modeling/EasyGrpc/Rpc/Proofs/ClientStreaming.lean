import EasyGrpc.Core.Transfer
import EasyGrpc.Rpc.ClientStreaming
import EasyGrpc.Client.Proofs.ClientStreaming
import EasyGrpc.Server.Proofs.ClientStreaming

set_option autoImplicit false

/-! # A client-streaming RPC delivers every request, in order, and then the reply

Each side keeps the invariant proved of it alone; `UploadRpc.Wire` adds what the wire guarantees
between the two. The requests are then a `FifoLink` (`requestSimulation`), and the reply the
client's last batch brings is the one the handler has given. -/

namespace EasyGrpc

variable {Req Rep : Type} [Serializer Req] [Serializer Rep]

namespace UploadRpc

open UploadClientBatch

/-! ## A step moves one side -/

/-- `s'` comes from `s` by a step of the client, a completion bringing what the server has sent. -/
structure ClientMove (s s' : UploadRpc Req Rep) (e : UploadClient.Event Req) : Prop where
  step : s.client.step e = some s'.client
  server : s'.server = s.server
  toServer : s'.toServer = s.toServer
  pos : (∀ i r, e ≠ .complete i r) → s'.toClient = s.toClient
  received : ∀ i r, e = .complete i r → ∃ b err,
    s.client.session.obj.call.outstanding[i]? = some b ∧
    s.serverPeer.receive (BatchSpec.ops b) err = some r ∧ s'.toClient = s.serverPeer.posAfter r

/-- `s'` comes from `s` by a step of the server, a completion bringing what the client has sent. -/
structure ServerMove (s s' : UploadRpc Req Rep) (e : UploadServer.Event Rep) : Prop where
  step : s.server.step e = some s'.server
  client : s'.client = s.client
  toClient : s'.toClient = s.toClient
  pos : (∀ i r, e ≠ .complete i r) → s'.toServer = s.toServer
  received : ∀ i r, e = .complete i r → ∃ b,
    s.server.handler.obj.call.outstanding[i]? = some b ∧
    s.clientPeer.receive (BatchSpec.ops b) none = some r ∧ s'.toServer = s.clientPeer.posAfter r

theorem clientMove_of_user {s s' : UploadRpc Req Rep} {e : UploadClient.Event Req}
    (hstep : s.stepClient e = some s') (huser : ∀ i r, e ≠ .complete i r) : ClientMove s s' e := by
  obtain ⟨client, hclient, rfl⟩ := Option.map_eq_some_iff.1 hstep
  exact ⟨hclient, rfl, rfl, fun _ => rfl, fun i r he => absurd he (huser i r)⟩

theorem serverMove_of_user {s s' : UploadRpc Req Rep} {e : UploadServer.Event Rep}
    (hstep : s.stepServer e = some s') (huser : ∀ i r, e ≠ .complete i r) : ServerMove s s' e := by
  obtain ⟨server, hserver, rfl⟩ := Option.map_eq_some_iff.1 hstep
  exact ⟨hserver, rfl, rfl, fun _ => rfl, fun i r he => absurd he (huser i r)⟩

theorem clientMove_of_done {s s' : UploadRpc Req Rep} {i : ℕ} {err : Option CString}
    (hstep : s.step (.clientDone i err) = some s') : ∃ r, ClientMove s s' (.complete i r) := by
  obtain ⟨b, hb, hstep⟩ := Option.bind_eq_some_iff.1 hstep
  obtain ⟨r, hr, hstep⟩ := Option.bind_eq_some_iff.1 hstep
  obtain ⟨client, hclient, rfl⟩ := Option.map_eq_some_iff.1 hstep
  refine ⟨r, hclient, rfl, rfl, fun huser => absurd rfl (huser i r), ?_⟩
  rintro j q ⟨rfl, rfl⟩
  exact ⟨b, err, hb, hr, rfl⟩

theorem serverMove_of_done {s s' : UploadRpc Req Rep} {i : ℕ}
    (hstep : s.step (.serverDone i) = some s') : ∃ r, ServerMove s s' (.complete i r) := by
  obtain ⟨b, hb, hstep⟩ := Option.bind_eq_some_iff.1 hstep
  obtain ⟨r, hr, hstep⟩ := Option.bind_eq_some_iff.1 hstep
  obtain ⟨server, hserver, rfl⟩ := Option.map_eq_some_iff.1 hstep
  refine ⟨r, hserver, rfl, rfl, fun huser => absurd rfl (huser i r), ?_⟩
  rintro j q ⟨rfl, rfl⟩
  exact ⟨b, hb, hr, rfl⟩

/-- A server completion never brings an error text. -/
theorem ServerMove.receives {s s' : UploadRpc Req Rep} {e : UploadServer.Event Rep}
    (hmove : ServerMove s s' e) (i : ℕ) (r : Received) (he : e = .complete i r) : ∃ b err,
    s.server.handler.obj.call.outstanding[i]? = some b ∧
    s.clientPeer.receive (BatchSpec.ops b) err = some r ∧
    s'.toServer = s.clientPeer.posAfter r := by
  obtain ⟨b, hb, hr, hpos⟩ := hmove.received i r he
  exact ⟨b, none, hb, hr, hpos⟩

theorem step_moves {s s' : UploadRpc Req Rep} {e : Event Req Rep} (hstep : s.step e = some s') :
    (∃ ce, ClientMove s s' ce) ∨ (∃ se, ServerMove s s' se) := by
  cases e with
  | callerPush req =>
      exact Or.inl ⟨_, clientMove_of_user hstep (fun _ _ he => by cases he)⟩
  | callerEnd t => exact Or.inl ⟨_, clientMove_of_user hstep (fun _ _ he => by cases he)⟩
  | handlerReply o =>
      exact Or.inr ⟨_, serverMove_of_user hstep (fun _ _ he => by cases he)⟩
  | startReading =>
      exact Or.inr ⟨_, serverMove_of_user hstep (fun _ _ he => by cases he)⟩
  | attach => exact Or.inr ⟨_, serverMove_of_user hstep (fun _ _ he => by cases he)⟩
  | clientDone i err =>
      obtain ⟨r, hmove⟩ := clientMove_of_done hstep
      exact Or.inl ⟨_, hmove⟩
  | serverDone i =>
      obtain ⟨r, hmove⟩ := serverMove_of_done hstep
      exact Or.inr ⟨_, hmove⟩

/-- The client keeps its invariant and stays constructed, and the server is reachable on its own. -/
theorem sides_of_reachable {s : UploadRpc Req Rep} (h : (machine Req Rep).Reachable s) :
    s.client.Inv ∧ s.client.construction = .returned ∧
      (UploadServer.machine Req Rep).Reachable s.server := by
  induction h with
  | init => exact ⟨UploadClient.inv_flagSet rfl rfl rfl, rfl, .init⟩
  | @step s s' e _ hnext ih =>
      obtain ⟨hinv, hret, hserver⟩ := ih
      rcases step_moves hnext with ⟨ce, hmove⟩ | ⟨se, hmove⟩
      · have hflag : s.client.construction ≠ .batchStarted := by rw [hret]; decide
        exact ⟨UploadClient.inv_step hmove.step hflag hinv,
          (UploadClient.construction_step hmove.step hflag).2 hret, hmove.server ▸ hserver⟩
      · rw [hmove.client]
        exact ⟨hinv, hret, hserver.step hmove.step⟩

theorem client_inv {s : UploadRpc Req Rep} (h : (machine Req Rep).Reachable s) : s.client.Inv :=
  (sides_of_reachable h).1

theorem server_inv {s : UploadRpc Req Rep} (h : (machine Req Rep).Reachable s) : s.server.Inv :=
  UploadServer.inv_of_reachable (sides_of_reachable h).2.2

/-! ## What the wire guarantees -/

/-- What the caller gets for an answer. An error with the code `GRPC_STATUS_OK` sends no message and
    looks like a reply. -/
def resolutionOf : Except Exception Rep → Resolution Rep
  | .ok rep => .value rep
  | .error e =>
      if (getErrorDetails e).1 = .ok then .nullBuffer
      else .error (.rpcError ⟨(getErrorDetails e).1, .ofText (getErrorDetails e).2⟩)

structure Wire (s : UploadRpc Req Rep) : Prop where
  /-- What the handler was given is what the client sent. -/
  requests : Delivered deserialize s.clientPeer s.server.handler.obj.readerProm.values
    s.server.handler.deleted
  /-- Only the last batch of the client reads. -/
  unread : s.client.session.deleted = false → s.toClient = 0
  resolved : s.client.session.deleted = true → ∃ o, s.server.answer = some o ∧
    s.client.session.obj.rep = [resolutionOf o]

omit [Serializer Req] in
/-- A batch that reads the reply and the status brings the answer of the server. -/
theorem resolution_of_received {κ : Type} [BatchSpec κ] {call : Call κ}
    {answer : Option (Except Exception Rep)} {ops : List Op} {err : Option CString} {r : Received}
    (hsent : call.sent = UploadServer.answerMessages answer)
    (hstatuses : call.statuses = UploadServer.answerStatuses answer)
    (hops : ops.any Op.isRecvMessage = true ∧ ops.any Op.isRecvStatus = true)
    (hr : (Peer.ofServer call 0).receive ops err = some r) :
    ∃ o, answer = some o ∧ UploadClient.resolution Rep r = resolutionOf o := by
  have hread := Peer.receive_read hr hops.1
  have hstatus := Peer.receive_status hr hops.2
  simp only [Peer.ofServer, hstatuses] at hstatus
  simp only [Peer.ofServer, Peer.read, hsent, hstatuses] at hread
  cases answer with
  | none => cases hstatus
  | some o =>
      refine ⟨o, rfl, ?_⟩
      cases o with
      | ok rep =>
          have hmsg : r.message = some (serialize rep) := (Option.some.inj hread).symm
          have hok : r.status = .ok := (Prod.mk.inj (Option.some.inj hstatus)).1.symm
          simp [UploadClient.resolution, resolutionOf, hok, hmsg, Resolution.ofBuffer,
            Serializer.deserialize_serialize]
      | error e =>
          have hmsg : r.message = none := (Option.some.inj hread).symm
          have hcode : getErrorDetails e = (r.status, r.statusDetails) := Option.some.inj hstatus
          simp only [UploadClient.resolution, resolutionOf, hcode, hmsg, Resolution.ofBuffer]

omit [Serializer Req] in
/-- The last batch of the client brings the answer of the server. -/
theorem resolution_of_answer {s : UploadRpc Req Rep} {r : Received} {err : Option CString}
    (hinv : s.server.Inv) (hpos : s.toClient = 0)
    (hr : s.serverPeer.receive (BatchSpec.ops UploadClientBatch.sendEnd) err = some r) :
    ∃ o, s.server.answer = some o ∧ UploadClient.resolution Rep r = resolutionOf o := by
  rw [serverPeer, hpos] at hr
  exact resolution_of_received hinv.sent hinv.statuses ⟨rfl, rfl⟩ hr

/-- The batches of the handler that read are the ones with a `GRPC_OP_RECV_MESSAGE`. -/
theorem reads_iff (b : UploadServerBatch) :
    (BatchSpec.ops b).any Op.isRecvMessage = b.isRead := by
  cases b <;> rfl

theorem wire_client {s s' : UploadRpc Req Rep} {e : UploadClient.Event Req} (hinv : s.client.Inv)
    (hserver : s.server.Inv) (hmove : ClientMove s s' e) (h : s.Wire) : s'.Wire := by
  have hsent : s.clientPeer.sent <+: s'.clientPeer.sent := UploadClient.sent_step hinv hmove.step
  have hrequests : Delivered deserialize s'.clientPeer s'.server.handler.obj.readerProm.values
      s'.server.handler.deleted := by
    rw [hmove.server]
    exact h.requests.more hsent (fun hlive => ⟨hlive, hmove.toServer⟩)
  rcases UploadClient.rep_step hinv hmove.step with ⟨hrep, hdel, hother⟩ |
    ⟨i, r, rfl, hlive, hdel', hb, hrep⟩
  · refine ⟨hrequests, ?_, ?_⟩
    · intro hlive'
      have hzero := h.unread (hdel.symm.trans hlive')
      refine Eq.trans (Peer.pos_of_no_read hmove.pos hmove.received ?_) hzero
      intro i r b he hb
      obtain ⟨b', hb', hend⟩ := hother i r he
      obtain rfl : b' = b := Option.some.inj (hb'.symm.trans hb)
      cases b' with
      | sendEnd => cases hend
      | _ => rfl
    · intro hdel'
      rw [hmove.server, hrep]
      exact h.resolved (hdel.symm.trans hdel')
  · obtain ⟨b, err, hb', hr, -⟩ := hmove.received i r rfl
    obtain rfl : b = .sendEnd := Option.some.inj (hb'.symm.trans hb)
    obtain ⟨o, hanswer, hres⟩ := resolution_of_answer hserver (h.unread hlive) hr
    refine ⟨hrequests, ?_, ?_⟩
    · intro hlive'
      rw [hdel'] at hlive'
      cases hlive'
    · intro _
      rw [hmove.server, hrep, hres]
      exact ⟨o, hanswer, rfl⟩

theorem wire_server {s s' : UploadRpc Req Rep} {e : UploadServer.Event Rep} (hinv : s.server.Inv)
    (hmove : ServerMove s s' e) (h : s.Wire) : s'.Wire := by
  have hpeer : s'.clientPeer.sent = s.clientPeer.sent := by
    simp only [clientPeer, Peer.ofClient, hmove.client]
  refine ⟨?_, ?_, ?_⟩
  · rcases UploadServer.reader_step hmove.step with ⟨hprom, hdel, hother⟩ |
      ⟨i, r, b, rfl, hlive, hlive', hb, hisread, hread⟩
    · rw [hprom]
      refine h.requests.more (hpeer ▸ List.prefix_rfl) ?_
      intro hlive'
      have hlive : s.server.handler.deleted = false := by
        cases hdead : s.server.handler.deleted with
        | false => rfl
        | true => rw [hdel hdead] at hlive'; cases hlive'
      refine ⟨hlive, Peer.pos_of_no_read hmove.pos hmove.receives ?_⟩
      intro i r b he hb
      rcases hother i r he with hdead | ⟨b', hb', hno⟩
      · rw [hlive] at hdead
        cases hdead
      · obtain rfl : b = b' := Option.some.inj (hb.symm.trans hb')
        rw [reads_iff, hno]
    · obtain ⟨b', hb', hr, hpos⟩ := hmove.received i r rfl
      obtain rfl : b' = b := Option.some.inj (hb'.symm.trans hb)
      have hwire : s.clientPeer.read = some r.message :=
        Peer.receive_read hr ((reads_iff b').trans hisread)
      have hrequests := h.requests
      rw [hlive] at hrequests
      rw [hlive']
      exact hrequests.reads (hinv.reader_open hb hisread) hwire hpeer hpos hread
  · rw [hmove.client, hmove.toClient]
    exact h.unread
  · intro hdel
    rw [hmove.client] at hdel ⊢
    obtain ⟨o, hanswer, hrep⟩ := h.resolved hdel
    exact ⟨o, UploadServer.answer_step hmove.step hanswer, hrep⟩

theorem wire_of_reachable {s : UploadRpc Req Rep} (h : (machine Req Rep).Reachable s) : s.Wire := by
  induction h with
  | init =>
      refine ⟨⟨List.nil_prefix, fun _ => rfl⟩, fun _ => rfl, ?_⟩
      intro hno
      cases hno
  | step hs hnext ih =>
      rcases step_moves hnext with ⟨ce, hmove⟩ | ⟨se, hmove⟩
      · exact wire_client (client_inv hs) (server_inv hs) hmove ih
      · exact wire_server (server_inv hs) hmove ih

/-! ## The requests are a FIFO link -/

/-- The requests, from the caller's stream to the handler's. -/
def requestLink (s : UploadRpc Req Rep) : FifoLink Req where
  pushed := s.client.requests.pushed
  ended := s.client.requests.terminal.isSome
  delivered := s.server.handler.obj.readerProm.values
  completed := !s.server.handler.obj.readerProm.ends.isEmpty

omit [Serializer Req] [Serializer Rep] in
theorem requestLink_eq (s : UploadRpc Req Rep) :
    s.requestLink = streamLink s.client.requests s.server.handler.obj.readerProm := rfl

omit [Serializer Rep] in
theorem Wire.carries {s : UploadRpc Req Rep} (h : s.Wire) (hinv : s.client.Inv) :
    Carries serialize deserialize s.client.requests.pushed s.client.session.obj.call.sent
      s.client.session.obj.pendingOps s.server.handler.obj.readerProm.values :=
  ⟨hinv.history, h.requests.values_sent⟩

/-- The batch that completes is a read of a handler that still exists. -/
def isRead (s : UploadRpc Req Rep) (i : ℕ) : Bool :=
  !s.server.handler.deleted && s.server.handler.obj.call.outstanding[i]?.any UploadServerBatch.isRead

/-- What a step of the composed machine is for the requests. -/
def requestEvents (s : UploadRpc Req Rep) : Event Req Rep → List (FifoLink.Event Req)
  | .callerPush req => [.push req]
  | .callerEnd _ => [.finish]
  | .serverDone i =>
      if s.isRead i then
        match s.clientPeer.read with
        | some (some _) => [.deliver]
        | _ => [.complete]
      else []
  | _ => []

/-- A request is handed to the handler: the oldest one not yet handed over. -/
theorem request_deliver {s s' : UploadRpc Req Rep} {i : ℕ} {r : Received} {b : UploadServerBatch}
    {data : Buffer} (hreach : (machine Req Rep).Reachable s)
    (hmove : ServerMove s s' (.complete i r)) (hlive : s.server.handler.deleted = false)
    (hb : s.server.handler.obj.call.outstanding[i]? = some b) (hisread : b.isRead = true)
    (hread : s.clientPeer.read = some (some data))
    (hprom : s'.server.handler.obj.readerProm
      = s.server.handler.obj.readerProm.push (deserialize data)) :
    (FifoLink.machine Req).run s.requestLink [.deliver] = some s'.requestLink := by
  have hwire := wire_of_reachable hreach
  have hinv := server_inv hreach
  rw [requestLink_eq, requestLink_eq, hmove.client, hprom]
  exact streamLink_deliver hinv.reader (hinv.reader_open hb hisread) hwire.requests hlive
    (hwire.carries (client_inv hreach)) hread

/-- The handler is told that the requests are complete: it has them all. -/
theorem request_complete {s s' : UploadRpc Req Rep} {i : ℕ} {r : Received} {b : UploadServerBatch}
    (hreach : (machine Req Rep).Reachable s) (hmove : ServerMove s s' (.complete i r))
    (hlive : s.server.handler.deleted = false)
    (hb : s.server.handler.obj.call.outstanding[i]? = some b) (hisread : b.isRead = true)
    (hread : s.clientPeer.read = some none)
    (hprom : s'.server.handler.obj.readerProm = s.server.handler.obj.readerProm.complete) :
    (FifoLink.machine Req).run s.requestLink [.complete] = some s'.requestLink := by
  have hinv := client_inv hreach
  have hserver := server_inv hreach
  have hwire := wire_of_reachable hreach
  have hrequests := hwire.requests
  rw [hlive] at hrequests
  obtain ⟨hclosed, hnone⟩ := hrequests.all hread
  have hclose := (ClientStreamingCallSession.closed_iff _).1 hclosed
  have hended : s.client.requests.terminal.isSome = true :=
    hinv.ended.symm.trans (hinv.outbox.closed_ended hclose)
  have hall := (hwire.carries hinv).all Serializer.deserialize_serialize
    (hinv.outbox.closed_queue hclose) hnone
  rw [requestLink_eq, requestLink_eq, hmove.client, hprom]
  exact streamLink_complete hserver.reader (hserver.reader_open hb hisread) hended hall _

theorem request_step {s s' : UploadRpc Req Rep} {e : Event Req Rep}
    (hreach : (machine Req Rep).Reachable s) (hstep : (machine Req Rep).step s e = some s') :
    (FifoLink.machine Req).run s.requestLink (requestEvents s e) = some s'.requestLink := by
  have hret := (sides_of_reachable hreach).2.1
  have hkept : ∀ {se}, ServerMove s s' se →
      s'.server.handler.obj.readerProm = s.server.handler.obj.readerProm →
      s'.requestLink = s.requestLink := by
    intro se hmove hprom
    simp only [requestLink, hmove.client, hprom]
  have huser : ∀ {se}, s.stepServer se = some s' → (∀ i r, se ≠ .complete i r) →
      (FifoLink.machine Req).run s.requestLink [] = some s'.requestLink := by
    intro se hse hne
    have hmove := serverMove_of_user hse hne
    rcases UploadServer.reader_step hmove.step with ⟨hprom, -⟩ | ⟨i, r, b, he, -⟩
    · rw [hkept hmove hprom]
      rfl
    · exact absurd he (hne i r)
  cases e with
  | callerPush req =>
      obtain ⟨client, hclient, rfl⟩ := Option.map_eq_some_iff.1 hstep
      simp only [UploadClient.step, hret, if_true] at hclient
      obtain ⟨requests, hpush, rfl⟩ := Option.map_eq_some_iff.1 hclient
      exact streamLink_push hpush _
  | callerEnd t =>
      obtain ⟨client, hclient, rfl⟩ := Option.map_eq_some_iff.1 hstep
      simp only [UploadClient.step, hret, if_true] at hclient
      obtain ⟨requests, hfin, rfl⟩ := Option.map_eq_some_iff.1 hclient
      exact streamLink_finish hfin _
  | handlerReply o => exact huser hstep (fun _ _ he => by cases he)
  | startReading => exact huser hstep (fun _ _ he => by cases he)
  | attach => exact huser hstep (fun _ _ he => by cases he)
  | clientDone i err =>
      obtain ⟨r, hmove⟩ := clientMove_of_done hstep
      obtain ⟨session, -, hclient⟩ := Option.map_eq_some_iff.1 hmove.step
      have hsame : s'.requestLink = s.requestLink := by
        simp only [requestLink, hmove.server, ← hclient]
      rw [hsame]
      rfl
  | serverDone i =>
      obtain ⟨r, hmove⟩ := serverMove_of_done hstep
      rcases UploadServer.reader_step hmove.step with ⟨hprom, -, hother⟩ |
        ⟨j, q, b, ⟨rfl, rfl⟩, hlive, -, hb, hisread, hread⟩
      · have hnone : requestEvents s (.serverDone i) = [] := by
          rcases hother i r rfl with hdel | ⟨b, hb, hno⟩
          · simp [requestEvents, isRead, hdel]
          · simp [requestEvents, isRead, hb, hno]
        rw [hnone, hkept hmove hprom]
        rfl
      · obtain ⟨b', hb', hr, -⟩ := hmove.received i r rfl
        obtain rfl : b' = b := Option.some.inj (hb'.symm.trans hb)
        have hisread' : s.isRead i = true := by simp [isRead, hlive, hb, hisread]
        have hwire : s.clientPeer.read = some r.message :=
          Peer.receive_read hr ((reads_iff b').trans hisread)
        rcases hread with ⟨data, hmsg, hprom⟩ | ⟨hmsg, hprom⟩
        · rw [hmsg] at hwire
          have hevents : requestEvents s (.serverDone i) = [.deliver] := by
            simp [requestEvents, hisread', hwire]
          rw [hevents]
          exact request_deliver hreach hmove hlive hb hisread hwire hprom
        · rw [hmsg] at hwire
          have hevents : requestEvents s (.serverDone i) = [.complete] := by
            simp [requestEvents, hisread', hwire]
          rw [hevents]
          exact request_complete hreach hmove hlive hb hisread hwire hprom

/-- **The requests of a client-streaming RPC are a FIFO link.** -/
def requestSimulation : Simulation (machine Req Rep) (FifoLink.machine Req) where
  abs := requestLink
  inv := (machine Req Rep).Reachable
  events := requestEvents
  inv_of_reachable := id
  abs_init := rfl
  abs_step := request_step

/-! ## The guarantees of a client-streaming RPC -/

/-- What a caller and a handler can rely on. -/
structure DeliversInOrder (s : UploadRpc Req Rep) : Prop where
  /-- What arrived is an initial part of what was pushed. -/
  requests_prefix : s.server.handler.obj.readerProm.values <+: s.client.requests.pushed
  /-- At most one batch of the session is outstanding. -/
  client_one : s.client.session.obj.call.outstanding.length ≤ 1
  /-- The end is sent once, after the end of the stream and after the last request. -/
  end_once : s.client.session.obj.call.starts isSendEnd ≤ 1
  end_last : s.client.session.obj.call.starts isSendEnd ≠ 0 →
    s.client.requests.terminal.isSome = true ∧
      s.client.session.obj.call.sent = s.client.requests.pushed.map serialize
  /-- A completed stream holds everything pushed. -/
  requests_complete : StreamEnd.complete ∈ s.server.handler.obj.readerProm.ends →
    s.server.handler.obj.readerProm.values = s.client.requests.pushed
  /-- Once nothing is outstanding and the requests have ended, the reply was resolved once, with
      what the handler has given. -/
  quiet_value : s.client.session.obj.call.quiet = true → s.server.handler.obj.call.quiet = true →
    s.client.requests.terminal.isSome = true → ∀ rep, s.server.reply = some (.ok rep) →
    s.client.session.obj.rep = [.value rep]
  quiet_error : s.client.session.obj.call.quiet = true → s.server.handler.obj.call.quiet = true →
    s.client.requests.terminal.isSome = true → ∀ e, s.server.reply = some (.error e) →
    (getErrorDetails e).1 ≠ .ok →
    s.client.session.obj.rep
      = [.error (.rpcError ⟨(getErrorDetails e).1, .ofText (getErrorDetails e).2⟩)]

/-- A client that has ended its requests and has nothing outstanding has its reply. -/
theorem resolved_of_quiet {s : UploadRpc Req Rep} (h : (machine Req Rep).Reachable s)
    (hquiet : s.client.session.obj.call.quiet = true)
    (hended : s.client.requests.terminal.isSome = true) {o : Except Exception Rep}
    (hreply : s.server.reply = some o) : s.client.session.obj.rep = [resolutionOf o] := by
  have hinv := client_inv h
  -- A live session with an idle gate and an ended stream has its last batch in flight.
  have hdel : s.client.session.deleted = true := by
    by_contra hlive
    have hlive' : s.client.session.deleted = false := by simpa using hlive
    have hgate := hinv.counts.gate_live hlive'
    have hlast := (hinv.counts.last_live hlive').1
    simp only [Call.pending_of_quiet hquiet] at hgate hlast
    have hidle : s.client.session.obj.batchInFlight = false := Bool.toNat_eq_zero.1 hgate.symm
    exact hinv.settled (hinv.ended.trans hended) hidle hlast.symm
  obtain ⟨o', hanswer, hrep⟩ := (wire_of_reachable h).resolved hdel
  have hsame : s.server.reply = some o' := by
    unfold UploadServer.answer at hanswer
    split at hanswer
    · exact hanswer
    · cases hanswer
  rw [hrep, Option.some.inj (hreply.symm.trans hsame)]

/-- **A client-streaming RPC delivers the requests in order, without loss or duplication, and then
    the reply**, in every reachable state of every interleaving of pushes, ends, replies and
    completions. -/
theorem client_streaming_delivers_in_order {s : UploadRpc Req Rep}
    (h : (machine Req Rep).Reachable s) : s.DeliversInOrder := by
  have hinv := client_inv h
  have hrequests := FifoLink.inv_of_reachable (requestSimulation.reachable h)
  refine
    { requests_prefix := hrequests.delivered_prefix
      client_one := hinv.one_outstanding
      end_once := hinv.outbox.closes_le
      end_last := ?_
      requests_complete := ?_
      quiet_value := ?_
      quiet_error := ?_ }
  · intro hclose
    refine ⟨hinv.ended.symm.trans (hinv.outbox.closed_ended hclose), ?_⟩
    have hqueue : s.client.session.obj.pendingOps = [] := hinv.outbox.closed_queue hclose
    have hhistory : s.client.session.obj.call.sent ++ s.client.session.obj.pendingOps = _ :=
      hinv.history
    rwa [hqueue, List.append_nil] at hhistory
  · intro hmem
    exact streamLink_all hrequests hmem
  · intro hquiet _ hended rep hreply
    exact resolved_of_quiet h hquiet hended hreply
  · intro hquiet _ hended e hreply hcode
    rw [resolved_of_quiet h hquiet hended hreply, resolutionOf, if_neg hcode]

/-- A whole call: two requests, one queued behind the handshake, and the reply given before the
    handler has read them all. -/
theorem client_streaming_delivers_whole_call :
    ∃ s : UploadRpc Buffer Buffer, (machine Buffer Buffer).Reachable s ∧
      s.server.handler.obj.readerProm.log = [.push [1], .push [2], .finish .complete] ∧
      s.client.session.obj.rep = [.value [7]] ∧ s.client.session.obj.call.quiet = true ∧
      s.server.handler.obj.call.quiet = true ∧ s.DeliversInOrder :=
  have hrun : (machine Buffer Buffer).Reachable _ :=
    Machine.reachable_of_run
      [.callerPush [1], .startReading, .attach, .clientDone 0 none, .serverDone 0,
        .clientDone 0 none, .callerPush [2], .handlerReply (.ok [7]), .callerEnd .complete,
        .serverDone 0, .clientDone 0 none, .serverDone 1, .clientDone 0 none, .serverDone 0] rfl
  ⟨_, hrun, rfl, rfl, rfl, rfl, client_streaming_delivers_in_order hrun⟩

end UploadRpc

end EasyGrpc
