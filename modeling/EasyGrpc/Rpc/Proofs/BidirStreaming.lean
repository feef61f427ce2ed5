import EasyGrpc.Core.Transfer
import EasyGrpc.Rpc.BidirStreaming
import EasyGrpc.Client.Proofs.BidirProgress
import EasyGrpc.Server.Proofs.BidirStreaming

set_option autoImplicit false

/-! # A bidirectional RPC delivers in order, without loss or duplication

Each side keeps the invariant proved of it alone, whatever it receives; `BidirRpc.Wire` adds what
the wire guarantees between the two. Each direction is then a `FifoLink`: the simulations
`requestLink` and `replyLink` carry its laws over to the composed machine. -/

namespace EasyGrpc

variable {Req Rep : Type} [Serializer Req] [Serializer Rep]

namespace BidirRpc

open BidirStreamingCallSession (finalEnd)

/-! ## A step moves one side -/

/-- `s'` comes from `s` by a step of the client, a completion bringing what the server has sent. -/
structure ClientMove (s s' : BidirRpc Req Rep) (e : BidirClient.Event Req) : Prop where
  step : s.client.step e = some s'.client
  server : s'.server = s.server
  toServer : s'.toServer = s.toServer
  pos : (∀ i r, e ≠ .complete i r) → s'.toClient = s.toClient
  received : ∀ i r, e = .complete i r → ∃ b err,
    s.client.session.obj.call.outstanding[i]? = some b ∧
    s.serverPeer.receive (BatchSpec.ops b) err = some r ∧ s'.toClient = s.serverPeer.posAfter r

/-- `s'` comes from `s` by a step of the server, a completion bringing what the client has sent. -/
structure ServerMove (s s' : BidirRpc Req Rep) (e : BidirServer.Event Rep) : Prop where
  step : s.server.step e = some s'.server
  client : s'.client = s.client
  toClient : s'.toClient = s.toClient
  pos : (∀ i r, e ≠ .complete i r) → s'.toServer = s.toServer
  received : ∀ i r, e = .complete i r → ∃ b,
    s.server.handler.obj.call.outstanding[i]? = some b ∧
    s.clientPeer.receive (BatchSpec.ops b) none = some r ∧ s'.toServer = s.clientPeer.posAfter r

theorem clientMove_of_user {s s' : BidirRpc Req Rep} {e : BidirClient.Event Req}
    (hstep : s.stepClient e = some s') (huser : ∀ i r, e ≠ .complete i r) : ClientMove s s' e := by
  obtain ⟨client, hclient, rfl⟩ := Option.map_eq_some_iff.1 hstep
  exact ⟨hclient, rfl, rfl, fun _ => rfl, fun i r he => absurd he (huser i r)⟩

theorem serverMove_of_user {s s' : BidirRpc Req Rep} {e : BidirServer.Event Rep}
    (hstep : s.stepServer e = some s') (huser : ∀ i r, e ≠ .complete i r) : ServerMove s s' e := by
  obtain ⟨server, hserver, rfl⟩ := Option.map_eq_some_iff.1 hstep
  exact ⟨hserver, rfl, rfl, fun _ => rfl, fun i r he => absurd he (huser i r)⟩

theorem clientMove_of_done {s s' : BidirRpc Req Rep} {i : ℕ} {err : Option CString}
    (hstep : s.step (.clientDone i err) = some s') : ∃ r, ClientMove s s' (.complete i r) := by
  obtain ⟨b, hb, hstep⟩ := Option.bind_eq_some_iff.1 hstep
  obtain ⟨r, hr, hstep⟩ := Option.bind_eq_some_iff.1 hstep
  obtain ⟨client, hclient, rfl⟩ := Option.map_eq_some_iff.1 hstep
  refine ⟨r, hclient, rfl, rfl, fun huser => absurd rfl (huser i r), ?_⟩
  rintro j q ⟨rfl, rfl⟩
  exact ⟨b, err, hb, hr, rfl⟩

theorem serverMove_of_done {s s' : BidirRpc Req Rep} {i : ℕ}
    (hstep : s.step (.serverDone i) = some s') : ∃ r, ServerMove s s' (.complete i r) := by
  obtain ⟨b, hb, hstep⟩ := Option.bind_eq_some_iff.1 hstep
  obtain ⟨r, hr, hstep⟩ := Option.bind_eq_some_iff.1 hstep
  obtain ⟨server, hserver, rfl⟩ := Option.map_eq_some_iff.1 hstep
  refine ⟨r, hserver, rfl, rfl, fun huser => absurd rfl (huser i r), ?_⟩
  rintro j q ⟨rfl, rfl⟩
  exact ⟨b, hb, hr, rfl⟩

/-- A server completion never brings an error text. -/
theorem ServerMove.receives {s s' : BidirRpc Req Rep} {e : BidirServer.Event Rep}
    (hmove : ServerMove s s' e) (i : ℕ) (r : Received) (he : e = .complete i r) : ∃ b err,
    s.server.handler.obj.call.outstanding[i]? = some b ∧
    s.clientPeer.receive (BatchSpec.ops b) err = some r ∧
    s'.toServer = s.clientPeer.posAfter r := by
  obtain ⟨b, hb, hr, hpos⟩ := hmove.received i r he
  exact ⟨b, none, hb, hr, hpos⟩

theorem step_moves {s s' : BidirRpc Req Rep} {e : Event Req Rep} (hstep : s.step e = some s') :
    (∃ ce, ClientMove s s' ce) ∨ (∃ se, ServerMove s s' se) := by
  cases e with
  | callerPush req =>
      exact Or.inl ⟨_, clientMove_of_user hstep (fun _ _ he => by cases he)⟩
  | callerEnd => exact Or.inl ⟨_, clientMove_of_user hstep (fun _ _ he => by cases he)⟩
  | handlerPush rep =>
      exact Or.inr ⟨_, serverMove_of_user hstep (fun _ _ he => by cases he)⟩
  | handlerEnd t => exact Or.inr ⟨_, serverMove_of_user hstep (fun _ _ he => by cases he)⟩
  | attach => exact Or.inr ⟨_, serverMove_of_user hstep (fun _ _ he => by cases he)⟩
  | startHandshake =>
      exact Or.inr ⟨_, serverMove_of_user hstep (fun _ _ he => by cases he)⟩
  | clientDone i err =>
      obtain ⟨r, hmove⟩ := clientMove_of_done hstep
      exact Or.inl ⟨_, hmove⟩
  | serverDone i =>
      obtain ⟨r, hmove⟩ := serverMove_of_done hstep
      exact Or.inr ⟨_, hmove⟩

/-- Both sides of a reachable state are reachable on their own. -/
theorem reachable_sides {s : BidirRpc Req Rep} (h : (machine Req Rep).Reachable s) :
    (BidirClient.machine Req Rep).Reachable s.client ∧
      (BidirServer.machine Req Rep).Reachable s.server := by
  induction h with
  | init => exact ⟨Machine.reachable_of_run [.getFuture] rfl, .init⟩
  | step _ hnext ih =>
      rcases step_moves hnext with ⟨ce, hmove⟩ | ⟨se, hmove⟩
      · exact ⟨ih.1.step hmove.step, hmove.server ▸ ih.2⟩
      · exact ⟨hmove.client ▸ ih.1, ih.2.step hmove.step⟩

theorem client_inv {s : BidirRpc Req Rep} (h : (machine Req Rep).Reachable s) : s.client.Inv :=
  BidirClient.inv_of_reachable (reachable_sides h).1

theorem server_inv {s : BidirRpc Req Rep} (h : (machine Req Rep).Reachable s) : s.server.Inv :=
  BidirServer.inv_of_reachable (reachable_sides h).2

/-! ## What the wire guarantees -/

/-- What each side was given is what the other side sent. The reply stream ends with the session,
    and never with an error: every status the handler sends is `GRPC_STATUS_OK`. -/
structure Wire (s : BidirRpc Req Rep) : Prop where
  requests : Delivered deserialize s.clientPeer s.server.handler.obj.readerProm.values
    s.server.handler.deleted
  replies : Delivered deserialize s.serverPeer s.client.session.obj.rep.values
    s.client.session.deleted
  rep : s.client.session.obj.rep.Sound
  rep_ends : s.client.session.obj.rep.ends = if s.client.session.deleted then [.complete] else []

theorem Wire.storage {s : BidirRpc Req Rep} (h : s.Wire) (hlive : s.client.session.deleted = false) :
    s.client.session.obj.rep.storage = true := by
  have hends := h.rep_ends
  simp only [hlive, Bool.false_eq_true, if_false] at hends
  exact h.rep.storage_iff.2 hends

omit [Serializer Req] [Serializer Rep] in
/-- A status the client receives is `GRPC_STATUS_OK`. -/
theorem status_ok {s : BidirRpc Req Rep} {code : StatusCode} {details : String}
    (h : s.serverPeer.status = some (code, details)) : code = .ok := by
  have hmem : (code, details) ∈ s.server.handler.obj.call.statuses := List.mem_of_head? h
  rw [BidirServer.statuses_eq] at hmem
  have heq := List.eq_of_mem_replicate hmem
  exact (Prod.mk.inj heq).1

theorem wire_client {s s' : BidirRpc Req Rep} {e : BidirClient.Event Req} (hinv : s.client.Inv)
    (hret : s.client.returned = true) (hmove : ClientMove s s' e) (h : s.Wire) : s'.Wire := by
  have hsent : s.clientPeer.sent <+: s'.clientPeer.sent := BidirClient.sent_step hinv hmove.step
  have hpeer : s'.serverPeer.sent = s.serverPeer.sent := by
    simp only [serverPeer, Peer.ofServer, hmove.server]
  have hrequests : Delivered deserialize s'.clientPeer s'.server.handler.obj.readerProm.values
      s'.server.handler.deleted := by
    rw [hmove.server]
    exact h.requests.more hsent (fun hlive => ⟨hlive, hmove.toServer⟩)
  rcases BidirClient.rep_step hinv hret hmove.step with ⟨hrep, hdel, -, hother⟩ |
    ⟨i, r, rfl, hlive, hlive', hb, hread⟩ | ⟨i, r, rfl, hlive, hdel', hb, ⟨t, hend, hrep⟩, -⟩
  · refine ⟨hrequests, ?_, hrep ▸ h.rep, ?_⟩
    · rw [hrep]
      refine h.replies.more (hpeer ▸ List.prefix_rfl) ?_
      intro hlive'
      have hlive := hdel.symm.trans hlive'
      refine ⟨hlive, Peer.pos_of_no_read hmove.pos hmove.received ?_⟩
      -- A batch of a live session that is not a read yields nothing.
      intro i r b he hb
      rcases hother i r he with hdead | hne
      · rw [hlive] at hdead
        cases hdead
      · cases b with
        | read => exact absurd hb hne.1
        | _ => rfl
    · rw [hrep, hdel]
      exact h.rep_ends
  · -- A read of a live session: a reply, or the server's end.
    obtain ⟨b, err, hb', hr, hpos⟩ := hmove.received i r rfl
    obtain rfl : b = .read := Option.some.inj (hb'.symm.trans hb)
    have hwire := Peer.receive_read hr rfl
    have hstorage := h.storage hlive
    have hreplies := h.replies
    rw [hlive] at hreplies
    rcases hread with ⟨data, hmsg, hrep, -⟩ | ⟨hmsg, hrep, -⟩
    · rw [hmsg] at hwire
      refine ⟨hrequests, ?_, ?_, ?_⟩
      · rw [hrep, StreamPromise.values_push hstorage, hlive']
        exact hreplies.next hwire hpeer (hpos.trans (Peer.posAfter_message hmsg))
      · rw [hrep]
        exact h.rep.push hstorage _
      · rw [hrep, StreamPromise.ends_push, hlive', h.rep_ends, hlive]
    · refine ⟨hrequests, ?_, hrep ▸ h.rep, ?_⟩
      · rw [hrep, hlive']
        exact hreplies.more (hpeer ▸ List.prefix_rfl)
          (fun _ => ⟨rfl, hpos.trans (Peer.posAfter_null hmsg)⟩)
      · rw [hrep, hlive', h.rep_ends, hlive]
  · -- The status deletes the session, so nothing is said of what is yielded from now on.
    obtain ⟨b, err, hb', hr, hpos⟩ := hmove.received i r rfl
    obtain rfl : b = .status := Option.some.inj (hb'.symm.trans hb)
    have hstorage := h.storage hlive
    have hok := status_ok (Peer.receive_status hr rfl)
    obtain rfl : StreamEnd.complete = t := by simpa [finalEnd, hok] using hend
    refine ⟨hrequests, ?_, ?_, ?_⟩
    · rw [hrep, StreamPromise.values_finish]
      refine h.replies.more (hpeer ▸ List.prefix_rfl) ?_
      intro hlive'
      rw [hdel'] at hlive'
      cases hlive'
    · rw [hrep]
      exact h.rep.finish hstorage _
    · rw [hrep, StreamPromise.ends_finish hstorage, h.rep_ends, hlive, hdel']
      rfl

theorem wire_server {s s' : BidirRpc Req Rep} {e : BidirServer.Event Rep} (hinv : s.server.Inv)
    (hmove : ServerMove s s' e) (h : s.Wire) : s'.Wire := by
  have hsent : s.serverPeer.sent <+: s'.serverPeer.sent := BidirServer.sent_step hmove.step
  have hpeer : s'.clientPeer.sent = s.clientPeer.sent := by
    simp only [clientPeer, Peer.ofClient, hmove.client]
  have hreplies : Delivered deserialize s'.serverPeer s'.client.session.obj.rep.values
      s'.client.session.deleted := by
    rw [hmove.client]
    exact h.replies.more hsent (fun hlive => ⟨hlive, hmove.toClient⟩)
  refine ⟨?_, hreplies, hmove.client ▸ h.rep, hmove.client ▸ h.rep_ends⟩
  rcases BidirServer.reader_step hmove.step with ⟨hprom, hdel, hother⟩ |
    ⟨i, r, rfl, hlive, hlive', hb, hread⟩
  · rw [hprom]
    refine h.requests.more (hpeer ▸ List.prefix_rfl) ?_
    intro hlive'
    have hlive : s.server.handler.deleted = false := by
      cases hdead : s.server.handler.deleted with
      | false => rfl
      | true => rw [hdel hdead] at hlive'; cases hlive'
    refine ⟨hlive, Peer.pos_of_no_read hmove.pos hmove.receives ?_⟩
    intro i r b he hb
    rcases hother i r he with hdead | hne
    · rw [hlive] at hdead
      cases hdead
    · cases b with
      | recv => exact absurd hb hne
      | _ => rfl
  · obtain ⟨b, hb', hr, hpos⟩ := hmove.received i r rfl
    obtain rfl : b = .recv := Option.some.inj (hb'.symm.trans hb)
    have hrequests := h.requests
    rw [hlive] at hrequests
    rw [hlive']
    exact hrequests.reads (hinv.reader_open hb) (Peer.receive_read hr rfl) hpeer hpos hread

theorem returned_of_reachable {s : BidirRpc Req Rep} (h : (machine Req Rep).Reachable s) :
    s.client.returned = true := by
  induction h with
  | init => rfl
  | step _ hnext ih =>
      rcases step_moves hnext with ⟨ce, hmove⟩ | ⟨se, hmove⟩
      · exact BidirClient.returned_step hmove.step ih
      · exact hmove.client ▸ ih

theorem wire_of_reachable {s : BidirRpc Req Rep} (h : (machine Req Rep).Reachable s) : s.Wire := by
  induction h with
  | init =>
      exact ⟨⟨List.nil_prefix, fun _ => rfl⟩, ⟨List.nil_prefix, fun _ => rfl⟩, .fresh, rfl⟩
  | step hs hnext ih =>
      rcases step_moves hnext with ⟨ce, hmove⟩ | ⟨se, hmove⟩
      · exact wire_client (client_inv hs) (returned_of_reachable hs) hmove ih
      · exact wire_server (server_inv hs) hmove ih

/-! ## Each direction is a FIFO link -/

/-- The requests, from the caller's stream to the handler's. -/
def requestLink (s : BidirRpc Req Rep) : FifoLink Req where
  pushed := s.client.requests.pushed
  ended := s.client.requests.terminal.isSome
  delivered := s.server.handler.obj.readerProm.values
  completed := !s.server.handler.obj.readerProm.ends.isEmpty

/-- The replies, from the handler's stream to the caller's. -/
def replyLink (s : BidirRpc Req Rep) : FifoLink Rep where
  pushed := s.server.replies.pushed
  ended := s.server.replies.terminal.isSome
  delivered := s.client.session.obj.rep.values
  completed := !s.client.session.obj.rep.ends.isEmpty

omit [Serializer Req] [Serializer Rep] in
theorem requestLink_eq (s : BidirRpc Req Rep) :
    s.requestLink = streamLink s.client.requests s.server.handler.obj.readerProm := rfl

omit [Serializer Req] [Serializer Rep] in
theorem replyLink_eq (s : BidirRpc Req Rep) :
    s.replyLink = streamLink s.server.replies s.client.session.obj.rep := rfl

theorem Wire.carries_requests {s : BidirRpc Req Rep} (h : s.Wire) (hinv : s.client.Inv) :
    Carries serialize deserialize s.client.requests.pushed s.client.session.obj.call.sent
      s.client.session.obj.pendingOps s.server.handler.obj.readerProm.values :=
  ⟨hinv.history, h.requests.values_sent⟩

theorem Wire.carries_replies {s : BidirRpc Req Rep} (h : s.Wire) (hinv : s.server.Inv)
    (hatt : s.server.replies.attached = true) :
    Carries serialize deserialize s.server.replies.pushed s.server.handler.obj.call.sent
      s.server.handler.obj.pendingOps s.client.session.obj.rep.values := by
  refine ⟨?_, h.replies.values_sent⟩
  have hhistory := hinv.feeds.history
  rw [hatt] at hhistory
  exact hhistory

/-- What a step of the composed machine is for the requests. -/
def requestEvents (s : BidirRpc Req Rep) : Event Req Rep → List (FifoLink.Event Req)
  | .callerPush req => [.push req]
  | .callerEnd => [.finish]
  | .serverDone i =>
      if !s.server.handler.deleted && s.server.handler.obj.call.outstanding[i]? == some .recv then
        match s.clientPeer.read with
        | some (some _) => [.deliver]
        | _ => [.complete]
      else []
  | _ => []

/-- A request is handed to the handler: the oldest one not yet handed over. -/
theorem request_deliver {s s' : BidirRpc Req Rep} {i : ℕ} {r : Received} {data : Buffer}
    (hreach : (machine Req Rep).Reachable s) (hmove : ServerMove s s' (.complete i r))
    (hlive : s.server.handler.deleted = false)
    (hb : s.server.handler.obj.call.outstanding[i]? = some .recv)
    (hread : s.clientPeer.read = some (some data))
    (hprom : s'.server.handler.obj.readerProm
      = s.server.handler.obj.readerProm.push (deserialize data)) :
    (FifoLink.machine Req).run s.requestLink [.deliver] = some s'.requestLink := by
  have hwire := wire_of_reachable hreach
  have hinv := server_inv hreach
  rw [requestLink_eq, requestLink_eq, hmove.client, hprom]
  exact streamLink_deliver hinv.reader (hinv.reader_open hb) hwire.requests hlive
    (hwire.carries_requests (client_inv hreach)) hread

/-- The handler is told that the requests are complete: it has them all. -/
theorem request_complete {s s' : BidirRpc Req Rep} {i : ℕ} {r : Received}
    (hreach : (machine Req Rep).Reachable s) (hmove : ServerMove s s' (.complete i r))
    (hlive : s.server.handler.deleted = false)
    (hb : s.server.handler.obj.call.outstanding[i]? = some .recv)
    (hread : s.clientPeer.read = some none)
    (hprom : s'.server.handler.obj.readerProm = s.server.handler.obj.readerProm.complete) :
    (FifoLink.machine Req).run s.requestLink [.complete] = some s'.requestLink := by
  have hinv := client_inv hreach
  have hserver := server_inv hreach
  have hwire := wire_of_reachable hreach
  have hrequests := hwire.requests
  rw [hlive] at hrequests
  obtain ⟨hclosed, hnone⟩ := hrequests.all hread
  have hclose := (BidirStreamingCallSession.closed_iff _).1 hclosed
  have hended : s.client.requests.terminal.isSome = true :=
    hinv.ended.symm.trans (hinv.outbox.closed_ended hclose)
  have hall := (hwire.carries_requests hinv).all Serializer.deserialize_serialize
    (hinv.outbox.closed_queue hclose) hnone
  rw [requestLink_eq, requestLink_eq, hmove.client, hprom]
  exact streamLink_complete hserver.reader (hserver.reader_open hb) hended hall _

theorem request_step {s s' : BidirRpc Req Rep} {e : Event Req Rep}
    (hreach : (machine Req Rep).Reachable s) (hstep : (machine Req Rep).step s e = some s') :
    (FifoLink.machine Req).run s.requestLink (requestEvents s e) = some s'.requestLink := by
  have hsame : ∀ {ce}, ClientMove s s' ce → s'.client.requests = s.client.requests →
      s'.requestLink = s.requestLink := by
    intro ce hmove hreq
    simp only [requestLink, hmove.server, hreq]
  have hkept : ∀ {se}, ServerMove s s' se →
      s'.server.handler.obj.readerProm = s.server.handler.obj.readerProm →
      s'.requestLink = s.requestLink := by
    intro se hmove hprom
    simp only [requestLink, hmove.client, hprom]
  have huser : ∀ {se}, s.stepServer se = some s' → (∀ i r, se ≠ .complete i r) →
      (FifoLink.machine Req).run s.requestLink [] = some s'.requestLink := by
    intro se hse hne
    have hmove := serverMove_of_user hse hne
    rcases BidirServer.reader_step hmove.step with ⟨hprom, -⟩ | ⟨i, r, he, -⟩
    · rw [hkept hmove hprom]
      rfl
    · exact absurd he (hne i r)
  cases e with
  | callerPush req =>
      obtain ⟨client, hclient, rfl⟩ := Option.map_eq_some_iff.1 hstep
      simp only [BidirClient.step, returned_of_reachable hreach, if_true] at hclient
      obtain ⟨requests, hpush, rfl⟩ := Option.map_eq_some_iff.1 hclient
      exact streamLink_push hpush _
  | callerEnd =>
      obtain ⟨client, hclient, rfl⟩ := Option.map_eq_some_iff.1 hstep
      simp only [BidirClient.step, returned_of_reachable hreach, if_true] at hclient
      obtain ⟨requests, hfin, rfl⟩ := Option.map_eq_some_iff.1 hclient
      exact streamLink_finish hfin _
  | handlerPush rep => exact huser hstep (fun _ _ he => by cases he)
  | handlerEnd t => exact huser hstep (fun _ _ he => by cases he)
  | attach => exact huser hstep (fun _ _ he => by cases he)
  | startHandshake => exact huser hstep (fun _ _ he => by cases he)
  | clientDone i err =>
      obtain ⟨r, hmove⟩ := clientMove_of_done hstep
      obtain ⟨session, -, hclient⟩ := Option.map_eq_some_iff.1 hmove.step
      rw [hsame hmove (by rw [← hclient])]
      rfl
  | serverDone i =>
      obtain ⟨r, hmove⟩ := serverMove_of_done hstep
      rcases BidirServer.reader_step hmove.step with ⟨hprom, -, hother⟩ |
        ⟨j, q, ⟨rfl, rfl⟩, hlive, -, hb, hread⟩
      · have hnone : requestEvents s (.serverDone i) = [] := by
          rcases hother i r rfl with hdel | hne
          · simp [requestEvents, hdel]
          · simp [requestEvents, hne]
        rw [hnone, hkept hmove hprom]
        rfl
      · obtain ⟨b, hb', hr, -⟩ := hmove.received i r rfl
        obtain rfl : b = .recv := Option.some.inj (hb'.symm.trans hb)
        have hwire := Peer.receive_read hr rfl
        rcases hread with ⟨data, hmsg, hprom⟩ | ⟨hmsg, hprom⟩
        · rw [hmsg] at hwire
          have hevents : requestEvents s (.serverDone i) = [.deliver] := by
            simp [requestEvents, hlive, hb, hwire]
          rw [hevents]
          exact request_deliver hreach hmove hlive hb hwire hprom
        · rw [hmsg] at hwire
          have hevents : requestEvents s (.serverDone i) = [.complete] := by
            simp [requestEvents, hlive, hb, hwire]
          rw [hevents]
          exact request_complete hreach hmove hlive hb hwire hprom

/-- **The requests of a bidirectional RPC are a FIFO link.** -/
def requestSimulation : Simulation (machine Req Rep) (FifoLink.machine Req) where
  abs := requestLink
  inv := (machine Req Rep).Reachable
  events := requestEvents
  inv_of_reachable := id
  abs_init := rfl
  abs_step := request_step

/-! ## The replies, as long as the reply stream ends normally -/

/-- The composed machine in which the user's handler never fails. -/
def normalMachine (Req Rep : Type) [Serializer Req] [Serializer Rep] :
    Machine (BidirRpc Req Rep) (Event Req Rep) :=
  (machine Req Rep).guard (fun _ e => normalEnd e)

theorem reachable_of_normal {s : BidirRpc Req Rep} (h : (normalMachine Req Rep).Reachable s) :
    (machine Req Rep).Reachable s :=
  Machine.Reachable.of_guard h

/-- Only `handlerEnd` ends the reply stream. -/
theorem serverMove_finish {s s' : BidirRpc Req Rep} {e : Event Req Rep}
    (hstep : (machine Req Rep).step s e = some s') :
    s'.server.replies.terminal = s.server.replies.terminal ∨
      ∃ t, e = .handlerEnd t ∧ s'.server.replies.terminal = some t := by
  have hkept : ∀ {se}, ServerMove s s' se → (∀ t, se ≠ .finish t) →
      s'.server.replies.terminal = s.server.replies.terminal := by
    intro se hmove hne
    rcases BidirServer.source_step hmove.step with ⟨-, hterm, -⟩ | ⟨rep, -, -, hsrc⟩ |
      ⟨t, he, -⟩
    · exact hterm
    · rw [hsrc]
    · exact absurd he (hne t)
  cases e with
  | callerPush req =>
      exact Or.inl (by rw [(clientMove_of_user hstep (fun _ _ he => by cases he)).server])
  | callerEnd =>
      exact Or.inl (by rw [(clientMove_of_user hstep (fun _ _ he => by cases he)).server])
  | handlerPush rep =>
      exact Or.inl (hkept (serverMove_of_user hstep (fun _ _ he => by cases he))
        (fun _ he => by cases he))
  | handlerEnd t =>
      have hmove := serverMove_of_user hstep (fun _ _ he => by cases he)
      rcases BidirServer.source_step hmove.step with ⟨-, -, -, hne⟩ | ⟨rep, he, -⟩ |
        ⟨t', ⟨rfl⟩, -, hsrc⟩
      · exact absurd rfl (hne t)
      · cases he
      · exact Or.inr ⟨t, rfl, by rw [hsrc]⟩
  | attach =>
      exact Or.inl (hkept (serverMove_of_user hstep (fun _ _ he => by cases he))
        (fun _ he => by cases he))
  | startHandshake =>
      exact Or.inl (hkept (serverMove_of_user hstep (fun _ _ he => by cases he))
        (fun _ he => by cases he))
  | clientDone i err =>
      obtain ⟨r, hmove⟩ := clientMove_of_done hstep
      exact Or.inl (by rw [hmove.server])
  | serverDone i =>
      obtain ⟨r, hmove⟩ := serverMove_of_done hstep
      exact Or.inl (hkept hmove (fun _ he => by cases he))

theorem not_failed {s : BidirRpc Req Rep} (h : (normalMachine Req Rep).Reachable s) :
    s.server.replies.terminal.any StreamEnd.isFailed = false := by
  refine Machine.Reachable.guard_invariant
    (P := fun s => s.server.replies.terminal.any StreamEnd.isFailed = false) rfl ?_ h
  intro s s' e _ hstep hnormal ih
  rcases serverMove_finish hstep with hterm | ⟨t, rfl, hterm⟩
  · rw [hterm]
    exact ih
  · rw [hterm]
    cases t with
    | complete => rfl
    | failed ex => cases hnormal

/-- Once the client has read the server's end, it has every reply. -/
def Drained (s : BidirRpc Req Rep) : Prop :=
  s.client.session.obj.finishedReceiving = true →
    s.server.replies.terminal.isSome = true ∧
      s.client.session.obj.rep.values = s.server.replies.pushed

/-- A null read after a normal end: nothing is queued and nothing is undelivered. -/
theorem drained_of_null {s : BidirRpc Req Rep} (h : (normalMachine Req Rep).Reachable s)
    (hlive : s.client.session.deleted = false) (hread : s.serverPeer.read = some none) :
    s.server.replies.terminal.isSome = true ∧
      s.client.session.obj.rep.values = s.server.replies.pushed := by
  have hreach := reachable_of_normal h
  have hinv := server_inv hreach
  have hwire := wire_of_reachable hreach
  have hreplies := hwire.replies
  rw [hlive] at hreplies
  obtain ⟨hclosed, hnone⟩ := hreplies.all hread
  -- The server has sent a status, and not because of a failure: it was the end of the stream.
  have hnofail : s.server.handler.obj.call.starts BidirServerBatch.isFail = 0 := by
    rw [hinv.failed, not_failed h]
    simp
  have hend : s.server.handler.obj.call.starts BidirServerBatch.isServerEnd ≠ 0 := by
    intro hzero
    simp [serverPeer, Peer.ofServer, BidirServer.statuses_eq, hnofail, hzero] at hclosed
  obtain ⟨hatt, hterm, -⟩ := hinv.feeds.closed hend
  refine ⟨by rw [hterm]; rfl, ?_⟩
  exact (hwire.carries_replies hinv hatt).all Serializer.deserialize_serialize
    (hinv.feeds.outbox.closed_queue hend) hnone

theorem drained_of_normal {s : BidirRpc Req Rep} (h : (normalMachine Req Rep).Reachable s) :
    s.Drained := by
  induction h with
  | init => intro hrecv; cases hrecv
  | step hs hnext ih =>
      obtain ⟨-, hstep⟩ := Machine.guard_step.1 hnext
      have hreach := reachable_of_normal hs
      have hinv := client_inv hreach
      rcases step_moves hstep with ⟨ce, hmove⟩ | ⟨se, hmove⟩
      · intro hrecv
        rw [hmove.server]
        rcases BidirClient.rep_step hinv (returned_of_reachable hreach) hmove.step with
          ⟨hrep, -, hsame, -⟩ | ⟨i, r, rfl, hlive, -, hb, hread⟩ | ⟨i, r, rfl, -, -, -, ⟨t, -, hrep⟩, hsame⟩
        · rw [hrep]
          exact ih (hsame.symm.trans hrecv)
        · obtain ⟨b, err, hb', hr, -⟩ := hmove.received i r rfl
          obtain rfl : b = .read := Option.some.inj (hb'.symm.trans hb)
          have hwire := Peer.receive_read hr rfl
          rcases hread with ⟨data, hmsg, -, hsame⟩ | ⟨hmsg, hrep, -⟩
          · -- With a read outstanding the server's end was not read yet.
            have hside := hinv.counts.readSide_le
            have hpos := Call.pending_pos hb (p := BidirClientBatch.isRead) rfl
            rw [hsame.symm.trans hrecv] at hside
            simp only [Bool.toNat_true] at hside
            omega
          · rw [hmsg] at hwire
            rw [hrep]
            exact drained_of_null hs hlive hwire
        · rw [hrep, StreamPromise.values_finish]
          exact ih (hsame.symm.trans hrecv)
      · intro hrecv
        rw [hmove.client] at hrecv ⊢
        obtain ⟨hended, hall⟩ := ih hrecv
        rcases BidirServer.source_step hmove.step with ⟨hpushed, hterm, -⟩ | ⟨-, -, hopen, -⟩ |
          ⟨-, -, hopen, -⟩
        · rw [hpushed, hterm]
          exact ⟨hended, hall⟩
        · rw [hopen] at hended
          cases hended
        · rw [hopen] at hended
          cases hended

/-- What a step of the composed machine is for the replies. -/
def replyEvents (s : BidirRpc Req Rep) : Event Req Rep → List (FifoLink.Event Rep)
  | .handlerPush rep => [.push rep]
  | .handlerEnd _ => [.finish]
  | .clientDone i _ =>
      if s.client.session.deleted then []
      else match s.client.session.obj.call.outstanding[i]? with
        | some .read =>
            match s.serverPeer.read with
            | some (some _) => [.deliver]
            | _ => []
        | some .status => [.complete]
        | _ => []
  | _ => []

/-- A reply is handed to the caller: the oldest one not yet handed over. -/
theorem reply_deliver {s s' : BidirRpc Req Rep} {e : BidirClient.Event Req} {data : Buffer}
    (hreach : (machine Req Rep).Reachable s) (hmove : ClientMove s s' e)
    (hlive : s.client.session.deleted = false) (hread : s.serverPeer.read = some (some data))
    (hrep : s'.client.session.obj.rep = s.client.session.obj.rep.push (deserialize data)) :
    (FifoLink.machine Rep).run s.replyLink [.deliver] = some s'.replyLink := by
  have hinv := server_inv hreach
  have hwire := wire_of_reachable hreach
  have hatt := hinv.feeds.attached_of_sent (Peer.read_message hread)
  rw [replyLink_eq, replyLink_eq, hmove.server, hrep]
  exact streamLink_deliver hwire.rep (hwire.storage hlive) hwire.replies hlive
    (hwire.carries_replies hinv hatt) hread

/-- The caller is told that the replies are complete: it has them all. -/
theorem reply_complete {s s' : BidirRpc Req Rep} {e : BidirClient.Event Req} {i : ℕ} {t : StreamEnd}
    (h : (normalMachine Req Rep).Reachable s) (hmove : ClientMove s s' e)
    (hlive : s.client.session.deleted = false)
    (hb : s.client.session.obj.call.outstanding[i]? = some .status)
    (hrep : s'.client.session.obj.rep = s.client.session.obj.rep.finish t) :
    (FifoLink.machine Rep).run s.replyLink [.complete] = some s'.replyLink := by
  have hreach := reachable_of_normal h
  have hinv := client_inv hreach
  have hwire := wire_of_reachable hreach
  have hrecv : s.client.session.obj.finishedReceiving = true := by
    have hpos := Call.pending_pos hb (p := BidirClientBatch.isStatus) rfl
    have hle := hinv.counts.status_le
    have hone := (hinv.counts.status_started (by omega)).1
    cases hfin : s.client.session.obj.finishedReceiving with
    | true => rfl
    | false => simp [hfin] at hone
  obtain ⟨hended, hall⟩ := drained_of_normal h hrecv
  rw [replyLink_eq, replyLink_eq, hmove.server, hrep]
  exact streamLink_complete hwire.rep (hwire.storage hlive) hended hall t

theorem reply_step {s s' : BidirRpc Req Rep} {e : Event Req Rep}
    (h : (normalMachine Req Rep).Reachable s) (hstep : (normalMachine Req Rep).step s e = some s') :
    (FifoLink.machine Rep).run s.replyLink (replyEvents s e) = some s'.replyLink := by
  obtain ⟨-, hstep⟩ := Machine.guard_step.1 hstep
  have hreach := reachable_of_normal h
  have hinv := client_inv hreach
  have hret := returned_of_reachable hreach
  have hquiet : ∀ {se}, ServerMove s s' se → (∀ rep, se ≠ .push rep) → (∀ t, se ≠ .finish t) →
      (FifoLink.machine Rep).run s.replyLink [] = some s'.replyLink := by
    intro se hmove hnopush hnoend
    rcases BidirServer.source_step hmove.step with ⟨hpushed, hterm, -⟩ | ⟨rep, he, -⟩ | ⟨t, he, -⟩
    · rw [replyLink_eq, replyLink_eq, hmove.client, streamLink_congr _ hpushed hterm]
      rfl
    · exact absurd he (hnopush rep)
    · exact absurd he (hnoend t)
  have hkept : ∀ {ce}, ClientMove s s' ce →
      s'.client.session.obj.rep = s.client.session.obj.rep → s'.replyLink = s.replyLink := by
    intro ce hmove hrep
    simp only [replyLink, hmove.server, hrep]
  have huser : ∀ {ce}, s.stepClient ce = some s' → (∀ i r, ce ≠ .complete i r) →
      (FifoLink.machine Rep).run s.replyLink [] = some s'.replyLink := by
    intro ce hce hne
    have hmove := clientMove_of_user hce hne
    rcases BidirClient.rep_step hinv hret hmove.step with ⟨hrep, -⟩ | ⟨i, r, he, -⟩ | ⟨i, r, he, -⟩
    · rw [hkept hmove hrep]
      rfl
    · exact absurd he (hne i r)
    · exact absurd he (hne i r)
  cases e with
  | callerPush req => exact huser hstep (fun _ _ he => by cases he)
  | callerEnd => exact huser hstep (fun _ _ he => by cases he)
  | handlerPush rep =>
      obtain ⟨server, hserver, rfl⟩ := Option.map_eq_some_iff.1 hstep
      obtain ⟨replies, hpush, rfl⟩ := Option.map_eq_some_iff.1 hserver
      exact streamLink_push hpush _
  | handlerEnd t =>
      obtain ⟨server, hserver, rfl⟩ := Option.map_eq_some_iff.1 hstep
      obtain ⟨replies, hfin, rfl⟩ := Option.map_eq_some_iff.1 hserver
      exact streamLink_finish hfin _
  | attach =>
      exact hquiet (serverMove_of_user hstep (fun _ _ he => by cases he))
        (fun _ he => by cases he) (fun _ he => by cases he)
  | startHandshake =>
      exact hquiet (serverMove_of_user hstep (fun _ _ he => by cases he))
        (fun _ he => by cases he) (fun _ he => by cases he)
  | serverDone i =>
      obtain ⟨r, hmove⟩ := serverMove_of_done hstep
      exact hquiet hmove (fun _ he => by cases he) (fun _ he => by cases he)
  | clientDone i err =>
      obtain ⟨r, hmove⟩ := clientMove_of_done hstep
      rcases BidirClient.rep_step hinv hret hmove.step with ⟨hrep, hdel, -, hother⟩ |
        ⟨j, q, ⟨rfl, rfl⟩, hlive, -, hb, hread⟩ | ⟨j, q, ⟨rfl, rfl⟩, hlive, hdel', hb, ⟨t, -, hrep⟩, -⟩
      · have hevents : replyEvents s (.clientDone i err) = [] := by
          rcases hother i r rfl with hdead | ⟨hread, hstatus⟩
          · simp [replyEvents, hdead]
          · simp only [replyEvents]
            split <;> rfl
        rw [hevents, hkept hmove hrep]
        rfl
      · obtain ⟨b, err', hb', hr, -⟩ := hmove.received i r rfl
        obtain rfl : b = .read := Option.some.inj (hb'.symm.trans hb)
        have hwire := Peer.receive_read hr rfl
        rcases hread with ⟨data, hmsg, hrep, -⟩ | ⟨hmsg, hrep, -⟩
        · rw [hmsg] at hwire
          have hevents : replyEvents s (.clientDone i err) = [.deliver] := by
            simp [replyEvents, hlive, hb, hwire]
          rw [hevents]
          exact reply_deliver hreach hmove hlive hwire hrep
        · rw [hmsg] at hwire
          have hevents : replyEvents s (.clientDone i err) = [] := by
            simp [replyEvents, hlive, hb, hwire]
          rw [hevents, hkept hmove hrep]
          rfl
      · have hevents : replyEvents s (.clientDone i err) = [.complete] := by
          simp [replyEvents, hlive, hb]
        rw [hevents]
        exact reply_complete h hmove hlive hb hrep

/-- **The replies of a bidirectional RPC whose handler does not fail are a FIFO link.** -/
def replySimulation : Simulation (normalMachine Req Rep) (FifoLink.machine Rep) where
  abs := replyLink
  inv := (normalMachine Req Rep).Reachable
  events := replyEvents
  inv_of_reachable := id
  abs_init := rfl
  abs_step := reply_step

/-! ## The guarantees of a bidirectional RPC -/

/-- What a caller and a handler can rely on. -/
structure DeliversInOrder (s : BidirRpc Req Rep) : Prop where
  /-- What arrived is an initial part of what was pushed. -/
  requests_prefix : s.server.handler.obj.readerProm.values <+: s.client.requests.pushed
  replies_prefix : s.client.session.obj.rep.values <+: s.server.replies.pushed
  /-- At most one message is on its way out, and at most one read, on each side. -/
  client_sends : s.client.session.obj.call.inFlight Op.isSendMessage ≤ 1
  client_reads : s.client.session.obj.call.inFlight Op.isRecvMessage ≤ 1
  server_sends : s.server.handler.obj.call.inFlight Op.isSendMessage ≤ 1
  server_reads : s.server.handler.obj.call.inFlight Op.isRecvMessage ≤ 1
  /-- Each side announces its end once, after everything pushed was handed to gRPC core. -/
  client_end_once : s.client.session.obj.call.starts BidirClientBatch.isClose ≤ 1
  client_end_last : s.client.session.obj.call.starts BidirClientBatch.isClose ≠ 0 →
    s.client.requests.terminal.isSome = true ∧
      s.client.session.obj.call.sent = s.client.requests.pushed.map serialize
  server_end_once : s.server.handler.obj.call.starts BidirServerBatch.isServerEnd ≤ 1
  server_end_last : s.server.handler.obj.call.starts BidirServerBatch.isServerEnd ≠ 0 →
    s.server.replies.terminal.isSome = true ∧
      s.server.handler.obj.call.sent = s.server.replies.pushed.map serialize
  /-- A completed stream holds everything pushed. -/
  requests_complete : StreamEnd.complete ∈ s.server.handler.obj.readerProm.ends →
    s.server.handler.obj.readerProm.values = s.client.requests.pushed
  replies_complete : StreamEnd.complete ∈ s.client.session.obj.rep.ends →
    s.client.session.obj.rep.values = s.server.replies.pushed

omit [Serializer Req] [Serializer Rep] in
theorem client_inFlight {call : Call BidirClientBatch} :
    call.inFlight Op.isSendMessage = call.pending BidirClientBatch.isWrite ∧
      call.inFlight Op.isRecvMessage = call.pending BidirClientBatch.isRead := by
  refine ⟨Call.inFlight_eq_pending _ ?_, Call.inFlight_eq_pending _ ?_⟩ <;>
    intro b <;> cases b <;> rfl

omit [Serializer Req] [Serializer Rep] in
theorem server_inFlight {call : Call BidirServerBatch} :
    call.inFlight Op.isSendMessage = call.pending BidirServerBatch.isSend ∧
      call.inFlight Op.isRecvMessage = call.pending BidirServerBatch.isRecv := by
  refine ⟨Call.inFlight_eq_pending _ ?_, Call.inFlight_eq_pending _ ?_⟩ <;>
    intro b <;> cases b <;> rfl

/-- **A bidirectional RPC delivers in order, without loss or duplication**, in every reachable state
    of every interleaving of pushes, normal ends and completions. -/
theorem bidir_delivers_in_order {s : BidirRpc Req Rep}
    (h : (normalMachine Req Rep).Reachable s) : s.DeliversInOrder := by
  have hreach := reachable_of_normal h
  have hclient := client_inv hreach
  have hserver := server_inv hreach
  have hrequests := FifoLink.inv_of_reachable (requestSimulation.reachable hreach)
  have hreplies := FifoLink.inv_of_reachable (replySimulation.reachable h)
  have hsend := hclient.counts.sendSide_le
  have hread := hclient.counts.readSide_le
  have hsend' := hserver.counts.sendSide_le
  have hread' := hserver.counts.recvSide_le
  have hone := hserver.counts.handshake_le
  refine
    { requests_prefix := hrequests.delivered_prefix
      replies_prefix := hreplies.delivered_prefix
      client_sends := by rw [client_inFlight.1]; omega
      client_reads := by rw [client_inFlight.2]; omega
      server_sends := by rw [server_inFlight.1]; omega
      server_reads := by rw [server_inFlight.2]; omega
      client_end_once := hclient.outbox.closes_le
      client_end_last := ?_
      server_end_once := hserver.feeds.outbox.closes_le
      server_end_last := ?_
      requests_complete := ?_
      replies_complete := ?_ }
  · intro hclose
    refine ⟨hclient.ended.symm.trans (hclient.outbox.closed_ended hclose), ?_⟩
    have hqueue : s.client.session.obj.pendingOps = [] := hclient.outbox.closed_queue hclose
    have hhistory : s.client.session.obj.call.sent ++ s.client.session.obj.pendingOps = _ :=
      hclient.history
    rwa [hqueue, List.append_nil] at hhistory
  · intro hend
    obtain ⟨-, hterm, hsent⟩ := hserver.feeds.closed hend
    exact ⟨by rw [hterm]; rfl, hsent⟩
  · intro hmem
    exact streamLink_all hrequests hmem
  · intro hmem
    exact streamLink_all hreplies hmem

/-- A whole call: two requests, one reply, both streams completed on both sides. -/
theorem bidir_delivers_whole_call :
    ∃ s : BidirRpc Buffer Buffer, (normalMachine Buffer Buffer).Reachable s ∧
      s.server.handler.obj.readerProm.values = [[1], [2]] ∧
      s.client.session.obj.rep.log = [.push [3], .finish .complete] ∧ s.DeliversInOrder :=
  have hrun : (normalMachine Buffer Buffer).Reachable _ :=
    Machine.reachable_of_run
      [.callerPush [1], .callerPush [2], .attach, .startHandshake, .clientDone 0 none,
        .clientDone 0 none, .clientDone 1 none, .callerEnd, .serverDone 0, .serverDone 0,
        .serverDone 0, .serverDone 0, .handlerPush [3], .handlerEnd .complete, .serverDone 0,
        .clientDone 1 none, .clientDone 0 none, .clientDone 0 none, .clientDone 0 none] rfl
  ⟨_, hrun, rfl, rfl, bidir_delivers_in_order hrun⟩

end BidirRpc

end EasyGrpc
