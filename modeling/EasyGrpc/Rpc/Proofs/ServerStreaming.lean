import EasyGrpc.Core.Transfer
import EasyGrpc.Rpc.ServerStreaming
import EasyGrpc.Client.Proofs.ServerStreaming
import EasyGrpc.Server.Proofs.ServerStreaming

set_option autoImplicit false

/-! # A server-streaming RPC delivers every reply, in order, then the end

Each side keeps the invariant proved of it alone; `StreamingRpc.Wire` adds what the wire guarantees
between the two. The replies are then a `FifoLink` (`replySimulation`). -/

namespace EasyGrpc

variable {Req Rep : Type} [Serializer Req] [Serializer Rep]

namespace StreamingRpc

open StreamingServerBatch

/-! ## A step moves one side -/

/-- `s'` comes from `s` by a step of the server. -/
structure ServerMove (s s' : StreamingRpc Req Rep) (e : StreamingServer.Event Rep) : Prop where
  step : s.server.step e = some s'.server
  client : s'.client = s.client
  toClient : s'.toClient = s.toClient
  toServer : (∀ payload, e ≠ .perform payload) → s'.toServer = s.toServer

/-- `s'` comes from `s` by a completion on the client, bringing what the server has sent. -/
structure ClientMove (s s' : StreamingRpc Req Rep) (i : ℕ) (r : Received) : Prop where
  step : s.client.step (.complete i r) = some s'.client
  server : s'.server = s.server
  toServer : s'.toServer = s.toServer
  received : ∃ b err, s.client.session.obj.call.outstanding[i]? = some b ∧
    s.serverPeer.receive (BatchSpec.ops b) err = some r
  pos : s'.toClient = s.serverPeer.posAfter r

theorem serverMove_of_step {s s' : StreamingRpc Req Rep} {e : StreamingServer.Event Rep}
    (hstep : s.stepServer e = some s') : ServerMove s s' e := by
  obtain ⟨server, hserver, rfl⟩ := Option.map_eq_some_iff.1 hstep
  exact ⟨hserver, rfl, rfl, fun _ => rfl⟩

theorem serverMove_of_perform {s s' : StreamingRpc Req Rep} (hstep : s.step .perform = some s') :
    ∃ payload, s.clientPeer.read = some (some payload) ∧ ServerMove s s' (.perform payload) := by
  simp only [step] at hstep
  split at hstep
  · next payload hread =>
      obtain ⟨s₁, hserver, rfl⟩ := Option.map_eq_some_iff.1 hstep
      have hmove := serverMove_of_step hserver
      exact ⟨payload, hread, hmove.step, hmove.client, hmove.toClient,
        fun hne => absurd rfl (hne payload)⟩
  · cases hstep

theorem serverMove_of_done {s s' : StreamingRpc Req Rep} {i : ℕ}
    (hstep : s.step (.serverDone i) = some s') : ∃ r, ServerMove s s' (.complete i r) := by
  obtain ⟨b, -, hstep⟩ := Option.bind_eq_some_iff.1 hstep
  obtain ⟨r, -, hstep⟩ := Option.bind_eq_some_iff.1 hstep
  exact ⟨r, serverMove_of_step hstep⟩

theorem clientMove_of_done {s s' : StreamingRpc Req Rep} {i : ℕ} {err : Option CString}
    (hstep : s.step (.clientDone i err) = some s') : ∃ r, ClientMove s s' i r := by
  obtain ⟨b, hb, hstep⟩ := Option.bind_eq_some_iff.1 hstep
  obtain ⟨r, hr, hstep⟩ := Option.bind_eq_some_iff.1 hstep
  obtain ⟨client, hclient, rfl⟩ := Option.map_eq_some_iff.1 hstep
  exact ⟨r, hclient, rfl, rfl, ⟨b, err, hb, hr⟩, rfl⟩

theorem step_moves {s s' : StreamingRpc Req Rep} {e : Event Rep} (hstep : s.step e = some s') :
    (∃ i r, ClientMove s s' i r) ∨ (∃ se, ServerMove s s' se) := by
  cases e with
  | perform =>
      obtain ⟨payload, -, hmove⟩ := serverMove_of_perform hstep
      exact Or.inr ⟨_, hmove⟩
  | attach => exact Or.inr ⟨_, serverMove_of_step hstep⟩
  | handlerThrows ex => exact Or.inr ⟨_, serverMove_of_step hstep⟩
  | handlerPush rep => exact Or.inr ⟨_, serverMove_of_step hstep⟩
  | handlerEnd t => exact Or.inr ⟨_, serverMove_of_step hstep⟩
  | clientDone i err =>
      obtain ⟨r, hmove⟩ := clientMove_of_done hstep
      exact Or.inl ⟨i, r, hmove⟩
  | serverDone i =>
      obtain ⟨r, hmove⟩ := serverMove_of_done hstep
      exact Or.inr ⟨_, hmove⟩

/-- Both sides of a reachable state are reachable on their own. -/
theorem reachable_sides {req : Req} {s : StreamingRpc Req Rep}
    (h : (machine Rep req).Reachable s) :
    (StreamingClient.machine Rep req).Reachable s.client ∧
      (StreamingServer.machine Req Rep).Reachable s.server := by
  induction h with
  | init => exact ⟨Machine.reachable_of_run [.getFuture] rfl, .init⟩
  | step _ hnext ih =>
      rcases step_moves hnext with ⟨i, r, hmove⟩ | ⟨se, hmove⟩
      · exact ⟨ih.1.step (e := .complete i r) hmove.step, hmove.server ▸ ih.2⟩
      · exact ⟨hmove.client ▸ ih.1, ih.2.step hmove.step⟩

theorem client_inv {req : Req} {s : StreamingRpc Req Rep} (h : (machine Rep req).Reachable s) :
    StreamingClient.Inv req s.client :=
  StreamingClient.inv_of_reachable (reachable_sides h).1

theorem server_inv {req : Req} {s : StreamingRpc Req Rep} (h : (machine Rep req).Reachable s) :
    s.server.Inv :=
  StreamingServer.inv_of_reachable (reachable_sides h).2

/-- What a completion does to the client. -/
theorem client_handled {req : Req} {s s' : StreamingRpc Req Rep} {i : ℕ} {r : Received}
    (hinv : StreamingClient.Inv req s.client) (hmove : ClientMove s s' i r) :
    s.client.session.deleted = false ∧
      s'.client = { s.client with session := s.client.session.obj.handled r } ∧
      (s.client.session.obj.finishing = false → s.serverPeer.read = some r.message) ∧
      (s.client.session.obj.finishing = true → r.message = none ∧
        s.serverPeer.status = some (r.status, r.statusDetails)) := by
  rcases StreamingClient.step_cases hinv hmove.step with ⟨he, -⟩ | ⟨q, ⟨rfl, rfl⟩, hlive, hclient⟩
  · cases he
  · obtain ⟨b, err, hb, hr⟩ := hmove.received
    obtain ⟨b', hout, hfinal⟩ := hinv.one hlive
    obtain rfl : b = b' := by
      rw [hout] at hb
      exact (Option.some.inj hb).symm
    refine ⟨hlive, hclient, ?_, ?_⟩
    · intro hfin
      rw [hfin] at hfinal
      cases b with
      | first m => exact Peer.receive_read hr rfl
      | read => exact Peer.receive_read hr rfl
      | final => cases hfinal
    · intro hfin
      rw [hfin] at hfinal
      cases b with
      | first m => cases hfinal
      | read => cases hfinal
      | final => exact ⟨Peer.receive_no_read hr rfl, Peer.receive_status hr rfl⟩

/-! ## What the wire guarantees -/

/-- What the client was given is what the server sent. The reply stream ends with the session, and
    never with an error: every status the handler sends is `GRPC_STATUS_OK`. -/
structure Wire (s : StreamingRpc Req Rep) : Prop where
  replies : Delivered deserialize s.serverPeer s.client.session.obj.replyStreamPromise.values
    s.client.session.deleted
  rep : s.client.session.obj.replyStreamPromise.Sound
  rep_ends : s.client.session.obj.replyStreamPromise.ends
    = if s.client.session.deleted then [.complete] else []

omit [Serializer Req] in
theorem Wire.storage {s : StreamingRpc Req Rep} (h : s.Wire)
    (hlive : s.client.session.deleted = false) :
    s.client.session.obj.replyStreamPromise.storage = true := by
  have hends := h.rep_ends
  simp only [hlive, Bool.false_eq_true, if_false] at hends
  exact h.rep.storage_iff.2 hends

omit [Serializer Req] [Serializer Rep] in
/-- A status the client receives is `GRPC_STATUS_OK`. -/
theorem status_ok {s : StreamingRpc Req Rep} {code : StatusCode} {details : String}
    (h : s.serverPeer.status = some (code, details)) : code = .ok := by
  have hmem : (code, details) ∈ s.server.handler.obj.call.statuses := List.mem_of_head? h
  rw [StreamingServer.statuses_eq] at hmem
  have heq := List.eq_of_mem_replicate hmem
  exact (Prod.mk.inj heq).1

theorem wire_client {req : Req} {s s' : StreamingRpc Req Rep} {i : ℕ} {r : Received}
    (hinv : StreamingClient.Inv req s.client) (hmove : ClientMove s s' i r) (h : s.Wire) :
    s'.Wire := by
  obtain ⟨hlive, hclient, hread, hstatus⟩ := client_handled hinv hmove
  have hpeer : s'.serverPeer.sent = s.serverPeer.sent := by
    simp only [serverPeer, Peer.ofServer, hmove.server]
  have hstorage := h.storage hlive
  have hreplies := h.replies
  have hends := h.rep_ends
  rw [hlive] at hreplies hends
  have hposition : s'.serverPeer.pos = s.serverPeer.pos + r.message.isSome.toNat := hmove.pos
  cases hfin : s.client.session.obj.finishing with
  | true =>
      have hok := status_ok (hstatus hfin).2
      rw [StreamingCallSession.handled_status hfin] at hclient
      refine ⟨?_, ?_, ?_⟩
      · rw [hclient]
        simp only [StreamingCallSession.afterStatus, StreamPromise.values_finish]
        refine hreplies.more (hpeer ▸ List.prefix_rfl) ?_
        intro hno
        cases hno
      · rw [hclient]
        exact h.rep.finish hstorage _
      · rw [hclient]
        simp only [StreamingCallSession.afterStatus, StreamPromise.ends_finish hstorage, hends, hok]
        rfl
  | false =>
      have hwire := hread hfin
      cases hmsg : r.message with
      | some data =>
          rw [StreamingCallSession.handled_reply hfin hmsg] at hclient
          rw [hmsg] at hwire hposition
          refine ⟨?_, ?_, ?_⟩
          · rw [hclient]
            simp only [StreamingCallSession.afterReply, StreamPromise.values_push hstorage]
            exact hreplies.next hwire hpeer hposition
          · rw [hclient]
            exact h.rep.push hstorage _
          · rw [hclient]
            simp only [StreamingCallSession.afterReply, StreamPromise.ends_push]
            exact hends
      | none =>
          rw [StreamingCallSession.handled_end hfin hmsg] at hclient
          rw [hmsg] at hposition
          refine ⟨?_, ?_, ?_⟩
          · rw [hclient]
            exact hreplies.more (hpeer ▸ List.prefix_rfl) (fun _ => ⟨rfl, hposition⟩)
          · rw [hclient]
            exact h.rep
          · rw [hclient]
            exact hends

theorem wire_server {s s' : StreamingRpc Req Rep} {e : StreamingServer.Event Rep}
    (hmove : ServerMove s s' e) (h : s.Wire) : s'.Wire := by
  have hsent : s.serverPeer.sent <+: s'.serverPeer.sent := StreamingServer.sent_step hmove.step
  refine ⟨?_, hmove.client ▸ h.rep, hmove.client ▸ h.rep_ends⟩
  rw [hmove.client]
  exact h.replies.more hsent (fun hlive => ⟨hlive, hmove.toClient⟩)

theorem wire_of_reachable {req : Req} {s : StreamingRpc Req Rep}
    (h : (machine Rep req).Reachable s) : s.Wire := by
  induction h with
  | init => exact ⟨⟨List.nil_prefix, fun _ => rfl⟩, .fresh, rfl⟩
  | step hs hnext ih =>
      rcases step_moves hnext with ⟨i, r, hmove⟩ | ⟨se, hmove⟩
      · exact wire_client (client_inv hs) hmove ih
      · exact wire_server hmove ih

/-! ## The replies are a FIFO link, as long as the reply stream completes -/

/-- The composed machine in which the user's handler returns a stream and completes it. -/
def normalMachine (Rep : Type) [Serializer Rep] (req : Req) :
    Machine (StreamingRpc Req Rep) (Event Rep) :=
  (machine Rep req).guard (fun _ e => normalEnd e)

theorem reachable_of_normal {req : Req} {s : StreamingRpc Req Rep}
    (h : (normalMachine Rep req).Reachable s) : (machine Rep req).Reachable s :=
  Machine.Reachable.of_guard h

/-- The replies, from the handler's stream to the caller's. -/
def replyLink (s : StreamingRpc Req Rep) : FifoLink Rep where
  pushed := s.server.replies.pushed
  ended := s.server.replies.terminal.isSome
  delivered := s.client.session.obj.replyStreamPromise.values
  completed := !s.client.session.obj.replyStreamPromise.ends.isEmpty

omit [Serializer Req] [Serializer Rep] in
theorem replyLink_eq (s : StreamingRpc Req Rep) :
    s.replyLink = streamLink s.server.replies s.client.session.obj.replyStreamPromise := rfl

/-- Only the end of the reply stream and a throw can fail the call. -/
theorem not_failed {req : Req} {s : StreamingRpc Req Rep} (h : (normalMachine Rep req).Reachable s) :
    s.server.replies.terminal.any StreamEnd.isFailed = false ∧ s.server.threw = none := by
  refine Machine.Reachable.guard_invariant (P := fun s : StreamingRpc Req Rep =>
    s.server.replies.terminal.any StreamEnd.isFailed = false ∧ s.server.threw = none)
    ⟨rfl, rfl⟩ ?_ h
  intro s s' e _ hstep hnormal ih
  have hkept : ∀ {se}, ServerMove s s' se → (∀ t, se ≠ .finish t) → (∀ ex, se ≠ .throws ex) →
      s'.server.replies.terminal.any StreamEnd.isFailed = false ∧ s'.server.threw = none := by
    intro se hmove hnoend hnothrow
    rw [StreamingServer.threw_step hmove.step hnothrow]
    rcases StreamingServer.source_step hmove.step with ⟨-, hterm, -⟩ | ⟨rep, -, -, hsrc⟩ |
      ⟨t, he, -⟩
    · rw [hterm]
      exact ih
    · rw [hsrc]
      exact ih
    · exact absurd he (hnoend t)
  cases e with
  | perform =>
      obtain ⟨payload, -, hmove⟩ := serverMove_of_perform hstep
      exact hkept hmove (fun _ he => by cases he) (fun _ he => by cases he)
  | attach =>
      exact hkept (serverMove_of_step hstep) (fun _ he => by cases he) (fun _ he => by cases he)
  | handlerThrows ex => cases hnormal
  | handlerPush rep =>
      exact hkept (serverMove_of_step hstep) (fun _ he => by cases he) (fun _ he => by cases he)
  | handlerEnd t =>
      have hmove := serverMove_of_step hstep
      rw [StreamingServer.threw_step hmove.step (fun _ he => by cases he)]
      refine ⟨?_, ih.2⟩
      rcases StreamingServer.source_step hmove.step with ⟨-, -, -, hne⟩ | ⟨rep, he, -⟩ |
        ⟨t', ⟨rfl⟩, -, hsrc⟩
      · exact absurd rfl (hne t)
      · cases he
      · rw [hsrc]
        cases t with
        | complete => rfl
        | failed ex => cases hnormal
  | clientDone i err =>
      obtain ⟨r, hmove⟩ := clientMove_of_done hstep
      rw [hmove.server]
      exact ih
  | serverDone i =>
      obtain ⟨r, hmove⟩ := serverMove_of_done hstep
      exact hkept hmove (fun _ he => by cases he) (fun _ he => by cases he)

theorem startsFail_of_normal {req : Req} {s : StreamingRpc Req Rep}
    (h : (normalMachine Rep req).Reachable s) : s.server.handler.obj.call.starts isFail = 0 := by
  obtain ⟨hterm, hthrew⟩ := not_failed h
  rw [(server_inv (reachable_of_normal h)).failed, hterm, hthrew]
  simp

omit [Serializer Req] in
theorem Wire.carries {s : StreamingRpc Req Rep} (h : s.Wire) (hinv : s.server.Inv)
    (hatt : s.server.replies.attached = true) :
    Carries serialize deserialize s.server.replies.pushed s.server.handler.obj.call.sent
      s.server.handler.obj.pendingOps s.client.session.obj.replyStreamPromise.values := by
  refine ⟨?_, h.replies.values_sent⟩
  have hhistory := hinv.feeds.history
  rw [hatt] at hhistory
  exact hhistory

/-- Once the client has read the server's end, it has every reply. -/
def Drained (s : StreamingRpc Req Rep) : Prop :=
  s.client.session.obj.finishing = true →
    s.server.replies.terminal.isSome = true ∧
      s.client.session.obj.replyStreamPromise.values = s.server.replies.pushed

/-- A null read after a normal end: nothing is queued and nothing is undelivered. -/
theorem drained_of_null {req : Req} {s : StreamingRpc Req Rep}
    (h : (normalMachine Rep req).Reachable s) (hlive : s.client.session.deleted = false)
    (hread : s.serverPeer.read = some none) :
    s.server.replies.terminal.isSome = true ∧
      s.client.session.obj.replyStreamPromise.values = s.server.replies.pushed := by
  have hreach := reachable_of_normal h
  have hinv := server_inv hreach
  have hwire := wire_of_reachable hreach
  have hreplies := hwire.replies
  rw [hlive] at hreplies
  obtain ⟨hclosed, hnone⟩ := hreplies.all hread
  -- The server has sent a status, and not because of a failure: it was the end of the stream.
  have hend : s.server.handler.obj.call.starts isSendEnd ≠ 0 := by
    intro hzero
    simp [serverPeer, Peer.ofServer, StreamingServer.statuses_eq, startsFail_of_normal h,
      hzero] at hclosed
  obtain ⟨hatt, hterm, -⟩ := hinv.feeds.closed hend
  refine ⟨by rw [hterm]; rfl, ?_⟩
  exact (hwire.carries hinv hatt).all Serializer.deserialize_serialize
    (hinv.feeds.outbox.closed_queue hend) hnone

theorem drained_of_normal {req : Req} {s : StreamingRpc Req Rep}
    (h : (normalMachine Rep req).Reachable s) : s.Drained := by
  induction h with
  | init => intro hfin; cases hfin
  | @step s s' e hs hnext ih =>
      obtain ⟨-, hstep⟩ := Machine.guard_step.1 hnext
      have hreach := reachable_of_normal hs
      rcases step_moves hstep with ⟨i, r, hmove⟩ | ⟨se, hmove⟩
      · obtain ⟨hlive, hclient, hread, -⟩ := client_handled (client_inv hreach) hmove
        intro hfin'
        rw [hmove.server]
        cases hfin : s.client.session.obj.finishing with
        | true =>
            rw [hclient, StreamingCallSession.handled_status hfin]
            simp only [StreamingCallSession.afterStatus, StreamPromise.values_finish]
            exact ih hfin
        | false =>
            cases hmsg : r.message with
            | some data =>
                rw [hclient, StreamingCallSession.handled_reply hfin hmsg] at hfin'
                have hno : s.client.session.obj.finishing = true := hfin'
                rw [hfin] at hno
                cases hno
            | none =>
                rw [hclient, StreamingCallSession.handled_end hfin hmsg]
                have hwire := hread hfin
                rw [hmsg] at hwire
                exact drained_of_null hs hlive hwire
      · intro hfin
        rw [hmove.client] at hfin ⊢
        obtain ⟨hended, hall⟩ := ih hfin
        rcases StreamingServer.source_step hmove.step with ⟨hpushed, hterm, -⟩ | ⟨-, -, hopen, -⟩ |
          ⟨-, -, hopen, -⟩
        · rw [hpushed, hterm]
          exact ⟨hended, hall⟩
        · rw [hopen] at hended
          cases hended
        · rw [hopen] at hended
          cases hended

/-- What a step of the composed machine is for the replies. -/
def replyEvents (s : StreamingRpc Req Rep) : Event Rep → List (FifoLink.Event Rep)
  | .handlerPush rep => [.push rep]
  | .handlerEnd _ => [.finish]
  | .clientDone _ _ =>
      if s.client.session.obj.finishing then [.complete]
      else match s.serverPeer.read with
        | some (some _) => [.deliver]
        | _ => []
  | _ => []

/-- A reply, the server's end or the final status reaches the client. -/
theorem reply_client {req : Req} {s s' : StreamingRpc Req Rep} {i : ℕ} {r : Received}
    {err : Option CString} (h : (normalMachine Rep req).Reachable s) (hmove : ClientMove s s' i r) :
    (FifoLink.machine Rep).run s.replyLink (replyEvents s (.clientDone i err))
      = some s'.replyLink := by
  have hreach := reachable_of_normal h
  have hwire := wire_of_reachable hreach
  obtain ⟨hlive, hclient, hread, -⟩ := client_handled (client_inv hreach) hmove
  have hstorage := hwire.storage hlive
  rw [replyLink_eq, replyLink_eq, hmove.server]
  cases hfin : s.client.session.obj.finishing with
  | true =>
      obtain ⟨hended, hall⟩ := drained_of_normal h hfin
      have hevents : replyEvents s (.clientDone i err) = [.complete] := by simp [replyEvents, hfin]
      rw [hevents, hclient, StreamingCallSession.handled_status hfin]
      exact streamLink_complete hwire.rep hstorage hended hall _
  | false =>
      have hnow := hread hfin
      cases hmsg : r.message with
      | some data =>
          rw [hmsg] at hnow
          have hevents : replyEvents s (.clientDone i err) = [.deliver] := by
            simp [replyEvents, hfin, hnow]
          have hinv := server_inv hreach
          have hatt := hinv.feeds.attached_of_sent (Peer.read_message hnow)
          rw [hevents, hclient, StreamingCallSession.handled_reply hfin hmsg]
          exact streamLink_deliver hwire.rep hstorage hwire.replies hlive (hwire.carries hinv hatt)
            hnow
      | none =>
          -- The server's end is not yet the end of the stream: that comes with the status.
          rw [hmsg] at hnow
          have hevents : replyEvents s (.clientDone i err) = [] := by
            simp [replyEvents, hfin, hnow]
          rw [hevents, hclient, StreamingCallSession.handled_end hfin hmsg]
          rfl

theorem reply_step {req : Req} {s s' : StreamingRpc Req Rep} {e : Event Rep}
    (h : (normalMachine Rep req).Reachable s)
    (hstep : (normalMachine Rep req).step s e = some s') :
    (FifoLink.machine Rep).run s.replyLink (replyEvents s e) = some s'.replyLink := by
  obtain ⟨-, hstep⟩ := Machine.guard_step.1 hstep
  have hquiet : ∀ {se}, ServerMove s s' se → (∀ rep, se ≠ .push rep) → (∀ t, se ≠ .finish t) →
      (FifoLink.machine Rep).run s.replyLink [] = some s'.replyLink := by
    intro se hmove hnopush hnoend
    rcases StreamingServer.source_step hmove.step with ⟨hpushed, hterm, -⟩ | ⟨rep, he, -⟩ |
      ⟨t, he, -⟩
    · rw [replyLink_eq, replyLink_eq, hmove.client, streamLink_congr _ hpushed hterm]
      rfl
    · exact absurd he (hnopush rep)
    · exact absurd he (hnoend t)
  cases e with
  | perform =>
      obtain ⟨payload, -, hmove⟩ := serverMove_of_perform hstep
      exact hquiet hmove (fun _ he => by cases he) (fun _ he => by cases he)
  | attach =>
      exact hquiet (serverMove_of_step hstep) (fun _ he => by cases he) (fun _ he => by cases he)
  | handlerThrows ex =>
      exact hquiet (serverMove_of_step hstep) (fun _ he => by cases he) (fun _ he => by cases he)
  | handlerPush rep =>
      have hmove := serverMove_of_step hstep
      rcases StreamingServer.source_step hmove.step with ⟨-, -, hne, -⟩ | ⟨rep', ⟨rfl⟩, hopen, hsrc⟩ |
        ⟨t, he, -⟩
      · exact absurd rfl (hne rep)
      · rw [replyLink_eq, replyLink_eq, hmove.client]
        exact streamLink_push (Source.push_eq_some.2 ⟨hopen, hsrc⟩) _
      · cases he
  | handlerEnd t =>
      have hmove := serverMove_of_step hstep
      rcases StreamingServer.source_step hmove.step with ⟨-, -, -, hne⟩ | ⟨rep, he, -⟩ |
        ⟨t', ⟨rfl⟩, hopen, hsrc⟩
      · exact absurd rfl (hne t)
      · cases he
      · rw [replyLink_eq, replyLink_eq, hmove.client]
        exact streamLink_finish (Source.finish_eq_some.2 ⟨hopen, hsrc⟩) _
  | clientDone i err =>
      obtain ⟨r, hmove⟩ := clientMove_of_done hstep
      exact reply_client h hmove
  | serverDone i =>
      obtain ⟨r, hmove⟩ := serverMove_of_done hstep
      exact hquiet hmove (fun _ he => by cases he) (fun _ he => by cases he)

/-- **The replies of a server-streaming RPC whose handler does not fail are a FIFO link.** -/
def replySimulation (req : Req) :
    Simulation (normalMachine Rep req) (FifoLink.machine Rep) where
  abs := replyLink
  inv := (normalMachine Rep req).Reachable
  events := replyEvents
  inv_of_reachable := id
  abs_init := rfl
  abs_step := reply_step

/-! ## The guarantees of a server-streaming RPC -/

/-- What a caller and a handler can rely on. -/
structure DeliversInOrder (req : Req) (s : StreamingRpc Req Rep) : Prop where
  /-- The handler is called with the request the caller gave. -/
  request_eq : ∀ q, s.server.req = some q → q = req
  /-- What arrived is an initial part of what was pushed. -/
  replies_prefix : s.client.session.obj.replyStreamPromise.values <+: s.server.replies.pushed
  /-- The status is sent once, after the end of the stream and after the last reply. -/
  status_once : s.server.handler.obj.call.statuses.length ≤ 1
  status_last : s.server.handler.obj.call.statuses ≠ [] →
    s.server.replies.terminal = some .complete ∧
      s.server.handler.obj.call.sent = s.server.replies.pushed.map serialize
  /-- The server does not stall: once it is attached to the stream, with no batch outstanding and
      the stream completed, the status was sent. -/
  status_sent : s.server.replies.attached = true → s.server.replies.terminal = some .complete →
    s.server.handler.obj.call.quiet = true → s.server.handler.obj.call.statuses ≠ []
  /-- Once nothing is outstanding, the caller has every reply and then the end. -/
  quiet_complete : s.client.session.obj.call.quiet = true →
    s.server.handler.obj.call.quiet = true → s.server.replies.terminal = some .complete →
    s.client.session.obj.replyStreamPromise.log
      = s.server.replies.pushed.map .push ++ [.finish .complete]

/-- The one message of the client is the request. -/
theorem request_of_reachable {req : Req} {s : StreamingRpc Req Rep}
    (h : (machine Rep req).Reachable s) : ∀ q, s.server.req = some q → q = req := by
  induction h with
  | init => intro q hq; cases hq
  | @step s s' e hs hnext ih =>
      have hkept : ∀ {se}, ServerMove s s' se → (∀ payload, se ≠ .perform payload) →
          ∀ q, s'.server.req = some q → q = req := by
        intro se hmove hne
        rw [StreamingServer.req_step hmove.step hne]
        exact ih
      cases e with
      | perform =>
          obtain ⟨payload, hread, hmove⟩ := serverMove_of_perform hnext
          have hpayload : s.client.session.obj.call.sent[s.toServer]? = some payload :=
            Peer.read_message hread
          rw [(client_inv hs).sent] at hpayload
          intro q hq
          rw [StreamingServer.req_perform hmove.step] at hq
          obtain rfl := Option.some.inj hq
          rw [List.mem_singleton.1 (List.mem_of_getElem? hpayload)]
          exact Serializer.deserialize_serialize req
      | attach => exact hkept (serverMove_of_step hnext) (fun _ he => by cases he)
      | handlerThrows ex => exact hkept (serverMove_of_step hnext) (fun _ he => by cases he)
      | handlerPush rep => exact hkept (serverMove_of_step hnext) (fun _ he => by cases he)
      | handlerEnd t => exact hkept (serverMove_of_step hnext) (fun _ he => by cases he)
      | clientDone i err =>
          obtain ⟨r, hmove⟩ := clientMove_of_done hnext
          rw [hmove.server]
          exact ih
      | serverDone i =>
          obtain ⟨r, hmove⟩ := serverMove_of_done hnext
          exact hkept hmove (fun _ he => by cases he)

/-- **A server-streaming RPC delivers in order, without loss or duplication, and then the end**, in
    every reachable state of every interleaving of pushes, the normal end and completions. -/
theorem server_streaming_delivers_in_order {req : Req} {s : StreamingRpc Req Rep}
    (h : (normalMachine Rep req).Reachable s) : s.DeliversInOrder req := by
  have hreach := reachable_of_normal h
  have hclient := client_inv hreach
  have hserver := server_inv hreach
  have hwire := wire_of_reachable hreach
  have hreplies := FifoLink.inv_of_reachable ((replySimulation req).reachable h)
  have hstatuses := StreamingServer.statuses_eq s.server.handler.obj.call
  rw [startsFail_of_normal h, Nat.add_zero] at hstatuses
  refine
    { request_eq := request_of_reachable hreach
      replies_prefix := hreplies.delivered_prefix
      status_once := ?_
      status_last := ?_
      status_sent := ?_
      quiet_complete := ?_ }
  · rw [hstatuses, List.length_replicate]
    exact hserver.feeds.outbox.closes_le
  · intro hne
    have hend : s.server.handler.obj.call.starts isSendEnd ≠ 0 := by
      intro hzero
      rw [hzero] at hstatuses
      exact hne hstatuses
    obtain ⟨-, hterm, hsent⟩ := hserver.feeds.closed hend
    exact ⟨hterm, hsent⟩
  · intro hatt hterm hquiet
    have hends : s.server.handler.obj.call.starts isSendEnd ≠ 0 := by
      cases hdel : s.server.handler.deleted with
      | true =>
          have hended := hserver.counts.deleted_end (by simp [hdel])
          rwa [startsFail_of_normal h, Nat.add_zero] at hended
      | false =>
          refine hserver.settled ?_ ?_
          · rw [hserver.feeds.ended, hatt, hterm]
            rfl
          · have hgate := hserver.counts.gate_live (by simp [hdel])
            simp only [Call.pending, List.isEmpty_iff.1 hquiet, List.countP_nil] at hgate
            exact Bool.toNat_eq_zero.1 hgate.symm
    intro hnone
    rw [hnone] at hstatuses
    exact hends ((List.replicate_eq_nil_iff _).1 hstatuses.symm)
  · intro hquiet _ _
    -- A live session always has a batch outstanding.
    have hdel : s.client.session.deleted = true := by
      by_contra hlive
      obtain ⟨b, hout, -⟩ := hclient.one (by simpa using hlive)
      simp [Call.quiet, hout] at hquiet
    obtain ⟨-, hall⟩ := drained_of_normal h (hclient.none hdel).2
    have hends := hwire.rep_ends
    rw [hdel, if_pos rfl] at hends
    rw [hwire.rep.log_eq, hall, hends]
    rfl

/-- A whole call: two replies pushed before the handler returns its stream and one after it, then
    the end. -/
theorem server_streaming_delivers_whole_call :
    ∃ s : StreamingRpc Buffer Buffer, (normalMachine Buffer [9]).Reachable s ∧
      s.server.req = some [9] ∧ s.client.session.obj.call.quiet = true ∧
      s.server.handler.obj.call.quiet = true ∧
      s.client.session.obj.replyStreamPromise.log
        = [.push [1], .push [2], .push [3], .finish .complete] ∧ s.DeliversInOrder [9] :=
  have hrun : (normalMachine Buffer ([9] : Buffer)).Reachable _ :=
    Machine.reachable_of_run
      [.perform, .handlerPush [1], .handlerPush [2], .attach, .serverDone 0, .clientDone 0 none,
        .serverDone 0, .serverDone 0, .handlerPush [3], .handlerEnd .complete, .clientDone 0 none,
        .serverDone 0, .clientDone 0 none, .clientDone 0 none, .clientDone 0 none,
        .serverDone 0] rfl
  ⟨_, hrun, rfl, rfl, rfl, rfl, server_streaming_delivers_in_order hrun⟩

end StreamingRpc

end EasyGrpc
