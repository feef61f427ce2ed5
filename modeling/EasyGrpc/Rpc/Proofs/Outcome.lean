import EasyGrpc.Rpc.Unary
import EasyGrpc.Client.Proofs.SettleOnce
import EasyGrpc.Rpc.Proofs.ClientStreaming

set_option autoImplicit false

/-! # The outcome of a call with a single reply survives the wire

The server turns a reply or an exception into a status and at most one message; the client looks at
the status to tell which it was. The two agree but for an `Rpc_error` that carries
`GRPC_STATUS_OK`. -/

namespace EasyGrpc

variable {Req Rep : Type}

/-! ## The unary handler -/

namespace UnaryServer

open UploadServer UnaryCallHandler

variable [Serializer Req] [Serializer Rep]

omit [Serializer Req] in
theorem sent_finish (h : UnaryCallHandler) (o : Except Exception Rep) :
    (h.finish o).call.sent = h.call.sent ++ answerMessages (some o) := by
  cases o with
  | ok rep => exact Call.sent_startBatch h.call (.response (serialize rep))
  | error e => exact Call.sent_startBatch h.call (.failure _ _)

omit [Serializer Req] in
theorem statuses_finish (h : UnaryCallHandler) (o : Except Exception Rep) :
    (h.finish o).call.statuses = h.call.statuses ++ answerStatuses (some o) := by
  cases o with
  | ok rep => exact Call.statuses_startBatch h.call (.response (serialize rep))
  | error e => exact Call.statuses_startBatch h.call (.failure _ _)

/-- What is on the wire is determined by the outcome. -/
structure Inv (c : UnaryServer Rep) : Prop where
  sent : c.handler.obj.call.sent = answerMessages c.outcome
  statuses : c.handler.obj.call.statuses = answerStatuses c.outcome
  unperformed : c.performed = false → c.outcome = none
  idle : c.outcome = none → c.handler.deleted = false ∧ c.handler.obj.call.outstanding = []

theorem inv_init (method : UnaryMethod Req Rep) : (machine method).init.Inv :=
  ⟨rfl, rfl, fun _ => rfl, fun _ => ⟨rfl, rfl⟩⟩

omit [Serializer Req] in
/-- The outcome becomes known and is answered. -/
theorem Inv.answered {c : UnaryServer Rep} (h : c.Inv) (hnone : c.outcome = none)
    (o : Except Exception Rep) :
    Inv { performed := true, outcome := some o, handler := c.handler.update (·.finish o) } := by
  have hlive := (h.idle hnone).1
  refine ⟨?_, ?_, nofun, nofun⟩
  · rw [Live.update_of_live hlive]
    show (c.handler.obj.finish o).call.sent = _
    rw [sent_finish, h.sent, hnone]
    rfl
  · rw [Live.update_of_live hlive]
    show (c.handler.obj.finish o).call.statuses = _
    rw [statuses_finish, h.statuses, hnone]
    rfl

/-- **What a step can do** to the outcome: it becomes known once, and is then kept. -/
theorem inv_step {method : UnaryMethod Req Rep} {c c' : UnaryServer Rep} {e : Event Rep} (h : c.Inv)
    (hstep : c.step method e = some c') :
    c'.Inv ∧ ∀ o, c.outcome = some o → c'.outcome = some o := by
  cases e with
  | perform payload =>
      simp only [step] at hstep
      split at hstep
      · cases hstep
      · next hnot =>
          obtain rfl := Option.some.inj hstep
          have hnone := h.unperformed (by simpa using hnot)
          refine ⟨?_, by rw [hnone]; nofun⟩
          cases hinv : method.invoke (deserialize payload) with
          | none =>
              simp only [UnaryCallHandler.perform, hinv]
              have hsame : c.handler.update (fun h => h) = c.handler := by
                unfold Live.update
                split <;> rfl
              rw [hsame]
              refine ⟨?_, ?_, nofun, fun _ => h.idle hnone⟩
              · rw [h.sent, hnone]
              · rw [h.statuses, hnone]
          | some o =>
              simp only [UnaryCallHandler.perform, hinv]
              exact h.answered hnone o
  | reply o =>
      simp only [step] at hstep
      split at hstep
      · next hready =>
          obtain rfl := Option.some.inj hstep
          obtain ⟨hperf, hnone⟩ := (Bool.and_eq_true _ _).mp hready
          have hnone' : c.outcome = none := by simpa using hnone
          refine ⟨?_, by rw [hnone']; nofun⟩
          have hanswered := h.answered hnone' o
          rwa [← hperf] at hanswered
      · cases hstep
  | complete i r =>
      obtain ⟨handler, hwork, rfl⟩ := Option.map_eq_some_iff.1 hstep
      obtain ⟨b, hb, hcase⟩ := Live.workerMain_eq_some hwork
      have hsome : c.outcome ≠ none := by
        intro hnone
        have hb' : c.handler.obj.call.outstanding[i]? = some b := hb
        rw [(h.idle hnone).2] at hb'
        cases hb'
      refine ⟨?_, fun o ho => ho⟩
      rcases hcase with ⟨-, rfl⟩ | ⟨-, rfl⟩
      · exact ⟨h.sent, h.statuses, h.unperformed, fun hnone => absurd hnone hsome⟩
      · exact ⟨h.sent, h.statuses, h.unperformed, fun hnone => absurd hnone hsome⟩

end UnaryServer

/-! ## The unary RPC -/

namespace UnaryRpc

open UnaryClient

variable [Serializer Req] [Serializer Rep]

/-- The client waits, or has the answer of the server. -/
structure Wire (req : Req) (s : UnaryRpc Rep) : Prop where
  server : s.server.Inv
  client : (s.client = waiting Rep req ∧ s.toClient = 0) ∨
    ∃ r o, s.client = resolved Rep req r ∧ s.server.outcome = some o ∧
      UploadClient.resolution Rep r = UploadRpc.resolutionOf o

theorem wire_server {method : UnaryMethod Req Rep} {req : Req} {s s' : UnaryRpc Rep}
    {e : UnaryServer.Event Rep} (h : s.Wire req) (hstep : s.stepServer method e = some s') :
    s'.Wire req := by
  obtain ⟨server, hserver, rfl⟩ := Option.map_eq_some_iff.1 hstep
  obtain ⟨hinv, hkept⟩ := UnaryServer.inv_step h.server hserver
  refine ⟨hinv, ?_⟩
  rcases h.client with hwait | ⟨r, o, hclient, ho, hres⟩
  · exact Or.inl hwait
  · exact Or.inr ⟨r, o, hclient, hkept o ho, hres⟩

theorem wire_step {method : UnaryMethod Req Rep} {req : Req} {s s' : UnaryRpc Rep} {e : Event Rep}
    (h : s.Wire req) (hstep : s.step method e = some s') : s'.Wire req := by
  cases e with
  | accept =>
      obtain ⟨payload, -, hstep⟩ := Option.bind_eq_some_iff.1 hstep
      exact wire_server h hstep
  | handlerReply o => exact wire_server h hstep
  | serverDone i r => exact wire_server h hstep
  | clientDone i err =>
      obtain ⟨b, hb, hstep⟩ := Option.bind_eq_some_iff.1 hstep
      obtain ⟨r, hr, hstep⟩ := Option.bind_eq_some_iff.1 hstep
      obtain ⟨client, hwork, rfl⟩ := Option.map_eq_some_iff.1 hstep
      refine ⟨h.server, ?_⟩
      rcases h.client with ⟨hwait, hpos⟩ | ⟨q, o, hclient, -, -⟩
      · rw [hwait] at hwork
        obtain ⟨-, rfl⟩ := complete_cases hwork
        rw [serverPeer, hpos] at hr
        have hops : (BatchSpec.ops b).any Op.isRecvMessage = true ∧
            (BatchSpec.ops b).any Op.isRecvStatus = true := by
          cases b
          exact ⟨rfl, rfl⟩
        obtain ⟨o, ho, hres⟩ := UploadRpc.resolution_of_received h.server.sent h.server.statuses
          hops hr
        exact Or.inr ⟨r, o, rfl, ho, hres⟩
      · rw [hclient] at hwork
        cases (workerMain_resolved req q r i).symm.trans hwork

theorem wire_of_reachable {method : UnaryMethod Req Rep} {req : Req} {s : UnaryRpc Rep}
    (h : (machine method req).Reachable s) : s.Wire req :=
  h.invariant (P := fun s : UnaryRpc Rep => s.Wire req)
    ⟨UnaryServer.inv_init method, Or.inl ⟨rfl, rfl⟩⟩ (fun hstep hs => wire_step hs hstep)

end UnaryRpc

/-! ## An answered call can be completed -/

section Progress

variable [Serializer Req] [Serializer Rep]

omit [Serializer Req] in
/-- Once the answer is on the wire, a batch that waits for the reply and the status can complete,
    and so can every other one. -/
theorem receive_of_answer {κ : Type} [BatchSpec κ] {call : Call κ} {o : Except Exception Rep}
    (hsent : call.sent = UploadServer.answerMessages (some o))
    (hstatuses : call.statuses = UploadServer.answerStatuses (some o)) (ops : List Op) :
    ∃ r, (Peer.ofServer call 0).receive ops none = some r := by
  have hread : ∃ m, (Peer.ofServer call 0).read = some m := by
    cases o with
    | ok rep => exact ⟨some (serialize rep), by simp [Peer.read, Peer.ofServer, hsent,
        UploadServer.answerMessages]⟩
    | error e => exact ⟨none, by simp [Peer.read, Peer.ofServer, hsent, hstatuses,
        UploadServer.answerMessages, UploadServer.answerStatuses]⟩
  have hstatus : ∃ status, (Peer.ofServer call 0).status = some status := by
    cases o with
    | ok rep => exact ⟨(.ok, ""), by simp [Peer.ofServer, hstatuses, UploadServer.answerStatuses]⟩
    | error e => exact ⟨getErrorDetails e, by simp [Peer.ofServer, hstatuses,
        UploadServer.answerStatuses]⟩
  obtain ⟨m, hm⟩ := hread
  obtain ⟨status, hstatus⟩ := hstatus
  unfold Peer.receive
  rw [hm, hstatus]
  by_cases hmsg : ops.any Op.isRecvMessage <;> by_cases hst : ops.any Op.isRecvStatus <;>
    simp [hmsg, hst]

/-- The handler has come to an outcome and the caller has no reply: the reply can be delivered. -/
theorem UnaryRpc.Wire.can_complete (method : UnaryMethod Req Rep) {req : Req} {s : UnaryRpc Rep}
    (h : s.Wire req) {o : Except Exception Rep} (ho : s.server.outcome = some o)
    (hrep : s.client.obj.rep = []) : (s.step method (.clientDone 0 none)).isSome = true := by
  rcases h.client with ⟨hwait, hpos⟩ | ⟨r, o', hclient, -, -⟩
  · have hsent := h.server.sent
    have hstatuses := h.server.statuses
    rw [ho] at hsent hstatuses
    have hb : s.client.obj.call.outstanding[0]? = some (.call (serialize req)) := by
      rw [hwait]
      rfl
    obtain ⟨r, hr⟩ := receive_of_answer hsent hstatuses
      (BatchSpec.ops (UnaryClientBatch.call (serialize req)))
    have hwork := Live.isSome_workerMain (o := s.client) hb (r := r) rfl
    rw [← hpos] at hr
    simpa only [UnaryRpc.step, hb, Option.bind_some, UnaryRpc.serverPeer, hr,
      Option.isSome_map] using hwork
  · rw [hclient] at hrep
    cases hrep

namespace UploadRpc

/-- A step of the two sides and of gRPC core, as opposed to the caller's and the user's
    handler's. -/
def Event.isInternal : Event Req Rep → Bool
  | .callerPush _ | .callerEnd _ | .handlerReply _ => false
  | _ => true

/-- The caller has ended its requests, the handler has replied and the caller has no reply: a step
    can be taken. -/
theorem can_complete {s : UploadRpc Req Rep} (h : (machine Req Rep).Reachable s)
    {o : Except Exception Rep} (ho : s.server.reply = some o)
    (hended : s.client.requests.terminal.isSome = true) (hrep : s.client.session.obj.rep = []) :
    ∃ e : Event Req Rep, e.isInternal = true ∧ (s.step e).isSome = true := by
  by_cases hreading : s.server.reading = true
  · by_cases hattached : s.server.attached = true
    · -- The answer is out, so whichever batch of the client is outstanding can complete.
      have hserver := server_inv h
      have hlive : s.client.session.deleted = false := by
        by_contra hdel
        have hone := ((client_inv h).counts.last_deleted (by simpa using hdel)).2.2
        rw [hrep] at hone
        cases hone
      cases hout : s.client.session.obj.call.outstanding with
      | nil =>
          have hquiet : s.client.session.obj.call.quiet = true := by simp [Call.quiet, hout]
          rw [resolved_of_quiet h hquiet hended ho] at hrep
          cases hrep
      | cons b rest =>
          have hb : s.client.session.obj.call.outstanding[0]? = some b := by rw [hout]; rfl
          have hanswer : s.server.answer = some o := by simp [UploadServer.answer, hattached, ho]
          have hsent := hserver.sent
          have hstatuses := hserver.statuses
          rw [hanswer] at hsent hstatuses
          obtain ⟨r, hr⟩ := receive_of_answer hsent hstatuses (BatchSpec.ops b)
          have hwork := Live.isSome_workerMain (o := s.client.session) hb (r := r) rfl
          rw [← (wire_of_reachable h).unread hlive] at hr
          refine ⟨.clientDone 0 none, rfl, ?_⟩
          simpa only [step, hb, Option.bind_some, serverPeer, hr, UploadClient.step,
            Option.isSome_map] using hwork
    · refine ⟨.attach, rfl, ?_⟩
      simp [step, stepServer, UploadServer.step, hreading, hattached]
  · refine ⟨.startReading, rfl, ?_⟩
    simp [step, stepServer, UploadServer.step, hreading]

end UploadRpc

end Progress

/-! ## What the caller gets -/

variable [Serializer Req] [Serializer Rep]

/-- What the caller is to get for an outcome: the value, the same `Rpc_error`, or one with the text
    of another exception. -/
def expectedReply : Except Exception Rep → Resolution Rep
  | .ok rep => .value rep
  | .error (.rpcError e) => .error (.rpcError e)
  | .error (.stdException what) => .error (.rpcError ⟨.unknown, what⟩)
  | .error .other => .error (.rpcError ⟨.unknown, .ofText ""⟩)

/-- The outcome is an `Rpc_error` with the code `GRPC_STATUS_OK`. -/
def isOkError : Except Exception Rep → Bool
  | .error (.rpcError e) => e.code = .ok
  | _ => false

omit [Serializer Rep] in
theorem resolutionOf_eq {o : Except Exception Rep} (h : isOkError o = false) :
    UploadRpc.resolutionOf o = expectedReply o := by
  cases o with
  | ok rep => rfl
  | error e =>
      cases e with
      | rpcError e =>
          have hcode : e.code ≠ .ok := by simpa [isOkError] using h
          simp [UploadRpc.resolutionOf, expectedReply, getErrorDetails, hcode]
      | stdException what => simp [UploadRpc.resolutionOf, expectedReply, getErrorDetails]
      | other => rfl

omit [Serializer Rep] in
theorem eq_of_isOkError {o : Except Exception Rep} (h : isOkError o = true) :
    ∃ what, o = .error (.rpcError ⟨.ok, what⟩) := by
  cases o with
  | ok rep => cases h
  | error e =>
      cases e with
      | rpcError e =>
          obtain ⟨code, what⟩ := e
          obtain rfl : code = .ok := by simpa [isOkError] using h
          exact ⟨what, rfl⟩
      | stdException what => cases h
      | other => cases h

/-- The caller's future is resolved at most once, with the outcome, and is resolved where the call
    is over. -/
structure Survives (o : Except Exception Rep) (rep : List (Resolution Rep)) (ended : Prop) :
    Prop where
  at_most_once : rep = [] ∨ rep = [expectedReply o]
  once : ended → rep = [expectedReply o]

/-- The outcome `o` survives every unary call with the request `req`, whatever the method,
    synchronous or not, that comes to it. -/
def SurvivesUnary (req : Req) (o : Except Exception Rep) : Prop :=
  ∀ (method : UnaryMethod Req Rep) (s : UnaryRpc Rep), (UnaryRpc.machine method req).Reachable s →
    s.server.outcome = some o →
    Survives o s.client.obj.rep (∀ e, (UnaryRpc.machine method req).step s e = none)

/-- The outcome `o` survives every client-streaming call whose caller ends its requests. -/
def SurvivesUpload (Req : Type) [Serializer Req] (o : Except Exception Rep) : Prop :=
  ∀ s : UploadRpc Req Rep, (UploadRpc.machine Req Rep).Reachable s → s.server.reply = some o →
    Survives o s.client.session.obj.rep
      (s.client.requests.terminal.isSome = true ∧
        ∀ e, UploadRpc.Event.isInternal e = true → (UploadRpc.machine Req Rep).step s e = none)

/-- What was resolved is the answer on the wire. -/
theorem UnaryRpc.Wire.rep_cases {req : Req} {s : UnaryRpc Rep} (h : s.Wire req)
    {o : Except Exception Rep} (ho : s.server.outcome = some o) :
    s.client.obj.rep = [] ∨ s.client.obj.rep = [UploadRpc.resolutionOf o] := by
  rcases h.client with ⟨hwait, -⟩ | ⟨r, o', hclient, ho', hres⟩
  · rw [hwait]
    exact Or.inl rfl
  · obtain rfl := Option.some.inj (ho.symm.trans ho')
    rw [hclient, ← hres]
    exact Or.inr rfl

theorem UploadRpc.rep_cases {s : UploadRpc Req Rep} (h : (UploadRpc.machine Req Rep).Reachable s)
    {o : Except Exception Rep} (ho : s.server.reply = some o) :
    s.client.session.obj.rep = [] ∨ s.client.session.obj.rep = [UploadRpc.resolutionOf o] := by
  cases hdel : s.client.session.deleted with
  | false => exact Or.inl ((UploadRpc.client_inv h).counts.last_live hdel).2
  | true =>
      obtain ⟨o', hanswer, hrep⟩ := (UploadRpc.wire_of_reachable h).resolved hdel
      have hreply : s.server.reply = some o' := by
        unfold UploadServer.answer at hanswer
        split at hanswer
        · exact hanswer
        · cases hanswer
      rw [hrep, Option.some.inj (ho.symm.trans hreply)]
      exact Or.inr rfl

theorem survivesUnary_iff (req : Req) (o : Except Exception Rep) :
    SurvivesUnary req o ↔ isOkError o = false := by
  constructor
  · intro hsurvives
    by_contra hok
    obtain ⟨what, rfl⟩ := eq_of_isOkError (by simpa using hok)
    let method : UnaryMethod Req Rep := .sync (fun _ => .error (.rpcError ⟨.ok, what⟩))
    have hrun : (UnaryRpc.machine method req).Reachable _ :=
      Machine.reachable_of_run [.accept, .clientDone 0 none] rfl
    rcases (hsurvives _ _ hrun rfl).at_most_once with hnone | hone
    · cases hnone
    · cases hone
  · intro hok method s hs ho
    have hwire := UnaryRpc.wire_of_reachable hs
    have hcases := hwire.rep_cases ho
    rw [resolutionOf_eq hok] at hcases
    refine ⟨hcases, ?_⟩
    intro hover
    rcases hcases with hnone | hone
    · have hcan := hwire.can_complete method ho hnone
      have hstuck : s.step method (.clientDone 0 none) = none := hover (.clientDone 0 none)
      rw [hstuck] at hcan
      cases hcan
    · exact hone

theorem survivesUpload_iff (o : Except Exception Rep) :
    SurvivesUpload Req o ↔ isOkError o = false := by
  constructor
  · intro hsurvives
    by_contra hok
    obtain ⟨what, rfl⟩ := eq_of_isOkError (by simpa using hok)
    have hrun : (UploadRpc.machine Req Rep).Reachable _ :=
      Machine.reachable_of_run
        [.startReading, .attach, .handlerReply (.error (.rpcError ⟨.ok, what⟩)),
          .callerEnd .complete, .clientDone 0 none, .clientDone 0 none] rfl
    rcases (hsurvives _ hrun rfl).at_most_once with hnone | hone
    · cases hnone
    · cases hone
  · intro hok s hs ho
    have hcases := UploadRpc.rep_cases hs ho
    rw [resolutionOf_eq hok] at hcases
    refine ⟨hcases, ?_⟩
    rintro ⟨hended, hover⟩
    rcases hcases with hnone | hone
    · obtain ⟨e, he, hcan⟩ := UploadRpc.can_complete hs ho hended hnone
      have hstuck : s.step e = none := hover e he
      rw [hstuck] at hcan
      cases hcan
    · exact hone

/-- **Single-reply outcomes survive the wire**, in a unary call and in a client-streaming one,
    exactly if the outcome is not an `Rpc_error` with the code `GRPC_STATUS_OK`. -/
theorem single_reply_survives_iff (req : Req) (o : Except Exception Rep) :
    (SurvivesUnary req o ↔ isOkError o = false) ∧ (SurvivesUpload Req o ↔ isOkError o = false) :=
  ⟨survivesUnary_iff req o, survivesUpload_iff o⟩

/-- A handler that throws `Rpc_error(GRPC_STATUS_OK, "done")` is answered by a status without a
    message, and the client of either kind of call deserializes a null buffer. -/
theorem ok_error_read_as_reply :
    let o : Except Exception Buffer := .error (.rpcError ⟨.ok, .ofText "done"⟩)
    (∃ s, (UnaryRpc.machine (.sync (fun _ : Buffer => o)) [1]).Reachable s ∧
      s.server.outcome = some o ∧ s.client.obj.rep = [.nullBuffer]) ∧
    (∃ s, (UploadRpc.machine Buffer Buffer).Reachable s ∧
      s.server.reply = some o ∧ s.client.session.obj.rep = [.nullBuffer]) ∧
    ¬ SurvivesUnary ([1] : Buffer) o ∧ ¬ SurvivesUpload Buffer o := by
  refine ⟨⟨_, Machine.reachable_of_run [.accept, .clientDone 0 none] rfl, rfl, rfl⟩,
    ⟨_, Machine.reachable_of_run
      [.startReading, .attach, .handlerReply (.error (.rpcError ⟨.ok, .ofText "done"⟩)),
        .callerEnd .complete, .clientDone 0 none, .clientDone 0 none] rfl, rfl, rfl⟩, ?_, ?_⟩
  · rw [survivesUnary_iff]
    decide
  · rw [survivesUpload_iff]
    decide

end EasyGrpc
