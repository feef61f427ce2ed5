import EasyGrpc.Rpc.Proofs.BidirStreaming
import EasyGrpc.Rpc.Proofs.ServerStreaming

set_option autoImplicit false

/-! # What a client sees of a failed reply stream

`get_error_details` says which status an error is to be reported with, and the unary handler uses
it. The `fail` of the two streaming handlers does not look at the error: the status it sends is
`GRPC_STATUS_OK` without details, and the client completes its reply stream. -/

namespace EasyGrpc

variable {Req Rep : Type} [Serializer Req] [Serializer Rep]

/-- The error `e` was reported: its status was sent, and the client's reply stream ended with an
    `Rpc_error` of its code. -/
def FailureReported (e : Exception) (statuses : List (StatusCode × String))
    (ends : List StreamEnd) : Prop :=
  statuses = [getErrorDetails e] ∧
    ∃ what, ends = [.failed (.rpcError ⟨(getErrorDetails e).1, what⟩)]

/-- A failure is on the wire as a success, and the client has seen nothing or a normal end. -/
structure ReportedAsSuccess (statuses : List (StatusCode × String)) (ends : List StreamEnd) :
    Prop where
  status_ok : statuses = [(.ok, "")]
  ends_complete : ends = [] ∨ ends = [.complete]

theorem ReportedAsSuccess.not_reported {statuses : List (StatusCode × String)}
    {ends : List StreamEnd} (h : ReportedAsSuccess statuses ends) (e : Exception) :
    ¬ FailureReported e statuses ends := by
  rintro ⟨-, what, hends⟩
  rcases h.ends_complete with hnone | hcomplete
  · rw [hends] at hnone
    cases hnone
  · rw [hends] at hcomplete
    cases hcomplete

/-! ## Bidirectional calls -/

namespace BidirRpc

/-- The handler has been told that the reply stream ended with `e`. -/
def FailedWith (e : Exception) (s : BidirRpc Req Rep) : Prop :=
  s.server.replies.attached = true ∧ s.server.replies.terminal = some (.failed e)

theorem reportedAsSuccess_of_failed {s : BidirRpc Req Rep} {e : Exception}
    (h : (machine Req Rep).Reachable s) (hfailed : s.FailedWith e) :
    ReportedAsSuccess s.server.handler.obj.call.statuses s.client.session.obj.rep.ends := by
  obtain ⟨hatt, hterm⟩ := hfailed
  have hinv := server_inv h
  have hwire := wire_of_reachable h
  refine ⟨?_, ?_⟩
  · -- A failed stream is not an ended outbox, so the normal end was never sent.
    have hopen : s.server.handler.obj.toOutbox.ended = false := by
      rw [hinv.feeds.ended, hterm]
      simp [StreamEnd.isComplete]
    have hend : s.server.handler.obj.call.starts BidirServerBatch.isServerEnd = 0 :=
      hinv.feeds.outbox.closes_of_open hopen
    have hfail : s.server.handler.obj.call.starts BidirServerBatch.isFail = 1 := by
      rw [hinv.failed, hatt, hterm]
      rfl
    rw [BidirServer.statuses_eq, hend, hfail]
    rfl
  · rw [hwire.rep_ends]
    cases s.client.session.deleted with
    | true => exact Or.inr rfl
    | false => exact Or.inl rfl

/-- Whatever the error, there is a call whose client is told that the stream completed. -/
theorem failed_completes (e : Exception) :
    ∃ s : BidirRpc Req Rep, (machine Req Rep).Reachable s ∧ s.FailedWith e ∧
      s.client.session.obj.rep.log = [.finish .complete] :=
  have hrun : (machine Req Rep).Reachable _ :=
    Machine.reachable_of_run
      [.clientDone 0 none, .callerEnd, .attach, .startHandshake, .handlerEnd (.failed e),
        .clientDone 1 none, .clientDone 0 none, .clientDone 0 none] rfl
  ⟨_, hrun, ⟨rfl, rfl⟩, rfl⟩

end BidirRpc

/-! ## Server-streaming calls -/

namespace StreamingRpc

/-- The reply stream has ended with `e`, or the user's handler has thrown it. -/
def FailedWith (e : Exception) (s : StreamingRpc Req Rep) : Prop :=
  (s.server.replies.attached = true ∧ s.server.replies.terminal = some (.failed e)) ∨
    s.server.threw = some e

theorem reportedAsSuccess_of_failed {req : Req} {s : StreamingRpc Req Rep} {e : Exception}
    (h : (machine Rep req).Reachable s) (hfailed : s.FailedWith e) :
    ReportedAsSuccess s.server.handler.obj.call.statuses
      s.client.session.obj.replyStreamPromise.ends := by
  have hinv := server_inv h
  have hwire := wire_of_reachable h
  refine ⟨?_, ?_⟩
  · have hopen : s.server.handler.obj.toOutbox.ended = false := by
      rw [hinv.feeds.ended]
      rcases hfailed with ⟨-, hterm⟩ | hthrew
      · simp [hterm, StreamEnd.isComplete]
      · simp [hinv.exclusive (by simp [hthrew])]
    have hend : s.server.handler.obj.call.starts StreamingServerBatch.isSendEnd = 0 :=
      hinv.feeds.outbox.closes_of_open hopen
    have hfail : s.server.handler.obj.call.starts StreamingServerBatch.isFail = 1 := by
      rw [hinv.failed]
      rcases hfailed with ⟨hatt, hterm⟩ | hthrew
      · simp [hatt, hterm, StreamEnd.isFailed, hinv.threw_of_attached hatt]
      · simp [hthrew, hinv.exclusive (by simp [hthrew])]
    rw [StreamingServer.statuses_eq, hend, hfail]
    rfl
  · rw [hwire.rep_ends]
    cases s.client.session.deleted with
    | true => exact Or.inr rfl
    | false => exact Or.inl rfl

/-- Whatever the error, there is a call whose client is told that the stream completed: once the
    reply stream ends with it, and once the user's handler throws it. -/
theorem failed_completes (req : Req) (e : Exception) :
    (∃ s : StreamingRpc Req Rep, (machine Rep req).Reachable s ∧
      s.server.replies.terminal = some (.failed e) ∧ s.FailedWith e ∧
      s.client.session.obj.replyStreamPromise.log = [.finish .complete]) ∧
    (∃ s : StreamingRpc Req Rep, (machine Rep req).Reachable s ∧
      s.server.threw = some e ∧ s.FailedWith e ∧
      s.client.session.obj.replyStreamPromise.log = [.finish .complete]) :=
  have hended : (machine Rep req).Reachable _ :=
    Machine.reachable_of_run
      [.perform, .attach, .handlerEnd (.failed e), .clientDone 0 none, .clientDone 0 none] rfl
  have hthrew : (machine Rep req).Reachable _ :=
    Machine.reachable_of_run
      [.perform, .handlerThrows e, .clientDone 0 none, .clientDone 0 none] rfl
  ⟨⟨_, hended, rfl, Or.inl ⟨rfl, rfl⟩, rfl⟩, ⟨_, hthrew, rfl, Or.inr rfl, rfl⟩⟩

end StreamingRpc

/-! ## No failure is reported -/

/-- **A failed reply stream is always reported as a success**: in every reachable state after the
    failure, for both streaming handlers, the one status sent is `GRPC_STATUS_OK` and the client has
    seen no end or a normal end; and whatever the error, the normal end does reach a client. -/
theorem failed_stream_never_reported (req : Req) (e : Exception) :
    (∀ s : BidirRpc Req Rep, (BidirRpc.machine Req Rep).Reachable s → s.FailedWith e →
      ReportedAsSuccess s.server.handler.obj.call.statuses s.client.session.obj.rep.ends ∧
        ¬ FailureReported e s.server.handler.obj.call.statuses s.client.session.obj.rep.ends) ∧
    (∀ s : StreamingRpc Req Rep, (StreamingRpc.machine Rep req).Reachable s → s.FailedWith e →
      ReportedAsSuccess s.server.handler.obj.call.statuses
          s.client.session.obj.replyStreamPromise.ends ∧
        ¬ FailureReported e s.server.handler.obj.call.statuses
          s.client.session.obj.replyStreamPromise.ends) ∧
    (∃ s : BidirRpc Req Rep, (BidirRpc.machine Req Rep).Reachable s ∧ s.FailedWith e ∧
      s.client.session.obj.rep.log = [.finish .complete]) ∧
    (∃ s : StreamingRpc Req Rep, (StreamingRpc.machine Rep req).Reachable s ∧
      s.server.replies.terminal = some (.failed e) ∧ s.FailedWith e ∧
      s.client.session.obj.replyStreamPromise.log = [.finish .complete]) ∧
    (∃ s : StreamingRpc Req Rep, (StreamingRpc.machine Rep req).Reachable s ∧
      s.server.threw = some e ∧ s.FailedWith e ∧
      s.client.session.obj.replyStreamPromise.log = [.finish .complete]) := by
  obtain ⟨hended, hthrew⟩ := @StreamingRpc.failed_completes Req Rep _ _ req e
  refine ⟨?_, ?_, BidirRpc.failed_completes e, hended, hthrew⟩
  · intro s hs hfailed
    have hsuccess := BidirRpc.reportedAsSuccess_of_failed hs hfailed
    exact ⟨hsuccess, hsuccess.not_reported e⟩
  · intro s hs hfailed
    have hsuccess := StreamingRpc.reportedAsSuccess_of_failed hs hfailed
    exact ⟨hsuccess, hsuccess.not_reported e⟩

/-- A handler that pushes one reply and then ends its stream with `GRPC_STATUS_NOT_FOUND`: the
    client gets the reply and a normal end. -/
theorem failed_stream_completes_after_reply :
    ∃ s : StreamingRpc Buffer Buffer, (StreamingRpc.machine Buffer ([9] : Buffer)).Reachable s ∧
      s.FailedWith (.rpcError ⟨.notFound, .ofText "no such key"⟩) ∧
      s.server.handler.obj.call.statuses = [(.ok, "")] ∧
      s.client.session.obj.replyStreamPromise.log = [.push [1], .finish .complete] ∧
      ¬ FailureReported (.rpcError ⟨.notFound, .ofText "no such key"⟩)
        s.server.handler.obj.call.statuses s.client.session.obj.replyStreamPromise.ends :=
  have hrun : (StreamingRpc.machine Buffer ([9] : Buffer)).Reachable _ :=
    Machine.reachable_of_run
      [.perform, .attach, .serverDone 0, .handlerPush [1], .serverDone 0,
        .handlerEnd (.failed (.rpcError ⟨.notFound, .ofText "no such key"⟩)), .clientDone 0 none,
        .clientDone 0 none, .clientDone 0 none, .serverDone 0] rfl
  ⟨_, hrun, Or.inl ⟨rfl, rfl⟩, rfl, rfl,
    ReportedAsSuccess.not_reported ⟨rfl, Or.inr rfl⟩ _⟩

/-- A handler that throws: the status sent and what the client saw. -/
theorem failed_stream_never_reported_throw :
    ∃ s : StreamingRpc Buffer Buffer, (StreamingRpc.machine Buffer ([9] : Buffer)).Reachable s ∧
      s.FailedWith (.stdException (.ofText "boom")) ∧
      ReportedAsSuccess s.server.handler.obj.call.statuses
        s.client.session.obj.replyStreamPromise.ends :=
  have hrun : (StreamingRpc.machine Buffer ([9] : Buffer)).Reachable _ :=
    Machine.reachable_of_run
      [.perform, .handlerThrows (.stdException (.ofText "boom")), .clientDone 0 none,
        .clientDone 0 none] rfl
  have hfailed : StreamingRpc.FailedWith (.stdException (.ofText "boom")) _ := Or.inr rfl
  have hnever := failed_stream_never_reported ([9] : Buffer) (.stdException (.ofText "boom"))
  ⟨_, hrun, hfailed, (hnever.2.1 _ hrun hfailed).1⟩

end EasyGrpc
