import EasyGrpc.Client.Unary
import EasyGrpc.Client.ServerStreaming
import EasyGrpc.Client.ClientStreaming
import EasyGrpc.Client.BidirStreaming

set_option autoImplicit false

/-! # Calls that cannot be started

The four `start_*_call` functions of `stub_impl.h` with the result of their first
`grpc_call_start_batch`. A start that fails leaves nothing outstanding, so no completion comes, and
gRPC core writes through none of the pointers it was given. Of what the four session classes
contain, the members gRPC core writes to are the ones a constructor may leave without a value. -/

namespace EasyGrpc

/-- `grpc_call_error`. The code only asks whether it is `GRPC_CALL_OK`. -/
inductive CallError where
  | ok
  | error (code : ℕ)
deriving DecidableEq, Repr

/-- `grpc_call_start_batch`, which may fail. -/
def Call.tryBatch {κ : Type} (c : Call κ) (result : CallError) (b : κ) : Call κ :=
  match result with
  | .ok => c.startBatch b
  | .error _ => c

/-- What a call that could not be started is failed with. -/
def failedToStart : Exception := .rpcError ⟨.internal, .ofText "failed to start call"⟩

/-! ## Members without a value -/

/-- The members of the session classes that gRPC core writes to, and `call_`. -/
inductive Member where
  | call | serverMetadata | recvBuffer | trailingMetadata | status | statusDetails | errorString
deriving DecidableEq, Repr

namespace Member

/-- The members an operation is given the addresses of. -/
def writtenBy : Op → List Member
  | .recvInitialMetadata => [.serverMetadata]
  | .recvMessage => [.recvBuffer]
  | .recvStatusOnClient => [.trailingMetadata, .status, .statusDetails, .errorString]
  | _ => []

variable {κ : Type} [BatchSpec κ] [DecidableEq κ]

/-- The members with a value: those the constructor initialises, and those of the batches that have
    completed. -/
def initialised (constructed : List Member) (call : Call κ) : List Member :=
  constructed ++ ((call.started.diff call.outstanding).flatMap BatchSpec.ops).flatMap writtenBy

/-- The members the destructor of each of the four classes reads. -/
def readByDestructor : List Member := [.serverMetadata, .trailingMetadata, .recvBuffer, .call]

/-- The members that had no value when the destructor read them. -/
def junkReads (constructed : List Member) (call : Call κ) (deleted : Bool) : List Member :=
  if deleted then readByDestructor.filter (· ∉ initialised constructed call) else []

end Member

/-! ## What is seen of a call -/

/-- What has become of a call. -/
structure StartOutcome where
  /-- What the returned future was failed with, or the stream ended with; `none` if it was
      neither. -/
  ends : List (Option Exception)
  /-- How many operations were applied to a promise without storage. -/
  faults : ℕ
  /-- The session is deleted. -/
  deleted : Bool
  junkReads : List Member
deriving DecidableEq, Repr

/-- The call has failed the way a call that cannot be started is to fail. -/
structure StartOutcome.Clean (o : StartOutcome) : Prop where
  failed : ∃ what, o.ends = [some (.rpcError ⟨.internal, what⟩)]
  faults : o.faults = 0
  freed : o.deleted = true
  initialised : o.junkReads = []

variable {Req Rep : Type}

/-! ## The four start functions -/

namespace UnaryClient

variable [Serializer Req] [Serializer Rep]

/-- `start_unary_call`. -/
def startMachine (Rep : Type) [Serializer Rep] (result : CallError) (req : Req) :
    Machine (Live (UnaryCallCompletion Rep)) Event where
  init := startUnaryCall Rep req (result = .ok)
  step := step

/-- `Unary_call_completion` gives no value to `recv_buffer_`. A `Promise` has its storage from its
    construction, and keeps it until it is first resolved. -/
def outcome (c : Live (UnaryCallCompletion Rep)) : StartOutcome where
  ends := (c.obj.rep.take 1).map Resolution.error?
  faults := (c.obj.rep.drop 1).length
  deleted := c.deleted
  junkReads :=
    Member.junkReads [.call, .trailingMetadata, .serverMetadata] c.obj.call c.deleted

end UnaryClient

namespace StreamingClient

variable [Serializer Req] [Serializer Rep]

/-- `start_server_streaming_call` up to its last statement. -/
def startServerStreamingCall (result : CallError) (req : Req) : StreamingCallSession Rep :=
  let completion : StreamingCallSession Rep :=
    { call := ({} : Call StreamingClientBatch).tryBatch result (.first (serialize req)) }
  match result with
  | .ok => completion
  | .error _ => { completion with
      replyStreamPromise := completion.replyStreamPromise.finish (.failed failedToStart) }

/-- `start_server_streaming_call`, whose last statement is the step `getFuture`. -/
def startMachine (Rep : Type) [Serializer Rep] (result : CallError) (req : Req) :
    Machine (StreamingClient Rep) Event where
  init := { session := ⟨startServerStreamingCall result req, false⟩, returned := false }
  step := step

/-- `Streaming_call_session` gives `recv_buffer_` an initialiser. -/
def outcome (c : StreamingClient Rep) : StartOutcome where
  ends := c.session.obj.replyStreamPromise.ends.map StreamEnd.error?
  faults := c.session.obj.replyStreamPromise.faults.length
  deleted := c.session.deleted
  junkReads := Member.junkReads [.call, .recvBuffer, .trailingMetadata, .serverMetadata]
    c.session.obj.call c.session.deleted

end StreamingClient

namespace UploadClient

variable [Serializer Req] [Serializer Rep]

/-- `start_client_streaming_call`. The constructor does not look at the result. -/
def startMachine (Req Rep : Type) [Serializer Req] [Serializer Rep] (result : CallError) :
    Machine (UploadClient Req Rep) (Event Req) where
  init :=
    { session := ⟨{ call := ({} : Call UploadClientBatch).tryBatch result .handshake }, false⟩
      requests := { attached := false }
      construction := .batchStarted }
  step := step

/-- `Client_streaming_call_session` gives no value to `recv_buffer_`. -/
def outcome (c : UploadClient Req Rep) : StartOutcome where
  ends := (c.session.obj.rep.take 1).map Resolution.error?
  faults := (c.session.obj.rep.drop 1).length
  deleted := c.session.deleted
  junkReads := Member.junkReads [.call, .trailingMetadata, .serverMetadata]
    c.session.obj.call c.session.deleted

end UploadClient

namespace BidirClient

variable [Serializer Req] [Serializer Rep]

/-- `start_bidir_streaming_call`. The constructor does not look at the result. -/
def startMachine (Req Rep : Type) [Serializer Req] [Serializer Rep] (result : CallError) :
    Machine (BidirClient Req Rep) (Event Req) where
  init :=
    { session := ⟨{ call := ({} : Call BidirClientBatch).tryBatch result .handshake, rep := {} },
        false⟩
      requests := { attached := true }
      returned := false }
  step := step

/-- `Bidir_streaming_call_session` gives no value to `recv_buffer_`. -/
def outcome (c : BidirClient Req Rep) : StartOutcome where
  ends := c.session.obj.rep.ends.map StreamEnd.error?
  faults := c.session.obj.rep.faults.length
  deleted := c.session.deleted
  junkReads := Member.junkReads [.call, .trailingMetadata, .serverMetadata]
    c.session.obj.call c.session.deleted

end BidirClient

end EasyGrpc
