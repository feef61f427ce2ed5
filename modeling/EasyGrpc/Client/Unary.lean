import EasyGrpc.Library.Machine
import EasyGrpc.Core.CompletionQueue
import EasyGrpc.Core.Promise

set_option autoImplicit false

/-! # The client of a unary call

`Unary_call_completion` and `start_unary_call` (`stub_impl.h`). The whole call is one batch, and its
completion resolves the reply. -/

namespace EasyGrpc

variable {Req Rep : Type}

/-! ## The completion -/

/-- The one batch of a call. -/
inductive UnaryClientBatch where
  | call (request : Buffer)
deriving DecidableEq, Repr

/-- The batch is started with the completion itself as its tag, that is with no flags. -/
instance : BatchSpec UnaryClientBatch where
  ops
    | .call m => [.sendInitialMetadata, .sendMessage m, .recvInitialMetadata, .recvMessage,
        .sendCloseFromClient, .recvStatusOnClient]
  flags _ := 0

/-- The members of `Unary_call_completion`. `recv_buffer_`, `status_` and `status_details_` are left
    uninitialised by the constructor and are first written by gRPC core; `error_string_` is never
    read. -/
structure UnaryCallCompletion (Rep : Type) where
  call : Call UnaryClientBatch := {}
  /-- The operations applied to `rep_`, in order. -/
  rep : List (Resolution Rep) := []
  recvBuffer : Option Buffer := none
  status : StatusCode := .ok
  statusDetails : String := ""

namespace UnaryCallCompletion

/-- `fail`. -/
def fail (s : UnaryCallCompletion Rep) : UnaryCallCompletion Rep :=
  { s with rep := s.rep ++ [.error (.rpcError ⟨.internal, .ofText "failed to start call"⟩)] }

/-- How `exec` resolves the reply. -/
def reply [Serializer Rep] (s : UnaryCallCompletion Rep) : Resolution Rep :=
  if s.status = .ok then .ofBuffer s.recvBuffer
  else .error (.rpcError ⟨s.status, .ofText s.statusDetails⟩)

/-- `exec`, whose result is whether the completion is to be deleted. -/
def exec [Serializer Rep] (s : UnaryCallCompletion Rep) (_ : BitVec 4) :
    Bool × UnaryCallCompletion Rep :=
  (true, { s with rep := s.rep ++ [s.reply] })

/-- Where the receive operations of the batch write to. -/
def receive (s : UnaryCallCompletion Rep) (_ : UnaryClientBatch) (r : Received) :
    UnaryCallCompletion Rep :=
  { s with recvBuffer := r.message, status := r.status, statusDetails := r.statusDetails }

instance [Serializer Rep] : CompletionCallback (UnaryCallCompletion Rep) UnaryClientBatch where
  call := call
  setCall s c := { s with call := c }
  receive := receive
  exec := exec

end UnaryCallCompletion

/-! ## The completion and its completion thread -/

namespace UnaryClient

/-- The completion thread handles the `i`-th outstanding batch. -/
inductive Event where
  | complete (i : ℕ) (r : Received)

variable [Serializer Req] [Serializer Rep]

/-- `start_unary_call`, which returns the future of `rep_`. If `grpc_call_start_batch` does not
    succeed, the completion is failed and deleted at once. -/
def startUnaryCall (Rep : Type) (req : Req) (started : Bool) : Live (UnaryCallCompletion Rep) :=
  let completion : UnaryCallCompletion Rep := {}
  if started then
    ⟨{ completion with call := completion.call.startBatch (.call (serialize req)) }, false⟩
  else ⟨completion.fail, true⟩

def step (c : Live (UnaryCallCompletion Rep)) : Event → Option (Live (UnaryCallCompletion Rep))
  | .complete i r => c.workerMain i r

/-- `start_unary_call` has returned. -/
def machine (Rep : Type) [Serializer Rep] (req : Req) :
    Machine (Live (UnaryCallCompletion Rep)) Event where
  init := startUnaryCall Rep req true
  step := step

end UnaryClient

end EasyGrpc
