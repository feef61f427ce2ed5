import EasyGrpc.Library.Machine
import EasyGrpc.Core.CompletionQueue
import EasyGrpc.Core.StreamPromise

set_option autoImplicit false

/-! # The client of a server-streaming call

`Streaming_call_session` and `start_server_streaming_call` (`stub_impl.h`). At any time one batch is
outstanding: the first one, which also sends the request, then reads, then the final one. `exec`
ignores the flags and tells them apart by `finishing_` and `recv_buffer_`. -/

namespace EasyGrpc

variable {Req Rep : Type}

/-! ## The session -/

/-- The batches a session starts. -/
inductive StreamingClientBatch where
  /-- Started by `start_server_streaming_call`: the request, the metadata and the first read. -/
  | first (request : Buffer)
  /-- A further read. -/
  | read
  /-- The end of the call. -/
  | final
deriving DecidableEq, Repr

namespace StreamingClientBatch

def isFinal : StreamingClientBatch → Bool | .final => true | _ => false

/-- The batch reads a message. -/
def isRead (b : StreamingClientBatch) : Bool := !b.isFinal

end StreamingClientBatch

instance : BatchSpec StreamingClientBatch where
  ops
    | .first m => [.sendInitialMetadata, .sendMessage m, .recvInitialMetadata, .recvMessage]
    | .read => [.recvMessage]
    | .final => [.sendCloseFromClient, .recvStatusOnClient]
  flags _ := 0

/-- The members of `Streaming_call_session`; `error_string_` is never read. -/
structure StreamingCallSession (Rep : Type) where
  call : Call StreamingClientBatch
  replyStreamPromise : StreamPromise Rep := {}
  recvBuffer : Option Buffer := none
  finishing : Bool := false
  status : StatusCode := .ok
  statusDetails : String := ""

namespace StreamingCallSession

/-- The session once `start_server_streaming_call` has started the first batch. -/
def create [Serializer Req] (req : Req) : StreamingCallSession Rep where
  call := ({} : Call StreamingClientBatch).startBatch (.first (serialize req))

def startBatch (s : StreamingCallSession Rep) (b : StreamingClientBatch) :
    StreamingCallSession Rep :=
  { s with call := s.call.startBatch b }

/-- How the reply stream is terminated once the final status is known. -/
def finalEnd (status : StatusCode) (statusDetails : String) : StreamEnd :=
  if status = .ok then .complete else .failed (.rpcError ⟨status, .ofText statusDetails⟩)

/-- `exec`, whose result is whether the session is to be deleted. -/
def exec [Serializer Rep] (s : StreamingCallSession Rep) (_ : BitVec 4) :
    Bool × StreamingCallSession Rep :=
  let allDone := s.finishing
  let s :=
    if !allDone then
      match s.recvBuffer with
      | some data =>
          -- The next read is started before the reply is handed on.
          let s := { s with recvBuffer := none }.startBatch .read
          { s with replyStreamPromise := s.replyStreamPromise.push (deserialize data) }
      | none => { s with finishing := true }.startBatch .final
    else
      { s with
        replyStreamPromise := s.replyStreamPromise.finish (finalEnd s.status s.statusDetails) }
  (allDone, s)

/-- Where the receive operations of a batch write to. -/
def receive (s : StreamingCallSession Rep) (b : StreamingClientBatch) (r : Received) :
    StreamingCallSession Rep :=
  match b with
  | .first _ | .read => { s with recvBuffer := r.message }
  | .final => { s with status := r.status, statusDetails := r.statusDetails }

instance [Serializer Rep] : CompletionCallback (StreamingCallSession Rep) StreamingClientBatch where
  call := call
  setCall s c := { s with call := c }
  receive := receive
  exec := exec

end StreamingCallSession

/-! ## The session, its caller and its completion thread -/

/-- A session together with the thread that called `start_server_streaming_call`. `returned` says
    whether it has called `get_future()` and returned. -/
structure StreamingClient (Rep : Type) where
  session : Live (StreamingCallSession Rep)
  returned : Bool
  /-- `get_future` was called on a session that had been deleted. -/
  lateFuture : Bool := false

namespace StreamingClient

inductive Event where
  /-- The completion thread handles the `i`-th outstanding batch. -/
  | complete (i : ℕ) (r : Received)
  /-- The last statement of `start_server_streaming_call`. -/
  | getFuture

variable [Serializer Req] [Serializer Rep]

def step (c : StreamingClient Rep) : Event → Option (StreamingClient Rep)
  | .complete i r => (c.session.workerMain i r).map (fun session => { c with session })
  | .getFuture =>
      if c.returned then none
      else some { c with
        returned := true
        lateFuture := c.session.deleted
        session := c.session.update
          (fun s => { s with replyStreamPromise := s.replyStreamPromise.getFuture }) }

/-- `start_server_streaming_call` right after the first batch was started: the completion thread may
    run before `get_future` does. -/
def machine (Rep : Type) [Serializer Rep] (req : Req) : Machine (StreamingClient Rep) Event where
  init := { session := ⟨.create req, false⟩, returned := false }
  step := step

/-- `start_server_streaming_call` as one step: the caller has its future before the completion
    thread runs. -/
def startedMachine (Rep : Type) [Serializer Rep] (req : Req) :
    Machine (StreamingClient Rep) Event where
  init :=
    { session := ⟨{ (.create req : StreamingCallSession Rep) with
        replyStreamPromise := ({} : StreamPromise Rep).getFuture }, false⟩
      returned := true }
  step := step

end StreamingClient

end EasyGrpc
