import EasyGrpc.Library.Machine
import EasyGrpc.Core.CompletionQueue
import EasyGrpc.Core.Promise
import EasyGrpc.Core.StreamPromise

set_option autoImplicit false

/-! # The client of a client-streaming call

`Client_streaming_call_session` and `start_client_streaming_call` (`stub_impl.h`). The caller's
thread queues requests and ends the stream, the completion thread sends what is queued and then the
end; each holds `mtx_`. The constructor does not hold it, and the handshake batch it starts may
complete between any two of its steps. -/

namespace EasyGrpc

variable {Req Rep : Type}

/-! ## The session -/

/-- The batches a session starts. -/
inductive UploadClientBatch where
  /-- Started by the constructor: the initial metadata both ways. -/
  | handshake
  /-- `flush_`: one request. -/
  | write (message : Buffer)
  /-- `send_end`: the end of the requests, the reply and the status. -/
  | sendEnd
deriving DecidableEq, Repr

namespace UploadClientBatch

def isHandshake : UploadClientBatch → Bool | .handshake => true | _ => false
def isWrite : UploadClientBatch → Bool | .write _ => true | _ => false
def isSendEnd : UploadClientBatch → Bool | .sendEnd => true | _ => false

end UploadClientBatch

instance : BatchSpec UploadClientBatch where
  ops
    | .handshake => [.sendInitialMetadata, .recvInitialMetadata]
    | .write m => [.sendMessage m]
    | .sendEnd => [.sendCloseFromClient, .recvMessage, .recvStatusOnClient]
  flags _ := 0

/-- The members of `Client_streaming_call_session`. `recv_buffer_`, `status_` and `status_details_`
    are left uninitialised by the constructor and are first written by gRPC core; `error_string_` is
    never read. -/
structure ClientStreamingCallSession (Rep : Type) where
  call : Call UploadClientBatch
  /-- The operations applied to `rep_`, in order. -/
  rep : List (Resolution Rep) := []
  batchInFlight : Bool := false
  finished : Bool := false
  endSent : Bool := false
  recvBuffer : Option Buffer := none
  status : StatusCode := .ok
  statusDetails : String := ""
  pendingOps : List Buffer := []

namespace ClientStreamingCallSession

/-- The constructor up to `grpc_call_start_batch`. -/
def create : ClientStreamingCallSession Rep where
  call := ({} : Call UploadClientBatch).startBatch .handshake

def startBatch (s : ClientStreamingCallSession Rep) (b : UploadClientBatch) :
    ClientStreamingCallSession Rep :=
  { s with call := s.call.startBatch b }

/-- `flush_`. Every caller has just queued an operation or seen that the queue is not empty, so the
    empty case is never taken. -/
def flush (s : ClientStreamingCallSession Rep) : ClientStreamingCallSession Rep :=
  if s.batchInFlight then s
  else match s.pendingOps with
    | [] => s
    | op :: rest => { s with batchInFlight := true, pendingOps := rest }.startBatch (.write op)

/-- `send_end`. `batch_in_flight_` is left as it is. -/
def sendEnd (s : ClientStreamingCallSession Rep) : ClientStreamingCallSession Rep :=
  { s.startBatch .sendEnd with endSent := true }

/-- The `for_each` callback on the request stream. -/
def onRequest [Serializer Req] (s : ClientStreamingCallSession Rep) (req : Req) :
    ClientStreamingCallSession Rep :=
  { s with pendingOps := s.pendingOps ++ [serialize req] }.flush

/-- The `finally` callback on the request stream. How the stream ended is not looked at. -/
def onRequestsEnd (s : ClientStreamingCallSession Rep) (_ : StreamEnd) :
    ClientStreamingCallSession Rep :=
  let s := { s with finished := true }
  if !s.batchInFlight then s.sendEnd else s

/-- How `exec` resolves the reply once the status is known. -/
def reply [Serializer Rep] (s : ClientStreamingCallSession Rep) : Resolution Rep :=
  if s.status = .ok then .ofBuffer s.recvBuffer
  else .error (.rpcError ⟨s.status, .ofText s.statusDetails⟩)

/-- `exec`, whose result is whether the session is to be deleted. The flags are not looked at. -/
def exec [Serializer Rep] (s : ClientStreamingCallSession Rep) (_ : BitVec 4) :
    Bool × ClientStreamingCallSession Rep :=
  let s := { s with batchInFlight := false }
  if !s.pendingOps.isEmpty then (false, s.flush)
  else if s.finished then
    if s.endSent then (true, { s with rep := s.rep ++ [s.reply] })
    else (false, s.sendEnd)
  else (false, s)

/-- Where the receive operations of a batch write to. -/
def receive (s : ClientStreamingCallSession Rep) (b : UploadClientBatch) (r : Received) :
    ClientStreamingCallSession Rep :=
  match b with
  | .sendEnd =>
      { s with recvBuffer := r.message, status := r.status, statusDetails := r.statusDetails }
  | _ => s

instance [Serializer Rep] : CompletionCallback (ClientStreamingCallSession Rep) UploadClientBatch where
  call := call
  setCall s c := { s with call := c }
  receive := receive
  exec := exec

end ClientStreamingCallSession

/-! ## The session, its caller and its completion thread -/

/-- How far the constructor has come. -/
inductive Construction where
  /-- `grpc_call_start_batch` has returned. -/
  | batchStarted
  /-- `batch_in_flight_` is set. -/
  | flagSet
  /-- `for_each` is attached to the request stream. -/
  | listening
  /-- `finally` is attached and the constructor has returned: the caller gets the request
      promise. -/
  | returned
deriving DecidableEq, Repr

/-- A session together with the caller's request stream and the thread that constructs it. -/
structure UploadClient (Req Rep : Type) where
  session : Live (ClientStreamingCallSession Rep)
  requests : Source Req
  construction : Construction

namespace UploadClient

inductive Event (Req : Type) where
  /-- The constructor takes its next step. -/
  | construct
  /-- The caller pushes a request. -/
  | push (req : Req)
  /-- The caller ends its request stream. -/
  | finish (t : StreamEnd)
  /-- The completion thread handles the `i`-th outstanding batch. -/
  | complete (i : ℕ) (r : Received)

variable [Serializer Req] [Serializer Rep]

/-- The next step of the constructor. The request promise is still the session's own, so the stream
    is empty when `for_each` and `finally` are attached. -/
def construct (c : UploadClient Req Rep) : Option (UploadClient Req Rep) :=
  match c.construction with
  | .batchStarted => some { c with
      construction := .flagSet
      session := c.session.update (fun s => { s with batchInFlight := true }) }
  | .flagSet => some { c with
      construction := .listening, requests := { c.requests with attached := true } }
  | .listening => some { c with construction := .returned }
  | .returned => none

def step (c : UploadClient Req Rep) : Event Req → Option (UploadClient Req Rep)
  | .construct => c.construct
  | .push req =>
      if c.construction = .returned then (c.requests.push req).map
        (fun requests => { c with requests, session := c.session.update (·.onRequest req) })
      else none
  | .finish t =>
      if c.construction = .returned then (c.requests.finish t).map
        (fun requests => { c with requests, session := c.session.update (·.onRequestsEnd t) })
      else none
  | .complete i r => (c.session.workerMain i r).map (fun session => { c with session })

/-- The constructor right after the handshake batch was started. -/
def machine (Req Rep : Type) [Serializer Req] [Serializer Rep] :
    Machine (UploadClient Req Rep) (Event Req) where
  init :=
    { session := ⟨.create, false⟩
      requests := { attached := false }
      construction := .batchStarted }
  step := step

/-- The construction as one step: the caller has the request promise before the completion thread
    runs. -/
def startedMachine (Req Rep : Type) [Serializer Req] [Serializer Rep] :
    Machine (UploadClient Req Rep) (Event Req) where
  init :=
    { session := ⟨{ (.create : ClientStreamingCallSession Rep) with batchInFlight := true }, false⟩
      requests := { attached := true }
      construction := .returned }
  step := step

end UploadClient

end EasyGrpc
