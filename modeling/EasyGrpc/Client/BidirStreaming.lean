import EasyGrpc.Library.Machine
import EasyGrpc.Library.Outbox
import EasyGrpc.Core.CompletionQueue
import EasyGrpc.Core.StreamPromise

set_option autoImplicit false

/-! # The client's bidirectional session

`Bidir_streaming_call_session` and `start_bidir_streaming_call` (`stub_impl.h`). The caller's
request stream runs through `onRequest` and `onRequestsEnd` (the `for_each` and `finally` callbacks
of the constructor), the completion thread through `exec`; all three hold `mtx_`, so each is one
step.

`BidirClient` puts a session together with its caller and its completion thread. Nothing is assumed
about the server: a completion may come for any outstanding batch and bring anything. -/

namespace EasyGrpc

variable {Req Rep : Type}

/-! ## The session -/

/-- The batches a session starts. -/
inductive BidirClientBatch where
  /-- Exchange of the initial metadata, started by the constructor. -/
  | handshake
  /-- `flush_`: one request. -/
  | write (message : Buffer)
  /-- `send_client_end`. -/
  | close
  /-- A read, started after the handshake and again after each reply. -/
  | read
  /-- `finish`: the final status. -/
  | status
deriving DecidableEq, Repr

namespace BidirClientBatch

def isHandshake : BidirClientBatch → Bool | .handshake => true | _ => false
def isWrite : BidirClientBatch → Bool | .write _ => true | _ => false
def isClose : BidirClientBatch → Bool | .close => true | _ => false
def isRead : BidirClientBatch → Bool | .read => true | _ => false
def isStatus : BidirClientBatch → Bool | .status => true | _ => false

end BidirClientBatch

instance : BatchSpec BidirClientBatch where
  ops
    | .handshake => [.sendInitialMetadata, .recvInitialMetadata]
    | .write m => [.sendMessage m]
    | .close => [.sendCloseFromClient]
    | .read => [.recvMessage]
    | .status => [.recvStatusOnClient]
  flags
    | .handshake => 2
    | .write _ => 1
    | .close => 4
    | .read => 0
    | .status => 8

/-- The members of `Bidir_streaming_call_session`. Every queued `grpc_op` is a
    `GRPC_OP_SEND_MESSAGE`, as `flush_` asserts, and is kept by its payload. `recv_buffer_`,
    `status_`, `status_details_` and `error_string_` are left uninitialised by the constructor and
    are first written by gRPC core. -/
structure BidirStreamingCallSession (Rep : Type) where
  call : Call BidirClientBatch
  rep : StreamPromise Rep
  canSend : Bool := false
  finishedSending : Bool := false
  finishedReceiving : Bool := false
  endSent : Bool := false
  recvBuffer : Option Buffer := none
  status : StatusCode := .ok
  statusDetails : String := ""
  errorString : Option CString := none
  pendingOps : List Buffer := []

namespace BidirStreamingCallSession

/-- The constructor: the handshake is started, the request callbacks are attached. -/
def create : BidirStreamingCallSession Rep where
  call := ({} : Call BidirClientBatch).startBatch .handshake
  rep := {}

def startBatch (s : BidirStreamingCallSession Rep) (b : BidirClientBatch) :
    BidirStreamingCallSession Rep :=
  { s with call := s.call.startBatch b }

/-- `flush_`. Every caller has just queued an operation or seen that the queue is not empty, so the
    empty case is never taken. -/
def flush (s : BidirStreamingCallSession Rep) : BidirStreamingCallSession Rep :=
  if !s.canSend then s
  else match s.pendingOps with
    | [] => s
    | op :: rest => { s with canSend := false, pendingOps := rest }.startBatch (.write op)

/-- `send_client_end`. -/
def sendClientEnd (s : BidirStreamingCallSession Rep) : BidirStreamingCallSession Rep :=
  { s.startBatch .close with endSent := true }

/-- `finish`. -/
def finish (s : BidirStreamingCallSession Rep) : BidirStreamingCallSession Rep :=
  { s.startBatch .status with endSent := true }

/-- The `for_each` callback on the request stream. -/
def onRequest [Serializer Req] (s : BidirStreamingCallSession Rep) (req : Req) :
    BidirStreamingCallSession Rep :=
  { s with pendingOps := s.pendingOps ++ [serialize req] }.flush

/-- The `finally` callback on the request stream. -/
def onRequestsEnd (s : BidirStreamingCallSession Rep) (t : StreamEnd) :
    BidirStreamingCallSession Rep :=
  let s := if t = .complete then s else { s with call := s.call.cancel }
  let s := { s with finishedSending := true }
  if s.canSend then s.sendClientEnd else s

/-- How the reply stream is terminated once the final status is known; `none` where the constructor
    of `Rpc_error` is given a null pointer, and throws. -/
def finalEnd (status : StatusCode) (errorString : Option CString) : Option StreamEnd :=
  if status = .ok then some .complete
  else errorString.map (fun what => .failed (.rpcError ⟨status, what⟩))

theorem isSome_finalEnd (status : StatusCode) (what : CString) :
    (finalEnd status (some what)).isSome = true := by
  unfold finalEnd
  split <;> rfl

/-- The exception of `Rpc_error` leaves `exec`. -/
def aborts (s : BidirStreamingCallSession Rep) (flags : BitVec 4) : Bool :=
  flags.getLsbD 3 && (finalEnd s.status s.errorString).isNone

/-- Only the final status can end the process. -/
theorem aborts_flags (s : BidirStreamingCallSession Rep) (b : BidirClientBatch) :
    s.aborts (BatchSpec.flags b) = (b.isStatus && (finalEnd s.status s.errorString).isNone) := by
  cases b with
  | write m =>
      show ((1 : BitVec 4).getLsbD 3 && _) = _
      rfl
  | _ => rfl

/-- `exec`, whose result is whether the session is to be deleted. -/
def exec [Serializer Rep] (s : BidirStreamingCallSession Rep) (flags : BitVec 4) :
    Bool × BidirStreamingCallSession Rep :=
  let writeOp := flags.getLsbD 0
  let handshake := flags.getLsbD 1
  let ending := flags.getLsbD 2
  let closing := flags.getLsbD 3
  if closing then
    (true, { s with rep := (finalEnd s.status s.errorString).elim s.rep s.rep.finish })
  else if handshake then
    let s := { s with canSend := true }
    let s := if !s.pendingOps.isEmpty then s.flush else s
    (false, s.startBatch .read)
  else if ending then
    (false, if s.finishedReceiving then s.finish else s)
  else if writeOp then
    let s := { s with canSend := true }
    (false,
      if !s.pendingOps.isEmpty then s.flush
      else if s.finishedSending then s.sendClientEnd
      else s)
  else
    match s.recvBuffer with
    | some data =>
        -- The next read is started before the reply is handed on.
        let s := { s with recvBuffer := none }.startBatch .read
        (false, { s with rep := s.rep.push (deserialize data) })
    | none =>
        let s := { s with finishedReceiving := true }
        (false, if s.finishedSending && s.endSent then s.finish else s)

/-- Where the receive operations of a batch write to. -/
def receive (s : BidirStreamingCallSession Rep) (b : BidirClientBatch) (r : Received) :
    BidirStreamingCallSession Rep :=
  match b with
  | .read => { s with recvBuffer := r.message }
  | .status =>
      { s with
        status := r.status, statusDetails := r.statusDetails, errorString := r.errorString }
  | _ => s

instance [Serializer Rep] : CompletionCallback (BidirStreamingCallSession Rep) BidirClientBatch where
  call := call
  setCall s c := { s with call := c }
  receive := receive
  exec := exec
  aborts := aborts

end BidirStreamingCallSession

/-! ## The session, its caller and its completion thread -/

/-- A session together with the caller's request stream. `returned` says whether
    `start_bidir_streaming_call` has called `rep_.get_future()` and returned; only then does the
    caller hold the request promise. -/
structure BidirClient (Req Rep : Type) where
  session : Live (BidirStreamingCallSession Rep)
  requests : Source Req
  returned : Bool
  /-- `get_future` was called on a session that had been deleted. -/
  lateFuture : Bool := false

namespace BidirClient

inductive Event (Req : Type) where
  /-- The caller pushes a request. -/
  | push (req : Req)
  /-- The caller ends its request stream. -/
  | finish (t : StreamEnd)
  /-- The completion thread handles the `i`-th outstanding batch. -/
  | complete (i : ℕ) (r : Received)
  /-- The last statement of `start_bidir_streaming_call`. -/
  | getFuture

variable [Serializer Req] [Serializer Rep]

def step (c : BidirClient Req Rep) : Event Req → Option (BidirClient Req Rep)
  | .push req =>
      if c.returned then (c.requests.push req).map
        (fun requests => { c with requests, session := c.session.update (·.onRequest req) })
      else none
  | .finish t =>
      if c.returned then (c.requests.finish t).map
        (fun requests => { c with requests, session := c.session.update (·.onRequestsEnd t) })
      else none
  | .complete i r => (c.session.workerMain i r).map (fun session => { c with session })
  | .getFuture =>
      if c.returned then none
      else some { c with
        returned := true
        lateFuture := c.session.deleted
        session := c.session.update (fun s => { s with rep := s.rep.getFuture }) }

/-- `start_bidir_streaming_call` right after the handshake batch was started: the completion thread
    may run before `get_future` does. -/
def machine (Req Rep : Type) [Serializer Req] [Serializer Rep] :
    Machine (BidirClient Req Rep) (Event Req) where
  init :=
    { session := ⟨.create, false⟩
      requests := { attached := true }
      returned := false }
  step := step

end BidirClient

end EasyGrpc
