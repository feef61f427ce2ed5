import EasyGrpc.Library.Machine
import EasyGrpc.Library.Outbox
import EasyGrpc.Core.CompletionQueue
import EasyGrpc.Core.StreamPromise

set_option autoImplicit false

/-! # The server of a server-streaming call

`Server_streaming_call_handler` (`server_streaming.h`). `perform` starts the metadata batch, calls
the user's handler and attaches to the reply stream it returns, or fails the call if the handler
throws. `push`, `finish` and `fail` run on the thread that feeds the reply stream, `exec` on the
completion thread; each holds `mtx_`. -/

namespace EasyGrpc

variable {Req Rep : Type}

/-! ## The handler -/

/-- The batches a handler starts. -/
inductive StreamingServerBatch where
  /-- The initial metadata. -/
  | metadata
  /-- `flush_`: one reply. -/
  | write (message : Buffer)
  /-- `send_end`. -/
  | sendEnd
  /-- `fail`. -/
  | fail
deriving DecidableEq, Repr

namespace StreamingServerBatch

def isMetadata : StreamingServerBatch → Bool | .metadata => true | _ => false
def isWrite : StreamingServerBatch → Bool | .write _ => true | _ => false
def isSendEnd : StreamingServerBatch → Bool | .sendEnd => true | _ => false
def isFail : StreamingServerBatch → Bool | .fail => true | _ => false

end StreamingServerBatch

/-- `op_send_status` is called with its defaults by `send_end` and by `fail`. -/
instance : BatchSpec StreamingServerBatch where
  ops
    | .metadata => [.sendInitialMetadata]
    | .write m => [.sendMessage m]
    | .sendEnd => [.recvCloseOnServer, .sendStatusFromServer .ok none]
    | .fail => [.sendStatusFromServer .ok none, .recvCloseOnServer]
  flags
    | .metadata => 0
    | .write _ => 0
    | .sendEnd => 1
    | .fail => 1

/-- The members of `Server_streaming_call_handler`. The listener has set `payload_` before it calls
    `perform`, which frees it at once. -/
structure ServerStreamingCallHandler where
  call : Call StreamingServerBatch := {}
  finished : Bool := false
  batchInFlight : Bool := false
  pendingOps : List Buffer := []

namespace ServerStreamingCallHandler

def startBatch (h : ServerStreamingCallHandler) (b : StreamingServerBatch) :
    ServerStreamingCallHandler :=
  { h with call := h.call.startBatch b }

/-- `perform` up to the call of the user's handler. -/
def startMetadata (h : ServerStreamingCallHandler) : ServerStreamingCallHandler :=
  { h with batchInFlight := true }.startBatch .metadata

/-- `flush_`. Every caller has just queued an operation or seen that the queue is not empty, so the
    empty case is never taken. -/
def flush (h : ServerStreamingCallHandler) : ServerStreamingCallHandler :=
  if h.batchInFlight then h
  else match h.pendingOps with
    | [] => h
    | op :: rest => { h with batchInFlight := true, pendingOps := rest }.startBatch (.write op)

/-- `send_end`. -/
def sendEnd (h : ServerStreamingCallHandler) : ServerStreamingCallHandler := h.startBatch .sendEnd

/-- `push`. -/
def push [Serializer Rep] (h : ServerStreamingCallHandler) (val : Rep) :
    ServerStreamingCallHandler :=
  { h with pendingOps := h.pendingOps ++ [serialize val] }.flush

/-- `finish`. -/
def finish (h : ServerStreamingCallHandler) : ServerStreamingCallHandler :=
  let h := { h with finished := true }
  if !h.batchInFlight then h.sendEnd else h

/-- `fail`. The exception is not looked at. -/
def fail (h : ServerStreamingCallHandler) (_ : Exception) : ServerStreamingCallHandler :=
  h.startBatch .fail

/-- The `finally` callback on the reply stream. -/
def onRepliesEnd (h : ServerStreamingCallHandler) : StreamEnd → ServerStreamingCallHandler
  | .complete => h.finish
  | .failed e => h.fail e

/-- `perform` as a whole. `handler` is what calling the user's handler does: it throws, or it
    returns a stream with whatever is in it already. -/
def perform [Serializer Rep] (h : ServerStreamingCallHandler)
    (handler : Except Exception (Source Rep)) : ServerStreamingCallHandler :=
  let h := h.startMetadata
  match handler with
  | .error e => h.fail e
  | .ok replies => replies.drain push onRepliesEnd h

/-- `exec`, whose result is whether the handler is to be deleted. -/
def exec (h : ServerStreamingCallHandler) (flags : BitVec 4) : Bool × ServerStreamingCallHandler :=
  if flags.getLsbD 0 then (true, h)
  else
    let h := { h with batchInFlight := false }
    (false,
      if !h.pendingOps.isEmpty then h.flush
      else if h.finished then h.sendEnd
      else h)

/-- The batches receive nothing but `cancelled_`, which is never read. -/
instance : CompletionCallback ServerStreamingCallHandler StreamingServerBatch where
  call := call
  setCall h c := { h with call := c }
  receive h _ _ := h
  exec := exec

end ServerStreamingCallHandler

/-! ## The handler, the reply stream and the completion thread -/

/-- A handler together with the reply stream of the user's handler, which may also throw instead of
    returning one. -/
structure StreamingServer (Req Rep : Type) where
  handler : Live ServerStreamingCallHandler
  replies : Source Rep
  /-- The request `perform` calls the user's handler with. -/
  req : Option Req := none
  threw : Option Exception := none

namespace StreamingServer

open ServerStreamingCallHandler

inductive Event (Rep : Type) where
  /-- The user's handler pushes a reply. -/
  | push (rep : Rep)
  /-- The user's handler ends its reply stream. -/
  | finish (t : StreamEnd)
  /-- `perform` decodes the payload, starts the metadata batch and calls the user's handler. -/
  | perform (payload : Buffer)
  /-- The user's handler has returned; `perform` attaches to its reply stream. -/
  | attach
  /-- The user's handler throws. -/
  | throws (e : Exception)
  /-- The completion thread handles the `i`-th outstanding batch. -/
  | complete (i : ℕ) (r : Received)

variable [Serializer Req] [Serializer Rep]

def step (c : StreamingServer Req Rep) : Event Rep → Option (StreamingServer Req Rep)
  | .push rep => (c.replies.push rep).map (fun replies =>
      { c with
        replies
        handler := if replies.attached then c.handler.update (·.push rep) else c.handler })
  | .finish t => (c.replies.finish t).map (fun replies =>
      { c with
        replies
        handler := if replies.attached then c.handler.update (·.onRepliesEnd t) else c.handler })
  | .perform payload =>
      if c.req.isSome then none
      else some { c with
        req := some (deserialize payload)
        handler := c.handler.update startMetadata }
  | .attach =>
      if c.req.isSome && c.threw.isNone then
        c.replies.attach.map (fun replies =>
          { c with
            replies
            handler := c.handler.update
              (replies.drain ServerStreamingCallHandler.push onRepliesEnd) })
      else none
  | .throws e =>
      if c.req.isSome && c.threw.isNone && !c.replies.attached then
        some { c with threw := some e, handler := c.handler.update (·.fail e) }
      else none
  | .complete i r => (c.handler.workerMain i r).map (fun handler => { c with handler })

def machine (Req Rep : Type) [Serializer Req] [Serializer Rep] :
    Machine (StreamingServer Req Rep) (Event Rep) where
  init := { handler := ⟨{}, false⟩, replies := { attached := false } }
  step := step

end StreamingServer

end EasyGrpc
