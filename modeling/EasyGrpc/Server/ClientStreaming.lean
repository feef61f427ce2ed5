import EasyGrpc.Library.Machine
import EasyGrpc.Core.CompletionQueue
import EasyGrpc.Core.StreamPromise

set_option autoImplicit false

/-! # The server of a client-streaming call

`Client_streaming_call_handler` (`client_streaming.h`), with `send_unary_response` and
`send_failure` of its base class (`call_handler.h`). `perform` calls the user's handler with the
request stream, starts the first read and then waits for the reply. The reply may come at any time:
before `perform` asks for it, or while requests are still being read. -/

namespace EasyGrpc

variable {Req Rep : Type}

/-! ## The handler -/

/-- The batches a handler starts. -/
inductive UploadServerBatch where
  /-- Started by `perform`: the initial metadata and the first read. -/
  | first
  /-- A further read. -/
  | recv
  /-- `send_unary_response`. -/
  | response (message : Buffer)
  /-- `send_failure`. -/
  | failure (status : StatusCode) (details : String)
deriving DecidableEq, Repr

namespace UploadServerBatch

/-- The batch reads a request. -/
def isRead : UploadServerBatch → Bool | .first | .recv => true | _ => false
/-- The batch ends the call. -/
def isAnswer (b : UploadServerBatch) : Bool := !b.isRead

end UploadServerBatch

/-- `finish` sends the answer without metadata and under the flag `true`. -/
instance : BatchSpec UploadServerBatch where
  ops
    | .first => [.sendInitialMetadata, .recvMessage]
    | .recv => [.recvMessage]
    | .response m => [.sendMessage m, .sendStatusFromServer .ok none, .recvCloseOnServer]
    | .failure status details =>
        [.sendStatusFromServer status (some details), .recvCloseOnServer]
  flags
    | .first => 0
    | .recv => 0
    | .response _ => 1
    | .failure _ _ => 1

/-- The members of `Client_streaming_call_handler`. -/
structure ClientStreamingCallHandler (Req : Type) where
  call : Call UploadServerBatch := {}
  readerProm : StreamPromise Req
  payload : Option Buffer := none

namespace ClientStreamingCallHandler

/-- A handler whose `perform` has called the user's handler with `reader_prom_.get_future()`. -/
def create : ClientStreamingCallHandler Req where
  readerProm := ({} : StreamPromise Req).getFuture

def startBatch (h : ClientStreamingCallHandler Req) (b : UploadServerBatch) :
    ClientStreamingCallHandler Req :=
  { h with call := h.call.startBatch b }

/-- `send_unary_response`. -/
def sendUnaryResponse [Serializer Rep] (h : ClientStreamingCallHandler Req) (rep : Rep) :
    ClientStreamingCallHandler Req :=
  h.startBatch (.response (serialize rep))

/-- `send_failure`. -/
def sendFailure (h : ClientStreamingCallHandler Req) (error : Exception) :
    ClientStreamingCallHandler Req :=
  let (status, details) := getErrorDetails error
  h.startBatch (.failure status details)

/-- `finish`, the `finally` callback on the reply. -/
def finish [Serializer Rep] (h : ClientStreamingCallHandler Req) :
    Except Exception Rep → ClientStreamingCallHandler Req
  | .ok rep => h.sendUnaryResponse rep
  | .error e => h.sendFailure e

/-- `perform` as a whole. `cb` is what calling the user's handler with `reader_prom_.get_future()`
    does: it throws, and nothing catches it, or it returns a future, which may be resolved
    already. -/
def perform [Serializer Rep] (h : ClientStreamingCallHandler Req)
    (cb : Except Exception (Option (Except Exception Rep))) :
    Except Exception (ClientStreamingCallHandler Req) :=
  let h := { h with readerProm := h.readerProm.getFuture }
  match cb with
  | .error e => .error e
  | .ok replyFut =>
      let h := h.startBatch .first
      .ok (match replyFut with
        | some rep => h.finish rep
        | none => h)

/-- `exec`, whose result is whether the handler is to be deleted. -/
def exec [Serializer Req] (h : ClientStreamingCallHandler Req) (flags : BitVec 4) :
    Bool × ClientStreamingCallHandler Req :=
  let allDone := flags.getLsbD 0
  let h :=
    if !allDone then
      match h.payload with
      | some rawData =>
          -- The next read is started before the request is handed on.
          let h := { h with payload := none }.startBatch .recv
          { h with readerProm := h.readerProm.push (deserialize rawData) }
      | none => { h with readerProm := h.readerProm.complete }
    else h
  (allDone, h)

/-- Where the receive operations of a batch write to; `cancelled_` is never read. -/
def receive (h : ClientStreamingCallHandler Req) (b : UploadServerBatch) (r : Received) :
    ClientStreamingCallHandler Req :=
  if b.isRead then { h with payload := r.message } else h

instance [Serializer Req] :
    CompletionCallback (ClientStreamingCallHandler Req) UploadServerBatch where
  call := call
  setCall h c := { h with call := c }
  receive := receive
  exec := exec

end ClientStreamingCallHandler

/-! ## The handler, the reply and the completion thread -/

/-- A handler together with the reply future the user's handler returned. -/
structure UploadServer (Req Rep : Type) where
  handler : Live (ClientStreamingCallHandler Req)
  /-- What the user's handler has resolved its future with. -/
  reply : Option (Except Exception Rep) := none
  /-- `perform` has started the first batch. -/
  reading : Bool := false
  /-- `perform` has attached `finish` to the reply. -/
  attached : Bool := false

namespace UploadServer

open ClientStreamingCallHandler

inductive Event (Rep : Type) where
  /-- The user's handler replies, or fails to. -/
  | reply (o : Except Exception Rep)
  /-- `perform` starts the first batch. -/
  | startReading
  /-- `perform` attaches to the reply. -/
  | attach
  /-- The completion thread handles the `i`-th outstanding batch. -/
  | complete (i : ℕ) (r : Received)

variable [Serializer Req] [Serializer Rep]

def step (c : UploadServer Req Rep) : Event Rep → Option (UploadServer Req Rep)
  | .reply o =>
      if c.reply.isSome then none
      else some { c with
        reply := some o
        handler := if c.attached then c.handler.update (·.finish o) else c.handler }
  | .startReading =>
      if c.reading then none
      else some { c with reading := true, handler := c.handler.update (·.startBatch .first) }
  | .attach =>
      if c.reading && !c.attached then
        some { c with
          attached := true
          handler := match c.reply with
            | some o => c.handler.update (·.finish o)
            | none => c.handler }
      else none
  | .complete i r => (c.handler.workerMain i r).map (fun handler => { c with handler })

def machine (Req Rep : Type) [Serializer Req] [Serializer Rep] :
    Machine (UploadServer Req Rep) (Event Rep) where
  init := { handler := ⟨.create, false⟩ }
  step := step

end UploadServer

end EasyGrpc
