import EasyGrpc.Library.Machine
import EasyGrpc.Library.Outbox
import EasyGrpc.Core.CompletionQueue
import EasyGrpc.Core.StreamPromise

set_option autoImplicit false

/-! # The server's bidirectional handler

`Bidir_streaming_call_handler` (`bidir_streaming.h`). `perform` calls the user's handler, attaches
to the reply stream it returns and only then starts the handshake, so the reply stream may hold
values, or be over, before a single batch was started. `push`, `finish` and `fail` run on the thread
that feeds the reply stream, `exec` on the completion thread; each holds `mtx_` for as long as it
touches the queue and the flags. -/

namespace EasyGrpc

variable {Req Rep : Type}

/-! ## The handler -/

/-- The batches a handler starts. -/
inductive BidirServerBatch where
  /-- The initial metadata, started at the end of `perform`. -/
  | handshake
  /-- `flush_`: one reply. -/
  | send (message : Buffer)
  /-- A read, started after the handshake and again after each request. -/
  | recv
  /-- `send_server_end`. -/
  | serverEnd
  /-- `fail`. -/
  | fail
deriving DecidableEq, Repr

namespace BidirServerBatch

def isHandshake : BidirServerBatch → Bool | .handshake => true | _ => false
def isSend : BidirServerBatch → Bool | .send _ => true | _ => false
def isRecv : BidirServerBatch → Bool | .recv => true | _ => false
def isServerEnd : BidirServerBatch → Bool | .serverEnd => true | _ => false
def isFail : BidirServerBatch → Bool | .fail => true | _ => false

end BidirServerBatch

/-- `op_send_status` is called with its defaults by `send_server_end` and by `fail`. -/
instance : BatchSpec BidirServerBatch where
  ops
    | .handshake => [.sendInitialMetadata]
    | .send m => [.sendMessage m]
    | .recv => [.recvMessage]
    | .serverEnd => [.recvCloseOnServer, .sendStatusFromServer .ok none]
    | .fail => [.sendStatusFromServer .ok none, .recvCloseOnServer]
  flags
    | .handshake => 8
    | .send _ => 2
    | .recv => 1
    | .serverEnd => 4
    | .fail => 0

/-- The members of `Bidir_streaming_call_handler`. -/
structure BidirStreamingCallHandler (Req : Type) where
  call : Call BidirServerBatch := {}
  readerProm : StreamPromise Req
  payload : Option Buffer := none
  finished : Bool := false
  readyToSend : Bool := false
  pendingOps : List Buffer := []

namespace BidirStreamingCallHandler

/-- A handler whose `perform` has called the user's handler with `reader_prom_.get_future()`. -/
def create : BidirStreamingCallHandler Req where
  readerProm := ({} : StreamPromise Req).getFuture

def startBatch (h : BidirStreamingCallHandler Req) (b : BidirServerBatch) :
    BidirStreamingCallHandler Req :=
  { h with call := h.call.startBatch b }

/-- `flush_`. Every caller has just queued an operation or seen that the queue is not empty, so the
    empty case is never taken. -/
def flush (h : BidirStreamingCallHandler Req) : BidirStreamingCallHandler Req :=
  if !h.readyToSend then h
  else match h.pendingOps with
    | [] => h
    | op :: rest => { h with readyToSend := false, pendingOps := rest }.startBatch (.send op)

/-- `send_server_end`. -/
def sendServerEnd (h : BidirStreamingCallHandler Req) : BidirStreamingCallHandler Req :=
  h.startBatch .serverEnd

/-- `push`. -/
def push [Serializer Rep] (h : BidirStreamingCallHandler Req) (val : Rep) :
    BidirStreamingCallHandler Req :=
  { h with pendingOps := h.pendingOps ++ [serialize val] }.flush

/-- `finish`. -/
def finish (h : BidirStreamingCallHandler Req) : BidirStreamingCallHandler Req :=
  let h := { h with finished := true }
  if h.readyToSend then h.sendServerEnd else h

/-- `fail`. The exception is not looked at. -/
def fail (h : BidirStreamingCallHandler Req) (_ : Exception) : BidirStreamingCallHandler Req :=
  h.startBatch .fail

/-- The `finally` callback on the reply stream. -/
def onRepliesEnd (h : BidirStreamingCallHandler Req) : StreamEnd → BidirStreamingCallHandler Req
  | .complete => h.finish
  | .failed e => h.fail e

/-- `perform` as a whole. `cb` is what calling the user's handler with `reader_prom_.get_future()`
    does: it throws, and nothing catches it, or it returns a stream with whatever is in it
    already. -/
def perform [Serializer Rep] (h : BidirStreamingCallHandler Req)
    (cb : Except Exception (Source Rep)) : Except Exception (BidirStreamingCallHandler Req) :=
  let h := { h with readerProm := h.readerProm.getFuture }
  match cb with
  | .error e => .error e
  | .ok replyFut => .ok ((replyFut.drain push onRepliesEnd h).startBatch .handshake)

/-- `exec`, whose result is whether the handler is to be deleted. The three blocks are not
    alternatives of one `if`: each looks at its own flag. -/
def exec [Serializer Req] (h : BidirStreamingCallHandler Req) (flags : BitVec 4) :
    Bool × BidirStreamingCallHandler Req :=
  let recvOp := flags.getLsbD 0
  let sendOp := flags.getLsbD 1
  let closing := flags.getLsbD 2
  let handshake := flags.getLsbD 3
  let h :=
    if handshake then
      let h := { h with readyToSend := true }
      let h := if !h.pendingOps.isEmpty then h.flush else h
      h.startBatch .recv
    else h
  let h :=
    if sendOp then
      let h := { h with readyToSend := true }
      if !h.pendingOps.isEmpty then h.flush
      else if h.finished then h.sendServerEnd
      else h
    else h
  let h :=
    if recvOp then
      match h.payload with
      | some rawData =>
          -- The next read is started before the request is handed on.
          let h := { h with payload := none }.startBatch .recv
          { h with readerProm := h.readerProm.push (deserialize rawData) }
      | none => { h with readerProm := h.readerProm.complete }
    else h
  (closing, h)

/-- Where the receive operations of a batch write to; `cancelled_` is never read. -/
def receive (h : BidirStreamingCallHandler Req) (b : BidirServerBatch) (r : Received) :
    BidirStreamingCallHandler Req :=
  match b with
  | .recv => { h with payload := r.message }
  | _ => h

instance [Serializer Req] :
    CompletionCallback (BidirStreamingCallHandler Req) BidirServerBatch where
  call := call
  setCall h c := { h with call := c }
  receive := receive
  exec := exec

end BidirStreamingCallHandler

/-! ## The handler, the reply stream and the completion thread -/

/-- A handler together with the reply stream the user's handler returned. -/
structure BidirServer (Req Rep : Type) where
  handler : Live (BidirStreamingCallHandler Req)
  replies : Source Rep

namespace BidirServer

open BidirStreamingCallHandler BidirServerBatch

inductive Event (Rep : Type) where
  /-- The user's handler pushes a reply. -/
  | push (rep : Rep)
  /-- The user's handler ends its reply stream. -/
  | finish (t : StreamEnd)
  /-- `perform` attaches to the reply stream. -/
  | attach
  /-- `perform` starts the handshake. -/
  | startHandshake
  /-- The completion thread handles the `i`-th outstanding batch. -/
  | complete (i : ℕ) (r : Received)

variable [Serializer Req] [Serializer Rep]

def step (c : BidirServer Req Rep) : Event Rep → Option (BidirServer Req Rep)
  | .push rep => (c.replies.push rep).map (fun replies =>
      { replies, handler := if replies.attached then c.handler.update (·.push rep) else c.handler })
  | .finish t => (c.replies.finish t).map (fun replies =>
      { replies
        handler := if replies.attached then c.handler.update (·.onRepliesEnd t) else c.handler })
  | .attach => c.replies.attach.map (fun replies =>
      { replies
        handler := c.handler.update (replies.drain BidirStreamingCallHandler.push onRepliesEnd) })
  | .startHandshake =>
      if c.replies.attached && c.handler.obj.call.starts isHandshake == 0 then
        some { c with handler := c.handler.update (·.startBatch .handshake) }
      else none
  | .complete i r => (c.handler.workerMain i r).map (fun handler => { c with handler })

def machine (Req Rep : Type) [Serializer Req] [Serializer Rep] :
    Machine (BidirServer Req Rep) (Event Rep) where
  init := { handler := ⟨.create, false⟩, replies := { attached := false } }
  step := step

end BidirServer

end EasyGrpc
