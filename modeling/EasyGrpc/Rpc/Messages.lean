import EasyGrpc.Library.Recording
import EasyGrpc.Core.Protobuf
import EasyGrpc.Client.Unary
import EasyGrpc.Client.ServerStreaming
import EasyGrpc.Client.ClientStreaming
import EasyGrpc.Client.BidirStreaming
import EasyGrpc.Server.Unary
import EasyGrpc.Server.ServerStreaming
import EasyGrpc.Server.ClientStreaming
import EasyGrpc.Server.BidirStreaming

set_option autoImplicit false

/-! # The messages user code is given

Four sessions deserialize replies and four handlers deserialize requests. Each is seen here as a
`Receiver`: its machine, the byte buffers that reach it, the messages it has passed on to user code,
and how often it has failed the call. -/

namespace EasyGrpc

/-! ## Buffers that arrive -/

/-- A byte buffer received as a message. -/
structure Incoming where
  data : Buffer
  /-- The status that came with it, if any, is `GRPC_STATUS_OK`. -/
  accepted : Bool := true

/-- What the completion of the `i`-th outstanding batch brings an object that still exists. -/
def Live.incoming {σ κ : Type} [BatchSpec κ] [CompletionCallback σ κ] (o : Live σ) (i : ℕ)
    (r : Received) : Option Incoming :=
  if o.deleted then none
  else (CompletionCallback.call o.obj).outstanding[i]?.bind (fun b =>
    if (BatchSpec.ops b).any Op.isRecvMessage then
      r.message.map (fun data =>
        ⟨data, !(BatchSpec.ops b).any Op.isRecvStatus || decide (r.status = .ok)⟩)
    else none)

/-- How many statuses other than `GRPC_STATUS_OK` a server has sent. -/
def Call.failures {κ : Type} [BatchSpec κ] (c : Call κ) : ℕ :=
  c.statuses.countP (fun s => s.1 ≠ .ok)

/-! ## Receivers -/

/-- A machine that receives messages of type `T`. -/
structure Receiver (σ ε T : Type) where
  machine : Machine σ ε
  /-- The byte buffer that arrives in a step. -/
  incoming : σ → ε → Option Incoming
  /-- The messages user code was given, oldest first. -/
  messages : σ → List T
  /-- How often the call or the stream was failed. -/
  failures : σ → ℕ

/-- A byte buffer that has arrived, and what has become of it. -/
structure Arrival (T : Type) where
  data : Buffer
  accepted : Bool
  /-- The messages user code was given for it. -/
  given : List T
  /-- The call or the stream was failed at it. -/
  failed : Bool

/-- User code is given a message only if the parse succeeds, and otherwise the call is failed. -/
structure Arrival.Guarded {T : Type} [MessageLite T] (a : Arrival T) : Prop where
  parsed : a.given ≠ [] → MessageLite.Valid T a.data
  failed : ¬ MessageLite.Valid T a.data → a.failed = true

namespace Receiver

variable {σ ε T : Type}

/-- What a step makes of the buffer that arrives in it. -/
def arrivals (R : Receiver σ ε T) (c : σ) (e : ε) (c' : σ) : List (Arrival T) :=
  (R.incoming c e).toList.map (fun m =>
    { data := m.data
      accepted := m.accepted
      given := (R.messages c').drop (R.messages c).length
      failed := decide (R.failures c < R.failures c') })

/-- The machine with everything that has arrived. -/
def watched (R : Receiver σ ε T) : Machine (Recorded σ (Arrival T)) ε :=
  R.machine.recording R.arrivals

end Receiver

/-! ## The client's four sessions -/

variable {T U : Type}

/-- `Unary_call_completion`. -/
def unaryReplies (T : Type) [Serializer T] [Serializer U] (req : U) :
    Receiver (Live (UnaryCallCompletion T)) UnaryClient.Event T where
  machine := UnaryClient.machine T req
  incoming
    | c, .complete i r => c.incoming i r
  messages c := c.obj.rep.filterMap Resolution.value?
  failures c := (c.obj.rep.filterMap Resolution.error?).length

/-- `Streaming_call_session`. -/
def streamingReplies (T : Type) [Serializer T] [Serializer U] (req : U) :
    Receiver (StreamingClient T) StreamingClient.Event T where
  machine := StreamingClient.machine T req
  incoming
    | c, .complete i r => c.session.incoming i r
    | _, .getFuture => none
  messages c := c.session.obj.replyStreamPromise.values
  failures c := (c.session.obj.replyStreamPromise.ends.filterMap StreamEnd.error?).length

/-- `Client_streaming_call_session`. -/
def uploadReplies (T U : Type) [Serializer T] [Serializer U] :
    Receiver (UploadClient U T) (UploadClient.Event U) T where
  machine := UploadClient.machine U T
  incoming
    | c, .complete i r => c.session.incoming i r
    | _, _ => none
  messages c := c.session.obj.rep.filterMap Resolution.value?
  failures c := (c.session.obj.rep.filterMap Resolution.error?).length

/-- `Bidir_streaming_call_session`. -/
def bidirReplies (T U : Type) [Serializer T] [Serializer U] :
    Receiver (BidirClient U T) (BidirClient.Event U) T where
  machine := BidirClient.machine U T
  incoming
    | c, .complete i r => c.session.incoming i r
    | _, _ => none
  messages c := c.session.obj.rep.values
  failures c := (c.session.obj.rep.ends.filterMap StreamEnd.error?).length

/-! ## The server's four handlers -/

/-- `Unary_call_handler`, synchronous or asynchronous, with the local variable `req` of `perform`:
    what the user's handler is called with. -/
structure UnaryServing (Req Rep : Type) where
  server : UnaryServer Rep
  req : Option Req := none

namespace UnaryServing

variable [Serializer T] [Serializer U]

def step (method : UnaryMethod T U) (c : UnaryServing T U) (e : UnaryServer.Event U) :
    Option (UnaryServing T U) :=
  (c.server.step method e).map (fun server =>
    { server
      req := match e with
        | .perform payload => some (deserialize payload)
        | _ => c.req })

def machine (method : UnaryMethod T U) : Machine (UnaryServing T U) (UnaryServer.Event U) where
  init := { server := (UnaryServer.machine method).init }
  step := step method

end UnaryServing

/-- `Unary_call_handler`. The payload comes with the call. -/
def unaryRequests [Serializer T] [Serializer U] (method : UnaryMethod T U) :
    Receiver (UnaryServing T U) (UnaryServer.Event U) T where
  machine := UnaryServing.machine method
  incoming
    | _, .perform payload => some { data := payload }
    | _, _ => none
  messages c := c.req.toList
  failures c := c.server.handler.obj.call.failures

/-- `Server_streaming_call_handler`. The payload comes with the call. -/
def streamingRequests (T U : Type) [Serializer T] [Serializer U] :
    Receiver (StreamingServer T U) (StreamingServer.Event U) T where
  machine := StreamingServer.machine T U
  incoming
    | _, .perform payload => some { data := payload }
    | _, _ => none
  messages c := c.req.toList
  failures c := c.handler.obj.call.failures

/-- `Client_streaming_call_handler`. -/
def uploadRequests (T U : Type) [Serializer T] [Serializer U] :
    Receiver (UploadServer T U) (UploadServer.Event U) T where
  machine := UploadServer.machine T U
  incoming
    | c, .complete i r => c.handler.incoming i r
    | _, _ => none
  messages c := c.handler.obj.readerProm.values
  failures c := c.handler.obj.call.failures

/-- `Bidir_streaming_call_handler`. -/
def bidirRequests (T U : Type) [Serializer T] [Serializer U] :
    Receiver (BidirServer T U) (BidirServer.Event U) T where
  machine := BidirServer.machine T U
  incoming
    | c, .complete i r => c.handler.incoming i r
    | _, _ => none
  messages c := c.handler.obj.readerProm.values
  failures c := c.handler.obj.call.failures

end EasyGrpc
