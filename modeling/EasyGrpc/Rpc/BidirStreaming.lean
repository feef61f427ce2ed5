import EasyGrpc.Core.Wire
import EasyGrpc.Client.BidirStreaming
import EasyGrpc.Server.BidirStreaming

set_option autoImplicit false

/-! # A bidirectional RPC

One client session and one server handler, each with its own completion thread, connected by gRPC
core. A step is a step of the caller, of the user's handler, of `perform`, or the completion of a
batch on either side, bringing what the other side has sent. -/

namespace EasyGrpc

structure BidirRpc (Req Rep : Type) where
  client : BidirClient Req Rep
  server : BidirServer Req Rep
  /-- How many requests gRPC core has yielded to the server. -/
  toServer : ℕ := 0
  /-- How many replies gRPC core has yielded to the client. -/
  toClient : ℕ := 0

namespace BidirRpc

variable {Req Rep : Type}

inductive Event (Req Rep : Type) where
  /-- The caller pushes a request. -/
  | callerPush (req : Req)
  /-- The caller completes its request stream. -/
  | callerEnd
  /-- The user's handler pushes a reply. -/
  | handlerPush (rep : Rep)
  /-- The user's handler ends its reply stream. -/
  | handlerEnd (t : StreamEnd)
  | attach
  | startHandshake
  /-- The client's completion thread handles the `i`-th outstanding batch. -/
  | clientDone (i : ℕ) (errorString : Option CString)
  /-- The server's completion thread handles the `i`-th outstanding batch. -/
  | serverDone (i : ℕ)

/-- What the client can receive. -/
def serverPeer (s : BidirRpc Req Rep) : Peer := .ofServer s.server.handler.obj.call s.toClient

/-- What the server can receive. -/
def clientPeer (s : BidirRpc Req Rep) : Peer := .ofClient s.client.session.obj.call s.toServer

variable [Serializer Req] [Serializer Rep]

def stepClient (s : BidirRpc Req Rep) (e : BidirClient.Event Req) : Option (BidirRpc Req Rep) :=
  (s.client.step e).map (fun client => { s with client })

def stepServer (s : BidirRpc Req Rep) (e : BidirServer.Event Rep) : Option (BidirRpc Req Rep) :=
  (s.server.step e).map (fun server => { s with server })

def step (s : BidirRpc Req Rep) : Event Req Rep → Option (BidirRpc Req Rep)
  | .callerPush req => s.stepClient (.push req)
  | .callerEnd => s.stepClient (.finish .complete)
  | .handlerPush rep => s.stepServer (.push rep)
  | .handlerEnd t => s.stepServer (.finish t)
  | .attach => s.stepServer .attach
  | .startHandshake => s.stepServer .startHandshake
  | .clientDone i errorString =>
      s.client.session.obj.call.outstanding[i]?.bind (fun b =>
        (s.serverPeer.receive (BatchSpec.ops b) errorString).bind (fun r =>
          (s.client.step (.complete i r)).map (fun client =>
            { s with client, toClient := s.serverPeer.posAfter r })))
  | .serverDone i =>
      s.server.handler.obj.call.outstanding[i]?.bind (fun b =>
        (s.clientPeer.receive (BatchSpec.ops b) none).bind (fun r =>
          (s.server.step (.complete i r)).map (fun server =>
            { s with server, toServer := s.clientPeer.posAfter r })))

/-- `start_bidir_streaming_call` has returned and `perform` has called the user's handler. -/
def machine (Req Rep : Type) [Serializer Req] [Serializer Rep] :
    Machine (BidirRpc Req Rep) (Event Req Rep) where
  init :=
    { client :=
        { session := ⟨{ (.create : BidirStreamingCallSession Rep) with
            rep := ({} : StreamPromise Rep).getFuture }, false⟩
          requests := { attached := true }
          returned := true }
      server := (BidirServer.machine Req Rep).init }
  step := step

/-- The user's handler ends its reply stream normally. -/
def normalEnd : Event Req Rep → Bool
  | .handlerEnd t => t.isComplete
  | _ => true

end BidirRpc

end EasyGrpc
