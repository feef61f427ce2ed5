import EasyGrpc.Core.Wire
import EasyGrpc.Client.ServerStreaming
import EasyGrpc.Server.ServerStreaming

set_option autoImplicit false

/-! # A server-streaming RPC

One client session and one server handler, each with its own completion thread, connected by gRPC
core. The listener calls `perform` once it has the request; the user's handler returns a reply
stream or throws. -/

namespace EasyGrpc

structure StreamingRpc (Req Rep : Type) where
  client : StreamingClient Rep
  server : StreamingServer Req Rep
  /-- How many messages gRPC core has yielded to the server. -/
  toServer : ℕ := 0
  /-- How many replies gRPC core has yielded to the client. -/
  toClient : ℕ := 0

namespace StreamingRpc

variable {Req Rep : Type}

inductive Event (Rep : Type) where
  /-- The listener hands the request to `perform`. -/
  | perform
  | attach
  /-- The user's handler throws. -/
  | handlerThrows (e : Exception)
  /-- The user's handler pushes a reply. -/
  | handlerPush (rep : Rep)
  /-- The user's handler ends its reply stream. -/
  | handlerEnd (t : StreamEnd)
  /-- The client's completion thread handles the `i`-th outstanding batch. -/
  | clientDone (i : ℕ) (errorString : Option CString)
  /-- The server's completion thread handles the `i`-th outstanding batch. -/
  | serverDone (i : ℕ)

/-- What the client can receive. -/
def serverPeer (s : StreamingRpc Req Rep) : Peer := .ofServer s.server.handler.obj.call s.toClient

/-- What the server can receive. -/
def clientPeer (s : StreamingRpc Req Rep) : Peer := .ofClient s.client.session.obj.call s.toServer

variable [Serializer Req] [Serializer Rep]

def stepServer (s : StreamingRpc Req Rep) (e : StreamingServer.Event Rep) :
    Option (StreamingRpc Req Rep) :=
  (s.server.step e).map (fun server => { s with server })

def step (s : StreamingRpc Req Rep) : Event Rep → Option (StreamingRpc Req Rep)
  | .perform =>
      match s.clientPeer.read with
      | some (some payload) =>
          (s.stepServer (.perform payload)).map (fun s => { s with toServer := s.toServer + 1 })
      | _ => none
  | .attach => s.stepServer .attach
  | .handlerThrows e => s.stepServer (.throws e)
  | .handlerPush rep => s.stepServer (.push rep)
  | .handlerEnd t => s.stepServer (.finish t)
  | .clientDone i errorString =>
      s.client.session.obj.call.outstanding[i]?.bind (fun b =>
        (s.serverPeer.receive (BatchSpec.ops b) errorString).bind (fun r =>
          (s.client.step (.complete i r)).map (fun client =>
            { s with client, toClient := s.serverPeer.posAfter r })))
  | .serverDone i =>
      s.server.handler.obj.call.outstanding[i]?.bind (fun b =>
        (s.clientPeer.receive (BatchSpec.ops b) none).bind (fun r => s.stepServer (.complete i r)))

/-- `start_server_streaming_call` has returned. -/
def machine (Rep : Type) [Serializer Rep] (req : Req) :
    Machine (StreamingRpc Req Rep) (Event Rep) where
  init :=
    { client :=
        { session := ⟨{ (.create req : StreamingCallSession Rep) with
            replyStreamPromise := ({} : StreamPromise Rep).getFuture }, false⟩
          returned := true }
      server := (StreamingServer.machine Req Rep).init }
  step := step

/-- The user's handler returns a stream and completes it. -/
def normalEnd : Event Rep → Bool
  | .handlerThrows _ => false
  | .handlerEnd t => t.isComplete
  | _ => true

end StreamingRpc

end EasyGrpc
