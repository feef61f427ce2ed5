import EasyGrpc.Core.Wire
import EasyGrpc.Client.ClientStreaming
import EasyGrpc.Server.ClientStreaming

set_option autoImplicit false

/-! # A client-streaming RPC

One client session and one server handler, each with its own completion thread, connected by gRPC
core. The construction of the session is one step: the composition starts with the request promise
in the caller's hands and the handshake outstanding. -/

namespace EasyGrpc

structure UploadRpc (Req Rep : Type) where
  client : UploadClient Req Rep
  server : UploadServer Req Rep
  /-- How many requests gRPC core has yielded to the server. -/
  toServer : ℕ := 0
  /-- How many replies gRPC core has yielded to the client. -/
  toClient : ℕ := 0

namespace UploadRpc

variable {Req Rep : Type}

inductive Event (Req Rep : Type) where
  /-- The caller pushes a request. -/
  | callerPush (req : Req)
  /-- The caller ends its request stream. -/
  | callerEnd (t : StreamEnd)
  /-- The user's handler replies, or fails to. -/
  | handlerReply (o : Except Exception Rep)
  | startReading
  | attach
  /-- The client's completion thread handles the `i`-th outstanding batch. -/
  | clientDone (i : ℕ) (errorString : Option CString)
  /-- The server's completion thread handles the `i`-th outstanding batch. -/
  | serverDone (i : ℕ)

/-- What the client can receive. -/
def serverPeer (s : UploadRpc Req Rep) : Peer := .ofServer s.server.handler.obj.call s.toClient

/-- What the server can receive. -/
def clientPeer (s : UploadRpc Req Rep) : Peer := .ofClient s.client.session.obj.call s.toServer

variable [Serializer Req] [Serializer Rep]

def stepClient (s : UploadRpc Req Rep) (e : UploadClient.Event Req) : Option (UploadRpc Req Rep) :=
  (s.client.step e).map (fun client => { s with client })

def stepServer (s : UploadRpc Req Rep) (e : UploadServer.Event Rep) : Option (UploadRpc Req Rep) :=
  (s.server.step e).map (fun server => { s with server })

def step (s : UploadRpc Req Rep) : Event Req Rep → Option (UploadRpc Req Rep)
  | .callerPush req => s.stepClient (.push req)
  | .callerEnd t => s.stepClient (.finish t)
  | .handlerReply o => s.stepServer (.reply o)
  | .startReading => s.stepServer .startReading
  | .attach => s.stepServer .attach
  | .clientDone i errorString =>
      s.client.session.obj.call.outstanding[i]?.bind (fun b =>
        (s.serverPeer.receive (BatchSpec.ops b) errorString).bind (fun r =>
          (s.client.step (.complete i r)).map (fun client =>
            { s with client, toClient := s.serverPeer.posAfter r })))
  | .serverDone i =>
      s.server.handler.obj.call.outstanding[i]?.bind (fun b =>
        (s.clientPeer.receive (BatchSpec.ops b) none).bind (fun r =>
          (s.server.step (.complete i r)).map (fun server =>
            { s with server, toServer := s.clientPeer.posAfter r })))

/-- `start_client_streaming_call` has returned and `perform` has called the user's handler. -/
def machine (Req Rep : Type) [Serializer Req] [Serializer Rep] :
    Machine (UploadRpc Req Rep) (Event Req Rep) where
  init :=
    { client :=
        { session := ⟨{ (.create : ClientStreamingCallSession Rep) with
            batchInFlight := true }, false⟩
          requests := { attached := true }
          construction := .returned }
      server := (UploadServer.machine Req Rep).init }
  step := step

end UploadRpc

end EasyGrpc
