import EasyGrpc.Core.Wire
import EasyGrpc.Client.Unary
import EasyGrpc.Server.Unary

set_option autoImplicit false

/-! # A unary RPC

One client completion and one server handler, each with its own completion thread, connected by gRPC
core. `start_unary_call` is one step: the composition starts with its batch outstanding, and the
server's listener accepts the call once the request is there. -/

namespace EasyGrpc

structure UnaryRpc (Rep : Type) where
  client : Live (UnaryCallCompletion Rep)
  server : UnaryServer Rep
  /-- How many replies gRPC core has yielded to the client. -/
  toClient : ℕ := 0

namespace UnaryRpc

variable {Req Rep : Type}

inductive Event (Rep : Type) where
  /-- The listener hands the request to a handler, which performs it. -/
  | accept
  /-- The future of an asynchronous handler is resolved. -/
  | handlerReply (o : Except Exception Rep)
  /-- The client's completion thread handles the `i`-th outstanding batch. -/
  | clientDone (i : ℕ) (errorString : Option CString)
  /-- The server's completion thread handles the `i`-th outstanding batch. -/
  | serverDone (i : ℕ) (r : Received)

/-- What the client can receive. -/
def serverPeer (s : UnaryRpc Rep) : Peer := .ofServer s.server.handler.obj.call s.toClient

variable [Serializer Req] [Serializer Rep]

def stepServer (method : UnaryMethod Req Rep) (s : UnaryRpc Rep) (e : UnaryServer.Event Rep) :
    Option (UnaryRpc Rep) :=
  (s.server.step method e).map (fun server => { s with server })

def step (method : UnaryMethod Req Rep) (s : UnaryRpc Rep) : Event Rep → Option (UnaryRpc Rep)
  | .accept => s.client.obj.call.sent.head?.bind (fun payload =>
      s.stepServer method (.perform payload))
  | .handlerReply o => s.stepServer method (.reply o)
  | .clientDone i errorString =>
      s.client.obj.call.outstanding[i]?.bind (fun b =>
        (s.serverPeer.receive (BatchSpec.ops b) errorString).bind (fun r =>
          (s.client.workerMain i r).map (fun client =>
            { s with client, toClient := s.serverPeer.posAfter r })))
  | .serverDone i r => s.stepServer method (.complete i r)

/-- `start_unary_call` has returned and the listener waits for a call. -/
def machine (method : UnaryMethod Req Rep) (req : Req) : Machine (UnaryRpc Rep) (Event Rep) where
  init :=
    { client := UnaryClient.startUnaryCall Rep req true
      server := (UnaryServer.machine method).init }
  step := step method

end UnaryRpc

end EasyGrpc
