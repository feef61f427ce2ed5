import EasyGrpc.Queue.Parties
import EasyGrpc.Rpc.Unary

set_option autoImplicit false

/-! # A unary method as a service

Any number of calls of one method, from `start_unary_call` on, and the server's side of them. The
sessions of the calls share a completion queue, and the handlers share another one with the
`Method_listener` (`listener.h`) that `Method_impl::listen` has made. gRPC core completes the
listener's request with any call that was started; `exec` performs that call on `pending_call_` and
injects a new handler. -/

namespace EasyGrpc

variable {Req Rep : Type} [Serializer Req] [Serializer Rep]

structure UnaryService (method : UnaryMethod Req Rep) where
  clients : CompletionQueue (fun req : Req => UnaryClient.party Rep req) := {}
  servers : CompletionQueue (fun _ : Unit => UnaryServer.party method) := {}
  /-- `pending_call_` of the listener, for which it has a request outstanding: a party of
      `servers`. -/
  pendingCall : Option ℕ := none
  /-- The calls that were accepted, in order. The `k`-th of them was performed by the `k`-th
      handler. -/
  accepted : List ℕ := []
  /-- How many replies gRPC core has yielded to each call. -/
  toClient : ℕ → ℕ := fun _ => 0

namespace UnaryService

variable {method : UnaryMethod Req Rep}

inductive Event (Req Rep : Type) where
  /-- `start_unary_call`, with the session at `address`. -/
  | start (req : Req) (address : BitVec 64)
  /-- `Method_impl::listen`, with the first handler at `address`. -/
  | listen (address : BitVec 64)
  /-- The listener's request completes with the `n`-th call; the next handler is at `address`. -/
  | accept (n : ℕ) (address : BitVec 64)
  /-- The future the user's handler has given to the `k`-th handler is resolved. -/
  | handlerReply (k : ℕ) (o : Except Exception Rep)
  /-- The clients' completion thread handles the `i`-th batch in flight. -/
  | clientDone (i : ℕ) (errorString : Option CString)
  /-- The server's completion thread handles the `i`-th batch in flight. -/
  | serverDone (i : ℕ) (r : Received)

/-- The session of the `n`-th call. -/
def client (s : UnaryService method) (n : ℕ) : Option (Live (UnaryCallCompletion Rep)) :=
  s.clients.parties[n]?.map (fun p => p.state)

/-- What the `n`-th call was started with. -/
def request (s : UnaryService method) (n : ℕ) : Option Req :=
  s.clients.parties[n]?.map (fun p => p.kind)

/-- The `k`-th handler. -/
def handler (s : UnaryService method) (k : ℕ) : Option (UnaryServer Rep) :=
  s.servers.parties[k]?.map (fun p => p.state)

/-- The handler of the `n`-th call; a new one if the call was not accepted yet. -/
def server (s : UnaryService method) (n : ℕ) : UnaryServer Rep :=
  ((s.accepted.idxOf? n).bind s.handler).getD (UnaryServer.machine method).init

/-- What the session of the `n`-th call can receive. -/
def serverPeer (s : UnaryService method) (n : ℕ) : Peer :=
  .ofServer (s.server n).handler.obj.call (s.toClient n)

/-- The `n`-th call on its own. -/
def rpc (s : UnaryService method) (n : ℕ) : Option (UnaryRpc Rep) :=
  (s.client n).map (fun client => { client, server := s.server n, toClient := s.toClient n })

/-- `inject`: a new handler, and a request for a call to perform on it. -/
def inject (s : UnaryService method) (address : BitVec 64) : Option (UnaryService method) :=
  if s.pendingCall.isSome then none
  else (s.servers.step (.create () address)).map
    (fun servers => { s with servers, pendingCall := some s.servers.parties.length })

/-- `exec` of the listener, whose request was completed with the `n`-th call. -/
def exec (s : UnaryService method) (n : ℕ) (payload : Buffer) (address : BitVec 64) :
    Option (UnaryService method) :=
  s.pendingCall.bind (fun k =>
    (s.servers.step (.act k (fun _ => UnaryServer.Event.perform payload))).bind (fun servers =>
      { s with servers, pendingCall := none, accepted := s.accepted ++ [n] }.inject address))

def step (s : UnaryService method) : Event Req Rep → Option (UnaryService method)
  | .start req address =>
      (s.clients.step (.create req address)).map (fun clients => { s with clients })
  | .listen address => if s.servers.parties.isEmpty then s.inject address else none
  | .accept n address =>
      if n ∈ s.accepted then none
      else (s.client n).bind (fun c =>
        c.obj.call.sent.head?.bind (fun payload => s.exec n payload address))
  | .handlerReply k o =>
      (s.servers.step (.act k (fun _ => UnaryServer.Event.reply o))).map
        (fun servers => { s with servers })
  | .clientDone i errorString =>
      s.clients.inFlight[i]?.bind (fun b => (s.client b.party).bind (fun c =>
        c.obj.call.outstanding[s.clients.position i b]?.bind (fun batch =>
          ((s.serverPeer b.party).receive (BatchSpec.ops batch) errorString).bind (fun r =>
            (s.clients.step (.complete i r)).map (fun clients =>
              { s with
                clients
                toClient :=
                  Function.update s.toClient b.party ((s.serverPeer b.party).posAfter r) })))))
  | .serverDone i r => (s.servers.step (.complete i r)).map (fun servers => { s with servers })

/-- No call was started, and the method is not listened for. -/
def machine (method : UnaryMethod Req Rep) : Machine (UnaryService method) (Event Req Rep) where
  init := {}
  step := step

end UnaryService

end EasyGrpc
