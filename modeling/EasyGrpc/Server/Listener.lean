import EasyGrpc.Server.Unary
import EasyGrpc.Server.ClientStreaming
import EasyGrpc.Server.ServerStreaming
import EasyGrpc.Server.BidirStreaming

set_option autoImplicit false

/-! # The listener of a method

`Method_listener` (`listener.h`) keeps one handler object ready and one request for a call
outstanding. When a call is accepted, `exec` performs it on that object and injects a new one.
`exec` is `noexcept`: an exception that leaves `perform` ends the process. -/

namespace EasyGrpc

/-! ## Handler classes -/

/-- What the listener uses of its `HandlerT`: how an object starts out, and `perform`. The `payload`
    is set by gRPC core for the classes that ask for it, and what calling the user's handler did is
    an exception or a result in `ρ`. `perform` may itself let an exception through. -/
structure HandlerType (η ρ : Type) where
  fresh : η
  perform : η → Buffer → Except Exception ρ → Except Exception η

/-- The five handler classes. -/
inductive RpcKind where
  | unarySync
  | unaryAsync
  | clientStreaming
  | serverStreaming
  | bidirStreaming
deriving DecidableEq, Repr

namespace RpcKind

/-- The objects of a class. -/
def Handler (Req : Type) : RpcKind → Type
  | .unarySync | .unaryAsync => UnaryCallHandler
  | .clientStreaming => ClientStreamingCallHandler Req
  | .serverStreaming => ServerStreamingCallHandler
  | .bidirStreaming => BidirStreamingCallHandler Req

/-- What the user's handler returns: a reply, a future, resolved already or not, or a stream with
    whatever is in it already. -/
def Returned (Rep : Type) : RpcKind → Type
  | .unarySync => Rep
  | .unaryAsync | .clientStreaming => Option (Except Exception Rep)
  | .serverStreaming | .bidirStreaming => Source Rep

/-- The statuses an object has put on the wire. -/
def statuses {Req : Type} : (k : RpcKind) → k.Handler Req → List (StatusCode × String)
  | .unarySync, h | .unaryAsync, h => UnaryCallHandler.call h |>.statuses
  | .clientStreaming, h => ClientStreamingCallHandler.call h |>.statuses
  | .serverStreaming, h => ServerStreamingCallHandler.call h |>.statuses
  | .bidirStreaming, h => BidirStreamingCallHandler.call h |>.statuses

def handlerType (Req Rep : Type) [Serializer Req] [Serializer Rep] :
    (k : RpcKind) → HandlerType (k.Handler Req) (k.Returned Rep)
  | .unarySync =>
      { fresh := ({} : UnaryCallHandler)
        perform := fun h payload (cb : Except Exception Rep) =>
          .ok (UnaryCallHandler.perform h (.sync (fun _ : Req => cb)) payload) }
  | .unaryAsync =>
      { fresh := ({} : UnaryCallHandler)
        perform := fun h payload (cb : Except Exception (Option (Except Exception Rep))) =>
          .ok (UnaryCallHandler.perform h (.async (fun _ : Req => cb)) payload) }
  | .clientStreaming =>
      { fresh := ({ readerProm := {} } : ClientStreamingCallHandler Req)
        perform := fun h _ (cb : Except Exception (Option (Except Exception Rep))) =>
          ClientStreamingCallHandler.perform h cb }
  | .serverStreaming =>
      { fresh := ({} : ServerStreamingCallHandler)
        perform := fun h _ (cb : Except Exception (Source Rep)) =>
          .ok (ServerStreamingCallHandler.perform h cb) }
  | .bidirStreaming =>
      { fresh := ({ readerProm := {} } : BidirStreamingCallHandler Req)
        perform := fun h _ (cb : Except Exception (Source Rep)) =>
          BidirStreamingCallHandler.perform h cb }

end RpcKind

/-! ## The listener -/

/-- A listener and what became of the objects it made, which are numbered in order. -/
structure MethodListener (η : Type) where
  /-- `pending_call_`, with its number. -/
  pendingCall : Option (ℕ × η) := none
  /-- The outstanding `grpc_server_request_registered_call`s, by the object they write to. -/
  requests : List ℕ := []
  /-- How many objects were made. -/
  created : ℕ := 0
  /-- The objects for which a call was accepted, in order. -/
  accepted : List ℕ := []
  /-- The objects `perform` was called on, in order. -/
  invoked : List ℕ := []
  /-- The objects on which it has returned, as it has left them. -/
  performed : List (ℕ × η) := []
  /-- `exec` has returned true. -/
  deleted : Bool := false
  /-- The exception that has left `exec`. -/
  terminated : Option Exception := none

namespace MethodListener

variable {η ρ : Type}

/-- `inject`. -/
def inject (H : HandlerType η ρ) (l : MethodListener η) : MethodListener η :=
  { l with
    pendingCall := some (l.created, H.fresh)
    created := l.created + 1
    requests := l.requests ++ [l.created] }

/-- `exec` for a request that has succeeded; a null `pending_call_` would be dereferenced. -/
def exec (H : HandlerType η ρ) (l : MethodListener η) (payload : Buffer) (cb : Except Exception ρ) :
    Option (MethodListener η) :=
  l.pendingCall.map (fun (id, h) =>
    let l := { l with invoked := l.invoked ++ [id] }
    match H.perform h payload cb with
    | .error e => { l with terminated := some e }
    | .ok h => { l with performed := l.performed ++ [(id, h)], pendingCall := none }.inject H)

inductive Event (ρ : Type) where
  /-- The `i`-th outstanding request completes with a call; `cb` is what calling the user's handler
      does. -/
  | accept (i : ℕ) (payload : Buffer) (cb : Except Exception ρ)
  /-- It completes without one: the server shuts down. -/
  | shutdown (i : ℕ)

/-- One turn of `worker_main`, as long as the process and the listener exist. -/
def step (H : HandlerType η ρ) (l : MethodListener η) : Event ρ → Option (MethodListener η)
  | .accept i payload cb =>
      if l.deleted || l.terminated.isSome then none
      else l.requests[i]?.bind (fun id =>
        { l with requests := l.requests.eraseIdx i, accepted := l.accepted ++ [id] }.exec H payload cb)
  | .shutdown i =>
      if l.deleted || l.terminated.isSome then none
      else l.requests[i]?.map (fun _ =>
        { l with requests := l.requests.eraseIdx i, deleted := true })

/-- `listen`: a new listener, and the first `inject`. -/
def machine (H : HandlerType η ρ) : Machine (MethodListener η) (Event ρ) where
  init := ({} : MethodListener η).inject H
  step := step H

end MethodListener

end EasyGrpc
