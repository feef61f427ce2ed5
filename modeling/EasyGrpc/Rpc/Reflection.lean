import EasyGrpc.Reflection.ReflectionImpl
import EasyGrpc.Rpc.BidirStreaming

set_option autoImplicit false

/-! # A call of the reflection service

`ServerReflectionInfo` (`reflection_impl.cpp`) as the user's handler of a bidirectional RPC. It
returns the stream of `prom`, which its two callbacks on the request stream fill. They run where the
call's handler pushes into that stream; here each is a step of its own, which may come at any later
time. -/

namespace EasyGrpc

namespace Reflection

structure ReflectionRpc where
  rpc : BidirRpc ServerReflectionRequest ServerReflectionResponse
  /-- The promise behind the responses. -/
  prom : StreamPromise ServerReflectionResponse
  /-- How many operations of the request stream the callbacks have run on. -/
  seen : ℕ := 0

variable {File Message Field : Type}

/-- The callback on a request, or on the end of the requests. -/
def ReflectionImpl.callback (impl : ReflectionImpl File Message Field) (depth : ℕ)
    (prom : StreamPromise ServerReflectionResponse) :
    StreamOp ServerReflectionRequest → Option (StreamPromise ServerReflectionResponse)
  | .push req => impl.onRequest depth prom req
  | .finish _ => some (onEnd prom)

namespace ReflectionRpc

inductive Event where
  /-- A step of the caller, of `perform`, or of one of the two completion threads. -/
  | rpc (e : BidirRpc.Event ServerReflectionRequest ServerReflectionResponse)
  /-- The next callback. -/
  | callback

/-- An operation that reaches the storage of `prom`, as the handler sees it. -/
def handlerEvent : StreamOp ServerReflectionResponse →
    BidirRpc.Event ServerReflectionRequest ServerReflectionResponse
  | .push rep => .handlerPush rep
  | .finish t => .handlerEnd t

/-- The response stream is written by the callbacks only. -/
def isResponse : BidirRpc.Event ServerReflectionRequest ServerReflectionResponse → Bool
  | .handlerPush _ | .handlerEnd _ => true
  | _ => false

variable [Serializer ServerReflectionRequest] [Serializer ServerReflectionResponse]

/-- A callback has made `prom` out of the promise. -/
def respond (s : ReflectionRpc) (prom : StreamPromise ServerReflectionResponse) :
    Option ReflectionRpc :=
  ((BidirRpc.machine _ _).run s.rpc ((prom.log.drop s.prom.log.length).map handlerEvent)).map
    (fun rpc => { rpc, prom, seen := s.seen + 1 })

def step (impl : ReflectionImpl File Message Field) (depth : ℕ) (s : ReflectionRpc) :
    Event → Option ReflectionRpc
  | .rpc e => if isResponse e then none else (s.rpc.step e).map (fun rpc => { s with rpc })
  | .callback =>
      s.rpc.server.handler.obj.readerProm.log[s.seen]?.bind (fun op =>
        (impl.callback depth s.prom op).bind s.respond)

/-- `ServerReflectionInfo` has been called by `perform`, and the client's stub has returned. -/
def machine (impl : ReflectionImpl File Message Field) (depth : ℕ) :
    Machine ReflectionRpc Event where
  init :=
    { rpc := (BidirRpc.machine _ _).init
      prom := ({} : StreamPromise ServerReflectionResponse).getFuture }
  step := step impl depth

end ReflectionRpc

end Reflection

end EasyGrpc
