import EasyGrpc.Server.ServerStreaming

set_option autoImplicit false

/-! # The two threads of a server-streaming handler

`Server_streaming_call_handler` (`server_streaming.h`) again, for a reply stream that completes
normally, with the steps between which another thread may run kept apart: locking `mtx_`, the
changes made under it, the start of a batch, unlocking `mtx_`, and the deletion by `worker_main`.
The producer calls `push` any number of times and then `finish`; the completion thread runs `exec`.
No step asks whether the handler still exists. -/

namespace EasyGrpc

variable {Rep : Type}

/-! ## Critical sections -/

namespace ServerStreamingCallHandler

/-- `flush_` up to the batch it starts. -/
def flushBody (h : ServerStreamingCallHandler) :
    ServerStreamingCallHandler × Option StreamingServerBatch :=
  if h.batchInFlight then (h, none)
  else match h.pendingOps with
    | [] => (h, none)
    | op :: rest => ({ h with batchInFlight := true, pendingOps := rest }, some (.write op))

end ServerStreamingCallHandler

/-- What is done under `mtx_`. -/
inductive CriticalSection (Rep : Type) where
  | push (val : Rep)
  | finish
  /-- `exec` for a batch without the flag. -/
  | exec
deriving DecidableEq, Repr

inductive Thread where
  /-- The thread that feeds the reply stream. -/
  | producer
  /-- The thread of the completion queue. -/
  | worker
deriving DecidableEq, Repr

namespace CriticalSection

def thread : CriticalSection Rep → Thread
  | .push _ => .producer
  | .finish => .producer
  | .exec => .worker

variable [Serializer Rep]

/-- The changes made under `mtx_`, and the batch that is started then, if any. -/
def body (s : CriticalSection Rep) (h : ServerStreamingCallHandler) :
    ServerStreamingCallHandler × Option StreamingServerBatch :=
  match s with
  | .push val => { h with pendingOps := h.pendingOps ++ [serialize val] }.flushBody
  | .finish =>
      let h := { h with finished := true }
      (h, if !h.batchInFlight then some .sendEnd else none)
  | .exec =>
      let h := { h with batchInFlight := false }
      if !h.pendingOps.isEmpty then h.flushBody
      else (h, if h.finished then some .sendEnd else none)

/-- The section as the one step it is for the other thread. -/
def whole (s : CriticalSection Rep) (h : ServerStreamingCallHandler) : ServerStreamingCallHandler :=
  match s with
  | .push val => h.push val
  | .finish => h.finish
  | .exec => (h.exec 0).2

end CriticalSection

/-! ## The threads -/

/-- Where a thread is that has entered a critical section. -/
inductive Position (Rep : Type) where
  /-- It locks `mtx_` next. -/
  | waiting (s : CriticalSection Rep)
  /-- It has locked `mtx_`. -/
  | holding (s : CriticalSection Rep)
  /-- It starts a batch next. -/
  | starting (b : StreamingServerBatch)
  /-- It unlocks `mtx_` next. -/
  | leaving
deriving DecidableEq, Repr

/-- A handler whose `perform` has returned, its mutex and the two threads. -/
structure StreamingThreads (Rep : Type) where
  handler : ServerStreamingCallHandler
  /-- The owner of `mtx_`. -/
  mtx : Option Thread := none
  position : Thread → Option (Position Rep) := fun _ => none
  /-- The producer has called `finish`. -/
  ended : Bool := false
  /-- `exec` has returned true; `worker_main` deletes the handler next. -/
  killing : Bool := false
  deleted : Bool := false

namespace StreamingThreads

inductive Event (Rep : Type) where
  /-- The producer calls `push`. -/
  | push (val : Rep)
  /-- The producer calls `finish`, after which it makes no more calls. -/
  | finish
  /-- `worker_main` takes the completion of the `i`-th outstanding batch and calls `exec`. -/
  | complete (i : ℕ)
  /-- `worker_main` deletes the handler. -/
  | delete
  /-- A thread takes its next step inside a critical section. -/
  | advance (t : Thread)
deriving DecidableEq, Repr

variable [Serializer Rep]

def advance (c : StreamingThreads Rep) (t : Thread) : Option (StreamingThreads Rep) :=
  match c.position t with
  | none => none
  | some (.waiting s) =>
      if c.mtx.isSome then none
      else some { c with mtx := some t, position := Function.update c.position t (some (.holding s)) }
  | some (.holding s) =>
      let (handler, batch) := s.body c.handler
      let next := match batch with
        | some b => .starting b
        | none => .leaving
      some { c with handler, position := Function.update c.position t (some next) }
  | some (.starting b) => some { c with
      handler := c.handler.startBatch b, position := Function.update c.position t (some .leaving) }
  | some .leaving => some { c with mtx := none, position := Function.update c.position t none }

def step (c : StreamingThreads Rep) : Event Rep → Option (StreamingThreads Rep)
  | .push val =>
      if (c.position .producer).isSome || c.ended then none
      else some { c with
        position := Function.update c.position .producer (some (.waiting (.push val))) }
  | .finish =>
      if (c.position .producer).isSome || c.ended then none
      else some { c with
        ended := true
        position := Function.update c.position .producer (some (.waiting .finish)) }
  | .complete i =>
      if (c.position .worker).isSome || c.killing then none
      else match c.handler.call.outstanding[i]? with
        | none => none
        | some b =>
            let c := { c with handler := { c.handler with call := c.handler.call.completeAt i } }
            -- `exec` returns true for the flag without locking `mtx_`.
            if (BatchSpec.flags b).getLsbD 0 then some { c with killing := true }
            else some { c with
              position := Function.update c.position .worker (some (.waiting .exec)) }
  | .delete => if c.killing then some { c with killing := false, deleted := true } else none
  | .advance t => c.advance t

/-- `perform` has started the metadata batch and attached to the reply stream. -/
def machine (Rep : Type) [Serializer Rep] : Machine (StreamingThreads Rep) (Event Rep) where
  init := { handler := ServerStreamingCallHandler.startMetadata {} }
  step := step

end StreamingThreads

end EasyGrpc
