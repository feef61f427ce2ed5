import EasyGrpc.Library.Mutex
import EasyGrpc.Server.BidirStreaming

set_option autoImplicit false

/-! # Callbacks of the user inside a bidirectional handler

`Bidir_streaming_call_handler` (`bidir_streaming.h`) again, with `mtx_` and with what the user's
callbacks on the request stream do. With an immediate executor a callback runs inside
`reader_prom_.push` or `reader_prom_.complete`, on the completion thread, and may push to the reply
stream of the same call or end it, which runs `push`, `finish` or `fail` once `perform` has attached
to that stream. -/

namespace EasyGrpc

variable {Req Rep : Type}

/-- A handler whose user has callbacks on the request stream. -/
structure BidirResponder (Req Rep : Type) where
  server : BidirServer Req Rep
  /-- The callbacks are attached. -/
  listening : Bool := false
  /-- A thread has tried to lock `mtx_` while it held it. -/
  stuck : Bool := false

namespace BidirResponder

open BidirStreamingCallHandler

inductive Event (Rep : Type) where
  /-- A thread outside the handler pushes a reply or ends the reply stream. -/
  | reply (op : StreamOp Rep)
  /-- The user attaches its callbacks. -/
  | listen
  /-- `perform` attaches to the reply stream. -/
  | attach
  /-- `perform` starts the handshake. -/
  | startHandshake
  /-- The completion thread handles the `i`-th outstanding batch; `reaction` is what the callback
      does with the reply stream if this runs one. -/
  | complete (i : ℕ) (r : Received) (reaction : List (StreamOp Rep))

/-- `f` on the handler. -/
def onHandler (c : BidirServer Req Rep)
    (f : BidirStreamingCallHandler Req → BidirStreamingCallHandler Req) : BidirServer Req Rep :=
  { c with handler := { c.handler with obj := f c.handler.obj } }

variable [Serializer Req] [Serializer Rep]

/-- A callback of `perform` on the reply stream, which locks `mtx_`. -/
def callback (g : Guarded (BidirServer Req Rep))
    (f : BidirStreamingCallHandler Req → BidirStreamingCallHandler Req) :
    Option (Guarded (BidirServer Req Rep)) :=
  g.withLock (fun c => { c with handler := c.handler.update f })

/-- One operation on the reply stream; a stream that is over takes nothing more. -/
def act (g : Guarded (BidirServer Req Rep)) : StreamOp Rep → Option (Guarded (BidirServer Req Rep))
  | .push rep =>
      match g.val.replies.push rep with
      | none => some g
      | some replies =>
          let g := g.map (fun c => { c with replies })
          if replies.attached then callback g (·.push rep) else some g
  | .finish t =>
      match g.val.replies.finish t with
      | none => some g
      | some replies =>
          let g := g.map (fun c => { c with replies })
          if replies.attached then callback g (·.onRepliesEnd t) else some g

/-- `perform` attaches to the reply stream: each reply that waited, then the end, goes through its
    callback. -/
def drain (g : Guarded (BidirServer Req Rep)) (replies : Source Rep) :
    Option (Guarded (BidirServer Req Rep)) := do
  let g ← replies.pushed.foldlM (fun g rep => callback g (·.push rep)) g
  match replies.terminal with
  | some t => callback g (·.onRepliesEnd t)
  | none => return g

/-- An operation on `reader_prom_`, with the callback it runs. -/
def deliver (g : Guarded (BidirServer Req Rep)) (listening : Bool) (op : StreamOp Req)
    (reaction : List (StreamOp Rep)) : Option (Guarded (BidirServer Req Rep)) :=
  let g := g.map (onHandler · (fun h => { h with readerProm := h.readerProm.apply op }))
  if listening then reaction.foldlM act g else some g

/-- `exec` with its lock. The blocks for the handshake and for a send are those of
    `BidirStreamingCallHandler.exec` without the read flag; the read block unlocks `mtx_` before it
    hands anything on. -/
def exec (g : Guarded (BidirServer Req Rep)) (listening : Bool) (flags : BitVec 4)
    (reaction : List (StreamOp Rep)) : Option (Bool × Guarded (BidirServer Req Rep)) := do
  let g ← g.lock
  let g := g.map (onHandler · (fun h => (h.exec (flags &&& 14)).2))
  let closing := flags.getLsbD 2
  if flags.getLsbD 0 then
    match g.val.handler.obj.payload with
    | some rawData =>
        let g := g.map (onHandler · (fun h => { h with payload := none }.startBatch .recv))
        let g ← deliver g.unlock listening (.push (deserialize rawData)) reaction
        return (closing, g.unlock)
    | none =>
        let g ← deliver g.unlock listening (.finish .complete) reaction
        return (closing, g.unlock)
  else return (closing, g.unlock)

/-- The thread goes on with what it has changed, or is stuck. -/
def settle (c : BidirResponder Req Rep) : Option (BidirServer Req Rep) → BidirResponder Req Rep
  | some server => { c with server }
  | none => { c with stuck := true }

def step (c : BidirResponder Req Rep) (e : Event Rep) : Option (BidirResponder Req Rep) :=
  if c.stuck then none
  else match e with
  | .reply op =>
      if c.server.replies.terminal.isNone then
        some (c.settle ((act ⟨c.server, false⟩ op).map Guarded.val))
      else none
  | .listen => if c.listening then none else some { c with listening := true }
  | .attach =>
      c.server.replies.attach.map (fun replies =>
        c.settle ((drain ⟨{ c.server with replies }, false⟩ replies).map Guarded.val))
  | .startHandshake => (c.server.step .startHandshake).map (fun server => { c with server })
  | .complete i r reaction =>
      match c.server.handler.obj.call.outstanding[i]? with
      | none => none
      | some b =>
          if c.server.handler.deleted then
            (c.server.step (.complete i r)).map (fun server => { c with server })
          else
            let server := onHandler c.server (fun h => Live.completed h i b r)
            some (c.settle ((exec ⟨server, false⟩ c.listening (BatchSpec.flags b) reaction).map
              (fun (kill, g) => { g.val with handler := { g.val.handler with deleted := kill } })))

def machine (Req Rep : Type) [Serializer Req] [Serializer Rep] :
    Machine (BidirResponder Req Rep) (Event Rep) where
  init := { server := (BidirServer.machine Req Rep).init }
  step := step

end BidirResponder

end EasyGrpc
