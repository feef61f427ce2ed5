import EasyGrpc.Library.Mutex
import EasyGrpc.Client.BidirStreaming

set_option autoImplicit false

/-! # Callbacks of the caller inside a bidirectional session

`Bidir_streaming_call_session` (`stub_impl.h`) again, with `mtx_` and with what the caller's
callbacks on the reply stream do. With an immediate executor a callback runs inside `rep_.push`,
`rep_.complete` or `rep_.set_exception`, on the completion thread, and may push to the request
stream of the same call or end it; that runs the session's own callbacks, which lock `mtx_`. Replies
that waited for a callback to be attached are handed over by the thread that attaches it, which
holds nothing: what the callback does for them is an ordinary `request`. -/

namespace EasyGrpc

variable {Req Rep : Type}

/-- A client whose caller has callbacks on the reply stream. -/
structure BidirCaller (Req Rep : Type) where
  client : BidirClient Req Rep
  /-- The callbacks are attached. -/
  listening : Bool := false
  /-- A thread has tried to lock `mtx_` while it held it. -/
  stuck : Bool := false

namespace BidirCaller

open BidirStreamingCallSession

inductive Event (Req : Type) where
  /-- A thread outside the session pushes a request or ends the request stream. -/
  | request (op : StreamOp Req)
  /-- The caller attaches its callbacks. -/
  | listen
  /-- The last statement of `start_bidir_streaming_call`. -/
  | getFuture
  /-- The completion thread handles the `i`-th outstanding batch; `reaction` is what the callback
      does with the request stream if this runs one. -/
  | complete (i : ℕ) (r : Received) (reaction : List (StreamOp Req))

/-- `f` on the session. -/
def onSession (c : BidirClient Req Rep)
    (f : BidirStreamingCallSession Rep → BidirStreamingCallSession Rep) : BidirClient Req Rep :=
  { c with session := { c.session with obj := f c.session.obj } }

variable [Serializer Req] [Serializer Rep]

/-- One operation on the request stream: the `for_each` and `finally` callbacks of the constructor
    lock `mtx_`. A stream that is over takes nothing more. -/
def act (g : Guarded (BidirClient Req Rep)) : StreamOp Req → Option (Guarded (BidirClient Req Rep))
  | .push req =>
      match g.val.requests.push req with
      | none => some g
      | some requests => g.withLock (fun c =>
          { c with requests, session := c.session.update (·.onRequest req) })
  | .finish t =>
      match g.val.requests.finish t with
      | none => some g
      | some requests => g.withLock (fun c =>
          { c with requests, session := c.session.update (·.onRequestsEnd t) })

/-- An operation on `rep_`, with the callback it runs. -/
def deliver (g : Guarded (BidirClient Req Rep)) (listening : Bool) (op : StreamOp Rep)
    (reaction : List (StreamOp Req)) : Option (Guarded (BidirClient Req Rep)) :=
  let g := g.map (onSession · (fun s => { s with rep := s.rep.apply op }))
  if listening then reaction.foldlM act g else some g

/-- `exec` with its lock. The end of the replies is delivered before `mtx_` is locked, a reply while
    it is; every other branch runs no callback and is that of `BidirStreamingCallSession.exec`. -/
def exec (g : Guarded (BidirClient Req Rep)) (listening : Bool) (flags : BitVec 4)
    (reaction : List (StreamOp Req)) : Option (Bool × Guarded (BidirClient Req Rep)) :=
  let s := g.val.session.obj
  if flags.getLsbD 3 then
    match finalEnd s.status s.errorString with
    | none => some (true, g)
    | some t => do
        let g ← deliver g listening (.finish t) reaction
        return (true, g)
  else do
    let g ← g.lock
    if flags.getLsbD 1 || flags.getLsbD 2 || flags.getLsbD 0 then
      return (false, (g.map (onSession · (fun s => (s.exec flags).2))).unlock)
    else
      match s.recvBuffer with
      | some data =>
          let g := g.map (onSession · (fun s => { s with recvBuffer := none }.startBatch .read))
          let g ← deliver g listening (.push (deserialize data)) reaction
          return (false, g.unlock)
      | none => return (false, (g.map (onSession · (fun s => (s.exec flags).2))).unlock)

/-- The thread goes on with what it has changed, or is stuck. -/
def settle (c : BidirCaller Req Rep) : Option (BidirClient Req Rep) → BidirCaller Req Rep
  | some client => { c with client }
  | none => { c with stuck := true }

def step (c : BidirCaller Req Rep) (e : Event Req) : Option (BidirCaller Req Rep) :=
  if c.stuck then none
  else match e with
  | .request op =>
      if c.client.returned && c.client.requests.terminal.isNone then
        some (c.settle ((act ⟨c.client, false⟩ op).map Guarded.val))
      else none
  | .listen =>
      if c.client.returned && !c.listening then some { c with listening := true } else none
  | .getFuture => (c.client.step .getFuture).map (fun client => { c with client })
  | .complete i r reaction =>
      match c.client.session.obj.call.outstanding[i]? with
      | none => none
      | some b =>
          if c.client.session.deleted then
            (c.client.step (.complete i r)).map (fun client => { c with client })
          else
            let client := onSession c.client (fun s => Live.completed s i b r)
            -- The process ends where the exception of `Rpc_error` leaves `exec`.
            if client.session.obj.aborts (BatchSpec.flags b) then none
            else some (c.settle ((exec ⟨client, false⟩ c.listening (BatchSpec.flags b) reaction).map
                (fun (kill, g) => { g.val with session := { g.val.session with deleted := kill } })))

def machine (Req Rep : Type) [Serializer Req] [Serializer Rep] :
    Machine (BidirCaller Req Rep) (Event Req) where
  init := { client := (BidirClient.machine Req Rep).init }
  step := step

end BidirCaller

end EasyGrpc
