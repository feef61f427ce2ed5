import EasyGrpc.Library.Machine
import EasyGrpc.Core.CompletionQueue

set_option autoImplicit false

/-! # The server of a unary call

`Unary_call_handler`, synchronous and asynchronous (`unary.h`), with `send_unary_response` and
`send_failure` of its base class (`call_handler.h`). `perform` calls the user's handler inside a
`try`; what the handler returns, throws or resolves its future with is answered by one batch, whose
completion deletes the object. -/

namespace EasyGrpc

variable {Req Rep : Type}

/-! ## The handler -/

/-- The batches a handler starts. -/
inductive UnaryServerBatch where
  /-- `send_unary_response`. -/
  | response (message : Buffer)
  /-- `send_failure`. -/
  | failure (status : StatusCode) (details : String)
deriving DecidableEq, Repr

/-- `finish` sends the answer with metadata and with no flags. -/
instance : BatchSpec UnaryServerBatch where
  ops
    | .response m =>
        [.sendMessage m, .sendStatusFromServer .ok none, .recvCloseOnServer, .sendInitialMetadata]
    | .failure status details =>
        [.sendStatusFromServer status (some details), .recvCloseOnServer, .sendInitialMetadata]
  flags _ := 0

/-- `Unary_call_handler_base`. The listener has set `payload_` before it calls `perform`. -/
structure UnaryCallHandler where
  call : Call UnaryServerBatch := {}

namespace UnaryCallHandler

def startBatch (h : UnaryCallHandler) (b : UnaryServerBatch) : UnaryCallHandler :=
  { h with call := h.call.startBatch b }

/-- `send_unary_response`. -/
def sendUnaryResponse [Serializer Rep] (h : UnaryCallHandler) (rep : Rep) : UnaryCallHandler :=
  h.startBatch (.response (serialize rep))

/-- `send_failure`. -/
def sendFailure (h : UnaryCallHandler) (error : Exception) : UnaryCallHandler :=
  let (status, details) := getErrorDetails error
  h.startBatch (.failure status details)

/-- `finish`. -/
def finish [Serializer Rep] (h : UnaryCallHandler) : Except Exception Rep → UnaryCallHandler
  | .ok rep => h.sendUnaryResponse rep
  | .error e => h.sendFailure e

/-- `exec`: whatever has completed, the handler is to be deleted. -/
def exec (h : UnaryCallHandler) (_ : BitVec 4) : Bool × UnaryCallHandler := (true, h)

/-- The batches receive nothing but `cancelled_`, which is never read. -/
instance : CompletionCallback UnaryCallHandler UnaryServerBatch where
  call := call
  setCall h c := { h with call := c }
  receive h _ _ := h
  exec := exec

end UnaryCallHandler

/-! ## The user's handler -/

/-- The user's handler, by what calling it does: it throws, or it returns a reply (`sync`) or a
    future of one (`async`), which may be resolved already. -/
inductive UnaryMethod (Req Rep : Type) where
  | sync (handler : Req → Except Exception Rep)
  | async (handler : Req → Except Exception (Option (Except Exception Rep)))

/-- What `perform` knows of the reply once it has called the user's handler; `none` while the future
    it was given is pending. -/
def UnaryMethod.invoke : UnaryMethod Req Rep → Req → Option (Except Exception Rep)
  -- The `catch` clause makes the exception the result.
  | .sync handler, req => some (handler req)
  | .async handler, req =>
      match handler req with
      | .ok future => future
      | .error e => some (.error e)

/-- `perform`: the answer, if there is one already. -/
def UnaryCallHandler.perform [Serializer Req] [Serializer Rep] (h : UnaryCallHandler)
    (handler : UnaryMethod Req Rep) (payload : Buffer) : UnaryCallHandler :=
  match handler.invoke (deserialize payload) with
  | some rep => h.finish rep
  | none => h

/-! ## The handler, the reply and the completion thread -/

/-- A handler together with the reply of the user's handler. -/
structure UnaryServer (Rep : Type) where
  handler : Live UnaryCallHandler
  performed : Bool := false
  /-- What the user's handler has returned, thrown, or resolved its future with. -/
  outcome : Option (Except Exception Rep) := none

namespace UnaryServer

inductive Event (Rep : Type) where
  /-- `perform` calls the user's handler. -/
  | perform (payload : Buffer)
  /-- The future of an asynchronous handler is resolved. -/
  | reply (o : Except Exception Rep)
  /-- The completion thread handles the `i`-th outstanding batch. -/
  | complete (i : ℕ) (r : Received)

variable [Serializer Req] [Serializer Rep]

def step (method : UnaryMethod Req Rep) (c : UnaryServer Rep) : Event Rep → Option (UnaryServer Rep)
  | .perform payload =>
      if c.performed then none
      else some
        { performed := true
          outcome := method.invoke (deserialize payload)
          handler := c.handler.update (·.perform method payload) }
  | .reply o =>
      if c.performed && c.outcome.isNone then
        some { c with outcome := some o, handler := c.handler.update (·.finish o) }
      else none
  | .complete i r => (c.handler.workerMain i r).map (fun handler => { c with handler })

def machine (method : UnaryMethod Req Rep) : Machine (UnaryServer Rep) (Event Rep) where
  init := { handler := ⟨{}, false⟩ }
  step := step method

end UnaryServer

end EasyGrpc
