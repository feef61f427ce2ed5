import EasyGrpc.Library.Machine
import EasyGrpc.Core.Call
import EasyGrpc.Core.StreamPromise

set_option autoImplicit false

/-! # A request stream that may break

The request stream of a client as it reaches a server. `Core/Wire.lean` has no cancellation; here
the call may be cancelled, or its transport may fail, at any time, and gRPC core then completes the
outstanding read with a null payload, as it does after the client's half-close. Which server reads
is left open: anything that pushes what it reads into a stream and takes a null payload for the
end. -/

namespace EasyGrpc

/-! ## A server that reads a stream -/

/-- A machine with a request stream that is fed by reads. -/
structure ReadingServer (σ ε Req : Type) [Serializer Req] where
  machine : Machine σ ε
  /-- The stream handed to the user's handler. -/
  reader : σ → StreamPromise Req
  /-- What `GRPC_OP_RECV_MESSAGE` has brought, if the event is the completion of a read of a handler
      that still exists. -/
  received : σ → ε → Option Received
  init_reader : reader machine.init = ({} : StreamPromise Req).getFuture
  /-- Nothing but a read touches the stream; a request is pushed, and a null payload completes
      it. -/
  step_reader : ∀ {s s' e}, machine.Reachable s → machine.step s e = some s' →
    match received s e with
    | none => reader s' = reader s
    | some r => (reader s).storage = true ∧
        reader s' = match r.message with
          | some data => (reader s).push (deserialize data)
          | none => (reader s).complete

/-! ## The client and the transport -/

/-- What has become of the requests. -/
structure Inbound where
  /-- The requests the client has sent. -/
  sent : List Buffer := []
  /-- How many of them were yielded to the server. -/
  pos : ℕ := 0
  halfClosed : Bool := false
  /-- The call was cancelled, or its transport has failed. -/
  broken : Bool := false
deriving DecidableEq, Repr

namespace Inbound

/-- The client has half-closed and everything it has sent was yielded. -/
def exhausted (w : Inbound) : Bool := w.halfClosed && w.pos == w.sent.length

/-- A read may complete with `message`: the next request, or null at the end of the requests or of a
    broken call. -/
def yields (w : Inbound) : Option Buffer → Bool
  | some m => w.sent[w.pos]? = some m
  | none => w.exhausted || w.broken

def advance (w : Inbound) (message : Option Buffer) : Inbound :=
  { w with pos := w.pos + message.isSome.toNat }

end Inbound

/-- A server and the requests on their way to it. -/
structure BreakableCall (σ : Type) where
  server : σ
  wire : Inbound := {}

namespace BreakableCall

variable {σ ε Req : Type} [Serializer Req]

inductive Event (ε : Type) where
  /-- A step of the server. -/
  | server (e : ε)
  /-- The client sends a request. -/
  | send (m : Buffer)
  /-- The client half-closes. -/
  | halfClose
  /-- The call is cancelled, or its transport fails. -/
  | cut

/-- Nothing the client does reaches the server once the call is broken. -/
def step (S : ReadingServer σ ε Req) (c : BreakableCall σ) : Event ε → Option (BreakableCall σ)
  | .server e =>
      match S.received c.server e with
      | none => (S.machine.step c.server e).map (fun server => { c with server })
      | some r =>
          if c.wire.yields r.message then
            (S.machine.step c.server e).map (fun server =>
              { server, wire := c.wire.advance r.message })
          else none
  | .send m =>
      if c.wire.halfClosed || c.wire.broken then none
      else some { c with wire := { c.wire with sent := c.wire.sent ++ [m] } }
  | .halfClose =>
      if c.wire.halfClosed || c.wire.broken then none
      else some { c with wire := { c.wire with halfClosed := true } }
  | .cut => some { c with wire := { c.wire with broken := true } }

def machine (S : ReadingServer σ ε Req) : Machine (BreakableCall σ) (Event ε) where
  init := { server := S.machine.init }
  step := step S

end BreakableCall

end EasyGrpc
