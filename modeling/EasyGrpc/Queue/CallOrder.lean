import EasyGrpc.Queue.Multiplexing

set_option autoImplicit false

/-! # The order of operations on a call

gRPC core takes the operations of a call in a certain order only: an operation is not started while
another of its kind is in flight, only messages come more than once, the initial metadata comes
first, and no message is sent behind the close or the status. The sessions and handlers keep no
record of what they have started; they expect `grpc_call_start_batch` to return `GRPC_CALL_OK`, and
most of them assert it. -/

namespace EasyGrpc

/-! ## Kinds of operations -/

/-- `grpc_op_type`. -/
inductive OpKind where
  | sendInitialMetadata
  | sendMessage
  | sendCloseFromClient
  | sendStatusFromServer
  | recvInitialMetadata
  | recvMessage
  | recvStatusOnClient
  | recvCloseOnServer
deriving DecidableEq, Repr

def Op.kind : Op → OpKind
  | .sendInitialMetadata => .sendInitialMetadata
  | .sendMessage _ => .sendMessage
  | .sendCloseFromClient => .sendCloseFromClient
  | .sendStatusFromServer _ _ => .sendStatusFromServer
  | .recvInitialMetadata => .recvInitialMetadata
  | .recvMessage => .recvMessage
  | .recvStatusOnClient => .recvStatusOnClient
  | .recvCloseOnServer => .recvCloseOnServer

namespace OpKind

/-- A call may have any number of operations of the kind, one after the other. -/
def repeats : OpKind → Bool
  | .sendMessage | .recvMessage => true
  | _ => false

/-- The operation ends what its side of the call sends. -/
def isLast : OpKind → Bool
  | .sendCloseFromClient | .sendStatusFromServer => true
  | _ => false

end OpKind

variable {κ : Type} [BatchSpec κ]

/-- The kinds of the operations of some batches. -/
def kindsOf (l : List κ) : List OpKind := (l.flatMap BatchSpec.ops).map Op.kind

theorem kindsOf_singleton (b : κ) : kindsOf [b] = (BatchSpec.ops b).map Op.kind := by
  simp [kindsOf]

/-! ## What may be started -/

/-- The batch may be started behind the batches `before`. -/
structure Follows (before : List κ) (b : κ) : Prop where
  once : ∀ k ∈ kindsOf [b], k.repeats = false → k ∉ kindsOf before
  first : before = [] → .sendInitialMetadata ∈ kindsOf [b]
  last : .sendMessage ∈ kindsOf [b] → ∀ k ∈ kindsOf before, k.isLast = false

namespace Call

/-- The batch may be started on the call as it is. -/
structure Allows (c : Call κ) (b : κ) : Prop where
  follows : Follows c.started b
  nodup : (kindsOf [b]).Nodup
  free : ∀ k ∈ kindsOf [b], k ∉ kindsOf c.outstanding

/-- A call on which every batch was started when it might be. -/
inductive Orderly : Call κ → Prop
  | new : Orderly {}
  | start {c : Call κ} {b : κ} (h : c.Orderly) (hb : c.Allows b) : Orderly (c.startBatch b)
  | complete {c : Call κ} (h : c.Orderly) (i : ℕ) : Orderly (c.completeAt i)
  | cancel {c : Call κ} (h : c.Orderly) : Orderly c.cancel

end Call

end EasyGrpc
