import Mathlib.Data.List.Perm.Basic
import EasyGrpc.Core.Error

set_option autoImplicit false

/-! # Calls, operations and batches

The part of gRPC core the sessions and handlers are written against. A *batch* is a list of
operations started on a call under a completion tag; it is outstanding until its one completion
event. Each class starts only a handful of batches, so it lists them as an inductive type `κ` whose
operations and tag flags are given by a `BatchSpec` instance; a `Call κ` records which of them were
started and which are outstanding.

Nothing else of gRPC core is modelled: what arrives through the receive operations is a `Received`
value, arbitrary for a class on its own and read off the peer's call (`Core/Wire.lean`) when two are
composed. Every `grpc_call_start_batch` returns `GRPC_CALL_OK`, except where
`Client/FailedStart.lean` is about the first one of a call. -/

namespace EasyGrpc

/-! ## Payloads -/

/-- The contents of a `grpc_byte_buffer`; a null pointer is `none` where one is possible. -/
abbrev Buffer := List UInt8

/-- `Serializer<T>` (`serialize.h`): what a message type provides, with the round trip the generated
    and user-written specialisations promise. -/
class Serializer (T : Type) where
  serialize : T → Buffer
  deserialize : Buffer → T
  deserialize_serialize : ∀ v, deserialize (serialize v) = v

export Serializer (serialize deserialize)

/-- Raw byte messages, as in the non-protobuf example. -/
instance : Serializer Buffer := ⟨id, id, fun _ => rfl⟩

/-! ## Operations -/

/-- `grpc_op`, by its kind and the data the code sets. -/
inductive Op where
  | sendInitialMetadata
  | sendMessage (message : Buffer)
  | sendCloseFromClient
  | sendStatusFromServer (status : StatusCode) (statusDetails : Option String)
  | recvInitialMetadata
  | recvMessage
  | recvStatusOnClient
  | recvCloseOnServer
deriving DecidableEq, Repr

namespace Op

/-- The payload of a `GRPC_OP_SEND_MESSAGE`. -/
def message? : Op → Option Buffer
  | .sendMessage m => some m
  | _ => none

/-- The status a `GRPC_OP_SEND_STATUS_FROM_SERVER` puts on the wire; null details travel as the
    empty text. -/
def status? : Op → Option (StatusCode × String)
  | .sendStatusFromServer code details => some (code, details.getD "")
  | _ => none

def isSendMessage : Op → Bool
  | .sendMessage _ => true
  | _ => false

def isClose : Op → Bool
  | .sendCloseFromClient => true
  | _ => false

def isRecvMessage : Op → Bool
  | .recvMessage => true
  | _ => false

def isRecvStatus : Op → Bool
  | .recvStatusOnClient => true
  | _ => false

end Op

/-! ## Batches and calls -/

/-- The batches a class starts: their operations, and the flags of the completion tag they are
    started under (`Completion_callback::completion_tag`). -/
class BatchSpec (κ : Type) where
  ops : κ → List Op
  flags : κ → BitVec 4

/-- A `grpc_call` as seen by the object that owns it. -/
structure Call (κ : Type) where
  /-- Every batch started, oldest first. -/
  started : List κ := []
  /-- The batches whose completion event has not been handed out. -/
  outstanding : List κ := []
  /-- `grpc_call_cancel` was called. -/
  cancelled : Bool := false

namespace Call

variable {κ : Type}

/-- `grpc_call_start_batch`. -/
def startBatch (c : Call κ) (b : κ) : Call κ :=
  { c with started := c.started ++ [b], outstanding := c.outstanding ++ [b] }

/-- `grpc_call_cancel`. -/
def cancel (c : Call κ) : Call κ := { c with cancelled := true }

/-- The `i`-th outstanding batch completes. -/
def completeAt (c : Call κ) (i : ℕ) : Call κ :=
  { c with outstanding := c.outstanding.eraseIdx i }

/-- How many batches of the kind `p` are outstanding. -/
def pending (c : Call κ) (p : κ → Bool) : ℕ := c.outstanding.countP p

/-- How many batches of the kind `p` were ever started. -/
def starts (c : Call κ) (p : κ → Bool) : ℕ := c.started.countP p

/-- No batch is outstanding. -/
def quiet (c : Call κ) : Bool := c.outstanding.isEmpty

/-! ### Counting batches -/

theorem pending_startBatch (c : Call κ) (b : κ) (p : κ → Bool) :
    (c.startBatch b).pending p = c.pending p + (p b).toNat := by
  simp only [pending, startBatch, List.countP_append]
  cases hp : p b <;> simp [hp]

theorem starts_startBatch (c : Call κ) (b : κ) (p : κ → Bool) :
    (c.startBatch b).starts p = c.starts p + (p b).toNat := by
  simp only [starts, startBatch, List.countP_append]
  cases hp : p b <;> simp [hp]

/-- A completion removes exactly the batch it is about. -/
theorem pending_completeAt {c : Call κ} {i : ℕ} {b : κ} (h : c.outstanding[i]? = some b)
    (p : κ → Bool) : c.pending p = (c.completeAt i).pending p + (p b).toNat := by
  obtain ⟨hlt, hb⟩ := List.getElem?_eq_some_iff.1 h
  have hperm := (List.getElem_cons_eraseIdx_perm hlt).countP_eq p
  simp only [pending, completeAt, ← hperm, List.countP_cons, hb]
  cases p b <;> simp

@[simp] theorem starts_completeAt (c : Call κ) (i : ℕ) (p : κ → Bool) :
    (c.completeAt i).starts p = c.starts p := rfl

@[simp] theorem starts_cancel (c : Call κ) (p : κ → Bool) : c.cancel.starts p = c.starts p := rfl

/-- With nothing outstanding, no kind of batch is. -/
theorem pending_of_quiet {c : Call κ} (h : c.quiet = true) (p : κ → Bool) : c.pending p = 0 := by
  have hnil : c.outstanding = [] := by simpa [quiet] using h
  simp [pending, hnil]

/-- A batch outstanding at some position counts for its kind. -/
theorem pending_pos {c : Call κ} {i : ℕ} {b : κ} (h : c.outstanding[i]? = some b) {p : κ → Bool}
    (hp : p b = true) : 0 < c.pending p :=
  List.countP_pos_iff.2 ⟨b, List.mem_of_getElem? h, hp⟩

theorem foldr_countP_cons (kinds : List (κ → Bool)) (b : κ) (l : List κ) :
    kinds.foldr (fun k n => (b :: l).countP k + n) 0
      = kinds.foldr (fun k n => l.countP k + n) 0 + kinds.countP (· b) := by
  induction kinds with
  | nil => rfl
  | cons k kinds ih =>
      rw [List.foldr_cons, ih, List.foldr_cons, List.countP_cons, List.countP_cons]
      omega

/-- Where every batch is of exactly one of several kinds, the batches outstanding are those of each
    kind together. -/
theorem length_outstanding (c : Call κ) (kinds : List (κ → Bool))
    (h : ∀ b, kinds.countP (· b) = 1) :
    c.outstanding.length = kinds.foldr (fun k n => c.pending k + n) 0 := by
  unfold pending
  induction c.outstanding with
  | nil => simp
  | cons b l ih => rw [foldr_countP_cons, h b, ← ih, List.length_cons]

theorem length_startBatch (c : Call κ) (b : κ) :
    (c.startBatch b).outstanding.length = c.outstanding.length + 1 := by
  simp [startBatch]

theorem length_completeAt {c : Call κ} {i : ℕ} {b : κ} (h : c.outstanding[i]? = some b) :
    (c.completeAt i).outstanding.length + 1 = c.outstanding.length := by
  obtain ⟨hlt, -⟩ := List.getElem?_eq_some_iff.1 h
  rw [completeAt, List.length_eraseIdx_of_lt hlt]
  omega

/-! ### What the call has put on the wire -/

variable [BatchSpec κ]

/-- Every operation started on the call, in order. -/
def ops (c : Call κ) : List Op := c.started.flatMap BatchSpec.ops

/-- The messages handed to `GRPC_OP_SEND_MESSAGE`, in order. -/
def sent (c : Call κ) : List Buffer := c.ops.filterMap Op.message?

/-- The statuses handed to `GRPC_OP_SEND_STATUS_FROM_SERVER`, in order. -/
def statuses (c : Call κ) : List (StatusCode × String) := c.ops.filterMap Op.status?

/-- `GRPC_OP_SEND_CLOSE_FROM_CLIENT` was started. -/
def closed (c : Call κ) : Bool := c.ops.any Op.isClose

/-- How many outstanding operations are of the kind `p`. -/
def inFlight (c : Call κ) (p : Op → Bool) : ℕ := (c.outstanding.flatMap BatchSpec.ops).countP p

/-- When a kind of batch is made of one operation of the kind `p` and no other batch has one,
    counting the operations counts the batches. -/
theorem inFlight_eq_pending (c : Call κ) {p : Op → Bool} {k : κ → Bool}
    (h : ∀ b, (BatchSpec.ops b).countP p = (k b).toNat) : c.inFlight p = c.pending k := by
  unfold inFlight pending
  induction c.outstanding with
  | nil => rfl
  | cons b l ih =>
      rw [List.flatMap_cons, List.countP_append, ih, h, List.countP_cons]
      cases k b <;> simp [Nat.add_comm]

/-- When the batches of one kind are those with a close, the call is closed once one was started. -/
theorem closed_iff (c : Call κ) {k : κ → Bool}
    (h : ∀ b, (BatchSpec.ops b).any Op.isClose = k b) : c.closed = true ↔ c.starts k ≠ 0 := by
  unfold closed ops starts
  induction c.started with
  | nil => simp
  | cons b l ih =>
      rw [List.flatMap_cons, List.any_append, Bool.or_eq_true, ih, h, List.countP_cons]
      cases k b <;> simp

/-- When the batches of two kinds are those that send a status, and always the same one, the
    statuses sent are as many as batches of the two kinds were started. -/
theorem statuses_eq_replicate (c : Call κ) {k l : κ → Bool} {status : StatusCode × String}
    (h : ∀ b, (BatchSpec.ops b).filterMap Op.status?
      = List.replicate ((k b).toNat + (l b).toNat) status) :
    c.statuses = List.replicate (c.starts k + c.starts l) status := by
  unfold statuses ops starts
  induction c.started with
  | nil => rfl
  | cons b bs ih =>
      rw [List.flatMap_cons, List.filterMap_append, ih, h, List.replicate_append_replicate,
        List.countP_cons, List.countP_cons]
      congr 1
      cases k b <;> cases l b <;> simp <;> omega

theorem ops_startBatch (c : Call κ) (b : κ) :
    (c.startBatch b).ops = c.ops ++ BatchSpec.ops b := by
  simp [ops, startBatch]

theorem sent_startBatch (c : Call κ) (b : κ) :
    (c.startBatch b).sent = c.sent ++ (BatchSpec.ops b).filterMap Op.message? := by
  simp [sent, ops_startBatch]

theorem statuses_startBatch (c : Call κ) (b : κ) :
    (c.startBatch b).statuses = c.statuses ++ (BatchSpec.ops b).filterMap Op.status? := by
  simp [statuses, ops_startBatch]

@[simp] theorem sent_completeAt (c : Call κ) (i : ℕ) : (c.completeAt i).sent = c.sent := rfl
@[simp] theorem statuses_completeAt (c : Call κ) (i : ℕ) :
    (c.completeAt i).statuses = c.statuses := rfl
@[simp] theorem sent_cancel (c : Call κ) : c.cancel.sent = c.sent := rfl

end Call

/-! ## What a completion brings -/

/-- What gRPC core writes through the pointers of a batch's receive operations before it hands out
    the completion event. Only the fields a batch has a receive operation for are looked at. -/
structure Received where
  message : Option Buffer := none
  status : StatusCode := .ok
  statusDetails : String := ""
  errorString : Option CString := none
  cancelled : Bool := false
deriving DecidableEq, Repr

end EasyGrpc
