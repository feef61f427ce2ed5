import EasyGrpc.Library.Machine

set_option autoImplicit false

/-! # The shared state of a future

`Future_storage` (`storage_impl.h`) with the tuple conversions of `utils.h`. One thread runs one
producer operation, `fullfill`, `finish` or `fail`, and one thread runs `set_handler`. A step is one
atomic access of `state_`, the construction of `finished_` or of the handler, or the call of the
handler. -/

namespace EasyGrpc

namespace Future

variable {ε : Type}

/-! ## The tuples of a future

A future is instantiated at a list of types, `none` standing for `void`. `ε` stands for
`std::exception_ptr`. -/

/-- `fullfill_type_t`: the values, with the `void`s left out. -/
def FullfillType : List (Option Type) → Type
  | [] => Unit
  | none :: ts => FullfillType ts
  | some T :: ts => T × FullfillType ts

/-- `expected<T>`. -/
def Expected (ε : Type) : Option Type → Type
  | none => Except ε Unit
  | some T => Except ε T

/-- `finish_type_t`: for each slot a value or an error. -/
def FinishType (ε : Type) : List (Option Type) → Type
  | [] => Unit
  | t :: ts => Expected ε t × FinishType ε ts

/-- `fullfill_to_finish`. -/
def fullfillToFinish : (ts : List (Option Type)) → FullfillType ts → FinishType ε ts
  | [], _ => ()
  | none :: ts, v => (.ok (), fullfillToFinish ts v)
  | some _ :: ts, v => (.ok v.1, fullfillToFinish ts v.2)

/-- `unexpected{e}`, as an `expected<T>`. -/
def unexpected (e : ε) : (t : Option Type) → Expected ε t
  | none => .error e
  | some _ => .error e

/-- `fail_to_expect`. -/
def failToExpect : (ts : List (Option Type)) → ε → FinishType ε ts
  | [], _ => ()
  | t :: ts, e => (unexpected e t, failToExpect ts e)

/-- `finish_to_fullfill`; `none` where its assertion that every slot holds a value fails. -/
def finishToFullfill : (ts : List (Option Type)) → FinishType ε ts → Option (FullfillType ts)
  | [], _ => some ()
  | none :: ts, f =>
      match f.1 with
      | .ok () => finishToFullfill ts f.2
      | .error _ => none
  | some _ :: ts, f =>
      match f.1 with
      | .ok x => (finishToFullfill ts f.2).map (x, ·)
      | .error _ => none

/-- `get_first_error`. -/
def getFirstError : (ts : List (Option Type)) → FinishType ε ts → Option ε
  | [], _ => none
  | none :: ts, f =>
      match f.1 with
      | .ok () => getFirstError ts f.2
      | .error e => some e
  | some _ :: ts, f =>
      match f.1 with
      | .ok _ => getFirstError ts f.2
      | .error e => some e

/-- Every slot holds the error `e`. -/
def InEverySlot (e : ε) : (ts : List (Option Type)) → FinishType ε ts → Prop
  | [], _ => True
  | t :: ts, f => f.1 = unexpected e t ∧ InEverySlot e ts f.2

/-! ## The producer's operation and what the handler receives -/

variable {ts : List (Option Type)}

/-- The operation of the producer, with its argument. -/
inductive Operation (ε : Type) (ts : List (Option Type)) where
  | fullfill (v : FullfillType ts)
  | finish (f : FinishType ε ts)
  | fail (e : ε)

/-- What a call of the handler brings. -/
inductive Outcome (ε : Type) (ts : List (Option Type)) where
  /-- `callback_->fullfill`. -/
  | fullfill (v : FullfillType ts)
  /-- `callback_->finish`. -/
  | finish (f : FinishType ε ts)
  /-- `callback_->finish(std::move(finished_))` before `finished_` was constructed. -/
  | garbage

/-- The call of the handler on the fast path. -/
def Operation.direct : Operation ε ts → Outcome ε ts
  | .fullfill v => .fullfill v
  | .finish f => .finish f
  | .fail e => .finish (failToExpect ts e)

/-- What is constructed in `finished_`. -/
def Operation.stored : Operation ε ts → FinishType ε ts
  | .fullfill v => fullfillToFinish ts v
  | .finish f => f
  | .fail e => failToExpect ts e

/-- The outcome of `callback_->finish(std::move(finished_))`. -/
def Outcome.ofFinished : Option (FinishType ε ts) → Outcome ε ts
  | some f => .finish f
  | none => .garbage

/-- The call of the handler that was added just in time: `fail` converts the error again, the others
    pass on `finished_`. -/
def Operation.justInTime (op : Operation ε ts) (finished : Option (FinishType ε ts)) :
    Outcome ε ts :=
  match op with
  | .fail e => .finish (failToExpect ts e)
  | _ => .ofFinished finished

/-! ## The storage -/

/-- `Future_storage_state_ready_bit`. -/
def readyBit : BitVec 8 := 1

/-- `Future_storage_state_finished_bit`. -/
def finishedBit : BitVec 8 := 2

/-- The members of `Future_storage`. -/
structure Storage (ε : Type) (ts : List (Option Type)) where
  state : BitVec 8 := 0
  /-- `cb_data_.callback_` is set. -/
  callback : Bool := false
  /-- The union member `finished_`, `none` before it is constructed. -/
  finished : Option (FinishType ε ts) := none

namespace Storage

def ready (s : Storage ε ts) : Bool := s.state &&& readyBit != 0

def isFinished (s : Storage ε ts) : Bool := s.state &&& finishedBit != 0

/-- `state_.fetch_or`, but for the value it returns. -/
def fetchOr (s : Storage ε ts) (bit : BitVec 8) : Storage ε ts := { s with state := s.state ||| bit }

end Storage

/-! ## The two threads -/

/-- Where the producer is. -/
inductive Producing where
  | start
  /-- `state_` was loaded with the ready bit set; the handler is called next. -/
  | calling
  /-- `state_` was loaded without the ready bit; `finished_` is constructed next. -/
  | storing
  /-- `finished_` was constructed; the finished bit is set next. -/
  | publishing
  /-- The finished bit was set and the ready bit already was; the handler is called next. -/
  | notifying
  | returned
deriving DecidableEq, Repr

/-- Where the thread is that runs `set_handler`. -/
inductive Handling where
  | start
  /-- `callback_` was set; the ready bit is set next. -/
  | publishing
  /-- The ready bit was set and the finished bit already was; the handler is called next. -/
  | notifying
  | returned
  /-- The handler's constructor has thrown; nothing was installed. -/
  | threw
deriving DecidableEq, Repr

/-- One call of the handler, with the storage's state at that moment. -/
structure Invocation (ε : Type) (ts : List (Option Type)) where
  outcome : Outcome ε ts
  /-- `callback_` was set. -/
  installed : Bool
  /-- `finished_` had been constructed. -/
  constructed : Bool
  /-- It is a call of a slow path: just in time, or by `set_handler`. -/
  slow : Bool

/-- A storage, its two threads, and the calls of the handler so far. -/
structure Shared (ε : Type) (ts : List (Option Type)) where
  storage : Storage ε ts := {}
  producer : Producing := .start
  handler : Handling := .start
  invocations : List (Invocation ε ts) := []

/-- Which thread takes a step; the thread of `set_handler` may find that the constructor throws. -/
inductive Event where
  | produce
  | handle
  | throws
deriving DecidableEq, Repr

namespace Shared

/-- The handler is called. -/
def invoke (s : Shared ε ts) (outcome : Outcome ε ts) (slow : Bool) : Shared ε ts :=
  { s with invocations := s.invocations ++ [
      { outcome := outcome
        installed := s.storage.callback
        constructed := s.storage.finished.isSome
        slow := slow }] }

/-- One step of `fullfill`, `finish` or `fail`. -/
def produce (op : Operation ε ts) (s : Shared ε ts) : Option (Shared ε ts) :=
  match s.producer with
  | .start => some { s with producer := if s.storage.ready then .calling else .storing }
  | .calling => some { s.invoke op.direct false with producer := .returned }
  | .storing => some { s with
      storage := { s.storage with finished := some op.stored }, producer := .publishing }
  | .publishing => some { s with
      storage := s.storage.fetchOr finishedBit
      producer := if s.storage.ready then .notifying else .returned }
  | .notifying =>
      some { s.invoke (op.justInTime s.storage.finished) true with producer := .returned }
  | .returned => none

/-- One step of `set_handler`, whose constructor throws if `throws` is set. -/
def handle (throws : Bool) (s : Shared ε ts) : Option (Shared ε ts) :=
  match s.handler with
  | .start =>
      if throws then some { s with handler := .threw }
      else some { s with storage := { s.storage with callback := true }, handler := .publishing }
  | .publishing =>
      if throws then none
      else some { s with
        storage := s.storage.fetchOr readyBit
        handler := if s.storage.isFinished then .notifying else .returned }
  | .notifying =>
      if throws then none
      else some { s.invoke (.ofFinished s.storage.finished) true with handler := .returned }
  | .returned => none
  | .threw => none

def step (op : Operation ε ts) (s : Shared ε ts) : Event → Option (Shared ε ts)
  | .produce => s.produce op
  | .handle => s.handle false
  | .throws => s.handle true

/-- One producer operation and one `set_handler` on a new storage. -/
def machine (op : Operation ε ts) : Machine (Shared ε ts) Event where
  init := {}
  step := step op

end Shared

end Future

end EasyGrpc
