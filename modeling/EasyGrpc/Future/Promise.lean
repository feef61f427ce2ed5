import Mathlib.Logic.Function.Basic
import EasyGrpc.Library.Machine

set_option autoImplicit false

/-! # Promises and the storages they own

`Basic_promise` (`promise.h`) and `Basic_stream_promise` (`stream_promise.h`), with what their
defaulted moves make of `Storage_ptr`. Only the promises own storages here; a future keeps its own
reference, so its storage outlives them. -/

namespace EasyGrpc

namespace Future

/-! ## The objects -/

/-- `Basic_promise`. A storage is known by when it was allocated. -/
structure BasicPromise where
  futureCreated : Bool := false
  valueAssigned : Bool := false
  storage : Option ℕ
deriving DecidableEq

/-- `Basic_stream_promise`. -/
structure BasicStreamPromise where
  storage : Option ℕ := none
deriving DecidableEq

inductive PromiseObject where
  | promise (b : BasicPromise)
  | stream (b : BasicStreamPromise)
deriving DecidableEq

namespace PromiseObject

def storage : PromiseObject → Option ℕ
  | .promise b => b.storage
  | .stream b => b.storage

/-- What a defaulted move leaves of its source: the flags stay, the pointer goes. -/
def movedFrom : PromiseObject → PromiseObject
  | .promise b => .promise { b with storage := none }
  | .stream b => .stream { b with storage := none }

def sameClass : PromiseObject → PromiseObject → Bool
  | .promise _, .promise _ => true
  | .stream _, .stream _ => true
  | _, _ => false

end PromiseObject

/-- What resolves a future or terminates a stream. `Ω` are the operations of a producer with their
    arguments: `set_value`, `finish`, `set_exception`, `complete`. -/
inductive Answer (Ω : Type) where
  | own (op : Ω)
  /-- `fail` with an `Unfullfilled_promise`. -/
  | unfullfilledPromise
deriving DecidableEq

/-- The promises of a program and the storages they have allocated. -/
structure Promises (Ω : Type) where
  /-- The promises that exist. -/
  objects : ℕ → Option PromiseObject := fun _ => none
  /-- How many storages were allocated. -/
  allocated : ℕ := 0
  /-- What each storage was answered with. -/
  answers : ℕ → List (Answer Ω) := fun _ => []
  /-- The storages of the futures handed out; `none` is a future without one. -/
  futures : List (Option ℕ) := []

namespace Promises

variable {Ω : Type}

/-! ## The operations -/

def set (s : Promises Ω) (p : ℕ) (o : Option PromiseObject) : Promises Ω :=
  { s with objects := Function.update s.objects p o }

def answer (s : Promises Ω) (i : ℕ) (a : Answer Ω) : Promises Ω :=
  { s with answers := Function.update s.answers i (s.answers i ++ [a]) }

/-- The constructor of `Basic_promise`, which allocates the storage. -/
def construct (s : Promises Ω) (p : ℕ) : Option (Promises Ω) :=
  if (s.objects p).isSome then none
  else some { s.set p (some (.promise { storage := some s.allocated })) with
    allocated := s.allocated + 1 }

/-- The constructor of `Basic_stream_promise`, which does not. -/
def constructStream (s : Promises Ω) (p : ℕ) : Option (Promises Ω) :=
  if (s.objects p).isSome then none else some (s.set p (some (.stream {})))

/-- `get_future`. That of a stream allocates a storage, and `Storage_ptr::allocate` lets go of the
    one there was. -/
def getFuture (s : Promises Ω) (p : ℕ) : Option (Promises Ω) :=
  match s.objects p with
  | none => none
  | some (.promise b) =>
      if b.futureCreated then none
      else some { s.set p (some (.promise { b with futureCreated := true })) with
        futures := s.futures ++ [b.storage] }
  | some (.stream _) =>
      some { s.set p (some (.stream { storage := some s.allocated })) with
        allocated := s.allocated + 1
        futures := s.futures ++ [some s.allocated] }

/-- `set_value`, `finish` or `set_exception` of a promise, `complete` or `set_exception` of a stream
    promise. -/
def operate (s : Promises Ω) (p : ℕ) (op : Ω) : Option (Promises Ω) :=
  match s.objects p with
  | none => none
  | some (.promise b) =>
      match b.storage with
      | none => none
      | some i =>
          if b.valueAssigned then none
          else some ((s.answer i (.own op)).set p (some (.promise { b with
            valueAssigned := true, storage := if b.futureCreated then none else some i })))
  | some (.stream b) =>
      match b.storage with
      | none => none
      | some i => some ((s.answer i (.own op)).set p (some (.stream { storage := none })))

/-- `push`, which answers nothing. -/
def push (s : Promises Ω) (p : ℕ) : Option (Promises Ω) :=
  match s.objects p with
  | some (.stream b) => if b.storage.isSome then some s else none
  | _ => none

/-- The defaulted move constructor. -/
def moveConstruct (s : Promises Ω) (p q : ℕ) : Option (Promises Ω) :=
  match s.objects p, s.objects q with
  | none, some rhs => some ((s.set p (some rhs)).set q (some rhs.movedFrom))
  | _, _ => none

/-- The defaulted move assignment. `Storage_ptr::operator=` lets go of the storage of `p`, whatever
    the flags of `p` say. -/
def moveAssign (s : Promises Ω) (p q : ℕ) : Option (Promises Ω) :=
  match s.objects p, s.objects q with
  | some lhs, some rhs =>
      if lhs.sameClass rhs then some ((s.set p (some rhs)).set q (some rhs.movedFrom)) else none
  | _, _ => none

/-- The destructors. -/
def destroy (s : Promises Ω) (p : ℕ) : Option (Promises Ω) :=
  match s.objects p with
  | none => none
  | some (.promise b) =>
      match b.storage with
      | none => some (s.set p none)
      | some i =>
          if b.valueAssigned then some (s.set p none)
          else some ((s.answer i .unfullfilledPromise).set p none)
  | some (.stream b) =>
      match b.storage with
      | none => some (s.set p none)
      | some i => some ((s.answer i .unfullfilledPromise).set p none)

/-! ## The machine -/

inductive Event (Ω : Type) where
  | construct (p : ℕ)
  | constructStream (p : ℕ)
  | getFuture (p : ℕ)
  | operate (p : ℕ) (op : Ω)
  | push (p : ℕ)
  | moveConstruct (p q : ℕ)
  | moveAssign (p q : ℕ)
  | destroy (p : ℕ)

/-- Not enabled where an assertion of the code fails. -/
def step (s : Promises Ω) : Event Ω → Option (Promises Ω)
  | .construct p => s.construct p
  | .constructStream p => s.constructStream p
  | .getFuture p => s.getFuture p
  | .operate p op => s.operate p op
  | .push p => s.push p
  | .moveConstruct p q => s.moveConstruct p q
  | .moveAssign p q => s.moveAssign p q
  | .destroy p => s.destroy p

def machine (Ω : Type) : Machine (Promises Ω) (Event Ω) where
  init := {}
  step := step

end Promises

end Future

end EasyGrpc
