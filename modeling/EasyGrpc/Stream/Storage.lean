import Mathlib.Data.Fintype.Basic
import EasyGrpc.Library.Machine
import EasyGrpc.Core.StreamPromise

set_option autoImplicit false

/-! # The shared state of a stream

`Stream_storage` (`stream_storage_impl.h`) with the handler `for_each` installs
(`foreach_handler.h`). Any number of threads push through one promise, one thread ends the stream
once they have all returned, one thread attaches, and an executor runs what the handler enqueues. A
step is one atomic access of `state_`, one critical section of `mtx_`, one call of the handler, or
one task run by the executor. -/

namespace EasyGrpc

variable {ι α : Type}

/-! ## The handler and its executor -/

/-- What `Future_stream_foreach_handler` enqueues. A value is kept with the thread that pushed
    it. -/
inductive Task (ι α : Type) where
  /-- `push`: the callback is to run on a value. -/
  | call (i : ι) (v : α)
  /-- `complete`: the future of `for_each` is to be fullfilled. -/
  | fullfill
  /-- `fail`: it is to fail with an error; `none` is a null `std::exception_ptr`. -/
  | fail (error : Option Exception)
deriving DecidableEq, Repr

/-- The task of a terminal operation. -/
def Task.ofEnd : StreamEnd → Task ι α
  | .complete => .fullfill
  | .failed e => .fail (some e)

/-- What `enqueue` does with a task. -/
inductive Executor where
  /-- `Immediate_queue`: it runs at once. -/
  | immediate
  /-- Tasks run one by one in the order enqueued. -/
  | fifo
  /-- Tasks run one by one in any order. -/
  | unordered
deriving DecidableEq, Repr

/-! ## The storage -/

/-- The members of `Stream_storage`. The three bits of `state_` are kept apart. -/
structure StreamStorage (ι α : Type) where
  /-- `Stream_storage_state_ready_bit`. -/
  ready : Bool := false
  /-- `Stream_storage_state_fail_bit`. -/
  fail : Bool := false
  /-- `Stream_storage_state_complete_bit`. -/
  complete : Bool := false
  /-- `cb_data_.callback_` is set. -/
  callback : Bool := false
  fullfilled : List (ι × α) := []
  error : Option Exception := none

namespace StreamStorage

/-- The critical section of `push`: the value is buffered unless the handler is ready, in which case
    it is called next. -/
def push (s : StreamStorage ι α) (i : ι) (v : α) : StreamStorage ι α :=
  if s.ready then s else { s with fullfilled := s.fullfilled ++ [(i, v)] }

/-- The critical section of `complete` and of `fail`: the end is noted unless the handler is ready,
    in which case it is called next. -/
def finish (s : StreamStorage ι α) (t : StreamEnd) : StreamStorage ι α :=
  if s.ready then s
  else match t with
    | .complete => { s with complete := true }
    | .failed e => { s with error := some e, fail := true }

/-- The critical section of `set_handler`, without the calls it makes for the buffered values. -/
def setReady (s : StreamStorage ι α) : StreamStorage ι α := { s with ready := true }

/-- What `set_handler` enqueues for the flags `fetch_or` has returned. -/
def notification (s : StreamStorage ι α) (complete fail : Bool) : List (Task ι α) :=
  if complete then [.fullfill]
  else if fail then [.fail s.error]
  else []

end StreamStorage

/-! ## The threads -/

/-- Where a pushing thread is. -/
inductive Pushing (α : Type) where
  | idle
  /-- `state_` was loaded and the handler was not ready; the thread is about to lock. -/
  | locking (v : α)
  /-- The handler was ready; the thread is about to call it. -/
  | calling (v : α)
deriving DecidableEq, Repr

/-- The value of a push that has not returned. -/
def Pushing.inFlight : Pushing α → List α
  | .idle => []
  | .locking v => [v]
  | .calling v => [v]

/-- Where the thread is that ends the stream. -/
inductive Ending where
  | pending
  /-- The handler was ready; the thread is about to call it. -/
  | calling (t : StreamEnd)
  | returned (t : StreamEnd)
deriving DecidableEq, Repr

/-- Where the thread is that calls `for_each`. -/
inductive Attaching where
  | detached
  /-- `set_handler` has written `callback_`. -/
  | published
  /-- `set_handler` has drained the buffer and set the ready bit; these are the flags it saw. -/
  | registered (complete fail : Bool)
  | attached
deriving DecidableEq, Repr

/-- A storage, the threads that use it, and what they did. -/
structure Stream (ι α : Type) where
  storage : StreamStorage ι α := {}
  producer : ι → Pushing α := fun _ => .idle
  ending : Ending := .pending
  attaching : Attaching := .detached
  /-- What each thread has pushed, the push in progress included. -/
  pushed : ι → List α := fun _ => []
  /-- What the handler has enqueued, in order. -/
  log : List (Task ι α) := []
  /-- Enqueued and not yet run. -/
  queue : List (Task ι α) := []
  /-- What the executor has run, in order. -/
  ran : List (Task ι α) := []

namespace Stream

inductive Event (ι α : Type) where
  /-- Thread `i` calls `push` and loads `state_`. -/
  | push (i : ι) (v : α)
  /-- Thread `i` takes the critical section of `push`. -/
  | lock (i : ι)
  /-- Thread `i` calls the handler. -/
  | deliver (i : ι)
  /-- `complete`, `set_exception` or the promise's destructor takes its critical section. -/
  | finish (t : StreamEnd)
  /-- It calls the handler. -/
  | deliverEnd
  /-- `set_handler` writes `callback_`. -/
  | publish
  /-- `set_handler` takes its critical section. -/
  | register
  /-- `set_handler` looks at the flags it saw. -/
  | notify
  /-- The executor runs the `k`-th waiting task. -/
  | run (k : ℕ)

/-- `enqueue`. -/
def enqueue (ex : Executor) (s : Stream ι α) (tasks : List (Task ι α)) : Stream ι α :=
  if ex = .immediate then { s with log := s.log ++ tasks, ran := s.ran ++ tasks }
  else { s with log := s.log ++ tasks, queue := s.queue ++ tasks }

variable [DecidableEq ι]

def setProducer (s : Stream ι α) (i : ι) (p : Pushing α) : Stream ι α :=
  { s with producer := Function.update s.producer i p }

variable [Fintype ι]

/-- No push is in progress. -/
def allIdle (s : Stream ι α) : Bool :=
  decide (∀ i, (s.producer i).inFlight.isEmpty = true)

/-- A thread has one call at a time, nothing is pushed once the stream was ended, and the stream is
    ended once, after every push has returned. -/
def step (ex : Executor) (s : Stream ι α) : Event ι α → Option (Stream ι α)
  | .push i v =>
      match s.ending, s.producer i with
      | .pending, .idle =>
          let s := { s with pushed := Function.update s.pushed i (s.pushed i ++ [v]) }
          some (s.setProducer i (if s.storage.ready then .calling v else .locking v))
      | _, _ => none
  | .lock i =>
      match s.producer i with
      | .locking v =>
          some ({ s with storage := s.storage.push i v }.setProducer i
            (if s.storage.ready then .calling v else .idle))
      | _ => none
  | .deliver i =>
      match s.producer i with
      | .calling v => some ((s.enqueue ex [.call i v]).setProducer i .idle)
      | _ => none
  | .finish t =>
      if s.ending = .pending && s.allIdle then
        some { s with
          storage := s.storage.finish t
          ending := if s.storage.ready then .calling t else .returned t }
      else none
  | .deliverEnd =>
      match s.ending with
      | .calling t => some { s.enqueue ex [.ofEnd t] with ending := .returned t }
      | _ => none
  | .publish =>
      match s.attaching with
      | .detached => some { s with
          storage := { s.storage with callback := true }, attaching := .published }
      | _ => none
  | .register =>
      match s.attaching with
      | .published =>
          some { s.enqueue ex (s.storage.fullfilled.map (fun p => .call p.1 p.2)) with
            storage := s.storage.setReady
            attaching := .registered s.storage.complete s.storage.fail }
      | _ => none
  | .notify =>
      match s.attaching with
      | .registered complete fail =>
          some { s.enqueue ex (s.storage.notification complete fail) with attaching := .attached }
      | _ => none
  | .run k =>
      if ex = .unordered || k = 0 then
        s.queue[k]?.map (fun task =>
          { s with queue := s.queue.eraseIdx k, ran := s.ran ++ [task] })
      else none

def machine (ι α : Type) [DecidableEq ι] [Fintype ι] (ex : Executor) :
    Machine (Stream ι α) (Event ι α) where
  init := {}
  step := step ex

end Stream

end EasyGrpc
