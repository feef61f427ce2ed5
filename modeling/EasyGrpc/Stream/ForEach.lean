import EasyGrpc.Stream.Storage

set_option autoImplicit false

/-! # A stream whose callback throws

The machine of `Stream/Storage.lean` with what the callback of `for_each` does on each value. The
handler (`foreach_handler.h`) catches nothing: `do_push` enqueues a lambda that applies the
callback, and `Immediate_queue::push` calls that lambda at once. So an exception leaves `push` or,
for a buffered value, `set_handler` and `for_each`; with another executor it leaves the task the
executor runs. -/

namespace EasyGrpc

variable {ι α : Type}

namespace Task

def isCall : Task ι α → Bool
  | .call _ _ => true
  | _ => false

end Task

/-- What the callback throws when it runs for the `n`-th time, on a value; `none` if it returns. -/
abbrev Callback (α : Type) := ℕ → α → Option Exception

namespace Callback

/-- What is thrown by the calls among the given tasks, each of which runs. -/
def thrown (cb : Callback α) : ℕ → List (Task ι α) → List Exception
  | _, [] => []
  | n, .call _ v :: tasks => (cb n v).toList ++ thrown cb (n + 1) tasks
  | n, _ :: tasks => thrown cb n tasks

/-- The first buffered value on which the callback throws. -/
def firstThrow (cb : Callback α) : ℕ → List (ι × α) → Option (ℕ × Exception)
  | _, [] => none
  | n, (_, v) :: rest =>
      match cb n v with
      | some x => some (0, x)
      | none => (firstThrow cb (n + 1) rest).map (fun (k, x) => (k + 1, x))

end Callback

/-- Where an exception of the callback ends up. -/
inductive Site (ι : Type) where
  /-- It leaves the `push` of a thread. -/
  | push (i : ι)
  /-- It leaves `for_each`. -/
  | forEach
  /-- It leaves a task run by the executor. -/
  | executor
deriving DecidableEq, Repr

/-- A stream and its callback. -/
structure ForEach (ι α : Type) where
  stream : Stream ι α := {}
  /-- `for_each` was left by an exception. -/
  aborted : Bool := false
  /-- What the callback has thrown, oldest first. -/
  thrown : List Exception := []
  escaped : List (Site ι × Exception) := []

namespace ForEach

/-- How often the callback has run. -/
def calls (s : ForEach ι α) : ℕ := s.stream.ran.countP Task.isCall

/-- The callback has thrown `xs`; they leave the code at `site`. -/
def escape (s : ForEach ι α) (site : Site ι) (xs : List Exception) : ForEach ι α :=
  { s with thrown := s.thrown ++ xs, escaped := s.escaped ++ xs.map (site, ·) }

/-- Whose code calls the tasks that run in a step. -/
def site : Stream.Event ι α → Site ι
  | .push i _ | .lock i | .deliver i => .push i
  | .publish | .register | .notify => .forEach
  | .finish _ | .deliverEnd | .run _ => .executor

/-- A step of `for_each`. -/
def attaches : Stream.Event ι α → Bool
  | .publish | .register | .notify => true
  | _ => false

variable [DecidableEq ι] [Fintype ι]

/-- A step, after which each task that was run in it has returned or thrown. -/
def plain (ex : Executor) (cb : Callback α) (s : ForEach ι α) (e : Stream.Event ι α) :
    Option (ForEach ι α) :=
  (s.stream.step ex e).map (fun stream =>
    let ran := stream.ran.drop s.stream.ran.length
    { s with stream }.escape (site e) (cb.thrown s.calls ran))

/-- `set_handler`, left by the exception `x` of the callback on the `k`-th buffered value: the ready
    bit is not set. -/
def abort (ex : Executor) (s : ForEach ι α) (k : ℕ) (x : Exception) : ForEach ι α :=
  let calls := s.stream.storage.fullfilled.map (fun p => Task.call p.1 p.2)
  { s with
    stream := s.stream.enqueue ex (calls.take (k + 1))
    aborted := true }.escape .forEach [x]

def step (ex : Executor) (cb : Callback α) (s : ForEach ι α) (e : Stream.Event ι α) :
    Option (ForEach ι α) :=
  if s.aborted && attaches e then none
  else match e with
    | .register =>
        -- Another executor only takes the tasks.
        if ex = .immediate ∧ s.stream.attaching = .published then
          match cb.firstThrow s.calls s.stream.storage.fullfilled with
          | some (k, x) => some (s.abort ex k x)
          | none => s.plain ex cb .register
        else s.plain ex cb .register
    | e => s.plain ex cb e

def machine (ι α : Type) [DecidableEq ι] [Fintype ι] (ex : Executor) (cb : Callback α) :
    Machine (ForEach ι α) (Stream.Event ι α) where
  init := {}
  step := step ex cb

/-- What the future of `for_each` was resolved with. -/
def resolutions (s : ForEach ι α) : List (Task ι α) := s.stream.ran.filter (fun t => !t.isCall)

end ForEach

end EasyGrpc
