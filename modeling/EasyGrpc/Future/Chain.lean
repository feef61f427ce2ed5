import Mathlib.Data.Fin.Basic
import Mathlib.Logic.Function.Basic
import EasyGrpc.Future.Storage

set_option autoImplicit false

/-! # Chains of futures

`then`, `then_expect` and `finally` (`impl/future.h`) with their handlers (`then.h`,
`then_expect.h`, `then_finally_expect.h`), over the storages of `Future/Storage.lean`.

A `Tree` fixes the promises, what each is to be resolved with, and the pure callbacks. Beside the
machine that runs it stands its reference meaning, `Tree.eval`, which knows of no storage, handler
or executor. -/

namespace EasyGrpc

namespace Future

variable {ε : Type} {N : ℕ}

/-! ## What a callback returns -/

/-- What a chaining callback may return for a result of slots `ts`. `futures` are the futures the
    callback owns. -/
inductive CallbackResult (ε : Type) (types : Fin N → List (Option Type)) (futures : List (Fin N)) :
    List (Option Type) → Type 1 where
  | value {T : Type} (v : T) : CallbackResult ε types futures [some T]
  | void : CallbackResult ε types futures [none]
  | expected {t : Option Type} (e : Expected ε t) : CallbackResult ε types futures [t]
  /-- Another future, of one slot as `decay_future` demands. -/
  | future (m : Fin N) (hmem : m ∈ futures) (hone : (types m).length = 1) :
      CallbackResult ε types futures (types m)
  /-- `segmented(...)`. -/
  | segmented {Us : List Type} (values : FullfillType (Us.map some)) :
      CallbackResult ε types futures (Us.map some)
  | threw {ts : List (Option Type)} (e : ε) : CallbackResult ε types futures ts

/-- What the handlers do to `dst_` with a result: an operation at once, or, for a future, a
    `finally` on that future. -/
inductive Delivery (ε : Type) (types : Fin N → List (Option Type)) (futures : List (Fin N))
    (ts : List (Option Type)) where
  | operate (op : Operation ε ts)
  | follow (m : Fin N) (hmem : m ∈ futures) (htypes : types m = ts)

/-- The overloads of `dst_->fullfill`, `dst_->finish` and `dst_->fail` the handlers choose from. -/
def CallbackResult.deliver {types : Fin N → List (Option Type)} {futures : List (Fin N)}
    {ts : List (Option Type)} :
    CallbackResult ε types futures ts → Delivery ε types futures ts
  | .value v => .operate (.fullfill (v, ()))
  | .void => .operate (.fullfill ())
  | .expected e => .operate (.finish (e, ()))
  | .future m hmem _ => .follow m hmem rfl
  | .segmented values => .operate (.fullfill values)
  | .threw e => .operate (.fail e)

/-! ## Trees of futures -/

/-- Where the future `n` comes from: a promise and what it will be resolved with, or a callback on
    another future. -/
inductive Link (ε : Type) (types : Fin N → List (Option Type)) (futures : List (Fin N))
    (n : Fin N) where
  | promise (op : Operation ε (types n))
  | then_ (parent : Fin N) (hlt : parent < n)
      (cb : FullfillType (types parent) → CallbackResult ε types futures (types n))
  | thenExpect (parent : Fin N) (hlt : parent < n)
      (cb : FinishType ε (types parent) → CallbackResult ε types futures (types n))

/-- The future `then` or `then_expect` was called on. -/
def Link.parent? {types : Fin N → List (Option Type)} {futures : List (Fin N)} {n : Fin N} :
    Link ε types futures n → Option (Fin N)
  | .promise _ => none
  | .then_ parent _ _ => some parent
  | .thenExpect parent _ _ => some parent

/-- Who consumes a future. -/
inductive User (N : ℕ) where
  /-- `then` or `then_expect`, which made the future `n`. -/
  | chained (n : Fin N)
  /-- The callback behind the future `n`, which owns it. -/
  | captured (n : Fin N)
  /-- `finally`. -/
  | terminated
deriving DecidableEq

/-- `N` futures, each after those it depends on. A future is moved where it is consumed, so there is
    at most one place where that happens. -/
structure Tree (ε : Type) (N : ℕ) where
  types : Fin N → List (Option Type)
  /-- The futures owned by the callback behind each future. -/
  futures : Fin N → List (Fin N)
  futures_lt : ∀ n, ∀ m ∈ futures n, m < n
  link : ∀ n, Link ε types (futures n) n
  /-- `finally` is called on the future. -/
  terminates : Fin N → Bool
  /-- Who consumes each future. -/
  user : Fin N → Option (User N)
  user_chained : ∀ n m, (link n).parent? = some m → user m = some (.chained n)
  user_captured : ∀ n, ∀ m ∈ futures n, user m = some (.captured n)
  user_terminated : ∀ n, terminates n = true → user n = some .terminated

/-! ## The reference meaning -/

/-- The values of a finished future with the `void`s left out, or the error of its first slot that
    holds one. -/
def values : (ts : List (Option Type)) → FinishType ε ts → Except ε (FullfillType ts)
  | [], _ => .ok ()
  | none :: ts, f => do
      let () ← (f.1 : Except ε Unit)
      values ts f.2
  | some T :: ts, f => do
      let x ← (f.1 : Except ε T)
      let xs ← values ts f.2
      return (x, xs)

/-- What a result means, where `outcome` is known for the futures the callback owns. -/
def CallbackResult.denote {types : Fin N → List (Option Type)} {futures : List (Fin N)}
    {ts : List (Option Type)} (outcome : ∀ m ∈ futures, FinishType ε (types m)) :
    CallbackResult ε types futures ts → FinishType ε ts
  | .value v => (.ok v, ())
  | .void => (.ok (), ())
  | .expected e => (e, ())
  | .future m hmem _ => outcome m hmem
  | .segmented values => fullfillToFinish _ values
  | .threw e => failToExpect _ e

/-- **The reference evaluation**: the outcome of each future. -/
def Tree.eval (T : Tree ε N) (n : Fin N) : FinishType ε (T.types n) :=
  match T.link n with
  | .promise op => op.stored
  | .then_ parent _ cb =>
      match values _ (T.eval parent) with
      | .ok v => (cb v).denote (fun m hmem =>
          have := T.futures_lt n m hmem
          T.eval m)
      | .error e => failToExpect _ e
  | .thenExpect parent _ cb =>
      (cb (T.eval parent)).denote (fun m hmem =>
        have := T.futures_lt n m hmem
        T.eval m)
termination_by n

/-! ## Handlers and their tasks -/

/-- The callback of a `Future_finally_handler` on the future `m`. -/
inductive FinallyCallback (types : Fin N → List (Option Type)) (m : Fin N) where
  /-- The user's. -/
  | user
  /-- The one `Future_storage::fullfill(Basic_future&&)` passes: it finishes `dst`. -/
  | follow (dst : Fin N) (htypes : types m = types dst)

/-- A handler for the future `m`. `futures` is what the callback behind each future owns. -/
inductive Handler (ε : Type) (types : Fin N → List (Option Type)) (futures : Fin N → List (Fin N))
    (m : Fin N) where
  /-- `Future_then_handler`. -/
  | then_ (dst : Fin N)
      (cb : FullfillType (types m) → CallbackResult ε types (futures dst) (types dst))
  /-- `Future_then_expect_handler`. -/
  | thenExpect (dst : Fin N)
      (cb : FinishType ε (types m) → CallbackResult ε types (futures dst) (types dst))
  /-- `Future_finally_handler`. -/
  | finally_ (cb : FinallyCallback types m)

/-- What a handler of the future `src` pushes into its executor: the lambdas of the handlers with
    what they capture. -/
inductive Task (ε : Type) (types : Fin N → List (Option Type))
    (futures : Fin N → List (Fin N)) where
  /-- `Future_then_handler::do_fullfill`. -/
  | then_ (src dst : Fin N)
      (cb : FullfillType (types src) → CallbackResult ε types (futures dst) (types dst))
      (v : FullfillType (types src))
  /-- `Future_then_handler::do_fail`. -/
  | fail (src dst : Fin N) (e : ε)
  /-- `Future_then_expect_handler::do_finish`. -/
  | thenExpect (src dst : Fin N)
      (cb : FinishType ε (types src) → CallbackResult ε types (futures dst) (types dst))
      (f : FinishType ε (types src))
  /-- `Future_finally_handler::do_finish`. -/
  | finally_ (src : Fin N) (cb : FinallyCallback types src) (f : FinishType ε (types src))

variable {types : Fin N → List (Option Type)} {futures : Fin N → List (Fin N)}

/-- The future whose handler pushed the task. -/
def Task.src : Task ε types futures → Fin N
  | .then_ src _ _ _ => src
  | .fail src _ _ => src
  | .thenExpect src _ _ _ => src
  | .finally_ src _ _ => src

/-- `fullfill` of a handler. -/
def Handler.fullfill {m : Fin N} (v : FullfillType (types m)) :
    Handler ε types futures m → Task ε types futures
  | .then_ dst cb => .then_ m dst cb v
  | .thenExpect dst cb => .thenExpect m dst cb (fullfillToFinish _ v)
  | .finally_ cb => .finally_ m cb (fullfillToFinish _ v)

/-- `finish` of a handler; `none` where the assertion of `finish_to_fullfill` fails. -/
def Handler.finish {m : Fin N} (f : FinishType ε (types m)) :
    Handler ε types futures m → Option (Task ε types futures)
  | .then_ dst cb =>
      match getFirstError _ f with
      | some e => some (.fail m dst e)
      | none => (finishToFullfill _ f).map (.then_ m dst cb)
  | .thenExpect dst cb => some (.thenExpect m dst cb f)
  | .finally_ cb => some (.finally_ m cb f)

/-- A storage calls its handler. -/
def Handler.call {m : Fin N} (h : Handler ε types futures m) :
    Outcome ε (types m) → Option (Task ε types futures)
  | .fullfill v => some (h.fullfill v)
  | .finish f => h.finish f
  | .garbage => none

/-- What running a task does. -/
inductive Effect (ε : Type) (types : Fin N → List (Option Type))
    (futures : Fin N → List (Fin N)) where
  /-- It begins an operation on the storage of `dst`. -/
  | operate (dst : Fin N) (op : Operation ε (types dst))
  /-- It calls `finally` on the future `m`, in order to finish `dst` by it. -/
  | follow (m dst : Fin N) (htypes : types m = types dst)
  /-- It runs a user's terminating callback. -/
  | terminate

/-- What becomes of `dst_`. -/
def Delivery.effect {dst : Fin N} :
    Delivery ε types (futures dst) (types dst) → Effect ε types futures
  | .operate op => .operate dst op
  | .follow m _ htypes => .follow m dst htypes

def Task.effect : Task ε types futures → Effect ε types futures
  | .then_ _ _ cb v => (cb v).deliver.effect
  | .fail _ dst e => .operate dst (.fail e)
  | .thenExpect _ _ cb f => (cb f).deliver.effect
  | .finally_ _ .user _ => .terminate
  | .finally_ _ (.follow dst htypes) f => .operate dst (.finish (htypes ▸ f))

/-! ## The machine -/

/-- The storages of a tree with the threads at work on them, and the executors. -/
structure Chain (T : Tree ε N) where
  shared : ∀ n, Shared ε (T.types n) := fun _ => {}
  /-- The operation begun on each storage. -/
  op : ∀ n, Option (Operation ε (T.types n)) := fun _ => none
  /-- The handler each `set_handler` was begun with. -/
  handler : ∀ n, Option (Handler ε T.types T.futures n) := fun _ => none
  /-- The tasks pushed into the executors and not yet run; an executor that runs a task within
      `push` runs it at once. -/
  tasks : List (Task ε T.types T.futures) := []
  /-- The tasks run, in order. -/
  history : List (Task ε T.types T.futures) := []

namespace Chain

variable {T : Tree ε N}

/-- A call of `fullfill`, `finish` or `fail` begins; a second one would construct `finished_`
    twice. -/
def operate (s : Chain T) (n : Fin N) (op : Operation ε (T.types n)) : Option (Chain T) :=
  if (s.op n).isSome then none else some { s with op := Function.update s.op n (some op) }

/-- A call of `set_handler` begins; a second one fails the assertion that there is no callback
    yet. -/
def setHandler (s : Chain T) (n : Fin N) (h : Handler ε T.types T.futures n) : Option (Chain T) :=
  if (s.handler n).isSome then none
  else some { s with handler := Function.update s.handler n (some h) }

/-- A thread at work on the storage of `n` has taken a step; if it has called the handler, the
    handler has pushed a task. -/
def moved (s : Chain T) (n : Fin N) (shared : Shared ε (T.types n)) : Chain T :=
  let calls := shared.invocations.drop (s.shared n).invocations.length
  { s with
    shared := Function.update s.shared n shared
    tasks := s.tasks ++ calls.filterMap (fun i => (s.handler n).bind (·.call i.outcome)) }

def perform (s : Chain T) : Effect ε T.types T.futures → Option (Chain T)
  | .operate dst op => s.operate dst op
  | .follow m dst htypes => s.setHandler m (.finally_ (.follow dst htypes))
  | .terminate => some s

inductive Event (N : ℕ) where
  /-- The promise `n` is resolved. -/
  | resolve (n : Fin N)
  /-- `then` or `then_expect` is called, which makes the future `n`. -/
  | chain (n : Fin N)
  /-- `finally` is called on the future `n`. -/
  | terminate (n : Fin N)
  /-- The operation on the storage of `n` goes on. -/
  | produce (n : Fin N)
  /-- `set_handler` on the storage of `n` goes on. -/
  | handle (n : Fin N)
  /-- An executor runs its `i`-th task. -/
  | run (i : ℕ)

def step (s : Chain T) : Event N → Option (Chain T)
  | .resolve n =>
      match T.link n with
      | .promise op => s.operate n op
      | _ => none
  | .chain n =>
      match T.link n with
      | .promise _ => none
      | .then_ parent _ cb => s.setHandler parent (.then_ n cb)
      | .thenExpect parent _ cb => s.setHandler parent (.thenExpect n cb)
  | .terminate n => if T.terminates n then s.setHandler n (.finally_ .user) else none
  | .produce n => (s.op n).bind (fun op => ((s.shared n).produce op).map (s.moved n))
  | .handle n =>
      if (s.handler n).isSome then ((s.shared n).handle false).map (s.moved n) else none
  | .run i =>
      s.tasks[i]?.bind (fun t =>
        { s with tasks := s.tasks.eraseIdx i, history := s.history ++ [t] }.perform t.effect)

/-- The tree before anything has happened. -/
def machine (T : Tree ε N) : Machine (Chain T) (Event N) where
  init := {}
  step := step

end Chain

end Future

end EasyGrpc
