import EasyGrpc.Library.Family
import EasyGrpc.Core.CompletionQueue

set_option autoImplicit false

/-! # A completion queue and everything that uses it

`Completion_queue` (`completion_queue.cpp`). Any number of sessions and handlers, of any classes,
start their batches on one queue. All the queue has of a batch is its tag, the address of an object
with four flags in the low bits; `worker_main` gets the object and the flags back from it, and an
address may be given out again once its object is deleted. -/

namespace EasyGrpc

/-! ## Parties -/

namespace Call

variable {κ : Type}

/-- Between `c` and `c'` batches were started on the call, and nothing else has happened to it. -/
def Starts (c c' : Call κ) : Prop :=
  ∃ new, c'.started = c.started ++ new ∧ c'.outstanding = c.outstanding ++ new

theorem Starts.refl (c : Call κ) : c.Starts c := ⟨[], by simp, by simp⟩

theorem Starts.trans {c d e : Call κ} (h : c.Starts d) (h' : d.Starts e) : c.Starts e := by
  obtain ⟨new, hstarted, hout⟩ := h
  obtain ⟨new', hstarted', hout'⟩ := h'
  exact ⟨new ++ new', by rw [hstarted', hstarted, List.append_assoc],
    by rw [hout', hout, List.append_assoc]⟩

theorem Starts.startBatch (c : Call κ) (b : κ) : c.Starts (c.startBatch b) := ⟨[b], rfl, rfl⟩

theorem Starts.cancel (c : Call κ) : c.Starts c.cancel :=
  ⟨[], by simp [Call.cancel], by simp [Call.cancel]⟩

end Call

/-- One of the machines of this development as its completion queue sees it: a `Completion_callback`
    whose batches are on the queue, and what else its state is made of. -/
structure Party where
  State : Type
  Event : Type
  Obj : Type
  Batch : Type
  [spec : BatchSpec Batch]
  [callback : CompletionCallback Obj Batch]
  machine : Machine State Event
  /-- The object the tags of its batches refer to. -/
  object : State → Live Obj
  setObject : State → Live Obj → State
  /-- A batch of the object completes. -/
  complete : ℕ → Received → Event
  completes : Event → Bool
  completes_complete : ∀ i r, completes (complete i r) = true
  eq_complete : ∀ {e}, completes e = true → ∃ i r, e = complete i r
  /-- A completion is a turn of `worker_main`. -/
  step_complete : ∀ t i r,
    machine.step t (complete i r) = ((object t).workerMain i r).map (setObject t)
  object_setObject : ∀ t o, object (setObject t o) = o
  /-- What else happens to it starts batches, and deletes nothing. -/
  step_other : ∀ {t t' e}, machine.step t e = some t' → completes e = false →
    (object t').deleted = (object t).deleted ∧
      (CompletionCallback.call (object t).obj).Starts (CompletionCallback.call (object t').obj)
  /-- So does `exec`. -/
  exec_starts : ∀ (o : Obj) flags, (CompletionCallback.call o).Starts
    (CompletionCallback.call (CompletionCallback.exec o flags).2)
  /-- It returns, if what the batch has brought is an `OK` without a message. -/
  exec_returns : ∀ (o : Obj) k b,
    CompletionCallback.aborts (Live.completed o k b {}) (BatchSpec.flags b) = false
  call_setCall : ∀ (o : Obj) c, CompletionCallback.call (CompletionCallback.setCall o c) = c
  call_receive : ∀ (o : Obj) b r,
    CompletionCallback.call (CompletionCallback.receive o b r) = CompletionCallback.call o
  /-- It starts out with an object that exists, and with its first batches. -/
  init_live : (object machine.init).deleted = false
  init_starts : ({} : Call Batch).Starts (CompletionCallback.call (object machine.init).obj)

namespace Party

attribute [instance] Party.spec Party.callback

variable (P : Party)

/-- The call the object's batches are started on. -/
def call (t : P.State) : Call P.Batch := CompletionCallback.call (P.object t).obj

def deleted (t : P.State) : Bool := (P.object t).deleted

/-- `exec` on the object, for its `k`-th outstanding batch and with the flags `flags`. -/
def exec (t : P.State) (k : ℕ) (r : Received) (flags : BitVec 4) : Option P.State :=
  (P.call t).outstanding[k]?.bind (fun b =>
    let obj := Live.completed (P.object t).obj k b r
    if CompletionCallback.aborts obj flags then none
    else
      let (kill, obj) := CompletionCallback.exec obj flags
      some (P.setObject t ⟨obj, kill⟩))

/-- The object is never deleted with batches outstanding. -/
def DiesClean : Prop :=
  ∀ t, P.machine.Reachable t → P.deleted t = true → (P.call t).outstanding = []

/-- No `exec` of the object starts a batch. -/
def ExecStartsNothing : Prop :=
  ∀ (o : P.Obj) flags, (CompletionCallback.call (CompletionCallback.exec o flags).2).started
    = (CompletionCallback.call o).started

end Party

/-! ## The queue -/

/-- The address of an object, whose low bits are free for the flags. -/
abbrev Aligned (a : BitVec 64) : Prop := ∀ i < 4, a.getLsbD i = false

/-- A party on a queue, and the address of its object. -/
structure Resident {ι : Type} (P : ι → Party) where
  kind : ι
  address : BitVec 64
  state : (P kind).State

/-- A batch whose completion event the queue has yet to hand out: the party that has started it, and
    its tag. -/
structure InFlight where
  party : ℕ
  tag : BitVec 64

/-- A queue, the memory its tags point into, and the parties with their objects there. -/
structure CompletionQueue {ι : Type} (P : ι → Party) where
  /-- Every party, in the order of creation. -/
  parties : List (Resident P) := []
  /-- Which party's object is at an address. -/
  heap : BitVec 64 → Option ℕ := fun _ => none
  inFlight : List InFlight := []
  /-- `grpc_completion_queue_shutdown` was called. -/
  shutDown : Bool := false
  /-- `worker_main` has returned and `thread_` is joined. -/
  joined : Bool := false
  /-- `worker_main` has called `exec` at an address where the object of the batch is no longer. What
      that does is undefined, so it is the end of a run. -/
  dangling : Bool := false

namespace CompletionQueue

variable {ι : Type} {P : ι → Party}

inductive Event (P : ι → Party) where
  /-- A party is created, with its object at `address`. -/
  | create (kind : ι) (address : BitVec 64)
  /-- Something other than a completion happens to the `n`-th party: the event `e` has for its
      kind. -/
  | act (n : ℕ) (e : (kind : ι) → (P kind).Event)
  /-- `grpc_completion_queue_next` hands out the event of the `i`-th batch in flight, which has
      brought `r`. -/
  | complete (i : ℕ) (r : Received)
  /-- The destructor calls `grpc_completion_queue_shutdown`. -/
  | shutdown
  /-- `grpc_completion_queue_next` returns `GRPC_QUEUE_SHUTDOWN`, and `worker_main` returns. -/
  | join

/-- What is put in flight for the `n`-th party, with its object at `address`, when its call goes from
    `c` to `c'`. -/
def submitted {κ : Type} [BatchSpec κ] (n : ℕ) (address : BitVec 64) (c c' : Call κ) :
    List InFlight :=
  (c'.started.drop c.started.length).map
    (fun b => ⟨n, completionTag address (BatchSpec.flags b)⟩)

/-- The `n`-th party goes to the state `t`. gRPC core aborts the process when a batch is started on
    a queue that was shut down, so there is no such step. -/
def advance (q : CompletionQueue P) (n : ℕ) (p : Resident P) (t : (P p.kind).State) :
    Option (CompletionQueue P) :=
  let new := submitted n p.address ((P p.kind).call p.state) ((P p.kind).call t)
  if q.shutDown && !new.isEmpty then none
  else some { q with
    parties := q.parties.set n { p with state := t }
    inFlight := q.inFlight ++ new }

/-- `delete completion`. -/
def free (q : CompletionQueue P) (address : BitVec 64) : CompletionQueue P :=
  { q with heap := Function.update q.heap address none }

/-- The place of the `i`-th batch in flight among those of its party, which are in flight in the
    order it has started them. -/
def position (q : CompletionQueue P) (i : ℕ) (b : InFlight) : ℕ :=
  (q.inFlight.take i).countP (·.party == b.party)

/-- One turn of `worker_main`, for the `i`-th batch in flight. -/
def workerMain (q : CompletionQueue P) (i : ℕ) (r : Received) : Option (CompletionQueue P) :=
  q.inFlight[i]?.bind (fun b =>
    let k := q.position i b
    let q := { q with inFlight := q.inFlight.eraseIdx i }
    let flags := tagFlags b.tag
    let completion := tagCallback b.tag
    if q.heap completion = some b.party then
      q.parties[b.party]?.bind (fun p =>
        ((P p.kind).exec p.state k r flags).bind (fun t =>
          let kill := (P p.kind).deleted t
          (q.advance b.party p t).map (fun q => if kill then q.free completion else q)))
    else some { q with dangling := true })

def step (q : CompletionQueue P) (e : Event P) : Option (CompletionQueue P) :=
  if q.dangling || q.joined then none
  else match e with
    | .create kind address =>
        if Aligned address ∧ q.heap address = none ∧ q.shutDown = false then
          let state := (P kind).machine.init
          let n := q.parties.length
          some { q with
            parties := q.parties ++ [⟨kind, address, state⟩]
            heap := Function.update q.heap address (some n)
            inFlight := q.inFlight ++ submitted n address {} ((P kind).call state) }
        else none
    | .act n e => q.parties[n]?.bind (fun p =>
        if (P p.kind).completes (e p.kind) then none
        else ((P p.kind).machine.step p.state (e p.kind)).bind (q.advance n p))
    | .complete i r => q.workerMain i r
    | .shutdown => if q.shutDown then none else some { q with shutDown := true }
    | .join => if q.shutDown && q.inFlight.isEmpty then some { q with joined := true } else none

def machine (P : ι → Party) : Machine (CompletionQueue P) (Event P) where
  init := {}
  step := step

end CompletionQueue

end EasyGrpc
