import Mathlib.Data.Fin.Basic
import Mathlib.Logic.Function.Basic
import EasyGrpc.Future.Chain

set_option autoImplicit false

/-! # Joining futures

`join`, `bind_landing` and `Landing` (`join.h`). The thread that calls `join` attaches a `finally`
to one future after the other; each of these callbacks is run by the thread that resolves its
future, or by the one that attaches it, and takes two steps, the write of its slot and `ping`. -/

namespace EasyGrpc

namespace Future

variable {ε : Type}

/-! ## Tuples by position -/

/-- `std::get<i>`. -/
def slot : (ts : List (Option Type)) → (i : Fin ts.length) → FinishType ε ts →
    Expected ε (ts.get i)
  | _ :: _, ⟨0, _⟩, f => f.1
  | _ :: ts, ⟨i + 1, hi⟩, f => slot ts ⟨i, Nat.lt_of_succ_lt_succ hi⟩ f.2

/-- The tuple with the given slots. -/
def tuple : (ts : List (Option Type)) → (∀ i : Fin ts.length, Expected ε (ts.get i)) →
    FinishType ε ts
  | [], _ => ()
  | _ :: ts, slots => (slots ⟨0, Nat.zero_lt_succ _⟩, tuple ts (fun i => slots i.succ))

/-! ## The landing -/

/-- A callback of `bind_landing`. -/
inductive LandingCallback (ε : Type) (t : Option Type) where
  | idle
  /-- It was called. -/
  | called (e : Expected ε t)
  /-- `*value_landing` is written; `ping` is next. -/
  | written
  | returned

def LandingCallback.isReturned {t : Option Type} : LandingCallback ε t → Bool
  | .returned => true
  | _ => false

/-- Its slot holds what it was called with. -/
def LandingCallback.isWritten {t : Option Type} : LandingCallback ε t → Bool
  | .written => true
  | .returned => true
  | _ => false

/-- The argument of a `finally` callback on a future of one slot. -/
def Outcome.argument {t : Option Type} : Outcome ε [t] → Option (Expected ε t)
  | .fullfill v => some (fullfillToFinish [t] v).1
  | .finish f => some f.1
  | .garbage => none

/-- The futures given to `join` and their callbacks, the `Landing` they share, and the storage of
    the joined future. -/
structure Join (ε : Type) (ts : List (Option Type)) where
  shared : ∀ i : Fin ts.length, Shared ε [ts.get i] := fun _ => {}
  calls : ∀ i : Fin ts.length, LandingCallback ε (ts.get i) := fun _ => .idle
  /-- The callback was called by the thread that calls `join`. -/
  inBinder : Fin ts.length → Bool := fun _ => false
  landing : ∀ i : Fin ts.length, Expected ε (ts.get i)
  fullfilled : ℕ := 0
  /-- The calls of `dst_->finish`. -/
  finishes : List (FinishType ε ts) := []
  joined : Shared ε ts := {}

namespace Join

variable {ts : List (Option Type)}

/-- `bind_landing` has left the `i`-th future behind. -/
def bound (s : Join ε ts) (i : Fin ts.length) : Bool :=
  (s.shared i).handler == .returned && (!s.inBinder i || (s.calls i).isReturned)

/-- A thread at work on the storage of the `i`-th future has taken a step; it may have called the
    callback. -/
def moved (s : Join ε ts) (i : Fin ts.length) (shared : Shared ε [ts.get i]) (binder : Bool) :
    Join ε ts :=
  let call := (shared.invocations.drop (s.shared i).invocations.length).head?
  let s := { s with shared := Function.update s.shared i shared }
  match call.bind (·.outcome.argument) with
  | none => s
  | some e => { s with
      calls := Function.update s.calls i (.called e)
      inBinder := Function.update s.inBinder i binder }

/-- `*value_landing = std::move(e)`. -/
def write (s : Join ε ts) (i : Fin ts.length) : Option (Join ε ts) :=
  match s.calls i with
  | .called e => some { s with
      landing := Function.update s.landing i e
      calls := Function.update s.calls i .written }
  | _ => none

/-- `ping`. -/
def ping (s : Join ε ts) (i : Fin ts.length) : Option (Join ε ts) :=
  match s.calls i with
  | .written =>
      let fullfilled := s.fullfilled + 1
      some { s with
        fullfilled := fullfilled
        finishes :=
          if fullfilled = ts.length then s.finishes ++ [tuple ts s.landing] else s.finishes
        calls := Function.update s.calls i .returned }
  | _ => none

inductive Event (n : ℕ) where
  /-- The operation that resolves the `i`-th future goes on. -/
  | produce (i : Fin n)
  /-- `set_handler` on the `i`-th future goes on. -/
  | handle (i : Fin n)
  | write (i : Fin n)
  | ping (i : Fin n)
  /-- `dst_->finish` goes on. -/
  | finish
  /-- `set_handler` on the joined future goes on. -/
  | attach

/-- `op` are the operations that resolve the futures. -/
def step (op : ∀ i : Fin ts.length, Operation ε [ts.get i]) (s : Join ε ts) :
    Event ts.length → Option (Join ε ts)
  | .produce i => ((s.shared i).produce (op i)).map (s.moved i · false)
  | .handle i =>
      if ∀ j < i, s.bound j = true then ((s.shared i).handle false).map (s.moved i · true) else none
  | .write i => s.write i
  | .ping i => s.ping i
  | .finish =>
      match s.finishes with
      | [] => none
      | f :: _ => (s.joined.produce (.finish f)).map (fun joined => { s with joined })
  | .attach =>
      if ∀ j, s.bound j = true then (s.joined.handle false).map (fun joined => { s with joined })
      else none

/-- `join` is called; `landing` are default-constructed slots. -/
def machine (op : ∀ i : Fin ts.length, Operation ε [ts.get i])
    (landing : ∀ i : Fin ts.length, Expected ε (ts.get i)) :
    Machine (Join ε ts) (Event ts.length) where
  init := { landing }
  step := step op

end Join

end Future

end EasyGrpc
