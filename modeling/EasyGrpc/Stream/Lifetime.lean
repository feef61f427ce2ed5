import EasyGrpc.Future.Lifetime
import EasyGrpc.Stream.Storage

set_option autoImplicit false

/-! # The life of a stream's shared state

`Stream_storage` from its constructor to its destructor (`stream_storage_impl.h`). `set_handler` may
be left by an exception: of the handler's constructor, before it assigns `callback_`, or of a call
for a buffered value, after that and before it sets the ready bit. `for_each` may then be called
again. -/

namespace EasyGrpc

variable {ι α : Type}

/-- `~Stream_storage`. Nothing initialises `callback_`: it holds `junk` (an address, or `none` for
    null) until `set_handler` assigns the handlers, the last of the `installed` ones in the end. -/
def StreamStorage.destructor (s : StreamStorage ι α) (installed : ℕ) (junk : Option ℕ) :
    List DestructorEffect :=
  let callback := if s.callback then some (.handler (installed - 1)) else junk.map .wild
  .readCallback s.callback :: match callback with
    | some handler => [.destroyHandler handler]
    | none => []

namespace Stream

structure Lifetime (ι α : Type) where
  stream : Stream ι α := {}
  /-- How many handlers were assigned to `callback_`. -/
  installed : ℕ := 0

namespace Lifetime

inductive Event (ι α : Type) where
  | op (e : Stream.Event ι α)
  /-- The handler's constructor throws. -/
  | handlerThrows
  /-- The call for a buffered value throws, after `k` of them. -/
  | drainThrows (k : ℕ)

variable [DecidableEq ι] [Fintype ι]

/-- This step assigns `callback_`. -/
def installs : Stream.Event ι α → Bool
  | .publish => true
  | _ => false

def step (ex : Executor) (s : Lifetime ι α) : Event ι α → Option (Lifetime ι α)
  | .op e =>
      (s.stream.step ex e).map (fun stream => { s with
        stream
        installed := if installs e then s.installed + 1 else s.installed })
  | .handlerThrows => if s.stream.attaching = .detached then some s else none
  | .drainThrows k =>
      if s.stream.attaching = .published ∧ k < s.stream.storage.fullfilled.length then
        let calls := (s.stream.storage.fullfilled.take k).map (fun p => Task.call p.1 p.2)
        some { s with stream := { s.stream.enqueue ex calls with attaching := .detached } }
      else none

def machine (ι α : Type) [DecidableEq ι] [Fintype ι] (ex : Executor) :
    Machine (Lifetime ι α) (Event ι α) where
  init := {}
  step := step ex

end Lifetime

end Stream

end EasyGrpc
