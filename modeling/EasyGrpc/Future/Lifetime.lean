import EasyGrpc.Future.Storage

set_option autoImplicit false

/-! # The life of a future's shared state

`Future_storage` from its constructor to its destructor (`storage_impl.h`). An operation of the
producer may be left by an exception, of the move into `finished_` or of the handler; the promise
then runs another, at the latest in its own destructor. `set_handler` may be left by an exception as
well, and be called again. -/

namespace EasyGrpc

/-! ## What a destructor does -/

/-- What a pointer to a handler points to. -/
inductive Pointee where
  | null
  /-- The `n`-th handler `set_handler` has installed. -/
  | handler (n : ℕ)
  /-- Whatever is at an address. -/
  | wild (address : ℕ)
deriving DecidableEq, Repr

inductive DestructorEffect where
  /-- `cb_data_.callback_` is read; `assigned` says whether it was ever assigned. -/
  | readCallback (assigned : Bool)
  /-- The destructor of a handler runs, and its memory is given back. -/
  | destroyHandler (handler : Pointee)
  /-- The destructor of `finished_` runs. -/
  | destroyFinished
deriving DecidableEq, Repr

namespace DestructorEffect

def destroyed? : DestructorEffect → Option Pointee
  | .destroyHandler handler => some handler
  | _ => none

def assigned? : DestructorEffect → Option Bool
  | .readCallback assigned => some assigned
  | _ => none

/-- `callback_` is read only if it was assigned, each handler that was installed is destroyed once
    and nothing else is, and `finished_` as often as it was constructed. -/
structure Proper (effects : List DestructorEffect) (installed constructed : ℕ) : Prop where
  reads : ∀ assigned ∈ effects.filterMap assigned?, assigned = true
  handlers : effects.filterMap destroyed? = (List.range installed).map .handler
  finished : effects.count .destroyFinished = constructed

end DestructorEffect

namespace Future

variable {ε : Type} {ts : List (Option Type)}

/-- `~Future_storage`. `callback_` has an initialiser. -/
def Storage.destructor (s : Storage ε ts) : List DestructorEffect :=
  (if s.ready then
    [.readCallback s.callback, .destroyHandler (if s.callback then .handler 0 else .null)]
  else []) ++
  if s.isFinished then [.destroyFinished] else []

/-! ## Every operation on a storage -/

structure Lifetime (ε : Type) (ts : List (Option Type)) where
  shared : Shared ε ts := {}
  /-- The operation the producer runs, or has run last. -/
  op : Option (Operation ε ts) := none
  /-- How many handlers were assigned to `callback_`. -/
  installed : ℕ := 0
  /-- How often `finished_` was constructed. -/
  constructed : ℕ := 0

namespace Lifetime

inductive Event (ε : Type) (ts : List (Option Type)) where
  /-- The promise calls `fullfill`, `finish` or `fail`. -/
  | begin (op : Operation ε ts)
  | produce
  /-- The operation is left by an exception. -/
  | produceThrows
  | handle
  /-- The handler's constructor throws. -/
  | handlerThrows
  /-- `set_handler` is called again. -/
  | retry

def step (s : Lifetime ε ts) : Event ε ts → Option (Lifetime ε ts)
  | .begin op =>
      if s.op.isNone then some { s with op := some op } else none
  | .produce =>
      s.op.bind (fun op => (s.shared.produce op).map (fun shared => { s with
        shared
        constructed :=
          if s.shared.producer = .storing then s.constructed + 1 else s.constructed }))
  | .produceThrows =>
      s.op.bind (fun op => match s.shared.producer with
        -- `finished_` is not constructed.
        | .storing => some { s with shared := { s.shared with producer := .start }, op := none }
        -- The handler throws.
        | .calling => some { s with
            shared := { s.shared.invoke op.direct false with producer := .start }, op := none }
        | .notifying => some { s with
            shared := { s.shared.invoke (op.justInTime s.shared.storage.finished) true with
              producer := .start }
            op := none }
        | _ => none)
  | .handle =>
      (s.shared.handle false).map (fun shared => { s with
        shared
        installed := if s.shared.handler = .start then s.installed + 1 else s.installed })
  | .handlerThrows => (s.shared.handle true).map (fun shared => { s with shared })
  | .retry =>
      if s.shared.handler = .threw then
        some { s with shared := { s.shared with handler := .start } }
      else none

def machine (ε : Type) (ts : List (Option Type)) : Machine (Lifetime ε ts) (Event ε ts) where
  init := {}
  step := step

/-- No operation is in progress, so the last pointer to the storage may go away. -/
def settled (s : Lifetime ε ts) : Bool :=
  (s.shared.producer = .start || s.shared.producer = .returned) &&
    (s.shared.handler = .start || s.shared.handler = .returned || s.shared.handler = .threw)

end Lifetime

end Future

end EasyGrpc
