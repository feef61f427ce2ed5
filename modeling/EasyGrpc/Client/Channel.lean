import EasyGrpc.Library.Ownership

set_option autoImplicit false

/-! # Client channels

`Channel` (`client/channel.h`) and `Unsecure_channel` (`unsecure_channel.h`,
`unsecure_channel.cpp`), whose move operations are those of `Channel`. A program constructs, moves
and destroys any number of these objects, one operation after the other. -/

namespace EasyGrpc

/-- The members of a `Channel`; `none` is a null pointer. -/
structure Channel where
  /-- `handle_`: the number of the `grpc_channel`, in the order they are created. -/
  handle : Option ℕ := none
  defaultQueue : Option ℕ := none

/-- The `Channel` objects of a program, and the calls made to gRPC core. -/
structure Channels where
  object : ℕ → Option Channel := fun _ => none
  /-- The targets `grpc_insecure_channel_create` was given. -/
  created : List String := []
  /-- The handles `grpc_channel_destroy` was given. -/
  destroyed : List ℕ := []

namespace Channels

inductive Event where
  /-- `Channel()`, `Unsecure_channel()`. -/
  | construct (p : ℕ)
  /-- `Unsecure_channel(addr, default_pool)`. -/
  | connect (p : ℕ) (addr : String) (defaultPool : Option ℕ)
  /-- `p` is constructed from `std::move(rhs)`. -/
  | moveConstruct (p rhs : ℕ)
  /-- `p = std::move(rhs)`. -/
  | moveAssign (p rhs : ℕ)
  | destroy (p : ℕ)
deriving DecidableEq, Repr

/-- The members of `p` are set to those of `rhs`, and then those of `rhs` to null. -/
def moveMembers (s : Channels) (p rhs : ℕ) (members : Channel) : Channels :=
  { s with object := Function.update (Function.update s.object p (some members)) rhs (some {}) }

def step (s : Channels) : Event → Option Channels
  | .construct p =>
      if s.object p = none then some { s with object := Function.update s.object p (some {}) }
      else none
  | .connect p addr defaultPool =>
      if s.object p = none then
        let handle := s.created.length
        some { s with
          object := Function.update s.object p (some ⟨some handle, defaultPool⟩)
          created := s.created ++ [addr] }
      else none
  | .moveConstruct p rhs =>
      if s.object p = none then (s.object rhs).map (s.moveMembers p rhs) else none
  | .moveAssign p rhs =>
      if s.object p = none then none else (s.object rhs).map (s.moveMembers p rhs)
  | .destroy p =>
      (s.object p).map (fun channel => { s with
        object := Function.update s.object p none
        destroyed := s.destroyed ++ channel.handle.toList })

def machine : Machine Channels Event where
  init := {}
  step := step

/-- The handle `p` holds, if there is such an object. -/
def handle (s : Channels) (p : ℕ) : Option ℕ := (s.object p).bind (·.handle)

/-- A move assignment onto a channel that holds a handle; `p = std::move(p)` is one of them. -/
def overwrites (s : Channels) : Event → Bool
  | .moveAssign p _ => (s.handle p).isSome
  | _ => false

end Channels

end EasyGrpc
