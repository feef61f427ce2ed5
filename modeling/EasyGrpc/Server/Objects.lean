import EasyGrpc.Library.Ownership
import EasyGrpc.Server.Config

set_option autoImplicit false

/-! # Server objects

The move operations, the destructor and `cleanup_` of `Server` (`server.cpp`). A program constructs,
moves and destroys any number of `Server` objects, one operation after the other. The `grpc_server`
and the shutdown queue a construction creates are both numbered with the number of that
construction, and so are the `Feature` objects it is given. -/

namespace EasyGrpc

/-- A `Feature` object: the construction it was passed to, and its place in the `features_`
    there. -/
structure FeatureRef where
  server : ℕ
  index : ℕ
deriving DecidableEq, Repr

/-- The members of a `Server`; `none` is a null pointer. -/
structure ServerObject where
  impl : Option ℕ := none
  defaultQueues : Setup.CompletionQueueSet := []
  shutdownQueue : Option ℕ := none
  features : List FeatureRef := []

/-- The calls `cleanup_` makes to gRPC core. -/
inductive StopCall where
  /-- `grpc_server_shutdown_and_notify`. -/
  | shutdownAndNotify (impl : ℕ) (cq : Option ℕ)
  | completionQueueNext (cq : Option ℕ)
  | completionQueueShutdown (cq : Option ℕ)
  | completionQueueDestroy (cq : Option ℕ)
  | serverDestroy (impl : ℕ)
deriving DecidableEq, Repr

/-- `cleanup_`. -/
def ServerObject.cleanup (self : ServerObject) : List StopCall :=
  match self.impl with
  | none => []
  | some impl => [
      .shutdownAndNotify impl self.shutdownQueue,
      -- The server is shut down.
      .completionQueueNext self.shutdownQueue,
      .completionQueueShutdown self.shutdownQueue,
      -- The queue is shut down.
      .completionQueueNext self.shutdownQueue,
      .completionQueueDestroy self.shutdownQueue,
      .serverDestroy impl]

/-- The `Server` objects of a program, and the calls made to gRPC core. -/
structure Servers where
  object : ℕ → Option ServerObject := fun _ => none
  /-- The features each `grpc_server` was set up with, in the order they are created. -/
  created : List (List FeatureRef) := []
  stopCalls : List StopCall := []

namespace Servers

inductive Event where
  /-- `Server()`. -/
  | construct (p : ℕ)
  /-- `Server(cfg)`. -/
  | start (p : ℕ) (core : Setup.Core) (cfg : Setup.Config)
  /-- `p` is constructed from `std::move(rhs)`. -/
  | moveConstruct (p rhs : ℕ)
  /-- `p = std::move(rhs)`. -/
  | moveAssign (p rhs : ℕ)
  | destroy (p : ℕ)

/-- The features of a configuration, owned by the construction `n`. -/
def featureRefs (n : ℕ) (features : List Setup.Feature) : List FeatureRef :=
  (List.range features.length).map (⟨n, ·⟩)

/-- The members both move operations take from `rhs`: `p` becomes `self` with these, and `rhs`
    loses them. -/
def moveMembers (s : Servers) (p rhs : ℕ) (self other : ServerObject) : Servers :=
  let object := Function.update s.object p
    (some { self with impl := other.impl, shutdownQueue := other.shutdownQueue })
  { s with
    object := Function.update object rhs
      ((object rhs).map (fun rhs => { rhs with impl := none, shutdownQueue := none })) }

def step (s : Servers) : Event → Option Servers
  | .construct p =>
      if s.object p = none then some { s with object := Function.update s.object p (some {}) }
      else none
  | .start p core cfg =>
      if s.object p = none then
        let n := s.created.length
        let features := featureRefs n cfg.features
        match Setup.construct core cfg with
        | .ok server => some { s with
            object := Function.update s.object p (some {
              impl := some n
              defaultQueues := server.defaultQueues
              shutdownQueue := some n
              features })
            created := s.created ++ [features] }
        -- A port could not be bound. The object under construction is cleaned up; its destructor
        -- does not run.
        | .error (.threw _) => some { s with
            created := s.created ++ [features]
            stopCalls := s.stopCalls
              ++ ServerObject.cleanup { impl := some n, shutdownQueue := some n } }
        | .error .assertion => none
      else none
  | .moveConstruct p rhs =>
      if s.object p = none then (s.object rhs).map (s.moveMembers p rhs {}) else none
  | .moveAssign p rhs =>
      (s.object p).bind (fun self => (s.object rhs).map (fun other =>
        { s with stopCalls := s.stopCalls ++ self.cleanup }.moveMembers p rhs self other))
  | .destroy p =>
      (s.object p).map (fun self => { s with
        object := Function.update s.object p none
        stopCalls := s.stopCalls ++ self.cleanup })

def machine : Machine Servers Event where
  init := {}
  step := step

/-- The `grpc_server` in `p`, if there is such an object and it has one. -/
def impl (s : Servers) (p : ℕ) : Option ℕ := (s.object p).bind (·.impl)

def destroyed? : StopCall → Option ℕ
  | .serverDestroy impl => some impl
  | _ => none

/-- The servers `grpc_server_destroy` was called for. -/
def destroyed (s : Servers) : List ℕ := s.stopCalls.filterMap destroyed?

/-- An object is destroyed with features of a `grpc_server` that runs in another object. -/
def strands (s : Servers) : Event → Bool
  | .destroy p => (s.object p).any (fun self =>
      self.features.any (fun f => decide (f.server ∉ s.destroyed) && self.impl != some f.server))
  | _ => false

end Servers

end EasyGrpc
