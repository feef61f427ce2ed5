import Mathlib.Data.Finset.Sort
import EasyGrpc.Server.Listener

set_option autoImplicit false

/-! # Configuring and starting a server

`Service_config` (`service_config.h`), `Method` (`method.h`), `Config` (`config.cpp`) and the
constructor of `Server` (`server.cpp`). What gRPC core answers is a parameter. -/

namespace EasyGrpc

namespace Setup

/-! ## Methods and services -/

/-- The address of a `grpc_completion_queue`. -/
abbrev QueueHandle := ℕ

/-- `Completion_queue_set`: the handles of the queues it refers to. -/
abbrev CompletionQueueSet := List QueueHandle

/-- `immediate_payload` of a handler class. -/
def immediatePayload : RpcKind → Bool
  | .unarySync | .unaryAsync | .serverStreaming => true
  | .clientStreaming | .bidirStreaming => false

/-- `Method`, and the handler class its `Method_impl` is made for. -/
structure Method where
  name : String
  kind : RpcKind
  queues : CompletionQueueSet := []

/-- What a callback returns. -/
inductive ResultKind where
  | value
  /-- `Future<T>`. -/
  | future
  /-- `Stream_future<T>`. -/
  | stream
deriving DecidableEq, Repr

/-- What `function_traits` says of a callback. -/
structure CallbackTraits where
  /-- The argument is a `Stream_future`. -/
  reader : Bool
  result : ResultKind
deriving DecidableEq, Repr

/-- The handler class `add_method` chooses. -/
def CallbackTraits.kind (cb : CallbackTraits) : RpcKind :=
  let cStreaming := cb.reader
  let sStreaming := cb.result == .stream
  if cStreaming && sStreaming then .bidirStreaming
  else if cStreaming then .clientStreaming
  else if sStreaming then .serverStreaming
  else if cb.result == .value then .unarySync
  else .unaryAsync

/-- `Service_config`. -/
structure ServiceConfig where
  name : String
  methods : List Method := []

/-- `add_method`; its last parameter has no name. -/
def ServiceConfig.addMethod (s : ServiceConfig) (name : String) (cb : CallbackTraits)
    (_ : CompletionQueueSet) : ServiceConfig :=
  { s with methods := s.methods ++ [{ name := name, kind := cb.kind }] }

/-- The arguments of a call of `add_method`. -/
structure MethodArgs where
  name : String
  cb : CallbackTraits
  queues : CompletionQueueSet := []

/-- A service with the methods that are added to its `Service_config`. -/
structure ServiceArgs where
  name : String
  methods : List MethodArgs

def ServiceArgs.config (service : ServiceArgs) : ServiceConfig :=
  service.methods.foldl (fun s m => s.addMethod m.name m.cb m.queues) { name := service.name }

/-! ## Configurations -/

structure Port where
  addr : String
  /-- There are credentials. -/
  creds : Bool
  /-- The address of the `int` the bound port is to be written to. -/
  boundReport : Option ℕ

/-- A call on a `Config`. `add_to_config` of a feature makes such calls too, and reads the services
    the configuration has by then. -/
inductive ConfigCall where
  | addDefaultListeningQueues (queues : CompletionQueueSet)
  | addService (service : ServiceArgs)
  | addListeningPort (port : Port)
  | addFeature (addToConfig : List ServiceConfig → List ConfigCall)

/-- `Feature`. -/
abbrev Feature := List ServiceConfig → List ConfigCall

structure Config where
  defaultQueues : CompletionQueueSet := []
  services : List ServiceConfig := []
  ports : List Port := []
  features : List Feature := []

def Config.apply (cfg : Config) : ConfigCall → Config
  | .addDefaultListeningQueues queues => { cfg with defaultQueues := queues }
  | .addService service => { cfg with services := cfg.services ++ [service.config] }
  | .addListeningPort port => { cfg with ports := cfg.ports ++ [port] }
  | .addFeature f => { cfg with features := cfg.features ++ [f] }

/-- The configuration made by the given calls. -/
def configure (calls : List ConfigCall) : Config := calls.foldl Config.apply {}

/-- `f->add_to_config(cfg)`. -/
def Config.addToConfig (cfg : Config) (f : Feature) : Config :=
  (f cfg.services).foldl Config.apply cfg

/-- `Reflection_feature::add_to_config`, but for the names it keeps for `list_services`. -/
def reflectionFeature : Feature := fun _ => [
  .addService {
    name := "grpc.reflection.v1alpha.ServerReflection"
    methods := [{
      name := "/grpc.reflection.v1alpha.ServerReflection/ServerReflectionInfo"
      cb := { reader := true, result := .stream } }] }]

/-! ## The server -/

/-- What the functions of gRPC core return. -/
structure Core where
  /-- `grpc_completion_queue_create`. -/
  completionQueueCreate : QueueHandle
  /-- `grpc_server_add_insecure_http2_port`: the bound port, or zero. -/
  addInsecureHttp2Port : String → ℕ
  /-- `grpc_server_register_method` returns no null pointer, given the names registered before. -/
  registers : List String → String → Bool

/-- `grpc_server_register_method_payload_handling`. -/
inductive PayloadHandling where
  | none
  | readInitialByteBuffer
deriving DecidableEq, Repr

/-- A call on the `grpc_server`. Methods are numbered in the order they are registered. -/
inductive CoreCall where
  | registerCompletionQueue (cq : QueueHandle)
  | registerMethod (name : String) (payloadHandling : PayloadHandling)
  | start
  /-- A listener asks for a call, and for its payload if `payload` is set. -/
  | requestRegisteredCall (method : ℕ) (cq : QueueHandle) (payload : Bool)
deriving DecidableEq, Repr

/-- The constructor does not return. -/
inductive Failure where
  | assertion
  | threw (what : String)
deriving DecidableEq, Repr

/-- The members of `Server`, with the calls on `impl_`. -/
structure Server where
  defaultQueues : CompletionQueueSet
  shutdownQueue : QueueHandle
  features : List Feature
  calls : List CoreCall
  /-- What was written to the `bound_report`s. -/
  boundReports : List (ℕ × ℕ)

/-- `add_listening_ports_`: what it writes. -/
def addListeningPorts (core : Core) : List Port → Except Failure (List (ℕ × ℕ))
  | [] => .ok []
  | port :: ports =>
      if port.creds then .error .assertion
      else
        let boundPort := core.addInsecureHttp2Port port.addr
        if boundPort = 0 then .error (.threw "grpc_server_add_insecure_http2_port failed")
        else (addListeningPorts core ports).map (fun reports =>
          match port.boundReport with
          | none => reports
          | some report => (report, boundPort) :: reports)

/-- The calls that register the methods; `none` where one returns a null pointer. -/
def registerMethods (core : Core) : List String → List Method → Option (List CoreCall)
  | _, [] => some []
  | names, method :: methods =>
      if core.registers names method.name then
        let payloadHandling :=
          if immediatePayload method.kind then .readInitialByteBuffer else .none
        (registerMethods core (names ++ [method.name]) methods).map
          (.registerMethod method.name payloadHandling :: ·)
      else none

/-- The queues of a method, as each of the loops finds them. -/
def queuesOf (defaultQueues : CompletionQueueSet) (method : Method) : CompletionQueueSet :=
  if method.queues.isEmpty then defaultQueues else method.queues

/-- `queues_to_register`. -/
def queuesToRegister (shutdownQueue : QueueHandle) (defaultQueues : CompletionQueueSet)
    (methods : List Method) : Finset QueueHandle :=
  methods.foldl (fun queues method =>
    (queuesOf defaultQueues method).foldl (fun queues cq => insert cq queues) queues)
    {shutdownQueue}

/-- The calls `listen` makes for each method. -/
def listen (defaultQueues : CompletionQueueSet) (methods : List Method) : List CoreCall :=
  methods.zipIdx.flatMap (fun (method, handle) =>
    (queuesOf defaultQueues method).map
      (.requestRegisteredCall handle · (immediatePayload method.kind)))

/-- `Server::Server(Config)`. -/
def construct (core : Core) (cfg : Config) : Except Failure Server :=
  let defaultQueues := cfg.defaultQueues
  let features := cfg.features
  let cfg := features.foldl Config.addToConfig { cfg with features := [] }
  if !cfg.features.isEmpty then .error .assertion
  else
    let shutdownQueue := core.completionQueueCreate
    match addListeningPorts core cfg.ports with
    | .error e => .error e
    | .ok boundReports =>
        let allMethods := cfg.services.flatMap (·.methods)
        match registerMethods core [] allMethods with
        | none => .error .assertion
        | some registrations =>
            -- A `std::set` of pointers is in the order of their addresses.
            let queues := (queuesToRegister shutdownQueue defaultQueues allMethods).sort (· ≤ ·)
            .ok {
              defaultQueues
              shutdownQueue
              features
              calls := queues.map .registerCompletionQueue ++ registrations ++
                .start :: listen defaultQueues allMethods
              boundReports }

end Setup

end EasyGrpc
