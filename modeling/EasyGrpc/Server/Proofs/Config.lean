import EasyGrpc.Server.Config

set_option autoImplicit false

/-! # Which methods listen on the queues they were given

`add_method` does not keep the queue set it is passed, so every method has an empty set and listens
on the default queues. The three loops of the constructor agree on that. -/

namespace EasyGrpc

namespace Setup

/-! ## What was asked for -/

def servicesAdded (calls : List ConfigCall) : List ServiceArgs :=
  calls.filterMap (fun
    | .addService service => some service
    | _ => none)

/-- The services added by the features, each of which finds those added before it. -/
def servicesAddedBy : Config → List Feature → List ServiceArgs
  | _, [] => []
  | cfg, f :: fs => servicesAdded (f cfg.services) ++ servicesAddedBy (cfg.addToConfig f) fs

/-- The configuration once the features were added. -/
def started (calls : List ConfigCall) : Config :=
  (configure calls).features.foldl Config.addToConfig { configure calls with features := [] }

/-- The methods of all services, with the queue sets passed for them. -/
def methodsAdded (calls : List ConfigCall) : List MethodArgs :=
  (servicesAdded calls ++ servicesAddedBy { configure calls with features := [] }
    (configure calls).features).flatMap (·.methods)

/-- The effective queue set of a method. -/
def effectiveQueues (defaultQueues : CompletionQueueSet) (m : MethodArgs) : CompletionQueueSet :=
  if m.queues = [] then defaultQueues else m.queues

namespace CoreCall

def registered? : CoreCall → Option (String × PayloadHandling)
  | .registerMethod name payloadHandling => some (name, payloadHandling)
  | _ => none

/-- The queue on which a listener for the given method was started. -/
def listening? (method : ℕ) : CoreCall → Option QueueHandle
  | .requestRegisteredCall method' cq _ => if method' = method then some cq else none
  | _ => none

def queue? : CoreCall → Option QueueHandle
  | .registerCompletionQueue cq => some cq
  | _ => none

def beforeStart (calls : List CoreCall) : List CoreCall := calls.takeWhile (· != .start)

end CoreCall

/-- Every method is registered once, with the payload handling of its handler class, and has a
    listener for each of its effective queues; these and the shutdown queue are registered once each
    before the server is started. -/
structure ListensAsGiven (defaultQueues : CompletionQueueSet) (methods : List MethodArgs)
    (server : Server) : Prop where
  registered : server.calls.filterMap CoreCall.registered? = methods.map (fun m =>
    (m.name, if immediatePayload m.cb.kind then .readInitialByteBuffer else .none))
  listening : ∀ i, (server.calls.filterMap (CoreCall.listening? i)).Perm
    ((methods[i]?.map (effectiveQueues defaultQueues)).getD [])
  nodup : ((CoreCall.beforeStart server.calls).filterMap CoreCall.queue?).Nodup
  queues : ∀ cq, cq ∈ (CoreCall.beforeStart server.calls).filterMap CoreCall.queue? ↔
    cq = server.shutdownQueue ∨ ∃ m ∈ methods, cq ∈ effectiveQueues defaultQueues m

/-! ## What the configuration holds -/

/-- The method `add_method` makes. -/
def MethodArgs.method (m : MethodArgs) : Method := { name := m.name, kind := m.cb.kind }

theorem methods_config (service : ServiceArgs) :
    service.config.methods = service.methods.map MethodArgs.method := by
  have hfold (s : ServiceConfig) (ms : List MethodArgs) :
      (ms.foldl (fun s m => s.addMethod m.name m.cb m.queues) s).methods =
        s.methods ++ ms.map MethodArgs.method := by
    induction ms generalizing s with
    | nil => simp
    | cons m ms ih =>
        rw [List.foldl_cons, ih]
        simp [ServiceConfig.addMethod, MethodArgs.method]
  rw [ServiceArgs.config, hfold]
  rfl

theorem services_foldl_apply (cfg : Config) (calls : List ConfigCall) :
    (calls.foldl Config.apply cfg).services =
      cfg.services ++ (servicesAdded calls).map ServiceArgs.config := by
  induction calls generalizing cfg with
  | nil => simp [servicesAdded]
  | cons call calls ih =>
      rw [List.foldl_cons, ih]
      cases call with
      | addService service => simp [Config.apply, servicesAdded]
      | addDefaultListeningQueues queues => simp [Config.apply, servicesAdded]
      | addListeningPort port => simp [Config.apply, servicesAdded]
      | addFeature f => simp [Config.apply, servicesAdded]

theorem services_foldl_addToConfig (cfg : Config) (fs : List Feature) :
    (fs.foldl Config.addToConfig cfg).services =
      cfg.services ++ (servicesAddedBy cfg fs).map ServiceArgs.config := by
  induction fs generalizing cfg with
  | nil => simp [servicesAddedBy]
  | cons f fs ih =>
      have hservices : (cfg.addToConfig f).services =
          cfg.services ++ (servicesAdded (f cfg.services)).map ServiceArgs.config :=
        services_foldl_apply cfg (f cfg.services)
      rw [List.foldl_cons, ih, hservices, servicesAddedBy, List.map_append, List.append_assoc]

/-- The methods the constructor finds. -/
theorem methods_started (calls : List ConfigCall) :
    (started calls).services.flatMap (·.methods) =
      (methodsAdded calls).map MethodArgs.method := by
  have hconfigured : (configure calls).services = (servicesAdded calls).map ServiceArgs.config := by
    rw [configure, services_foldl_apply]
    rfl
  rw [started, services_foldl_addToConfig, hconfigured, ← List.map_append, methodsAdded,
    List.flatMap_map, List.map_flatMap]
  exact List.flatMap_congr (fun service _ => methods_config service)

/-- None of them has queues of its own. -/
theorem queuesOf_method (defaultQueues : CompletionQueueSet) (m : MethodArgs) :
    queuesOf defaultQueues m.method = defaultQueues := rfl

/-! ## The loops of the constructor -/

theorem mem_queuesToRegister (shutdownQueue cq : QueueHandle) (defaultQueues : CompletionQueueSet)
    (methods : List Method) :
    cq ∈ queuesToRegister shutdownQueue defaultQueues methods ↔
      cq = shutdownQueue ∨ ∃ method ∈ methods, cq ∈ queuesOf defaultQueues method := by
  have hinsert (queues : Finset QueueHandle) (set : CompletionQueueSet) :
      cq ∈ set.foldl (fun queues cq => insert cq queues) queues ↔ cq ∈ queues ∨ cq ∈ set := by
    induction set generalizing queues with
    | nil => simp
    | cons q set ih =>
        rw [List.foldl_cons, ih, Finset.mem_insert, List.mem_cons]
        tauto
  have hfold (queues : Finset QueueHandle) :
      cq ∈ methods.foldl (fun queues method =>
          (queuesOf defaultQueues method).foldl (fun queues cq => insert cq queues) queues) queues ↔
        cq ∈ queues ∨ ∃ method ∈ methods, cq ∈ queuesOf defaultQueues method := by
    induction methods generalizing queues with
    | nil => simp
    | cons method methods ih =>
        rw [List.foldl_cons, ih, hinsert, List.exists_mem_cons_iff]
        tauto
  rw [queuesToRegister, hfold, Finset.mem_singleton]

theorem registerMethods_eq {core : Core} {names : List String} {methods : List Method}
    (h : ∀ before name, before ++ [name] <+: methods.map (·.name) →
      core.registers (names ++ before) name = true) :
    registerMethods core names methods = some (methods.map (fun method =>
      .registerMethod method.name
        (if immediatePayload method.kind then .readInitialByteBuffer else .none))) := by
  induction methods generalizing names with
  | nil => rfl
  | cons method methods ih =>
      have hfirst : core.registers names method.name = true := by
        simpa using h [] method.name (by simp)
      have hrest : ∀ before name, before ++ [name] <+: methods.map (·.name) →
          core.registers (names ++ [method.name] ++ before) name = true := by
        intro before name hprefix
        simpa using h (method.name :: before) name (by simpa using hprefix)
      rw [registerMethods, if_pos hfirst, ih hrest]
      rfl

theorem addListeningPorts_eq {core : Core} {ports : List Port}
    (h : ∀ port ∈ ports, port.creds = false ∧ core.addInsecureHttp2Port port.addr ≠ 0) :
    ∃ reports, addListeningPorts core ports = .ok reports := by
  induction ports with
  | nil => exact ⟨[], rfl⟩
  | cons port ports ih =>
      obtain ⟨reports, hreports⟩ := ih (fun port hport => h port (List.mem_cons_of_mem _ hport))
      obtain ⟨hcreds, hbound⟩ := h port List.mem_cons_self
      rw [addListeningPorts, hreports]
      simp [hcreds, hbound, Except.map]

/-- The listeners of the `i`-th method: one for each default queue. -/
theorem filterMap_listening (defaultQueues : CompletionQueueSet) (methods : List MethodArgs)
    (i : ℕ) : (listen defaultQueues (methods.map MethodArgs.method)).filterMap
      (CoreCall.listening? i) = (methods[i]?.map (fun _ => defaultQueues)).getD [] := by
  have hone (handle : ℕ) (payload : Bool) :
      (defaultQueues.map (CoreCall.requestRegisteredCall handle · payload)).filterMap
        (CoreCall.listening? i) = if handle = i then defaultQueues else [] := by
    by_cases heq : handle = i
    · simp [List.filterMap_map, Function.comp_def, CoreCall.listening?, heq]
    · simp [List.filterMap_map, Function.comp_def, CoreCall.listening?, heq]
  -- The handles count on from `k`.
  have hfrom (k : ℕ) : (((methods.map MethodArgs.method).zipIdx k).flatMap
      (fun entry => (queuesOf defaultQueues entry.1).map
        (CoreCall.requestRegisteredCall entry.2 · (immediatePayload entry.1.kind)))).filterMap
          (CoreCall.listening? i) =
        if k ≤ i then (methods[i - k]?.map (fun _ => defaultQueues)).getD [] else [] := by
    induction methods generalizing k with
    | nil => simp
    | cons m methods ih =>
        rw [List.map_cons, List.zipIdx_cons, List.flatMap_cons, List.filterMap_append, ih]
        dsimp only
        rw [queuesOf_method, hone]
        by_cases heq : k = i
        · subst heq
          simp
        · by_cases hle : k ≤ i
          · obtain ⟨d, hd⟩ : ∃ d, i - k = d + 1 := ⟨i - k - 1, by omega⟩
            have hd' : i - (k + 1) = d := by omega
            have hle' : k + 1 ≤ i := by omega
            simp [heq, hle, hle', hd, hd']
          · have hle' : ¬ k + 1 ≤ i := by omega
            simp [heq, hle, hle']
  exact (hfrom 0).trans (by simp)

/-- Listeners only ask for calls. -/
theorem eq_of_mem_listen {defaultQueues : CompletionQueueSet} {methods : List Method}
    {call : CoreCall} (h : call ∈ listen defaultQueues methods) :
    ∃ handle cq payload, call = .requestRegisteredCall handle cq payload := by
  obtain ⟨⟨method, handle⟩, -, hmem⟩ := List.mem_flatMap.1 h
  obtain ⟨cq, -, rfl⟩ := List.mem_map.1 hmem
  exact ⟨handle, cq, immediatePayload method.kind, rfl⟩

/-! ## All of it -/

/-- The calls of the constructor. -/
def constructorCalls (shutdownQueue : QueueHandle) (defaultQueues : CompletionQueueSet)
    (methods : List MethodArgs) : List CoreCall :=
  ((queuesToRegister shutdownQueue defaultQueues (methods.map MethodArgs.method)).sort
      (· ≤ ·)).map .registerCompletionQueue ++
    methods.map (fun m => .registerMethod m.name
      (if immediatePayload m.cb.kind then .readInitialByteBuffer else .none)) ++
    .start :: listen defaultQueues (methods.map MethodArgs.method)

/-- What the constructor does with a configuration it accepts. -/
theorem construct_eq {core : Core} {calls : List ConfigCall}
    (hfeatures : (started calls).features = [])
    (hports : ∀ port ∈ (started calls).ports,
      port.creds = false ∧ core.addInsecureHttp2Port port.addr ≠ 0)
    (hregisters : ∀ before name, before ++ [name] <+: (methodsAdded calls).map (·.name) →
      core.registers before name = true) :
    ∃ server, construct core (configure calls) = .ok server ∧
      server.calls = constructorCalls server.shutdownQueue (configure calls).defaultQueues
        (methodsAdded calls) := by
  obtain ⟨reports, hreports⟩ := addListeningPorts_eq hports
  have hmethods := methods_started calls
  have hregistrations : registerMethods core [] ((methodsAdded calls).map MethodArgs.method) =
      some ((methodsAdded calls).map (fun m => .registerMethod m.name
        (if immediatePayload m.cb.kind then .readInitialByteBuffer else .none))) := by
    rw [registerMethods_eq, List.map_map]
    · rfl
    · intro before name hprefix
      rw [List.map_map] at hprefix
      exact hregisters before name hprefix
  unfold construct
  dsimp only
  rw [← started, hfeatures, hreports, hmethods, hregistrations]
  exact ⟨_, rfl, rfl⟩

theorem listening_constructorCalls (shutdownQueue : QueueHandle)
    (defaultQueues : CompletionQueueSet) (methods : List MethodArgs) (i : ℕ) :
    (constructorCalls shutdownQueue defaultQueues methods).filterMap (CoreCall.listening? i) =
      (methods[i]?.map (fun _ => defaultQueues)).getD [] := by
  rw [← filterMap_listening]
  simp [constructorCalls, List.filterMap_map, List.filterMap_cons, Function.comp_def,
    CoreCall.listening?]

theorem registered_constructorCalls (shutdownQueue : QueueHandle)
    (defaultQueues : CompletionQueueSet) (methods : List MethodArgs) :
    (constructorCalls shutdownQueue defaultQueues methods).filterMap CoreCall.registered? =
      methods.map (fun m =>
        (m.name, if immediatePayload m.cb.kind then .readInitialByteBuffer else .none)) := by
  have hnone : (listen defaultQueues (methods.map MethodArgs.method)).filterMap
      CoreCall.registered? = [] := by
    refine List.filterMap_eq_nil_iff.2 (fun call hcall => ?_)
    obtain ⟨handle, cq, payload, rfl⟩ := eq_of_mem_listen hcall
    rfl
  simp [constructorCalls, List.filterMap_map, List.filterMap_cons, Function.comp_def,
    CoreCall.registered?, hnone]

theorem queues_constructorCalls (shutdownQueue : QueueHandle)
    (defaultQueues : CompletionQueueSet) (methods : List MethodArgs) :
    (CoreCall.beforeStart (constructorCalls shutdownQueue defaultQueues methods)).filterMap
        CoreCall.queue? =
      (queuesToRegister shutdownQueue defaultQueues (methods.map MethodArgs.method)).sort
        (· ≤ ·) := by
  rw [constructorCalls, CoreCall.beforeStart, List.takeWhile_append_of_pos]
  · simp [List.filterMap_map, Function.comp_def, CoreCall.queue?]
  · intro call hcall
    rcases List.mem_append.1 hcall with hqueue | hmethod
    · obtain ⟨cq, -, rfl⟩ := List.mem_map.1 hqueue
      rfl
    · obtain ⟨m, -, rfl⟩ := List.mem_map.1 hmethod
      rfl

/-- **Which methods listen on the queues they were given.** The constructor registers every method
    once and starts its listeners; they listen on the queues the methods were given exactly if every
    queue set that was passed for a method is empty or has the entries of the default set. -/
theorem listens_as_given_iff {core : Core} {calls : List ConfigCall}
    (hfeatures : (started calls).features = [])
    (hports : ∀ port ∈ (started calls).ports,
      port.creds = false ∧ core.addInsecureHttp2Port port.addr ≠ 0)
    (hregisters : ∀ before name, before ++ [name] <+: (methodsAdded calls).map (·.name) →
      core.registers before name = true) :
    ∃ server, construct core (configure calls) = .ok server ∧
      (ListensAsGiven (configure calls).defaultQueues (methodsAdded calls) server ↔
        ∀ m ∈ methodsAdded calls,
          m.queues = [] ∨ m.queues.Perm (configure calls).defaultQueues) := by
  obtain ⟨server, hserver, hcalls⟩ := construct_eq hfeatures hports hregisters
  refine ⟨server, hserver, ?_⟩
  generalize (configure calls).defaultQueues = defaultQueues at hcalls ⊢
  generalize methodsAdded calls = methods at hcalls ⊢
  constructor
  · intro h m hm
    obtain ⟨i, hi⟩ := List.mem_iff_getElem?.1 hm
    by_cases hempty : m.queues = []
    · exact Or.inl hempty
    · have hperm := h.listening i
      rw [hcalls, listening_constructorCalls, hi] at hperm
      refine Or.inr (List.Perm.symm ?_)
      simpa [effectiveQueues, hempty] using hperm
  · intro h
    have heffective (m : MethodArgs) (hm : m ∈ methods) :
        (effectiveQueues defaultQueues m).Perm defaultQueues := by
      by_cases hempty : m.queues = []
      · simp [effectiveQueues, hempty]
      · have hperm := (h m hm).resolve_left hempty
        simpa [effectiveQueues, hempty] using hperm
    refine ⟨hcalls ▸ registered_constructorCalls _ _ _, ?_, ?_, ?_⟩
    · intro i
      rw [hcalls, listening_constructorCalls]
      cases hi : methods[i]? with
      | none => exact .nil
      | some m => exact (heffective m (List.mem_of_getElem? hi)).symm
    · rw [hcalls, queues_constructorCalls]
      exact Finset.sort_nodup _ _
    · intro cq
      rw [hcalls, queues_constructorCalls, Finset.mem_sort, mem_queuesToRegister]
      refine or_congr Iff.rfl ?_
      constructor
      · rintro ⟨method, hmethod, hcq⟩
        obtain ⟨m, hm, rfl⟩ := List.mem_map.1 hmethod
        exact ⟨m, hm, (heffective m hm).mem_iff.2 hcq⟩
      · rintro ⟨m, hm, hcq⟩
        exact ⟨m.method, List.mem_map_of_mem hm, (heffective m hm).mem_iff.1 hcq⟩

/-- gRPC core as it is where ports can be bound; a name can be registered once. -/
def localCore : Core where
  completionQueueCreate := 1
  addInsecureHttp2Port _ := 50051
  registers names name := !names.contains name

theorem localCore_registers {names : List String} (h : names.Nodup) :
    ∀ before name, before ++ [name] <+: names → localCore.registers before name = true := by
  intro before name hprefix
  have hnodup := hprefix.sublist.nodup h
  have hnew : name ∉ before := fun hmem =>
    List.disjoint_of_nodup_append hnodup hmem (List.mem_singleton_self name)
  simpa [localCore] using hnew

/-- One unary method, given the queues `queues`, and two default queues. -/
def unaryCalls (queues : CompletionQueueSet) : List ConfigCall := [
  .addDefaultListeningQueues [5, 6],
  .addService { name := "p.S", methods := [⟨"/p.S/M", ⟨false, .value⟩, queues⟩] },
  .addFeature reflectionFeature,
  .addListeningPort ⟨"127.0.0.1:0", false, none⟩]

/-- The default queues in another order. -/
theorem listens_as_given_iff_default :
    ∃ server, construct localCore (configure (unaryCalls [6, 5])) = .ok server ∧
      ListensAsGiven [5, 6] (methodsAdded (unaryCalls [6, 5])) server := by
  obtain ⟨server, hserver, hiff⟩ := @listens_as_given_iff localCore (unaryCalls [6, 5]) rfl
    (by decide) (localCore_registers (by decide))
  exact ⟨server, hserver, hiff.2 (by decide)⟩

/-- A queue of its own: the method listens on the default queues all the same. -/
theorem given_queue_dropped :
    ∃ server, construct localCore (configure (unaryCalls [7])) = .ok server ∧
      server.calls.filterMap (CoreCall.listening? 0) = [5, 6] ∧
      ¬ ListensAsGiven [5, 6] (methodsAdded (unaryCalls [7])) server := by
  obtain ⟨server, hserver, hcalls⟩ := @construct_eq localCore (unaryCalls [7]) rfl
    (by decide) (localCore_registers (by decide))
  have hlistening : server.calls.filterMap (CoreCall.listening? 0) = [5, 6] := by
    rw [hcalls, listening_constructorCalls]
    rfl
  refine ⟨server, hserver, hlistening, fun h => ?_⟩
  have hperm := h.listening 0
  rw [hlistening] at hperm
  exact absurd (hperm.length_eq) (by decide)

end Setup

end EasyGrpc
