import Mathlib.Data.List.Nodup
import EasyGrpc.Library.Lists
import EasyGrpc.Codegen.Proofs.Reading

set_option autoImplicit false

/-! # Which generated routes are the gRPC routes

The source generator puts a dot between package and service whether there is a package or not. Names
contain no slash, so that routes of different methods differ in either case. -/

namespace EasyGrpc

namespace Codegen

/-- The route of a method by the gRPC protocol. -/
def grpcRoute (service : ServiceDescriptor) (method : MethodDescriptor) : Text :=
  emit [lit "/", service.fullName, lit "/", method.name.text]

/-- What the generated code says about routes: the tags of the stub are registered for the gRPC
    routes, `get_config` names the service by its full name and adds its methods under the gRPC
    routes, and no two constants of the file have the same value. -/
structure RoutesAgree (file : FileDescriptor) : Prop where
  registered : ∀ service ∈ file.services,
    registeredRoutes service.name.text (generateServiceSource service) = service.methods.map
      (fun method => (emit [method.name.text, lit "_tag_"], some (grpcRoute service method)))
  configured : ∀ service ∈ file.services,
    configuredRoutes service.name.text (generateServiceHeader service)
      (generateServiceSource service) = service.methods.map
        (fun method => (method.name.text, some (grpcRoute service method)))
  named : ∀ service ∈ file.services,
    configNames (generateServiceHeader service) = [service.fullName]
  distinct : (file.services.flatMap (fun service =>
    (constants (generateServiceSource service)).map Prod.snd)).Nodup

/-! ## Constants have the values they are defined with -/

/-- Different methods of a service have different constants. -/
theorem nodup_constants (service : ServiceDescriptor) : (service.methods.map (fun method =>
    emit [service.name.text, lit "::", methodNameCste service method])).Nodup := by
  have hcomp : (fun method => emit [service.name.text, lit "::", methodNameCste service method]) =
      (fun name => emit [service.name.text, lit "::",
        emit [lit "k", service.name.text, lit "_", name, lit "_name"]]) ∘
        (fun method : MethodDescriptor => method.name.text) := rfl
  rw [hcomp, ← List.map_map]
  refine service.methods_nodup.map (fun a b heq => ?_)
  simpa [emit] using heq

/-- The constant of a method has the value that the source gives it. -/
theorem constantValue_source {service : ServiceDescriptor} {method : MethodDescriptor}
    (h : method ∈ service.methods) :
    constantValue service.name.text (generateServiceSource service) (methodNameCste service method)
      = some (routeConstant service method) := by
  rw [constantValue, constants_source]
  exact List.lookup_map_of_nodup (nodup_constants service) h

theorem registeredRoutes_eq (service : ServiceDescriptor) :
    registeredRoutes service.name.text (generateServiceSource service) = service.methods.map
      (fun method => (emit [method.name.text, lit "_tag_"],
        some (routeConstant service method))) := by
  rw [registeredRoutes, tags_source, List.map_map]
  exact List.map_congr_left (fun method h => congrArg (Prod.mk _) (constantValue_source h))

theorem configuredRoutes_eq (service : ServiceDescriptor) :
    configuredRoutes service.name.text (generateServiceHeader service)
      (generateServiceSource service) = service.methods.map
        (fun method => (method.name.text, some (routeConstant service method))) := by
  rw [configuredRoutes, addedMethods_header, List.map_map]
  exact List.map_congr_left (fun method h => congrArg (Prod.mk _) (constantValue_source h))

/-! ## The two ways to build the name of a service -/

theorem routeConstant_eq_iff (service : ServiceDescriptor) (method : MethodDescriptor) :
    routeConstant service method = grpcRoute service method ↔ service.package ≠ [] := by
  cases hpackage : service.package with
  | nil =>
      have hlength : (routeConstant service method).length ≠ (grpcRoute service method).length := by
        simp [routeConstant, grpcRoute, ServiceDescriptor.fullName, qualified, packageName, emit,
          hpackage, lit]
      simpa using fun heq => hlength (congrArg List.length heq)
  | cons part parts =>
      have hdot : lit "." = [dot] := rfl
      simp [routeConstant, grpcRoute, ServiceDescriptor.fullName, qualified, emit, hpackage, hdot]

/-! ## Different methods have different routes -/

/-- An identifier has no slash. -/
theorem Identifier.slash_notMem (name : Identifier) : slash ∉ name.text :=
  (name.spells []).notMem (by decide)

theorem routeConstant_inj {service service' : ServiceDescriptor}
    {method method' : MethodDescriptor} (hpackage : service.package = service'.package)
    (h : routeConstant service method = routeConstant service' method') :
    service.name.text = service'.name.text ∧ method.name.text = method'.name.text := by
  have hslash : lit "/" = [slash] := rfl
  have hrest : service.name.text ++ slash :: method.name.text =
      service'.name.text ++ slash :: method'.name.text := by
    simpa [routeConstant, emit, hpackage, hslash] using h
  obtain ⟨hname, -, hmethod⟩ := (List.append_cons_inj_of_notMem
    (Identifier.slash_notMem _) (Identifier.slash_notMem _)).1 hrest
  exact ⟨hname, hmethod⟩

theorem nodup_routes (file : FileDescriptor) : (file.services.flatMap (fun service =>
    (constants (generateServiceSource service)).map Prod.snd)).Nodup := by
  have hvalues (service : ServiceDescriptor) :
      (constants (generateServiceSource service)).map Prod.snd
        = service.methods.map (routeConstant service) := by
    rw [constants_source, List.map_map]
    rfl
  simp only [hvalues]
  refine List.nodup_flatMap.2 ⟨fun service _ => ?_, ?_⟩
  · have hpairwise := List.pairwise_map.1 service.methods_nodup
    exact List.pairwise_map.2 (hpairwise.imp (fun hne heq => hne (routeConstant_inj rfl heq).2))
  · have hpairwise := List.pairwise_map.1 file.services_nodup
    refine hpairwise.imp_of_mem (fun {service service'} hs hs' hne => ?_)
    rintro route hroute hroute'
    obtain ⟨method, -, rfl⟩ := List.mem_map.1 hroute
    obtain ⟨method', -, heq⟩ := List.mem_map.1 hroute'
    have hpackage := (file.services_package _ hs).trans (file.services_package _ hs').symm
    exact hne (routeConstant_inj hpackage heq.symm).1

/-! ## All of it -/

/-- **Which generated routes are the gRPC routes**: those of files with a package. The routes of a
    file always differ. -/
theorem routes_agree_iff (file : FileDescriptor) :
    RoutesAgree file ↔ file.package ≠ [] ∨ ∀ service ∈ file.services, service.methods = [] := by
  constructor
  · intro h
    by_cases hpackage : file.package = []
    · refine Or.inr (fun service hs => ?_)
      cases hmethods : service.methods with
      | nil => rfl
      | cons method methods =>
          have hroutes := (registeredRoutes_eq service).symm.trans (h.registered service hs)
          have hmem : method ∈ service.methods := by simp [hmethods]
          have heq := Option.some.inj (Prod.mk.inj (List.map_inj_left.1 hroutes method hmem)).2
          refine absurd hpackage ?_
          rw [← file.services_package service hs]
          exact (routeConstant_eq_iff service method).1 heq
    · exact Or.inl hpackage
  · intro h
    have hagree : ∀ service ∈ file.services, ∀ method ∈ service.methods,
        routeConstant service method = grpcRoute service method := by
      intro service hs method hmem
      rcases h with hpackage | hnone
      · refine (routeConstant_eq_iff service method).2 ?_
        rw [file.services_package service hs]
        exact hpackage
      · exact absurd hmem (by simp [hnone service hs])
    refine ⟨fun service hs => ?_, fun service hs => ?_, fun service _ => configNames_header service,
      nodup_routes file⟩
    · rw [registeredRoutes_eq]
      exact List.map_congr_left (fun method hmem => by rw [hagree service hs method hmem])
    · rw [configuredRoutes_eq]
      exact List.map_congr_left (fun method hmem => by rw [hagree service hs method hmem])

/-- `service S { rpc M(X) returns (X); }` in a file without a package. -/
def echoService : ServiceDescriptor where
  package := []
  name := ⟨lit "S", by decide, by simp [lit, isalnum]⟩
  methods := [{
    name := ⟨lit "M", by decide, by simp [lit, isalnum]⟩
    inputType := .topLevel [] ⟨lit "X", by decide, by simp [lit, isalnum]⟩
    outputType := .topLevel [] ⟨lit "X", by decide, by simp [lit, isalnum]⟩
    clientStreaming := false
    serverStreaming := false }]
  methods_nodup := by decide

def echoFile : FileDescriptor where
  name := lit "echo.proto"
  package := []
  services := [echoService]
  services_package := by simp [echoService]
  services_nodup := by decide

/-- Its stub registers its one method under a route that gRPC does not know. -/
theorem route_without_package :
    registeredRoutes (lit "S") (generateServiceSource echoService)
      = [(lit "M_tag_", some (lit "/.S/M"))] ∧
      echoService.methods.map (grpcRoute echoService) = [lit "/S/M"] ∧ ¬ RoutesAgree echoFile := by
  have hregistered := registeredRoutes_eq echoService
  have hroutes : echoService.methods.map (grpcRoute echoService) = [lit "/S/M"] := by decide
  refine ⟨hregistered.trans (by decide), hroutes, fun h => ?_⟩
  have hagree := h.registered echoService (by simp [echoFile])
  exact absurd (hregistered.symm.trans hagree) (by decide)

end Codegen

end EasyGrpc
