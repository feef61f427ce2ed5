import EasyGrpc.Codegen.Text

set_option autoImplicit false

/-! # Descriptors

The part of protobuf's descriptors the plugin reads. That names are identifiers, and that those of
one scope differ, protobuf has checked before it runs the plugin. -/

namespace EasyGrpc

namespace Codegen

/-- An identifier: letters, digits and underscores. -/
structure Identifier where
  text : Text
  nonempty : text ≠ []
  chars : ∀ c ∈ text, isalnum c = true ∨ c = 95

/-- The name of a package with the given parts. -/
def packageName (package : List Identifier) : Text := [dot].intercalate (package.map (·.text))

/-- The full name of what is declared at the top level of a package. -/
def qualified (package : List Identifier) (name : Identifier) : Text :=
  match package with
  | [] => name.text
  | _ => packageName package ++ dot :: name.text

/-- `Descriptor`, of a message type in a file of the given package. -/
inductive Descriptor where
  | topLevel (package : List Identifier) (name : Identifier)
  | nested (containingType : Descriptor) (name : Identifier)

namespace Descriptor

def fullName : Descriptor → Text
  | .topLevel package name => qualified package name
  | .nested containingType name => containingType.fullName ++ dot :: name.text

/-- The package of its file. -/
def package : Descriptor → List Identifier
  | .topLevel package _ => package
  | .nested containingType _ => containingType.package

/-- The names of the types it is nested in and its own, outermost first. -/
def path : Descriptor → List Identifier
  | .topLevel _ name => [name]
  | .nested containingType name => containingType.path ++ [name]

end Descriptor

/-- `MethodDescriptor`. -/
structure MethodDescriptor where
  name : Identifier
  inputType : Descriptor
  outputType : Descriptor
  clientStreaming : Bool
  serverStreaming : Bool

/-- `ServiceDescriptor`. -/
structure ServiceDescriptor where
  /-- The package of `file()`. -/
  package : List Identifier
  name : Identifier
  methods : List MethodDescriptor
  methods_nodup : (methods.map (·.name.text)).Nodup

/-- `full_name()` of a service. -/
def ServiceDescriptor.fullName (service : ServiceDescriptor) : Text :=
  qualified service.package service.name

/-- `FileDescriptor`. -/
structure FileDescriptor where
  name : Text
  package : List Identifier
  services : List ServiceDescriptor
  services_package : ∀ service ∈ services, service.package = package
  services_nodup : (services.map (·.name.text)).Nodup

end Codegen

end EasyGrpc
