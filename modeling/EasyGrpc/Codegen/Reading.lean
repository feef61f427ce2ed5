import EasyGrpc.Library.Lines
import EasyGrpc.Codegen.Generator

set_option autoImplicit false

/-! # What the generated code says

The generated header and source are C++. What they do with the routes is read from the lines of
their text: the constants that are defined and their values, the constants that are passed to
`register_method` and to `add_method`, the name that is passed to `Service_config`, and the
namespaces that are opened. -/

namespace EasyGrpc

namespace Codegen

open Lines (upTo behind reader scan)

/-- `'\n'`. -/
def newline : UInt8 := 10

/-- `' '`. -/
def space : UInt8 := 32

/-- `'"'`. -/
def quote : UInt8 := 34

/-- `'('`. -/
def openParen : UInt8 := 40

/-- `')'`. -/
def closeParen : UInt8 := 41

/-- `','`. -/
def comma : UInt8 := 44

/-- The opening brace. -/
def openBrace : UInt8 := 123

/-! ## Lines -/

/-- `const char* S::kS_M_name = "/p.S/M";`: a constant, and its value. -/
def readConstant : Text → Option (Text × Text) :=
  reader (lit "const char* ") (fun definition =>
    some (upTo space definition, upTo quote (behind quote definition)))

/-- `  , M_tag_(c->register_method(kS_M_name))`: a tag of the stub, and the constant it is registered
    with. -/
def readTag : Text → Option (Text × Text) :=
  reader (lit "  , ") (fun initializer =>
    reader (lit "c->register_method(") (fun argument =>
      some (upTo openParen initializer, upTo closeParen argument)) (behind openParen initializer))

/-- `    result.add_method(kS_M_name, [&impl](…){return impl.M(…);});`: a method of the service, and
    the constant it is added with. -/
def readAddMethod : Text → Option (Text × Text) :=
  reader (lit "    result.add_method(") (fun arguments =>
    reader (lit "return impl.") (fun body =>
      some (upTo openParen body, upTo comma arguments)) (behind openBrace arguments))

/-- `    ::easy_grpc::server::Service_config result("p.S");`: the name of the service. -/
def readServiceName : Text → Option Text :=
  reader (lit "    ::easy_grpc::server::Service_config result(\"") (fun argument =>
    some (upTo quote argument))

/-- `namespace p {`. -/
def readNamespace : Text → Option Text :=
  reader (lit "namespace ") (fun definition => some (upTo space definition))

/-! ## Texts -/

/-- The constants a source defines, with their values. -/
def constants (source : Text) : List (Text × Text) := scan newline readConstant source

/-- The value of a member of the class `name` that a source defines. -/
def constantValue (name source constant : Text) : Option Text :=
  (constants source).lookup (emit [name, lit "::", constant])

/-- The tags of the stub of the class `name`, with the routes they are registered for. -/
def registeredRoutes (name source : Text) : List (Text × Option Text) :=
  (scan newline readTag source).map
    (fun (tag, constant) => (tag, constantValue name source constant))

/-- The methods that `get_config` of the class `name` adds, with their routes. -/
def configuredRoutes (name header source : Text) : List (Text × Option Text) :=
  (scan newline readAddMethod header).map
    (fun (method, constant) => (method, constantValue name source constant))

/-- The names that a header passes to `Service_config`. -/
def configNames (header : Text) : List Text := scan newline readServiceName header

/-- The namespaces that a text opens. -/
def openedNamespaces (text : Text) : List Text := scan newline readNamespace text

end Codegen

end EasyGrpc
