import EasyGrpc.Codegen.Descriptor

set_option autoImplicit false

/-! # The protoc plugin

`protoc_plugin/main.cpp`: the header and the source generated for a proto file, as text. -/

namespace EasyGrpc

namespace Codegen

def headerExtension : Text := lit ".egrpc.pb.h"
def sourceExtension : Text := lit ".egrpc.pb.cc"
def pbHeaderExtension : Text := lit ".pb.h"

inductive MethodMode where
  | unary
  | clientStream
  | serverStream
  | bidirStream
deriving DecidableEq, Repr

def getMode (method : MethodDescriptor) : MethodMode :=
  if method.clientStreaming && method.serverStreaming then .bidirStream
  else if method.clientStreaming then .clientStream
  else if method.serverStreaming then .serverStream
  else .unary

/-! ## Names -/

/-- The outermost type a type is nested in. -/
def Descriptor.outermost : Descriptor → Descriptor
  | .topLevel package name => .topLevel package name
  | .nested containingType _ => containingType.outermost

/-- `class_name`. -/
def className (desc : Descriptor) : Text :=
  let outerName := desc.outermost.fullName
  -- The full name of a nested type begins with that of the outermost one: `substr` does not throw.
  let innerName := desc.fullName.drop outerName.length
  emit [lit "::",
    outerName.flatMap (fun c => if c = dot then lit "::" else [c]),
    innerName.flatMap (fun c => if c = dot then lit "_" else [c])]

/-- `header_guard`. -/
def headerGuard (fileName : Text) : Text :=
  fileName.flatMap (fun c => if isalnum c then [c] else hex c)

/-- The `while` of `tokenize` and what follows it; `none` where `substr` throws, or after `fuel`
    iterations. -/
def tokenizeFrom (str : Text) (c : UInt8) : ℕ → ℤ → ℕ → List Text → Option (List Text)
  | 0, _, _, _ => none
  | fuel + 1, current, next, result =>
      if next ≠ npos then
        (substr str (sizeOfInt current) ((next + 2 ^ 64 - sizeOfInt current) % 2 ^ 64)).bind
          (fun token =>
            let current := intOfSize ((next + 1) % 2 ^ 64)
            tokenizeFrom str c fuel current (find str c (sizeOfInt current)) (result ++ [token]))
      else if sizeOfInt current ≠ next then
        (substr str (sizeOfInt current) next).map (fun token => result ++ [token])
      else some result

/-- `tokenize`. The loop runs at most once for each separator; one that runs longer has come back to
    a position it was at before. -/
def tokenize (str : Text) (c : UInt8) : Option (List Text) :=
  if str.isEmpty then some []
  else tokenizeFrom str c (str.length + 1) 0 (find str c 0) []

/-- `package_parts`. -/
def packageParts (file : FileDescriptor) : Option (List Text) :=
  tokenize (packageName file.package) dot

/-! ## Services -/

/-- The name of the constant for the route of a method. -/
def methodNameCste (service : ServiceDescriptor) (method : MethodDescriptor) : Text :=
  emit [lit "k", service.name.text, lit "_", method.name.text, lit "_name"]

/-- The value of that constant. -/
def routeConstant (service : ServiceDescriptor) (method : MethodDescriptor) : Text :=
  emit [lit "/", packageName service.package, lit ".", service.name.text, lit "/", method.name.text]

def future (type : Descriptor) : Text := emit [lit "::easy_grpc::Future<", className type, lit ">"]

def streamFuture (type : Descriptor) : Text :=
  emit [lit "::easy_grpc::Stream_future<", className type, lit ">"]

def streamPromise (type : Descriptor) : Text :=
  emit [lit "::easy_grpc::Stream_promise<", className type, lit ">"]

/-- A method of the service's class. -/
def serviceMethod (method : MethodDescriptor) : Text :=
  let input := method.inputType
  let output := method.outputType
  let name := method.name.text
  match getMode method with
  | .unary => emit [lit "  virtual ", future output, lit " ", name,
      lit "(", className input, lit ") = 0;\n"]
  | .clientStream => emit [lit "  virtual ", future output, lit " ", name,
      lit "(", streamFuture input, lit ") = 0;\n"]
  | .serverStream => emit [lit "  virtual ", streamFuture output, lit " ", name,
      lit "(", className input, lit ") = 0;\n"]
  | .bidirStream => emit [lit "  virtual ", streamFuture output, lit " ", name,
      lit "(", streamFuture input, lit ") = 0;\n"]

/-- What a method of the stub returns. -/
def stubResult (method : MethodDescriptor) : Text :=
  let input := method.inputType
  let output := method.outputType
  match getMode method with
  | .unary => future output
  | .clientStream => emit [lit "std::tuple<", streamPromise input, lit ", ", future output, lit ">"]
  | .serverStream => streamFuture output
  | .bidirStream =>
      emit [lit "std::tuple<", streamPromise input, lit ", ", streamFuture output, lit ">"]

/-- The declaration of a method in `Stub_interface` (`virtual`, `= 0`) or in `Stub` (`override`). -/
def stubDeclaration (before after : Text) (method : MethodDescriptor) : Text :=
  let options := lit "::easy_grpc::client::Call_options=\x7b\x7d)"
  let parameters :=
    match getMode method with
    | .unary => emit [className method.inputType, lit ", ", options]
    | .clientStream => options
    | .serverStream => emit [className method.inputType, lit ", ", options]
    | .bidirStream => options
  emit [before, stubResult method, lit " ", method.name.text, lit "(", parameters, after]

/-- A call of `add_method` in `get_config`. -/
def addMethodCall (service : ServiceDescriptor) (method : MethodDescriptor) : Text :=
  let input := method.inputType
  let parameter :=
    match getMode method with
    | .unary => className input
    | .clientStream => streamFuture input
    | .serverStream => className input
    | .bidirStream => streamFuture input
  emit [lit "    result.add_method(", methodNameCste service method, lit ", [&impl](", parameter,
    lit " req)\x7breturn impl.", method.name.text, lit "(std::move(req));\x7d);\n"]

/-- `generate_service_header`. -/
def generateServiceHeader (service : ServiceDescriptor) : Text :=
  let name := service.name.text
  emit [
    lit "class ", name, lit " \x7b\n",
    lit "public:\n",
    lit "  using service_type = ", name, lit ";\n\n",
    lit "  virtual ~", name, lit "() \x7b\x7d\n\n",
    service.methods.flatMap (fun method =>
      emit [lit "  static const char * ", methodNameCste service method, lit ";\n"]),
    lit "\n",
    service.methods.flatMap serviceMethod,
    lit "\n",
    lit "  class Stub_interface \x7b\n",
    lit "  public:\n",
    lit "    virtual ~Stub_interface() \x7b\x7d\n\n",
    service.methods.flatMap (stubDeclaration (lit "    virtual ") (lit " = 0;\n")),
    lit "  \x7d;\n\n",
    lit "  class Stub final : public Stub_interface \x7b\n",
    lit "  public:\n",
    lit "    Stub(::easy_grpc::client::Channel*, ::easy_grpc::Completion_queue* = nullptr);\n\n",
    service.methods.flatMap (stubDeclaration (lit "    ") (lit " override;\n")),
    lit "\n",
    lit "  private:\n",
    lit "    ::easy_grpc::client::Channel* channel_;\n",
    lit "    ::easy_grpc::Completion_queue* default_queue_;\n\n",
    service.methods.flatMap (fun method =>
      emit [lit "    void* ", method.name.text, lit "_tag_;\n"]),
    lit "  \x7d;\n\n",
    lit "  template<typename ImplT>\n",
    lit "  static ::easy_grpc::server::Service_config get_config(ImplT& impl) \x7b\n",
    lit "    ::easy_grpc::server::Service_config result(\"", service.fullName, lit "\");\n\n",
    service.methods.flatMap (addMethodCall service),
    lit "\n    return result;\n",
    lit "  \x7d\n",
    lit "\x7d;\n\n"]

/-- The definition of the constant for the route of a method. -/
def constantDefinition (service : ServiceDescriptor) (method : MethodDescriptor) : Text :=
  emit [lit "const char* ", service.name.text, lit "::", methodNameCste service method,
    lit " = \"", routeConstant service method, lit "\";\n"]

/-- The initialization of the tag of a method in the constructor of `Stub`. -/
def tagInitializer (service : ServiceDescriptor) (method : MethodDescriptor) : Text :=
  emit [lit "\n  , ", method.name.text, lit "_tag_(c->register_method(",
    methodNameCste service method, lit "))"]

/-- The definition of a method of `Stub`. -/
def stubDefinition (service : ServiceDescriptor) (method : MethodDescriptor) : Text :=
  let input := method.inputType
  let output := method.outputType
  let options := lit "::easy_grpc::client::Call_options options) \x7b\n"
  let queue :=
    lit "  if(!options.completion_queue) \x7b options.completion_queue = default_queue_; \x7d\n"
  let signature := emit [stubResult method, lit " ", service.name.text, lit "::Stub::",
    method.name.text, lit "("]
  emit [lit "// ", method.name.text, lit "\n",
    match getMode method with
    | .unary => emit [signature, className input, lit " req, ", options, queue,
        lit "  return ::easy_grpc::client::start_unary_call<", className output, lit ">(channel_, ",
        method.name.text, lit "_tag_, std::move(req), std::move(options));\n", lit "\x7d\n\n"]
    | .clientStream => emit [signature, options, queue,
        lit "  return ::easy_grpc::client::start_client_streaming_call<", className output,
        lit ", ", className input, lit ">(channel_, ", method.name.text,
        lit "_tag_, std::move(options));\n", lit "\x7d\n\n"]
    | .serverStream => emit [signature, className input, lit " req, ", options, queue,
        lit "  return ::easy_grpc::client::start_server_streaming_call<", className output,
        lit ">(channel_, ", method.name.text, lit "_tag_, std::move(req), std::move(options));\n",
        lit "\x7d\n\n"]
    | .bidirStream => emit [signature, options, queue,
        lit "  return ::easy_grpc::client::start_bidir_streaming_call<", className output,
        lit ", ", className input, lit ">(channel_, ", method.name.text,
        lit "_tag_, std::move(options));\n", lit "\x7d\n\n"]]

/-- `generate_service_source`. -/
def generateServiceSource (service : ServiceDescriptor) : Text :=
  let name := service.name.text
  emit [
    lit "// ********** ", name, lit " ********** //\n\n",
    service.methods.flatMap (constantDefinition service),
    lit "\n",
    name, lit "::Stub::Stub(::easy_grpc::client::Channel* c, ",
    lit "::easy_grpc::Completion_queue* default_queue)\n",
    lit "  : channel_(c), default_queue_(default_queue ? default_queue : c->default_queue())",
    service.methods.flatMap (tagInitializer service),
    lit " \x7b\x7d\n\n",
    service.methods.flatMap (stubDefinition service)]

/-! ## Files -/

/-- The opening of the namespaces of a package. -/
def openNamespaces (package : List Text) : Text :=
  if package.isEmpty then []
  else package.flatMap (fun p => emit [lit "namespace ", p, lit " \x7b\n"]) ++ lit "\n"

/-- Their end. -/
def closeNamespaces (package : List Text) : Text :=
  if package.isEmpty then []
  else package.flatMap (fun p => emit [lit "\x7d // namespace", p, lit "\n"]) ++ lit "\n"

/-- The include guard of the header of a file. -/
def includeGuard (file : FileDescriptor) : Text :=
  emit [lit "EASY_GRPC_", headerGuard (stem file.name), lit "_INCLUDED_H"]

/-- What stands in the header before the namespaces. -/
def headerPrologue (file : FileDescriptor) : Text :=
  emit [
    lit "// This code was generated by the easy_grpc protoc plugin.\n",
    lit "#ifndef ", includeGuard file, lit "\n",
    lit "#define ", includeGuard file, lit "\n",
    lit "\n",
    lit "#include \"", stem file.name, pbHeaderExtension, lit "\"\n\n",
    lit "#include \"easy_grpc/ext_protobuf/gen_support.h\"\n\n",
    lit "#include <memory>\n\n"]

/-- `generate_header`; `none` where it throws. -/
def generateHeader (file : FileDescriptor) : Option Text :=
  (packageParts file).map (fun package => emit [
    headerPrologue file,
    openNamespaces package,
    file.services.flatMap generateServiceHeader,
    closeNamespaces package,
    lit "#endif\n"])

/-- `generate_source`; `none` where it throws. -/
def generateSource (file : FileDescriptor) : Option Text :=
  (packageParts file).map (fun package => emit [
    lit "// This code was generated by the easy_grpc protoc plugin.\n\n",
    lit "#include \"", stem file.name, headerExtension, lit "\"\n\n",
    openNamespaces package,
    file.services.flatMap generateServiceSource,
    closeNamespaces package])

/-- The names of the files `Generate` opens. -/
def outputFiles (file : FileDescriptor) : List Text :=
  [stem file.name ++ headerExtension, stem file.name ++ sourceExtension]

/-- `Generate`: the files it has written; `none` where it returns `false`. -/
def generate (file : FileDescriptor) : Option (List (Text × Text)) :=
  (generateHeader file).bind (fun headerData =>
    (generateSource file).map (fun srcData => (outputFiles file).zip [headerData, srcData]))

end Codegen

end EasyGrpc
