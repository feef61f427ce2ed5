import Mathlib.Data.Finset.Insert
import Mathlib.Data.Fintype.Card
import EasyGrpc.Core.Call
import EasyGrpc.Core.StreamPromise

set_option autoImplicit false

/-! # The reflection service

`Reflection_impl` (`reflection_impl.cpp`). The descriptor pool of protobuf is a parameter: what it
finds, and the descriptors it hands out. -/

namespace EasyGrpc

namespace Reflection

/-! ## Messages -/

/-- `message_request` of `ServerReflectionRequest`. -/
inductive ServerReflectionRequest where
  | notSet
  | fileByFilename (filename : String)
  | fileContainingSymbol (symbol : String)
  | fileContainingExtension (containingType : String) (extensionNumber : ℤ)
  | allExtensionNumbersOfType (type : String)
  | listServices (content : String)
deriving DecidableEq, Repr

/-- `message_response` of `ServerReflectionResponse`; the service sets none of the other fields. -/
inductive ServerReflectionResponse where
  | notSet
  | fileDescriptorResponse (fileDescriptorProto : List Buffer)
  | allExtensionNumbersResponse (baseTypeName : String) (extensionNumber : List ℤ)
  | listServicesResponse (service : List String)
deriving DecidableEq, Repr

namespace ServerReflectionResponse

/-- The contents of `mutable_file_descriptor_response()`: another member of the oneof is cleared. -/
def mutableFileDescriptorResponse : ServerReflectionResponse → List Buffer
  | .fileDescriptorResponse protos => protos
  | _ => []

/-- `mutable_file_descriptor_response()->add_file_descriptor_proto(data)`. -/
def addFileDescriptorProto (response : ServerReflectionResponse) (data : Buffer) :
    ServerReflectionResponse :=
  .fileDescriptorResponse (response.mutableFileDescriptorResponse ++ [data])

end ServerReflectionResponse

/-! ## Descriptors -/

/-- `DescriptorPool`, with its descriptors of files, message types and extension fields. -/
structure DescriptorPool (File Message Field : Type) where
  name : File → String
  /-- `dependency(0)`, `dependency(1)`, … -/
  dependency : File → List File
  /-- `CopyTo` and `SerializeToString`. -/
  serialized : File → Buffer
  findFileByName : String → Option File
  findFileContainingSymbol : String → Option File
  findMessageTypeByName : String → Option Message
  findExtensionByNumber : Message → ℤ → Option Field
  findAllExtensions : Message → List Field
  number : Field → ℤ
  /-- The file of an extension. -/
  file : Field → File
  /-- A pool holds one file of each name. -/
  name_injective : Function.Injective name

/-- What `fill_file_response` works on. -/
structure Filling where
  response : ServerReflectionResponse := .notSet
  seenFiles : Finset String := ∅

variable {File Message Field : Type}

/-- `fill_file_response`; `none` where its calls would nest `depth` deep. -/
def DescriptorPool.fillFileResponse (pool : DescriptorPool File Message Field) :
    ℕ → File → Filling → Option Filling
  | 0, _, _ => none
  | depth + 1, file, s =>
      if pool.name file ∈ s.seenFiles then some s
      else
        (pool.dependency file).foldlM
          (fun s dependency => pool.fillFileResponse depth dependency s)
          { response := s.response.addFileDescriptorProto (pool.serialized file)
            seenFiles := insert (pool.name file) s.seenFiles }

/-! ## Queries

Each is `none` where it does not return, and otherwise its response or the error it throws. -/

/-- The members of `Reflection_impl`. -/
structure ReflectionImpl (File Message Field : Type) where
  services : List String
  descriptorPool : Option (DescriptorPool File Message Field)

namespace ReflectionImpl

/-- The part the three file queries share: the pool is there, and `find` finds a file in it. -/
def fileQuery (s : ReflectionImpl File Message Field) (depth : ℕ)
    (find : DescriptorPool File Message Field → Except RpcError File) :
    Option (Except RpcError ServerReflectionResponse) :=
  match s.descriptorPool with
  | none => some (.error ⟨.cancelled, .ofText "no descriptor info available"⟩)
  | some pool =>
      match find pool with
      | .error e => some (.error e)
      | .ok file => (pool.fillFileResponse depth file {}).map (fun filled => .ok filled.response)

def getFileByName (s : ReflectionImpl File Message Field) (depth : ℕ) (filename : String) :
    Option (Except RpcError ServerReflectionResponse) :=
  s.fileQuery depth (fun pool =>
    match pool.findFileByName filename with
    | none => .error ⟨.notFound, .ofText "File not found"⟩
    | some file => .ok file)

def getFileContainingSymbol (s : ReflectionImpl File Message Field) (depth : ℕ) (symbol : String) :
    Option (Except RpcError ServerReflectionResponse) :=
  s.fileQuery depth (fun pool =>
    match pool.findFileContainingSymbol symbol with
    | none => .error ⟨.notFound, .ofText "Symbol not found"⟩
    | some file => .ok file)

def getFileContainingExtension (s : ReflectionImpl File Message Field) (depth : ℕ)
    (containingType : String) (extensionNumber : ℤ) :
    Option (Except RpcError ServerReflectionResponse) :=
  s.fileQuery depth (fun pool =>
    match pool.findMessageTypeByName containingType with
    | none => .error ⟨.notFound, .ofText "Type not found"⟩
    | some desc =>
        match pool.findExtensionByNumber desc extensionNumber with
        | none => .error ⟨.notFound, .ofText "Extension not found"⟩
        | some fieldDesc => .ok (pool.file fieldDesc))

def getAllExtensionNumbers (s : ReflectionImpl File Message Field) (type : String) :
    Except RpcError ServerReflectionResponse :=
  match s.descriptorPool with
  | none => .error ⟨.cancelled, .ofText "no descriptor info available"⟩
  | some pool =>
      match pool.findMessageTypeByName type with
      | none => .error ⟨.notFound, .ofText "Type not found"⟩
      | some desc =>
          .ok (.allExtensionNumbersResponse type ((pool.findAllExtensions desc).map pool.number))

def listServices (s : ReflectionImpl File Message Field) : ServerReflectionResponse :=
  .listServicesResponse (s.services ++ ["grpc.reflection.v1alpha.ServerReflection"])

/-- The `switch` over the kind of a request. -/
def answer (s : ReflectionImpl File Message Field) (depth : ℕ) :
    ServerReflectionRequest → Option (Except RpcError ServerReflectionResponse)
  | .fileByFilename filename => s.getFileByName depth filename
  | .fileContainingSymbol symbol => s.getFileContainingSymbol depth symbol
  | .fileContainingExtension containingType extensionNumber =>
      s.getFileContainingExtension depth containingType extensionNumber
  | .allExtensionNumbersOfType type => some (s.getAllExtensionNumbers type)
  | .listServices _ => some (.ok s.listServices)
  | .notSet => some (.error ⟨.unimplemented, .ofText "reflection method missing"⟩)

/-! ## The stream -/

/-- The callback of `for_each`: what is thrown is passed to `prom`. -/
def onRequest (s : ReflectionImpl File Message Field) (depth : ℕ)
    (prom : StreamPromise ServerReflectionResponse) (req : ServerReflectionRequest) :
    Option (StreamPromise ServerReflectionResponse) :=
  (s.answer depth req).map (fun
    | .ok response => prom.push response
    | .error e => prom.finish (.failed (.rpcError e)))

/-- The callback of `finally`. -/
def onEnd (prom : StreamPromise ServerReflectionResponse) : StreamPromise ServerReflectionResponse :=
  if prom.storage then prom.complete else prom

/-- `ServerReflectionInfo` on a stream that brings `requests` and then ends: what becomes of the
    promise behind the responses. -/
def serverReflectionInfo (s : ReflectionImpl File Message Field) (depth : ℕ)
    (requests : List ServerReflectionRequest) : Option (StreamPromise ServerReflectionResponse) :=
  (requests.foldlM (s.onRequest depth) ({} : StreamPromise ServerReflectionResponse).getFuture).map
    onEnd

end ReflectionImpl

end Reflection

end EasyGrpc
