import EasyGrpc.Core.Call

set_option autoImplicit false

/-! # Protobuf messages

`Serializer` for the classes derived from `MessageLite` (`ext_protobuf/serialize.h`). Of protobuf,
the methods it calls are taken as given. -/

namespace EasyGrpc

/-- A class derived from `google::protobuf::MessageLite`. -/
class MessageLite (T : Type) where
  /-- `SerializeWithCachedSizesToArray`, for as many bytes as `ByteSize` says. -/
  serializeWithCachedSizesToArray : T → Buffer
  /-- `ParseFromArray` on a default-constructed message: what is then in the message, and the
      result. -/
  parseFromArray : Buffer → T × Bool
  /-- The bytes are a valid encoding of a message. -/
  Valid : Buffer → Prop
  /-- Parsing fails exactly on what is not a valid encoding. -/
  parse_iff : ∀ b, (parseFromArray b).2 = true ↔ Valid b
  parse_serialize : ∀ v, parseFromArray (serializeWithCachedSizesToArray v) = (v, true)

namespace MessageLite

/-- `deserialize`. The result of `ParseFromArray` is not looked at. -/
def deserialize {T : Type} [MessageLite T] (data : Buffer) : T := (parseFromArray data).1

instance (priority := low) {T : Type} [MessageLite T] : Serializer T where
  serialize := serializeWithCachedSizesToArray
  deserialize := deserialize
  deserialize_serialize v := by rw [deserialize, parse_serialize]

end MessageLite

end EasyGrpc
