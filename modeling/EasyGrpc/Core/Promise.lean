import EasyGrpc.Core.Call

set_option autoImplicit false

/-! # Promises of a single reply

The `Promise<RepT>` a session holds for its caller, by the operations applied to it. -/

namespace EasyGrpc

/-- How a `Promise` is resolved. -/
inductive Resolution (α : Type) where
  /-- `set_value`. -/
  | value (v : α)
  /-- `set_exception`. -/
  | error (e : Exception)
  /-- `set_value(deserialize<RepT>(nullptr))`: the null buffer is dereferenced on the way. -/
  | nullBuffer
deriving DecidableEq, Repr

/-- The value a promise was resolved with. -/
def Resolution.value? {α : Type} : Resolution α → Option α
  | .value v => some v
  | _ => none

/-- The error a promise was resolved with. -/
def Resolution.error? {α : Type} : Resolution α → Option Exception
  | .error e => some e
  | _ => none

/-- `set_value(deserialize<RepT>(buffer))`. -/
def Resolution.ofBuffer {α : Type} [Serializer α] : Option Buffer → Resolution α
  | some data => .value (deserialize data)
  | none => .nullBuffer

end EasyGrpc
