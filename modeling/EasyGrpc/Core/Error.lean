import Mathlib.Data.List.TakeWhile

set_option autoImplicit false

/-! # Status codes, errors and their translation

`error.h`, and `Call_handler::get_error_details` (`call_handler.h`), which turns what a handler
threw into the status a client is to see. -/

namespace EasyGrpc

/-- `grpc_status_code`. -/
inductive StatusCode where
  | ok | cancelled | unknown | invalidArgument | deadlineExceeded | notFound | alreadyExists
  | permissionDenied | resourceExhausted | failedPrecondition | aborted | outOfRange
  | unimplemented | internal | unavailable | dataLoss | unauthenticated
deriving DecidableEq, Repr

/-- The text of a `const char*`, which ends where the first NUL stands. -/
structure CString where
  text : String
  nulFree : '\x00' ∉ text.toList
deriving DecidableEq, Repr

namespace CString

/-- `grpc_slice_to_c_string`, or the `c_str()` of a string, as its reader sees it. -/
def ofText (text : String) : CString where
  text := String.ofList (text.toList.takeWhile (· ≠ '\x00'))
  nulFree hmem := by
    rw [String.toList_ofList] at hmem
    simpa using List.mem_takeWhile_imp hmem

/-- Only a text with a NUL is cut. -/
theorem text_ofText {text : String} : (ofText text).text = text ↔ '\x00' ∉ text.toList := by
  constructor
  · intro h
    rw [← h]
    exact (ofText text).nulFree
  · intro h
    have hwhole : text.toList.takeWhile (fun c => decide (c ≠ '\x00')) = text.toList :=
      List.takeWhile_eq_self_iff.2 (fun c hc => decide_eq_true (fun heq => h (heq ▸ hc)))
    show String.ofList _ = text
    rw [hwhole, String.ofList_toList]

@[simp] theorem ofText_text (s : CString) : ofText s.text = s := by
  obtain ⟨text, h⟩ := s
  simpa [ofText] using text_ofText.2 h

end CString

/-- `Rpc_error`. Its constructor makes a `std::runtime_error` of the `const char*` it is given, which
    must not be null. -/
structure RpcError where
  code : StatusCode
  what : CString
deriving DecidableEq, Repr

/-- What a `std::exception_ptr` can hold, as far as the code tells it apart. -/
inductive Exception where
  | rpcError (e : RpcError)
  /-- Another `std::exception`, with its `what()`. -/
  | stdException (what : CString)
  /-- Any other thrown object. -/
  | other
deriving DecidableEq, Repr

/-- `Call_handler::get_error_details`. The three `catch` clauses in order; `status` starts as
    `GRPC_STATUS_UNKNOWN` and `details` as the empty slice. -/
def getErrorDetails : Exception → StatusCode × String
  | .rpcError e => (e.code, e.what.text)
  | .stdException what => (.unknown, what.text)
  | .other => (.unknown, "")

end EasyGrpc
