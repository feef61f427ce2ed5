import EasyGrpc.Future.Chain

set_option autoImplicit false

/-! # The tuple conversions, index by index

`finish_to_fullfill` and `fullfill_to_finish` as `utils.h` has them. The first recurses from the
last slot down to the first, the second from the first slot up, with a second index for the values,
which falls behind at each `void`. A `std::tuple` is the list of its elements here, each with its
type, so that `std::get<i>` and `std::tuple_cat` are those of lists; `none` is a static or dynamic
assertion that fails. -/

namespace EasyGrpc

namespace Future

variable {ε : Type}

/-! ## Tuples as lists -/

/-- An element of a tuple of values. -/
abbrev Element := Σ T : Type, T

/-- An element of a tuple of `expected<T>`s. -/
abbrev ExpectedElement (ε : Type) := Σ t : Option Type, Expected ε t

def valueElements : (ts : List (Option Type)) → FullfillType ts → List Element
  | [], _ => []
  | none :: ts, v => valueElements ts v
  | some T :: ts, v => ⟨T, v.1⟩ :: valueElements ts v.2

def slotElements : (ts : List (Option Type)) → FinishType ε ts → List (ExpectedElement ε)
  | [], _ => []
  | t :: ts, f => ⟨t, f.1⟩ :: slotElements ts f.2

/-! ## The conversions -/

/-- `val_tup`: the value of a slot as a tuple, which is empty for `void`. -/
def valTup : ExpectedElement ε → Option (List Element)
  | ⟨none, x⟩ =>
      match (x : Except ε Unit) with
      | .ok () => some []
      | .error _ => none
  | ⟨some T, x⟩ =>
      match (x : Except ε T) with
      | .ok v => some [⟨T, v⟩]
      | .error _ => none

/-- `finish_to_fullfill<i>`. -/
def finishToFullfillAt (src : List (ExpectedElement ε)) : ℕ → Option (List Element)
  | 0 => src[0]?.bind valTup
  | i + 1 =>
      (src[i + 1]?.bind valTup).bind (fun tup => (finishToFullfillAt src i).map (· ++ tup))

/-- `fullfill_to_finish<i, j, Result_t>`; `result` are the slots of `Result_t`. -/
def fullfillToFinishAt (result : List (Option Type)) (i j : ℕ) (src : List Element) :
    Option (List (ExpectedElement ε)) :=
  match hslot : result[i]? with
  | none => none
  | some none =>
      if hlast : i = result.length - 1 then some [⟨none, .ok ()⟩]
      else (fullfillToFinishAt result (i + 1) j src).map (⟨none, .ok ()⟩ :: ·)
  | some (some _) =>
      match src[j]? with
      | none => none
      | some ⟨T, x⟩ =>
          if hlast : i = result.length - 1 then some [⟨some T, .ok x⟩]
          else (fullfillToFinishAt result (i + 1) (j + 1) src).map (⟨some T, .ok x⟩ :: ·)
termination_by result.length - i
decreasing_by
  all_goals
    have hlt := (List.getElem?_eq_some_iff.1 hslot).1
    omega

end Future

end EasyGrpc
