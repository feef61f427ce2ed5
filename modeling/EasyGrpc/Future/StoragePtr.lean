import EasyGrpc.Library.RefCount

set_option autoImplicit false

/-! # Shared states and their owners

`Storage_ptr` (`storage_decl.h`), the owning pointer to a `Future_storage` or a `Stream_storage`. A
program performs any sequence of its operations on any number of pointers. The pointers that are
members of a storage are pointers like others: they are destroyed by operations of their own when
the storage is. -/

namespace EasyGrpc

/-- The `Storage_ptr` objects of a program and the storages they point to. The storages are numbered
    in the order they are constructed. -/
structure StoragePtrs where
  /-- `ptr_` of each object; the inner `none` is the null pointer. -/
  ptr : ℕ → Option (Option ℕ) := fun _ => none
  /-- `ref_count_` of each storage. -/
  refCount : ℕ → UInt8 := fun _ => 0
  constructed : ℕ := 0
  /-- The storages that were destroyed and deallocated, oldest first. -/
  destroyed : List ℕ := []
  /-- The storages `inc` was called for. -/
  acquired : List ℕ := []
  /-- The destroyed storages whose count was accessed. -/
  faults : List ℕ := []
  /-- A function that is to return a reference was left without a `return`. What that does is
      undefined, so it is the end of a run. -/
  noReturn : Bool := false

namespace StoragePtrs

/-- What becomes of an allocation and the construction in it. -/
inductive Allocation where
  | ok
  /-- One of them throws. The exception of the constructor is caught. -/
  | throws
deriving DecidableEq, Repr

inductive Event where
  /-- A `T` is constructed, other than by `allocate`. -/
  | newStorage
  /-- `Storage_ptr()`. -/
  | construct (p : ℕ)
  /-- `Storage_ptr(val)`. -/
  | raw (p val : ℕ)
  | copyConstruct (p rhs : ℕ)
  | moveConstruct (p rhs : ℕ)
  | copyAssign (p rhs : ℕ)
  | moveAssign (p rhs : ℕ)
  | reset (p : ℕ)
  | allocate (p : ℕ) (allocation : Allocation)
  | destroy (p : ℕ)
deriving DecidableEq, Repr

/-- The count of `id` is read or written. -/
def access (s : StoragePtrs) (id : ℕ) : StoragePtrs :=
  { s with faults := if id ∈ s.destroyed then s.faults ++ [id] else s.faults }

def setPtr (s : StoragePtrs) (p : ℕ) (o : Option (Option ℕ)) : StoragePtrs :=
  { s with ptr := Function.update s.ptr p o }

/-- `ref_count_.fetch_add(1)`. -/
def inc (s : StoragePtrs) (id : ℕ) : StoragePtrs :=
  { s.access id with
    refCount := Function.update s.refCount id (s.refCount id + 1)
    acquired := s.acquired ++ [id] }

/-- `inc()`, if the pointer is not null. -/
def incIfSet (s : StoragePtrs) : Option ℕ → StoragePtrs
  | none => s
  | some id => s.inc id

/-- `clear()`: the pointer keeps its value. -/
def clear (s : StoragePtrs) : Option ℕ → StoragePtrs
  | none => s
  | some id =>
      let prev := s.refCount id
      { s.access id with
        refCount := Function.update s.refCount id (prev - 1)
        destroyed := if prev = 1 then s.destroyed ++ [id] else s.destroyed }

def construct (s : StoragePtrs) : StoragePtrs :=
  { s with
    refCount := Function.update s.refCount s.constructed 0
    constructed := s.constructed + 1 }

/-- One operation, where its pointers are in the state it needs. -/
def perform (s : StoragePtrs) : Event → Option StoragePtrs
  | .newStorage => some s.construct
  | .construct p => if s.ptr p = none then some (s.setPtr p (some none)) else none
  | .raw p val =>
      if s.ptr p = none ∧ val < s.constructed ∧ val ∉ s.destroyed then
        some ((s.setPtr p (some (some val))).inc val)
      else none
  | .copyConstruct p rhs =>
      if s.ptr p = none then
        (s.ptr rhs).map (fun ptr => (s.setPtr p (some ptr)).incIfSet ptr)
      else none
  | .moveConstruct p rhs =>
      if s.ptr p = none then
        (s.ptr rhs).map (fun ptr => (s.setPtr p (some ptr)).setPtr rhs (some none))
      else none
  -- There is no `clear()` here, and after the last statement no `return *this`.
  | .copyAssign p rhs =>
      if s.ptr p = none then none
      else (s.ptr rhs).map (fun ptr =>
        { (s.setPtr p (some ptr)).incIfSet ptr with noReturn := true })
  | .moveAssign p rhs =>
      (s.ptr p).bind (fun self => (s.ptr rhs).map (fun ptr =>
        (((s.clear self).setPtr p (some ptr)).setPtr rhs (some none))))
  | .reset p => (s.ptr p).map (fun self => (s.clear self).setPtr p (some none))
  | .allocate p allocation =>
      (s.ptr p).map (fun self =>
        let s := s.clear self
        match allocation with
        | .ok => (s.construct.setPtr p (some (some s.constructed))).inc s.constructed
        | .throws => s)
  | .destroy p => (s.ptr p).map (fun self => (s.clear self).setPtr p none)

def step (s : StoragePtrs) (e : Event) : Option StoragePtrs :=
  if s.noReturn then none else s.perform e

def machine : Machine StoragePtrs Event where
  init := {}
  step := step

/-- The storage `p` points to, if there is such an object and it is not null. -/
def target (s : StoragePtrs) (p : ℕ) : Option ℕ := (s.ptr p).bind id

/-- The count of what `p` points to cannot be raised. -/
def full (s : StoragePtrs) (p : ℕ) : Bool := (s.target p).any (s.refCount · = 255)

/-- A copy is assigned, an allocation into a pointer that is not null fails, or a storage with 255
    owners is given another. -/
def miscounts (s : StoragePtrs) : Event → Bool
  | .raw _ val => s.refCount val = 255
  | .copyConstruct _ rhs => s.full rhs
  | .copyAssign _ _ => true
  | .allocate p .throws => (s.target p).isSome
  | _ => false

end StoragePtrs

end EasyGrpc
