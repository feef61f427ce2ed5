import Mathlib.Algebra.Group.Nat.Defs
import Mathlib.Algebra.Ring.Int.Defs
import Mathlib.Data.List.Basic

set_option autoImplicit false

/-! # Strings of the code generator

What the protoc plugin uses of the standard library: `std::string`, `isalnum`, `std::hex` and
`std::filesystem::path`. A string is the list of its bytes, and `char` is signed. -/

namespace EasyGrpc

namespace Codegen

/-- `std::string`. -/
abbrev Text := List UInt8

/-- A string literal. -/
def lit (s : String) : Text := s.toList.map (fun c => UInt8.ofNat c.toNat)

/-- `'.'`. -/
def dot : UInt8 := 46

/-- `'/'`. -/
def slash : UInt8 := 47

/-- What is written to a stream, one part after the other. -/
def emit (parts : List Text) : Text := parts.flatten

/-! ## Positions -/

/-- `std::string::npos`. -/
def npos : ℕ := 2 ^ 64 - 1

/-- The conversion of an `int` to `std::size_t`. -/
def sizeOfInt (i : ℤ) : ℕ := (i % 2 ^ 64).toNat

/-- The conversion of a `std::size_t` to `int`. -/
def intOfSize (n : ℕ) : ℤ := Int.bmod n (2 ^ 32)

/-- `str.find(c, pos)`. -/
def find (str : Text) (c : UInt8) (pos : ℕ) : ℕ :=
  match (str.drop pos).findIdx? (· == c) with
  | some i => pos + i
  | none => npos

/-- `str.rfind(c)`. -/
def rfind (str : Text) (c : UInt8) : ℕ :=
  match str.reverse.findIdx? (· == c) with
  | some i => str.length - 1 - i
  | none => npos

/-- `str.substr(pos, count)`; `none` where it throws `std::out_of_range`. -/
def substr (str : Text) (pos count : ℕ) : Option Text :=
  if pos ≤ str.length then some ((str.drop pos).take count) else none

/-! ## Characters -/

/-- `std::isalnum`, in the `"C"` locale. -/
def isalnum (c : UInt8) : Bool :=
  (48 ≤ c && c ≤ 57) || (65 ≤ c && c ≤ 90) || (97 ≤ c && c ≤ 122)

/-- `std::hex << int(c)`: a negative `int` is printed as an `unsigned`. -/
def hex (c : UInt8) : Text :=
  (Nat.toDigits 16 (c.toInt8.toInt % 2 ^ 32).toNat).map (fun d => UInt8.ofNat d.toNat)

/-! ## Paths -/

/-- `path(p).filename()`. -/
def filename (p : Text) : Text := (p.reverse.takeWhile (· != slash)).reverse

/-- `path(p).stem()`: the filename up to its last dot, unless that is its first character. -/
def stem (p : Text) : Text :=
  let f := filename p
  if f = lit "." ∨ f = lit ".." then f
  else
    let pos := rfind f dot
    if pos = npos ∨ pos = 0 then f else f.take pos

end Codegen

end EasyGrpc
