import EasyGrpc.Library.Escape
import EasyGrpc.Codegen.Generator

set_option autoImplicit false

/-! # Which proto files collide in generated output

Output files and include guards are made from the stem of a file's name alone, and `header_guard`
writes hexadecimal codes that can also be read as the letters and digits of a name. -/

namespace EasyGrpc

namespace Codegen

/-- The code of a character is made of digits and letters. -/
theorem isalnum_hex (c : UInt8) : ∀ d ∈ hex c, isalnum d = true := by
  have h : ∀ x : BitVec 8, (hex (UInt8.ofBitVec x)).all isalnum = true := by decide +kernel
  exact List.all_eq_true.1 (h c.toBitVec)

/-- `y` is `x` with one of its characters other than letters and digits replaced by its hexadecimal
    code. -/
def HexSpelled (x y : Text) : Prop := Escape.Spelled isalnum hex x y

/-- The names that `header_guard` does not tell apart. -/
theorem headerGuard_eq_iff (x y : Text) :
    headerGuard x = headerGuard y ↔ Relation.EqvGen HexSpelled x y :=
  Escape.escape_eq_iff (fun c _ => isalnum_hex c)

theorem includeGuard_eq_iff (a b : FileDescriptor) :
    includeGuard a = includeGuard b ↔ headerGuard (stem a.name) = headerGuard (stem b.name) := by
  simp [includeGuard, emit]

/-- Files with different stems have different output files; a header is never a source. -/
theorem disjoint_outputFiles {a b : FileDescriptor} (h : stem a.name ≠ stem b.name) :
    List.Disjoint (outputFiles a) (outputFiles b) := by
  have hlast (x y : Text) : x ++ headerExtension ≠ y ++ sourceExtension := by
    intro heq
    have hheader : headerExtension.getLast? = some 104 := by decide
    have hsource : sourceExtension.getLast? = some 99 := by decide
    have hends := congrArg List.getLast? heq
    rw [List.getLast?_append, List.getLast?_append, hheader, hsource] at hends
    exact absurd hends (by simp)
  intro name ha hb
  simp only [outputFiles, List.mem_cons, List.not_mem_nil, or_false] at ha hb
  rcases ha with rfl | rfl
  · rcases hb with heq | heq
    · exact h (List.append_cancel_right heq)
    · exact hlast _ _ heq
  · rcases hb with heq | heq
    · exact hlast _ _ heq.symm
    · exact h (List.append_cancel_right heq)

/-- **Which proto files do not collide in generated output**: those whose stems cannot be turned
    into each other by replacing characters other than letters and digits by their hexadecimal codes
    and the reverse. -/
theorem no_collision_iff (a b : FileDescriptor) :
    (List.Disjoint (outputFiles a) (outputFiles b) ∧ includeGuard a ≠ includeGuard b) ↔
      ¬ Relation.EqvGen HexSpelled (stem a.name) (stem b.name) := by
  rw [← headerGuard_eq_iff, ← includeGuard_eq_iff]
  constructor
  · exact fun h => h.2
  · intro h
    refine ⟨disjoint_outputFiles (fun hstem => h ?_), h⟩
    rw [includeGuard_eq_iff, hstem]

/-- A proto file that declares no service. -/
def emptyFile (name : Text) : FileDescriptor where
  name := name
  package := []
  services := []
  services_package := by simp
  services_nodup := List.nodup_nil

/-- The guards of `a-b.proto` and `a2db.proto` are the same, and the output files of two files of
    one name in different directories. -/
theorem files_collide :
    lit "a-b.proto" ≠ lit "a2db.proto" ∧
      includeGuard (emptyFile (lit "a-b.proto")) = lit "EASY_GRPC_a2db_INCLUDED_H" ∧
      includeGuard (emptyFile (lit "a2db.proto")) = lit "EASY_GRPC_a2db_INCLUDED_H" ∧
      lit "x/a.proto" ≠ lit "y/a.proto" ∧
      outputFiles (emptyFile (lit "x/a.proto")) = outputFiles (emptyFile (lit "y/a.proto")) := by
  decide

end Codegen

end EasyGrpc
