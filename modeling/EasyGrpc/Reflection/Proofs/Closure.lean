import EasyGrpc.Library.DepthFirst
import EasyGrpc.Reflection.ReflectionImpl

set_option autoImplicit false

/-! # Reflection returns the transitive closure of imports

`fill_file_response` is a depth-first walk over `dependency`: since names are unique, the set of
names seen stands for the files seen, and the response lists their descriptors. -/

namespace EasyGrpc

namespace Reflection

variable {File Message Field : Type}

/-! ## A filling stands for the files it has seen -/

/-- What `fill_file_response` has made of an empty response once it has seen `files`. -/
def Filling.of (pool : DescriptorPool File Message Field) (files : List File) : Filling where
  response :=
    match files with
    | [] => .notSet
    | _ => .fileDescriptorResponse (files.map pool.serialized)
  seenFiles := (files.map pool.name).toFinset

theorem Filling.of_nil (pool : DescriptorPool File Message Field) : Filling.of pool [] = {} := rfl

theorem Filling.response_of (pool : DescriptorPool File Message Field) {files : List File}
    (h : files ≠ []) :
    (Filling.of pool files).response = .fileDescriptorResponse (files.map pool.serialized) := by
  cases files with
  | nil => exact absurd rfl h
  | cons file files => rfl

theorem Filling.mem_seenFiles_of (pool : DescriptorPool File Message Field) (file : File)
    (files : List File) : pool.name file ∈ (Filling.of pool files).seenFiles ↔ file ∈ files := by
  simp [Filling.of, List.mem_map, pool.name_injective.eq_iff]

/-- One more file. -/
theorem Filling.of_append (pool : DescriptorPool File Message Field) (files : List File)
    (file : File) :
    Filling.of pool (files ++ [file]) =
      { response :=
          (Filling.of pool files).response.addFileDescriptorProto (pool.serialized file)
        seenFiles := insert (pool.name file) (Filling.of pool files).seenFiles } := by
  have hresponse : (Filling.of pool (files ++ [file])).response =
      (Filling.of pool files).response.addFileDescriptorProto (pool.serialized file) := by
    rw [Filling.response_of pool (by simp)]
    cases files with
    | nil => rfl
    | cons first files =>
        rw [Filling.response_of pool (by simp), List.map_append]
        rfl
  have hseen : (Filling.of pool (files ++ [file])).seenFiles =
      insert (pool.name file) (Filling.of pool files).seenFiles := by
    ext name
    simp [Filling.of]
  rw [← hresponse, ← hseen]

/-! ## It is the walk -/

/-- Two folds whose steps agree under `g` agree under `g`. -/
theorem foldlM_map {α β γ : Type} {f : α → γ → Option α} {f' : β → γ → Option β} {g : β → α}
    (h : ∀ b c, f (g b) c = (f' b c).map g) (cs : List γ) (b : β) :
    cs.foldlM f (g b) = (cs.foldlM f' b).map g := by
  induction cs generalizing b with
  | nil => rfl
  | cons c cs ih =>
      rw [List.foldlM_cons, List.foldlM_cons, h]
      cases f' b c with
      | none => rfl
      | some b' => exact ih b'

/-- **`fill_file_response` is a depth-first walk.** -/
theorem fillFileResponse_eq_visit [DecidableEq File] (pool : DescriptorPool File Message Field)
    (depth : ℕ) (file : File) (files : List File) :
    pool.fillFileResponse depth file (Filling.of pool files) =
      (DepthFirst.visit pool.dependency depth file files).map (Filling.of pool) := by
  induction depth generalizing file files with
  | zero => rfl
  | succ depth ih =>
      rw [DescriptorPool.fillFileResponse, DepthFirst.visit]
      by_cases hseen : file ∈ files
      · rw [if_pos hseen, if_pos ((Filling.mem_seenFiles_of pool file files).2 hseen)]
        rfl
      · rw [if_neg hseen, if_neg (fun h => hseen ((Filling.mem_seenFiles_of pool file files).1 h)),
          ← Filling.of_append]
        exact foldlM_map (fun files dependency => ih dependency files) _ _

/-! ## The queries for a file -/

/-- The file a request asks for, by name, by symbol or by extension. -/
def DescriptorPool.root? (pool : DescriptorPool File Message Field) :
    ServerReflectionRequest → Option File
  | .fileByFilename filename => pool.findFileByName filename
  | .fileContainingSymbol symbol => pool.findFileContainingSymbol symbol
  | .fileContainingExtension containingType extensionNumber =>
      (pool.findMessageTypeByName containingType).bind
        (fun desc => (pool.findExtensionByNumber desc extensionNumber).map pool.file)
  | _ => none

theorem ReflectionImpl.answer_of_root {s : ReflectionImpl File Message Field}
    {pool : DescriptorPool File Message Field} (hpool : s.descriptorPool = some pool)
    {req : ServerReflectionRequest} {root : File} (hroot : pool.root? req = some root) (depth : ℕ) :
    s.answer depth req =
      (pool.fillFileResponse depth root {}).map (fun filled => .ok filled.response) := by
  cases req with
  | fileByFilename filename =>
      have hfind : pool.findFileByName filename = some root := hroot
      simp only [answer, getFileByName, fileQuery, hpool, hfind]
  | fileContainingSymbol symbol =>
      have hfind : pool.findFileContainingSymbol symbol = some root := hroot
      simp only [answer, getFileContainingSymbol, fileQuery, hpool, hfind]
  | fileContainingExtension containingType extensionNumber =>
      obtain ⟨desc, hdesc, hmap⟩ := Option.bind_eq_some_iff.1 hroot
      obtain ⟨fieldDesc, hfield, rfl⟩ := Option.map_eq_some_iff.1 hmap
      simp only [answer, getFileContainingExtension, fileQuery, hpool, hdesc, hfield]
  | notSet => exact absurd hroot (by simp [DescriptorPool.root?])
  | allExtensionNumbersOfType type => exact absurd hroot (by simp [DescriptorPool.root?])
  | listServices content => exact absurd hroot (by simp [DescriptorPool.root?])

/-- The descriptors `fill_file_response` adds, where its calls may nest as deep as there are
    files. -/
theorem fillFileResponse_spec [Fintype File] (pool : DescriptorPool File Message Field)
    (root : File) {depth : ℕ} (hdepth : Fintype.card File < depth) :
    ∃ files : List File, (∃ filled, pool.fillFileResponse depth root {} = some filled ∧
        filled.response = .fileDescriptorResponse (files.map pool.serialized)) ∧
      files.head? = some root ∧ files.Nodup ∧
      ∀ file, file ∈ files ↔ Relation.ReflTransGen (fun a b => b ∈ pool.dependency a) root file := by
  classical
  have hclosed : ∀ v ∈ Finset.univ, ∀ w ∈ pool.dependency v, w ∈ Finset.univ :=
    fun _ _ w _ => Finset.mem_univ w
  obtain ⟨files, hvisit, hhead, hnodup, hmem⟩ :=
    DepthFirst.visit_spec hclosed (Finset.mem_univ root) hdepth
  have hne : files ≠ [] := by
    rintro rfl
    exact absurd hhead (by simp)
  refine ⟨files, ⟨Filling.of pool files, ?_, Filling.response_of pool hne⟩, hhead, hnodup, hmem⟩
  rw [← Filling.of_nil pool, fillFileResponse_eq_visit, hvisit, Option.map_some]

/-- **Reflection returns the exact transitive closure.** A query that finds a root file, whichever
    way, returns; its response holds the serialized descriptors of the files that can be reached
    from the root over imports, each of them once and the root first. -/
theorem ReflectionImpl.reflection_returns_closure [Fintype File]
    {s : ReflectionImpl File Message Field} {pool : DescriptorPool File Message Field}
    (hpool : s.descriptorPool = some pool) {req : ServerReflectionRequest} {root : File}
    (hroot : pool.root? req = some root) {depth : ℕ} (hdepth : Fintype.card File < depth) :
    ∃ files : List File,
      s.answer depth req =
        some (.ok (.fileDescriptorResponse (files.map pool.serialized))) ∧
      files.head? = some root ∧ files.Nodup ∧
      ∀ file, file ∈ files ↔
        Relation.ReflTransGen (fun a b => b ∈ pool.dependency a) root file := by
  obtain ⟨files, ⟨filled, hfill, hresponse⟩, hspec⟩ := fillFileResponse_spec pool root hdepth
  refine ⟨files, ?_, hspec⟩
  rw [answer_of_root hpool hroot, hfill, Option.map_some, hresponse]

/-- `a` imports `b` and, twice, `c`; both import `d`, which imports `a` again. `e` is not
    imported. -/
def diamond : DescriptorPool (Fin 5) (Fin 1) (Fin 1) where
  name
    | 0 => "a.proto"
    | 1 => "b.proto"
    | 2 => "c.proto"
    | 3 => "d.proto"
    | 4 => "e.proto"
  dependency
    | 0 => [1, 2, 2]
    | 1 => [3]
    | 2 => [3]
    | 3 => [0]
    | 4 => []
  serialized file := [UInt8.ofNat file.val]
  findFileByName filename := if filename = "a.proto" then some 0 else none
  findFileContainingSymbol _ := none
  findMessageTypeByName type := if type = "A" then some 0 else none
  findExtensionByNumber _ n := if n = 100 then some 0 else none
  findAllExtensions _ := [0]
  number _ := 100
  file _ := 2
  name_injective := by decide

theorem ReflectionImpl.reflection_returns_closure_diamond :
    ∃ files : List (Fin 5),
      ReflectionImpl.answer ⟨[], some diamond⟩ 6 (.fileByFilename "a.proto") =
        some (.ok (.fileDescriptorResponse (files.map diamond.serialized))) ∧
      files.head? = some 0 ∧ files.Nodup ∧
      ∀ file, file ∈ files ↔
        Relation.ReflTransGen (fun a b => b ∈ diamond.dependency a) 0 file :=
  reflection_returns_closure rfl (by decide) (by decide)

end Reflection

end EasyGrpc
