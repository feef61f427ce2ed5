import EasyGrpc.Library.Lists
import EasyGrpc.Codegen.Proofs.Reading

set_option autoImplicit false

/-! # Type names and namespaces agree

`tokenize` splits a string at every separator, as `List.splitOn` does, as long as its positions fit
into an `int`. `class_name` replaces the dots of a full name; both are compared with the list of
identifiers the name was made of. -/

namespace EasyGrpc

namespace Codegen

/-! ## `tokenize` -/

/-- `find` stops at the first separator behind the position, or there is none. -/
theorem find_cases (str : Text) (c : UInt8) (pos : ℕ) :
    find str c pos = npos ∧ c ∉ str.drop pos ∨
    ∃ i, find str c pos = pos + i ∧ pos + i < str.length ∧ c ∉ (str.drop pos).take i ∧
      str.drop pos = (str.drop pos).take i ++ c :: str.drop (pos + i + 1) := by
  unfold find
  cases hfind : (str.drop pos).findIdx? (· == c) with
  | none =>
      rw [List.findIdx?_eq_none_iff] at hfind
      refine Or.inl ⟨rfl, fun hmem => ?_⟩
      exact absurd (hfind c hmem) (by simp)
  | some i =>
      obtain ⟨hlt, hfound, hbefore⟩ := List.findIdx?_eq_some_iff_getElem.1 hfind
      have hget : (str.drop pos)[i] = c := by simpa using hfound
      refine Or.inr ⟨i, rfl, by rw [List.length_drop] at hlt; omega, fun hmem => ?_, ?_⟩
      · obtain ⟨j, hj, hjc⟩ := List.mem_take_iff_getElem.1 hmem
        exact hbefore j (by omega) (by simpa using hjc)
      · rw [Nat.add_assoc, ← List.drop_drop, ← hget, ← List.drop_eq_getElem_cons hlt,
          List.take_append_drop]

theorem sizeOfInt_natCast {n : ℕ} (h : n < 2 ^ 31) : sizeOfInt n = n := by
  unfold sizeOfInt
  omega

theorem intOfSize_eq {n : ℕ} (h : n < 2 ^ 31) : intOfSize n = n := by
  unfold intOfSize
  exact Int.bmod_eq_of_le (by omega) (by omega)

/-- By induction on the iterations left: from a position within the string, the loop adds the tokens
    of the rest. -/
theorem tokenizeFrom_eq {str : Text} {c : UInt8} (hlength : str.length < 2 ^ 31) {fuel pos : ℕ}
    (hpos : pos ≤ str.length) (hfuel : str.length - pos < fuel) (result : List Text) :
    tokenizeFrom str c fuel pos (find str c pos) result =
      some (result ++ (str.drop pos).splitOn c) := by
  induction fuel generalizing pos result with
  | zero => exact absurd hfuel (Nat.not_lt_zero _)
  | succ fuel ih =>
      have hsize := sizeOfInt_natCast (show pos < 2 ^ 31 by omega)
      have hnpos : npos = 2 ^ 64 - 1 := rfl
      unfold tokenizeFrom
      rcases find_cases str c pos with ⟨hfind, hnone⟩ | ⟨i, hfind, hlt, hbefore, hsplit⟩
      · -- The rest is the last token.
        have hne : pos ≠ npos := by omega
        have hrest : (str.drop pos).take npos = str.drop pos :=
          List.take_of_length_le (by rw [List.length_drop]; omega)
        rw [hfind, if_neg (fun h => h rfl), hsize, if_pos hne, substr, if_pos hpos, hrest,
          List.splitOn_eq_singleton hnone]
        rfl
      · have hsmall : pos + i + 1 < 2 ^ 31 := by omega
        have hle : pos + i + 1 ≤ str.length := hlt
        have hless : str.length - (pos + i + 1) < fuel := by omega
        have hne : find str c pos ≠ npos := by omega
        have hcount : (pos + i + 2 ^ 64 - pos) % 2 ^ 64 = i := by omega
        have hcurrent : intOfSize ((pos + i + 1) % 2 ^ 64) = ((pos + i + 1 : ℕ) : ℤ) := by
          rw [Nat.mod_eq_of_lt (Nat.lt_trans hsmall (by decide)), intOfSize_eq hsmall]
        have hnext := sizeOfInt_natCast hsmall
        rw [if_pos hne, hsize, hfind, hcount, substr, if_pos hpos, Option.bind_some, hcurrent]
        dsimp only
        rw [hnext, ih hle hless, List.append_assoc]
        nth_rewrite 2 [hsplit]
        rw [List.splitOn_append_cons_self_of_not_mem hbefore]
        rfl

/-- **`tokenize` splits at every separator.** -/
theorem tokenize_eq_splitOn {str : Text} (hne : str ≠ []) (hlength : str.length < 2 ^ 31)
    (c : UInt8) : tokenize str c = some (str.splitOn c) := by
  have hempty : ¬ str.isEmpty = true := by simpa using hne
  have hloop := tokenizeFrom_eq (c := c) hlength (Nat.zero_le _)
    (show str.length - 0 < str.length + 1 by omega) []
  rw [tokenize, if_neg hempty]
  exact hloop

/-! ## The names of identifiers -/

/-- An identifier has no dot. -/
theorem Identifier.dot_notMem (name : Identifier) : dot ∉ name.text :=
  (name.spells []).notMem (by decide)

/-- Replacing dots leaves it alone. -/
theorem Identifier.flatMap_eq (name : Identifier) (replacement : Text) :
    name.text.flatMap (fun c => if c = dot then replacement else [c]) = name.text := by
  have hkept : ∀ c ∈ name.text, (if c = dot then replacement else [c]) = [c] := by
    intro c hc
    exact if_neg (fun heq : c = dot => name.dot_notMem (heq ▸ hc))
  rw [List.flatMap_congr hkept]
  exact List.flatMap_singleton' _

theorem qualified_eq (package : List Identifier) (name : Identifier) :
    qualified package name = [dot].intercalate (package.map (·.text) ++ [name.text]) := by
  cases package with
  | nil => simp [qualified]
  | cons part parts => simp [qualified, packageName, List.intercalate_cons]

/-- By induction on the nesting: the full name of a type begins with that of the outermost type, and
    goes on with a dot and a name for each level. -/
theorem Descriptor.fullName_eq (desc : Descriptor) :
    ∃ first rest, desc.path = first :: rest ∧
      desc.outermost.fullName = qualified desc.package first ∧
      desc.fullName = desc.outermost.fullName ++ (rest.map (dot :: ·.text)).flatten := by
  induction desc with
  | topLevel package name => exact ⟨name, [], rfl, rfl, by simp [outermost]⟩
  | nested containingType name ih =>
      obtain ⟨first, rest, hpath, houter, hfull⟩ := ih
      refine ⟨first, rest ++ [name], by simp [path, hpath], houter, ?_⟩
      rw [fullName, hfull]
      simp [outermost]

/-! ## `class_name` -/

theorem className_eq (desc : Descriptor) :
    className desc = lit "::" ++ (lit "::").intercalate
      (desc.package.map (·.text) ++ [(lit "_").intercalate (desc.path.map (·.text))]) := by
  obtain ⟨first, rest, hpath, houter, hfull⟩ := desc.fullName_eq
  have houterName : desc.outermost.fullName.flatMap (fun c => if c = dot then lit "::" else [c]) =
      (lit "::").intercalate (desc.package.map (·.text) ++ [first.text]) := by
    rw [houter, qualified_eq, List.flatMap_intercalate]
    · rfl
    · intro part hpart
      rcases List.mem_append.1 hpart with hpart | hlast
      · obtain ⟨name, -, rfl⟩ := List.mem_map.1 hpart
        exact name.flatMap_eq _
      · rw [List.mem_singleton.1 hlast]
        exact first.flatMap_eq _
  have hinnerName : (desc.fullName.drop desc.outermost.fullName.length).flatMap
      (fun c => if c = dot then lit "_" else [c]) = (rest.map (lit "_" ++ ·.text)).flatten := by
    rw [hfull, List.drop_left]
    clear hpath hfull
    induction rest with
    | nil => rfl
    | cons name rest ih =>
        rw [List.map_cons, List.flatten_cons, List.flatMap_append, ih, List.flatMap_cons, if_pos rfl,
          name.flatMap_eq, List.map_cons, List.flatten_cons]
  have hname : (lit "_").intercalate (desc.path.map (·.text)) =
      first.text ++ (rest.map (lit "_" ++ ·.text)).flatten := by
    rw [hpath, List.map_cons, List.intercalate_cons, List.map_map]
    rfl
  rw [hname, List.intercalate_append_last, className, houterName, hinnerName]
  simp [emit]

/-! ## Namespaces -/

/-- `package_parts` gives back the identifiers of the package. -/
theorem packageParts_eq {file : FileDescriptor}
    (hlength : (packageName file.package).length < 2 ^ 31) :
    packageParts file = some (file.package.map (·.text)) := by
  unfold packageParts
  cases hpackage : file.package with
  | nil => rfl
  | cons part parts =>
      rw [hpackage] at hlength
      have hne : packageName (part :: parts) ≠ [] := by
        simp [packageName, List.intercalate_cons, part.nonempty]
      rw [tokenize_eq_splitOn hne hlength, packageName, List.splitOn_intercalate]
      · intro text htext
        obtain ⟨name, -, rfl⟩ := List.mem_map.1 htext
        exact name.dot_notMem
      · simp

/-- The line that opens a namespace. -/
def openNamespace (part : Text) : Text := emit [lit "namespace ", part, lit " \x7b\n"]

/-- The line that closes it. -/
def closeNamespace (part : Text) : Text := emit [lit "\x7d // namespace", part, lit "\n"]

/-- The line between the namespaces and what they contain. -/
def blankLine (package : List Text) : Text := if package.isEmpty then [] else lit "\n"

theorem openNamespaces_eq (package : List Text) :
    openNamespaces package = package.flatMap openNamespace ++ blankLine package := by
  cases package <;> rfl

theorem closeNamespaces_eq (package : List Text) :
    closeNamespaces package = package.flatMap closeNamespace ++ blankLine package := by
  cases package <;> rfl

/-- The header of a file behind its prologue. -/
def headerBody (file : FileDescriptor) (package : List Text) : Text :=
  emit [
    package.flatMap openNamespace, blankLine package,
    file.services.flatMap generateServiceHeader,
    package.flatMap closeNamespace, blankLine package,
    lit "#endif\n"]

theorem generateHeader_eq {file : FileDescriptor} {package : List Text}
    (hpackage : packageParts file = some package) :
    generateHeader file = some (headerPrologue file ++ headerBody file package) := by
  rw [generateHeader, hpackage, Option.map_some, openNamespaces_eq, closeNamespaces_eq]
  simp [emit, headerBody]

theorem finds_openNamespace (part : Identifier) :
    Lines.Finds newline readNamespace (openNamespace part.text) [part.text] := by
  have hspace : space ∉ part.text := (part.spells []).notMem (by decide)
  refine finds_line (lit "namespace " ++ (part.text ++ space :: lit "\x7b")) ?_ ?_ ?_
  · have hopen : lit " \x7b\n" = space :: lit "\x7b" ++ [newline] := rfl
    simp [openNamespace, emit, hopen]
  · simp +decide
  · rw [readNamespace, Lines.reader_append, Lines.upTo_append hspace]

theorem lined_closeNamespace (part : Identifier) :
    Lines.Lined newline [lit "\x7d"] (closeNamespace part.text) := by
  have hmiddle : ∀ text ∈ [part.text], newline ∉ text := by simp
  exact lined_line (by decide) hmiddle

theorem lined_blankLine (starts : List Text) (package : List Text) :
    Lines.Lined newline starts (blankLine package) := by
  unfold blankLine
  split
  · exact .nil
  · exact ⟨[[]], rfl, by simp⟩

/-- Behind the prologue, the namespaces of the package are opened, and only these. -/
theorem openedNamespaces_headerBody (file : FileDescriptor) (package : List Identifier) :
    openedNamespaces (headerBody file (package.map (·.text))) = package.map (·.text) := by
  have hignores : Lines.Ignores readNamespace [lit "\x7d", lit "#"] :=
    Lines.ignores_reader (by decide) (by decide) _
  have hclose : ∀ part ∈ package, Lines.Lined newline [lit "\x7d", lit "#"]
      (closeNamespace part.text) := by
    intro part _
    exact (lined_closeNamespace part).mono (by simp)
  have hopening : Lines.Finds newline readNamespace
      ((package.map (·.text)).flatMap openNamespace) (package.map (·.text)) := by
    rw [List.flatMap_map]
    exact Lines.Finds.flatMap (fun part _ => finds_openNamespace part)
  have hservices : Lines.Finds newline readNamespace
      (file.services.flatMap generateServiceHeader) [] :=
    Lines.Finds.flatMap_nil (fun service _ => finds_namespace_serviceHeader service)
  have hclosing : Lines.Finds newline readNamespace
      (emit [(package.map (·.text)).flatMap closeNamespace, blankLine (package.map (·.text)),
        lit "#endif\n"]) [] := by
    refine skip hignores ?_ (skip hignores (lined_blankLine _ _) (skip hignores ?_ .nil))
    · rw [List.flatMap_map]
      exact .flatMap hclose
    · exact Lines.lined_of_isLined (by decide)
  have hfinds := finds_emit _ hopening (skip hignores (lined_blankLine _ (package.map (·.text)))
    (finds_emit _ hservices hclosing))
  rw [List.nil_append, List.append_nil] at hfinds
  exact hfinds.scan_eq rfl

/-- **Type names and namespaces agree.** `tokenize` splits a string into tokens without separators
    that give the string back when they are joined. The namespaces that the header of a file opens
    behind its prologue, in lines of their own and around the services, are the qualifiers in the
    names of its messages; the names of nested types are joined by underscores. -/
theorem names_agree :
    (∀ (str : Text) (c : UInt8), str ≠ [] → str.length < 2 ^ 31 →
      ∃ tokens, tokenize str c = some tokens ∧ [c].intercalate tokens = str ∧
        ∀ token ∈ tokens, c ∉ token) ∧
    ∀ (file : FileDescriptor) (desc : Descriptor), desc.package = file.package →
      (packageName file.package).length < 2 ^ 31 →
      ∃ parts body, packageParts file = some parts ∧
        className desc = lit "::" ++
          (lit "::").intercalate (parts ++ [(lit "_").intercalate (desc.path.map (·.text))]) ∧
        generateHeader file = some (headerPrologue file ++ body) ∧
        openedNamespaces body = parts ∧
        body = emit [
          parts.flatMap (fun part => emit [lit "namespace ", part, lit " \x7b\n"]),
          if parts = [] then [] else lit "\n",
          file.services.flatMap generateServiceHeader,
          parts.flatMap (fun part => emit [lit "\x7d // namespace", part, lit "\n"]),
          if parts = [] then [] else lit "\n",
          lit "#endif\n"] := by
  refine ⟨fun str c hne hlength => ?_, fun file desc hdesc hlength => ?_⟩
  · exact ⟨_, tokenize_eq_splitOn hne hlength c, List.intercalate_splitOn c,
      fun token htoken => Lines.notMem_of_mem_splitOn htoken⟩
  · have hparts := packageParts_eq hlength
    have hname : className desc = lit "::" ++ (lit "::").intercalate
        (file.package.map (·.text) ++ [(lit "_").intercalate (desc.path.map (·.text))]) := by
      rw [className_eq, hdesc]
    refine ⟨_, _, hparts, hname, generateHeader_eq hparts, openedNamespaces_headerBody _ _, ?_⟩
    cases file.package <;> rfl

/-- `message Inner` within `message Outer` of package `a.b`. -/
def innerType : Descriptor :=
  .nested
    (.topLevel
      [⟨lit "a", by decide, by simp [lit, isalnum]⟩, ⟨lit "b", by decide, by simp [lit, isalnum]⟩]
      ⟨lit "Outer", by decide, by simp [lit, isalnum]⟩)
    ⟨lit "Inner", by decide, by simp [lit, isalnum]⟩

def innerFile : FileDescriptor where
  name := lit "inner.proto"
  package := innerType.package
  services := []
  services_package := by simp
  services_nodup := List.nodup_nil

theorem names_agree_nested :
    className innerType = lit "::a::b::Outer_Inner" ∧
      ∃ body, generateHeader innerFile = some (headerPrologue innerFile ++ body) ∧
        lit "namespace a \x7b\nnamespace b \x7b\n\n" <+: body ∧
        openedNamespaces body = [lit "a", lit "b"] := by
  obtain ⟨parts, body, hparts, -, hheader, hopened, hbody⟩ :=
    names_agree.2 innerFile innerType rfl (by decide)
  obtain rfl : parts = [lit "a", lit "b"] :=
    Option.some.inj (hparts.symm.trans (by decide))
  refine ⟨by decide, body, hheader, ?_, hopened⟩
  rw [hbody]
  decide

end Codegen

end EasyGrpc
