import EasyGrpc.Codegen.Reading

set_option autoImplicit false

/-! # What is read in the generated code

Names and types contain no line ends, so the lines of the generated text are those of the generator.
Each line begins with text that is given, except for the constructor of the stub, which begins with
the name of the service. -/

namespace EasyGrpc

namespace Codegen

open Lines (upTo behind scan Finds Lined isLined Ignores)

/-! ## The characters of names and types -/

/-- The text is made of letters, digits, underscores and the characters of `extra`. -/
def Spells (extra text : Text) : Prop := ∀ c ∈ text, isalnum c = true ∨ c = 95 ∨ c ∈ extra

theorem Spells.notMem {extra text : Text} (h : Spells extra text) {c : UInt8}
    (hc : ¬ (isalnum c = true ∨ c = 95 ∨ c ∈ extra)) : c ∉ text :=
  fun hmem => hc (h c hmem)

theorem Spells.append {extra text text' : Text} (h : Spells extra text) (h' : Spells extra text') :
    Spells extra (text ++ text') := by
  intro c hc
  exact (List.mem_append.1 hc).elim (h c) (h' c)

theorem Spells.emit {extra : Text} {parts : List Text} (h : ∀ part ∈ parts, Spells extra part) :
    Spells extra (emit parts) := by
  intro c hc
  obtain ⟨part, hpart, hc⟩ := List.mem_flatten.1 hc
  exact h part hpart c hc

theorem Identifier.spells (name : Identifier) (extra : Text) : Spells extra name.text := by
  intro c hc
  exact (name.chars c hc).imp_right Or.inl

/-- A given text. -/
theorem spells_lit {extra text : Text}
    (h : text.all (fun c => isalnum c || c == 95 || extra.contains c) = true) :
    Spells extra text := by
  intro c hc
  simpa [or_assoc] using List.all_eq_true.1 h c hc

theorem spells_dot : Spells [dot] [dot] := spells_lit rfl

theorem spells_packageName (package : List Identifier) : Spells [dot] (packageName package) := by
  unfold packageName
  induction package with
  | nil => exact fun c hc => absurd hc (by simp)
  | cons name package ih =>
      cases package with
      | nil => simpa using name.spells [dot]
      | cons next package =>
          rw [List.map_cons, List.map_cons, List.intercalate_cons_cons]
          exact ((name.spells _).append (spells_lit rfl)).append ih

theorem spells_qualified (package : List Identifier) (name : Identifier) :
    Spells [dot] (qualified package name) := by
  cases package with
  | nil => exact name.spells _
  | cons part parts =>
      exact (spells_packageName _).append (spells_dot.append (name.spells _))

theorem Descriptor.spells_fullName (desc : Descriptor) : Spells [dot] desc.fullName := by
  induction desc with
  | topLevel package name => exact spells_qualified package name
  | nested containingType name ih =>
      exact ih.append (spells_dot.append (name.spells _))

theorem ServiceDescriptor.spells_fullName (service : ServiceDescriptor) :
    Spells [dot] service.fullName :=
  spells_qualified service.package service.name

theorem spells_methodNameCste (service : ServiceDescriptor) (method : MethodDescriptor) :
    Spells [] (methodNameCste service method) := by
  refine Spells.emit ?_
  simp only [List.forall_mem_cons]
  exact ⟨spells_lit rfl, service.name.spells _, spells_lit rfl, method.name.spells _,
    spells_lit rfl, by simp⟩

theorem spells_routeConstant (service : ServiceDescriptor) (method : MethodDescriptor) :
    Spells [dot, slash] (routeConstant service method) := by
  have hpackage : Spells [dot, slash] (packageName service.package) := by
    intro c hc
    have h := spells_packageName service.package c hc
    simp only [List.mem_cons, List.not_mem_nil, or_false] at h ⊢
    tauto
  refine Spells.emit ?_
  simp only [List.forall_mem_cons]
  exact ⟨spells_lit rfl, hpackage, spells_lit rfl, service.name.spells _, spells_lit rfl,
    method.name.spells _, by simp⟩

/-- Replacing the dots. -/
theorem spells_replaceDots {text replacement : Text} (h : Spells [dot] text)
    (hreplacement : Spells [58] replacement) :
    Spells [58] (text.flatMap (fun c => if c = dot then replacement else [c])) := by
  intro c hc
  obtain ⟨d, hd, hc⟩ := List.mem_flatMap.1 hc
  split at hc
  · exact hreplacement c hc
  · next hne =>
      obtain rfl := List.mem_singleton.1 hc
      have hkept := h c hd
      simp only [List.mem_singleton, hne, or_false] at hkept
      exact hkept.imp_right Or.inl

theorem spells_className (desc : Descriptor) : Spells [58] (className desc) := by
  have hinner : Spells [dot] (desc.fullName.drop desc.outermost.fullName.length) :=
    fun c hc => desc.spells_fullName c (List.mem_of_mem_drop hc)
  refine Spells.emit ?_
  simp only [List.forall_mem_cons]
  exact ⟨spells_lit rfl, spells_replaceDots desc.outermost.spells_fullName (spells_lit rfl),
    spells_replaceDots hinner (spells_lit rfl), by simp⟩

/-! ## Putting texts together -/

theorem notMem_emit {c : UInt8} {parts : List Text} (h : ∀ part ∈ parts, c ∉ part) :
    c ∉ emit parts := by
  intro hc
  obtain ⟨part, hpart, hc⟩ := List.mem_flatten.1 hc
  exact h part hpart hc

/-- What is given of a line, its beginning and its end with what follows it. -/
def isGivenLine (starts : List Text) (start rest : Text) : Bool :=
  starts.any (·.isPrefixOf start) && !start.contains newline && rest.contains newline &&
    isLined newline starts (behind newline rest)

theorem lined_line {starts : List Text} {start rest : Text}
    (h : isGivenLine starts start rest = true) {middle : List Text}
    (hmiddle : ∀ part ∈ middle, newline ∉ part) :
    Lined newline starts (emit (start :: (middle ++ [rest]))) := by
  simp only [isGivenLine, Bool.and_eq_true, Bool.not_eq_true', List.contains_iff_mem,
    List.any_eq_true, List.isPrefixOf_iff_prefix] at h
  obtain ⟨⟨⟨hstart, hbefore⟩, hrest⟩, htail⟩ := h
  have hnone : newline ∉ start := by
    rw [← List.contains_iff_mem, hbefore]
    exact Bool.false_ne_true
  have hlined := Lined.line hstart hnone (notMem_emit hmiddle) hrest htail
  simpa [emit] using hlined

section Parts

variable {β : Type} {read : Text → Option β} {found found' : List β} {starts : List Text}
  {parts : List Text}

/-- A line in which something is found. -/
theorem finds_line {text : Text} {value : β} (line : Text) (htext : text = line ++ [newline])
    (hline : newline ∉ line) (hread : read line = some value) :
    Finds newline read text [value] := by
  have hfinds := Finds.line read hline
  rw [hread] at hfinds
  exact htext ▸ hfinds

theorem finds_emit (text : Text) (h : Finds newline read text found)
    (hrest : Finds newline read (emit parts) found') :
    Finds newline read (emit (text :: parts)) (found ++ found') :=
  h.append hrest

/-- Text in which nothing is found. -/
theorem skip (hread : Ignores read starts) {text : Text} (h : Lined newline starts text)
    (hrest : Finds newline read (emit parts) found) :
    Finds newline read (emit (text :: parts)) found :=
  (h.finds hread).append hrest

/-- Given texts. -/
theorem skip_lits (hread : Ignores read starts) (texts : List Text)
    (h : texts.all (isLined newline starts) = true) (hrest : Finds newline read (emit parts) found) :
    Finds newline read (emit (texts ++ parts)) found := by
  induction texts with
  | nil => exact hrest
  | cons text texts ih =>
      obtain ⟨hfirst, hall⟩ := Bool.and_eq_true_iff.1 h
      exact skip hread (Lines.lined_of_isLined hfirst) (ih hall)

/-- A line around a name. -/
theorem skip_line (hread : Ignores read starts) {start middle rest : Text}
    (h : isGivenLine starts start rest = true) (hmiddle : newline ∉ middle)
    (hrest : Finds newline read (emit parts) found) :
    Finds newline read (emit (start :: middle :: rest :: parts)) found := by
  have hline : Lined newline starts (emit (start :: ([middle] ++ [rest]))) :=
    lined_line h (by simpa using hmiddle)
  have hfinds := (hline.finds hread).append hrest
  simpa [emit] using hfinds

end Parts

/-! ## No line ends in names and types -/

@[simp] theorem Identifier.newline_notMem (name : Identifier) : newline ∉ name.text :=
  (name.spells []).notMem (by decide)

@[simp] theorem newline_notMem_className (desc : Descriptor) : newline ∉ className desc :=
  (spells_className desc).notMem (by decide)

@[simp] theorem newline_notMem_methodNameCste (service : ServiceDescriptor)
    (method : MethodDescriptor) : newline ∉ methodNameCste service method :=
  (spells_methodNameCste service method).notMem (by decide)

@[simp] theorem newline_notMem_emit {parts : List Text} :
    newline ∉ emit parts ↔ ∀ part ∈ parts, newline ∉ part := by
  simp [emit]

@[simp] theorem newline_notMem_lit {s : String} (h : (lit s).contains newline = false) :
    newline ∉ lit s := by
  rw [← List.contains_iff_mem, h]
  exact Bool.false_ne_true

@[simp] theorem newline_notMem_future (type : Descriptor) : newline ∉ future type := by
  simp +decide [future]

@[simp] theorem newline_notMem_streamFuture (type : Descriptor) : newline ∉ streamFuture type := by
  simp +decide [streamFuture]

@[simp] theorem newline_notMem_streamPromise (type : Descriptor) :
    newline ∉ streamPromise type := by
  simp +decide [streamPromise]

@[simp] theorem newline_notMem_stubResult (method : MethodDescriptor) :
    newline ∉ stubResult method := by
  unfold stubResult
  cases getMode method <;> simp +decide

/-! ## The lines of a method -/

/-- How lines of the generated header begin. -/
def headerStarts : List Text := [
  lit "class ", lit "public:", lit "  using service_type = ", lit "  virtual ", lit "  static ",
  lit "  class Stub", lit "  public:", lit "    virtual ", lit "  \x7d", lit "    Stub(",
  lit "    ::easy_grpc::Future<", lit "    ::easy_grpc::Stream_future<", lit "    std::tuple<",
  lit "  private:", lit "    ::easy_grpc::client::", lit "    ::easy_grpc::Completion_queue",
  lit "    void* ", lit "  template<", lit "    return ", lit "\x7d;"]

theorem lined_serviceMethod (method : MethodDescriptor) :
    Lined newline headerStarts (serviceMethod method) := by
  have hline : ∀ result argument : Text, newline ∉ result → newline ∉ argument →
      Lined newline headerStarts (emit [lit "  virtual ", result, lit " ", method.name.text,
        lit "(", argument, lit ") = 0;\n"]) := by
    intro result argument hresult hargument
    have hmiddle : ∀ part ∈ [result, lit " ", method.name.text, lit "(", argument],
        newline ∉ part := by
      simp +decide [hresult, hargument]
    exact lined_line (by decide) hmiddle
  unfold serviceMethod
  cases getMode method <;> exact hline _ _ (by simp) (by simp)

/-- How the types begin that a method of the stub returns. -/
def resultStarts : List Text :=
  [lit "::easy_grpc::Future<", lit "::easy_grpc::Stream_future<", lit "std::tuple<"]

theorem stubResult_eq (method : MethodDescriptor) : ∃ start ∈ resultStarts, ∃ type : List Text,
    stubResult method = emit (start :: type) ∧ ∀ part ∈ type, newline ∉ part := by
  unfold stubResult
  cases getMode method with
  | unary =>
      exact ⟨_, .head _, [className method.outputType, lit ">"], rfl, by simp +decide⟩
  | clientStream =>
      exact ⟨_, .tail _ (.tail _ (.head _)), [streamPromise method.inputType, lit ", ",
        future method.outputType, lit ">"], rfl, by simp +decide⟩
  | serverStream =>
      exact ⟨_, .tail _ (.head _), [className method.outputType, lit ">"], rfl, by simp +decide⟩
  | bidirStream =>
      exact ⟨_, .tail _ (.tail _ (.head _)), [streamPromise method.inputType, lit ", ",
        streamFuture method.outputType, lit ">"], rfl, by simp +decide⟩

/-- A line that begins with what a method of the stub returns, behind `before`. -/
theorem lined_stubResult {starts : List Text} {before after : Text}
    (h : resultStarts.all (fun result => isGivenLine starts (before ++ result) after) = true)
    (method : MethodDescriptor) {middle : List Text} (hmiddle : ∀ part ∈ middle, newline ∉ part) :
    Lined newline starts (emit (before :: stubResult method :: (middle ++ [after]))) := by
  obtain ⟨start, hstart, type, hresult, htype⟩ := stubResult_eq method
  have hparts : ∀ part ∈ type ++ middle, newline ∉ part :=
    List.forall_mem_append.2 ⟨htype, hmiddle⟩
  have hlined := lined_line (List.all_eq_true.1 h start hstart) hparts
  rw [hresult]
  simpa [emit] using hlined

theorem lined_stubDeclaration {before after : Text}
    (h : resultStarts.all (fun result => isGivenLine headerStarts (before ++ result) after) = true)
    (method : MethodDescriptor) :
    Lined newline headerStarts (stubDeclaration before after method) := by
  have hline : ∀ parameters : Text, newline ∉ parameters → Lined newline headerStarts
      (emit (before :: stubResult method ::
        ([lit " ", method.name.text, lit "(", parameters] ++ [after]))) := by
    intro parameters hparameters
    exact lined_stubResult h method (by simp +decide [hparameters])
  unfold stubDeclaration
  cases getMode method <;> exact hline _ (by simp +decide)

/-- How lines of the generated source begin, but for the definitions of the constants and the
    constructor of the stub. -/
def sourceStarts : List Text :=
  [lit "// ", lit "::easy_grpc::", lit "std::tuple<", lit "  if(", lit "  return ", lit "\x7d"]

/-- The body of a method of the stub: `call` begins the line that starts the call. -/
theorem lined_stubBody (service : ServiceDescriptor) (method : MethodDescriptor)
    (parameters arguments : List Text) {call last : Text}
    (hparameters : ∀ part ∈ parameters, newline ∉ part)
    (harguments : ∀ part ∈ arguments, newline ∉ part)
    (hcall : isGivenLine sourceStarts call last = true) :
    Lined newline sourceStarts
      (emit (emit [stubResult method, lit " ", service.name.text, lit "::Stub::", method.name.text,
          lit "("] :: (parameters ++ (lit "::easy_grpc::client::Call_options options) \x7b\n" ::
        lit "  if(!options.completion_queue) \x7b options.completion_queue = default_queue_; \x7d\n" ::
        call :: (arguments ++ [last, lit "\x7d\n\n"]))))) := by
  have hsignature : Lined newline sourceStarts (emit ([] :: stubResult method ::
      (([lit " ", service.name.text, lit "::Stub::", method.name.text, lit "("] ++ parameters) ++
        [lit "::easy_grpc::client::Call_options options) \x7b\n"]))) :=
    lined_stubResult (by decide) method
      (List.forall_mem_append.2 ⟨by simp +decide, hparameters⟩)
  have hqueue : Lined newline sourceStarts
      (lit "  if(!options.completion_queue) \x7b options.completion_queue = default_queue_; \x7d\n") :=
    Lines.lined_of_isLined (by decide)
  have hend : Lined newline sourceStarts (lit "\x7d\n\n") := Lines.lined_of_isLined (by decide)
  have hlined := ((hsignature.append hqueue).append (lined_line hcall harguments)).append hend
  simpa [emit] using hlined

theorem lined_stubDefinition (service : ServiceDescriptor) (method : MethodDescriptor) :
    Lined newline sourceStarts (stubDefinition service method) := by
  have hcomment : Lined newline sourceStarts (emit (lit "// " :: ([method.name.text] ++ [lit "\n"]))) :=
    lined_line (by decide) (by simp)
  have hdefinition : ∀ body : Text, Lined newline sourceStarts body →
      Lined newline sourceStarts (emit [lit "// ", method.name.text, lit "\n", body]) := by
    intro body hbody
    have hlined := hcomment.append hbody
    simpa [emit] using hlined
  refine hdefinition _ ?_
  cases getMode method with
  | unary =>
      exact lined_stubBody service method [className method.inputType, lit " req, "]
        [className method.outputType, lit ">(channel_, ", method.name.text]
        (by simp +decide) (by simp +decide) (by decide)
  | clientStream =>
      exact lined_stubBody service method []
        [className method.outputType, lit ", ", className method.inputType, lit ">(channel_, ",
          method.name.text] (by simp +decide) (by simp +decide) (by decide)
  | serverStream =>
      exact lined_stubBody service method [className method.inputType, lit " req, "]
        [className method.outputType, lit ">(channel_, ", method.name.text]
        (by simp +decide) (by simp +decide) (by decide)
  | bidirStream =>
      exact lined_stubBody service method []
        [className method.outputType, lit ", ", className method.inputType, lit ">(channel_, ",
          method.name.text] (by simp +decide) (by simp +decide) (by decide)

/-! ## The header of a service -/

/-- What is found in the header of a service, by a reader that ignores all of it but the name of the
    service and the methods it adds. -/
theorem finds_serviceHeader {β : Type} {read : Text → Option β} (hread : Ignores read headerStarts)
    (service : ServiceDescriptor) {name methods : List β}
    (hname : Finds newline read (emit [lit "    ::easy_grpc::server::Service_config result(\"",
      service.fullName, lit "\");\n\n"]) name)
    (hmethods : Finds newline read (service.methods.flatMap (addMethodCall service)) methods) :
    Finds newline read (generateServiceHeader service) (name ++ methods) := by
  have hend : Finds newline read (emit ([lit "\n    return result;\n", lit "  \x7d\n",
      lit "\x7d;\n\n"] ++ [])) [] :=
    skip_lits hread _ (by decide) .nil
  have hconfig : Finds newline read (emit [lit "    ::easy_grpc::server::Service_config result(\"",
      service.fullName, lit "\");\n\n", service.methods.flatMap (addMethodCall service),
      lit "\n    return result;\n", lit "  \x7d\n", lit "\x7d;\n\n"]) (name ++ methods) := by
    have hfinds := hname.append (finds_emit _ hmethods hend)
    simpa [emit] using hfinds
  have hconstant (method : MethodDescriptor) : Lined newline headerStarts
      (emit [lit "  static const char * ", methodNameCste service method, lit ";\n"]) := by
    have hmiddle : ∀ part ∈ [methodNameCste service method], newline ∉ part := by simp
    exact lined_line (by decide) hmiddle
  have htag (method : MethodDescriptor) : Lined newline headerStarts
      (emit [lit "    void* ", method.name.text, lit "_tag_;\n"]) := by
    have hmiddle : ∀ part ∈ [method.name.text], newline ∉ part := by simp
    exact lined_line (by decide) hmiddle
  refine skip_line hread (by decide) service.name.newline_notMem ?_
  refine skip_lits hread [_] (by decide) ?_
  refine skip_line hread (by decide) service.name.newline_notMem ?_
  refine skip_line hread (by decide) service.name.newline_notMem ?_
  refine skip hread (Lined.flatMap (fun method _ => hconstant method)) ?_
  refine skip_lits hread [_] (by decide) ?_
  refine skip hread (Lined.flatMap (fun method _ => lined_serviceMethod method)) ?_
  refine skip_lits hread [_, _, _, _] (by decide) ?_
  refine skip hread (Lined.flatMap (fun method _ => lined_stubDeclaration (by decide) method)) ?_
  refine skip_lits hread [_, _, _, _] (by decide) ?_
  refine skip hread (Lined.flatMap (fun method _ => lined_stubDeclaration (by decide) method)) ?_
  refine skip_lits hread [_, _, _, _] (by decide) ?_
  refine skip hread (Lined.flatMap (fun method _ => htag method)) ?_
  exact skip_lits hread [_, _, _] (by decide) hconfig

theorem lined_serviceName (service : ServiceDescriptor) :
    Lined newline [lit "    ::easy_grpc::server::Service_config result(\""]
      (emit [lit "    ::easy_grpc::server::Service_config result(\"", service.fullName,
        lit "\");\n\n"]) := by
  have hmiddle : ∀ part ∈ [service.fullName], newline ∉ part := by
    simpa using service.spells_fullName.notMem (by decide)
  exact lined_line (by decide) hmiddle

theorem finds_serviceName (service : ServiceDescriptor) :
    Finds newline readServiceName (emit [lit "    ::easy_grpc::server::Service_config result(\"",
      service.fullName, lit "\");\n\n"]) [service.fullName] := by
  have hnewline : newline ∉ service.fullName := service.spells_fullName.notMem (by decide)
  have hquote : quote ∉ service.fullName := service.spells_fullName.notMem (by decide)
  let argument := service.fullName ++ quote :: lit ");"
  have hline : Finds newline readServiceName
      ((lit "    ::easy_grpc::server::Service_config result(\"" ++ argument) ++ [newline])
      [service.fullName] := by
    refine finds_line _ rfl ?_ ?_
    · simp +decide [argument, hnewline]
    · rw [readServiceName, Lines.reader_append, Lines.upTo_append hquote]
  have hblank : Finds newline readServiceName [newline] [] :=
    Finds.line readServiceName List.not_mem_nil
  have hfinds := hline.append hblank
  refine (congrArg (Finds newline readServiceName · [service.fullName]) ?_).mp hfinds
  simp only [emit, argument, List.flatten_cons, List.flatten_nil, List.append_assoc,
    List.cons_append, List.append_nil]
  rfl

theorem lined_addMethodCall (service : ServiceDescriptor) (method : MethodDescriptor) :
    Lined newline [lit "    result.add_method("] (addMethodCall service method) := by
  have hline : ∀ parameter : Text, newline ∉ parameter →
      Lined newline [lit "    result.add_method("] (emit [lit "    result.add_method(",
        methodNameCste service method, lit ", [&impl](", parameter, lit " req)\x7breturn impl.",
        method.name.text, lit "(std::move(req));\x7d);\n"]) := by
    intro parameter hparameter
    have hmiddle : ∀ part ∈ [methodNameCste service method, lit ", [&impl](", parameter,
        lit " req)\x7breturn impl.", method.name.text], newline ∉ part := by
      simp +decide [hparameter]
    exact lined_line (by decide) hmiddle
  unfold addMethodCall
  cases getMode method <;> exact hline _ (by simp)

theorem finds_addMethodCall (service : ServiceDescriptor) (method : MethodDescriptor) :
    Finds newline readAddMethod (addMethodCall service method)
      [(method.name.text, methodNameCste service method)] := by
  have hline : ∀ parameter : Text, newline ∉ parameter → openBrace ∉ parameter →
      Finds newline readAddMethod (emit [lit "    result.add_method(",
        methodNameCste service method, lit ", [&impl](", parameter, lit " req)\x7breturn impl.",
        method.name.text, lit "(std::move(req));\x7d);\n"])
        [(method.name.text, methodNameCste service method)] := by
    intro parameter hparameter hbrace
    let lambda := emit [lit " [&impl](", parameter, lit " req)"]
    let call := method.name.text ++ openParen :: lit "std::move(req));\x7d);"
    let arguments :=
      methodNameCste service method ++ comma :: (lambda ++ openBrace :: (lit "return impl." ++ call))
    have hconstant : comma ∉ methodNameCste service method ∧
        openBrace ∉ methodNameCste service method :=
      ⟨(spells_methodNameCste service method).notMem (by decide),
        (spells_methodNameCste service method).notMem (by decide)⟩
    have hname : openParen ∉ method.name.text := (method.name.spells []).notMem (by decide)
    have hbody : behind openBrace arguments = lit "return impl." ++ call := by
      have hbefore : openBrace ∉ methodNameCste service method ++ comma :: lambda := by
        simp +decide [hconstant.2, lambda, emit, hbrace]
      simpa [arguments] using Lines.behind_append hbefore (lit "return impl." ++ call)
    refine finds_line (lit "    result.add_method(" ++ arguments) ?_ ?_ ?_
    · simp only [emit, arguments, lambda, call, List.flatten_cons, List.flatten_nil,
        List.append_assoc, List.cons_append, List.append_nil]
      rfl
    · simp +decide [arguments, lambda, call, emit, hparameter]
    · rw [readAddMethod, Lines.reader_append, hbody, Lines.reader_append,
        Lines.upTo_append hconstant.1, Lines.upTo_append hname]
  have htype (desc : Descriptor) : openBrace ∉ className desc :=
    (spells_className desc).notMem (by decide)
  unfold addMethodCall
  cases getMode method <;> refine hline _ (by simp) ?_
  · exact htype _
  · simp +decide [streamFuture, emit, htype]
  · exact htype _
  · simp +decide [streamFuture, emit, htype]

/-- The methods that `get_config` adds. -/
theorem addedMethods_header (service : ServiceDescriptor) :
    scan newline readAddMethod (generateServiceHeader service) = service.methods.map
      (fun method => (method.name.text, methodNameCste service method)) := by
  have hread : Ignores readAddMethod headerStarts :=
    Lines.ignores_reader (by decide) (by decide) _
  have hname := (lined_serviceName service).finds
    (show Ignores readAddMethod _ from Lines.ignores_reader (by decide) (by decide) _)
  have hmethods := Finds.flatMap (fun method (_ : method ∈ service.methods) =>
    finds_addMethodCall service method)
  exact (finds_serviceHeader hread service hname hmethods).scan_eq hread.empty

/-- The name that `get_config` passes to `Service_config`. -/
theorem configNames_header (service : ServiceDescriptor) :
    configNames (generateServiceHeader service) = [service.fullName] := by
  have hread : Ignores readServiceName headerStarts :=
    Lines.ignores_reader (by decide) (by decide) _
  have hmethods := (Lined.flatMap (fun method (_ : method ∈ service.methods) =>
    lined_addMethodCall service method)).finds
      (show Ignores readServiceName _ from Lines.ignores_reader (by decide) (by decide) _)
  exact (finds_serviceHeader hread service (finds_serviceName service) hmethods).scan_eq hread.empty

/-- The header of a service opens no namespace. -/
theorem finds_namespace_serviceHeader (service : ServiceDescriptor) :
    Finds newline readNamespace (generateServiceHeader service) [] := by
  have hread : Ignores readNamespace headerStarts :=
    Lines.ignores_reader (by decide) (by decide) _
  have hname := (lined_serviceName service).finds
    (show Ignores readNamespace _ from Lines.ignores_reader (by decide) (by decide) _)
  have hmethods := (Lined.flatMap (fun method (_ : method ∈ service.methods) =>
    lined_addMethodCall service method)).finds
      (show Ignores readNamespace _ from Lines.ignores_reader (by decide) (by decide) _)
  exact finds_serviceHeader hread service hname hmethods

/-! ## The source of a service -/

/-- What is found in the source of a service, by a reader that ignores all of it but the definitions
    of the constants and the constructor of the stub. -/
theorem finds_serviceSource {β : Type} {read : Text → Option β} (hread : Ignores read sourceStarts)
    (service : ServiceDescriptor) {definitions tags : List β}
    (hdefinitions :
      Finds newline read (service.methods.flatMap (constantDefinition service)) definitions)
    (hconstructor : Finds newline read (emit [service.name.text,
      lit "::Stub::Stub(::easy_grpc::client::Channel* c, ",
      lit "::easy_grpc::Completion_queue* default_queue)\n",
      lit "  : channel_(c), default_queue_(default_queue ? default_queue : c->default_queue())",
      service.methods.flatMap (tagInitializer service), lit " \x7b\x7d\n\n"]) tags) :
    Finds newline read (generateServiceSource service) (definitions ++ tags) := by
  have hstubs : Finds newline read (service.methods.flatMap (stubDefinition service)) [] :=
    (Lined.flatMap (fun method _ => lined_stubDefinition service method)).finds hread
  have hrest := hconstructor.append hstubs
  rw [List.append_nil] at hrest
  refine skip_line hread (by decide) service.name.newline_notMem ?_
  refine finds_emit _ hdefinitions ?_
  refine skip_lits hread [_] (by decide) ?_
  simpa [emit] using hrest

/-- The line of a tag in the constructor of the stub, without its end. -/
def tagLine (service : ServiceDescriptor) (method : MethodDescriptor) : Text :=
  emit [lit "  , ", method.name.text, lit "_tag_(c->register_method(",
    methodNameCste service method, lit "))"]

/-- What is found in the constructor of the stub: nothing in its first two lines, and `found` in the
    line of each tag. -/
theorem finds_constructor {β : Type} {read : Text → Option β} (service : ServiceDescriptor)
    {found : MethodDescriptor → Option β} (hempty : read [] = none)
    (hname : ∀ l, read (service.name.text ++ 58 :: l) = none)
    (hmembers : ∀ l, read
      (lit "  : channel_(c), default_queue_(default_queue ? default_queue : c->default_queue())" ++ l)
        = none)
    (htag : ∀ method l, read (tagLine service method ++ l) = found method) :
    Finds newline read (emit [service.name.text,
      lit "::Stub::Stub(::easy_grpc::client::Channel* c, ",
      lit "::easy_grpc::Completion_queue* default_queue)\n",
      lit "  : channel_(c), default_queue_(default_queue ? default_queue : c->default_queue())",
      service.methods.flatMap (tagInitializer service), lit " \x7b\x7d\n\n"])
      (service.methods.filterMap found) := by
  let signature := service.name.text ++ 58 :: emit [
    lit ":Stub::Stub(::easy_grpc::client::Channel* c, ",
    lit "::easy_grpc::Completion_queue* default_queue)"]
  have hsignature : Finds newline read (signature ++ [newline]) [] := by
    have hline : newline ∉ signature := by simp +decide [signature]
    have hfinds := Finds.line read hline
    rwa [hname] at hfinds
  have htags : Finds newline read
      (lit "  : channel_(c), default_queue_(default_queue ? default_queue : c->default_queue())" ++
        (service.methods.flatMap (fun method => newline :: tagLine service method) ++
          (lit " \x7b\x7d" ++ [newline]))) (service.methods.filterMap found) :=
    Finds.hanging (by decide) (by decide) (fun method _ => by simp +decide [tagLine]) hmembers
      (fun method _ => htag method)
  have hblank : Finds newline read [newline] [] := by
    have hfinds := Finds.line read (List.not_mem_nil (a := newline))
    rwa [hempty] at hfinds
  have hfinds := (hsignature.append htags).append hblank
  rw [List.append_nil, List.nil_append] at hfinds
  have hinitializer : tagInitializer service = fun method => newline :: tagLine service method := rfl
  have hcolon : lit "::Stub::Stub(::easy_grpc::client::Channel* c, "
      = 58 :: lit ":Stub::Stub(::easy_grpc::client::Channel* c, " := rfl
  have hparameters : lit "::easy_grpc::Completion_queue* default_queue)\n"
      = lit "::easy_grpc::Completion_queue* default_queue)" ++ [newline] := rfl
  have hbody : lit " \x7b\x7d\n\n" = lit " \x7b\x7d" ++ [newline, newline] := rfl
  simpa [emit, signature, hinitializer, hcolon, hparameters, hbody] using hfinds

theorem space_notMem_name (service : ServiceDescriptor) : space ∉ service.name.text :=
  (service.name.spells []).notMem (by decide)

/-! ### The constants -/

theorem finds_constantDefinition (service : ServiceDescriptor) (method : MethodDescriptor) :
    Finds newline readConstant (constantDefinition service method)
      [(emit [service.name.text, lit "::", methodNameCste service method],
        routeConstant service method)] := by
  let constant := emit [service.name.text, lit "::", methodNameCste service method]
  have hspells : Spells [58] constant := by
    refine Spells.emit ?_
    simp only [List.forall_mem_cons]
    exact ⟨service.name.spells _, spells_lit rfl, fun c hc =>
      (spells_methodNameCste service method c hc).imp_right (Or.imp_right (by simp)), by simp⟩
  have hroute := spells_routeConstant service method
  have hspace : space ∉ constant := hspells.notMem (by decide)
  have hquote : quote ∉ routeConstant service method := hroute.notMem (by decide)
  let value := routeConstant service method ++ quote :: lit ";"
  let definition := constant ++ space :: (lit "= " ++ quote :: value)
  have hvalue : behind quote definition = value := by
    have hconstant : quote ∉ constant := hspells.notMem (by decide)
    have hbefore : quote ∉ constant ++ space :: lit "= " := by simp +decide [hconstant]
    simpa [definition] using Lines.behind_append hbefore value
  refine finds_line (lit "const char* " ++ definition) ?_ ?_ ?_
  · simp only [constantDefinition, emit, definition, constant, value, List.flatten_cons,
      List.flatten_nil, List.append_assoc, List.cons_append, List.append_nil]
    rfl
  · have hconstant : newline ∉ constant := hspells.notMem (by decide)
    have hnewline : newline ∉ routeConstant service method := hroute.notMem (by decide)
    simp +decide [definition, value, hconstant, hnewline]
  · rw [readConstant, Lines.reader_append, hvalue, Lines.upTo_append hspace,
      Lines.upTo_append hquote]

theorem lined_constantDefinition (service : ServiceDescriptor) (method : MethodDescriptor) :
    Lined newline [lit "const char* "] (constantDefinition service method) := by
  have hroute : newline ∉ routeConstant service method :=
    (spells_routeConstant service method).notMem (by decide)
  have hmiddle : ∀ part ∈ [service.name.text, lit "::", methodNameCste service method,
      lit " = \"", routeConstant service method], newline ∉ part := by
    simp +decide [hroute]
  exact lined_line (by decide) hmiddle

/-- The constants of the source are those of the methods. -/
theorem constants_source (service : ServiceDescriptor) :
    constants (generateServiceSource service) = service.methods.map (fun method =>
      (emit [service.name.text, lit "::", methodNameCste service method],
        routeConstant service method)) := by
  have hread : Ignores readConstant sourceStarts :=
    Lines.ignores_reader (by decide) (by decide) _
  have hdefinitions := Finds.flatMap (fun method (_ : method ∈ service.methods) =>
    finds_constantDefinition service method)
  have hname : ∀ l, readConstant (service.name.text ++ 58 :: l) = none := by
    intro l
    rw [readConstant, Lines.reader, Lines.dropPrefix_eq_none (by decide) (by decide)
      (space_notMem_name service)]
    rfl
  have htag : ∀ method l, readConstant (tagLine service method ++ l) = none := fun _ _ => rfl
  have hconstructor := finds_constructor service hread.empty hname (fun _ => rfl) htag
  have hfinds := finds_serviceSource hread service hdefinitions hconstructor
  rw [List.filterMap_none, List.append_nil] at hfinds
  exact hfinds.scan_eq hread.empty

/-! ### The tags -/

theorem readTag_tagLine (service : ServiceDescriptor) (method : MethodDescriptor) (l : Text) :
    readTag (tagLine service method ++ l) =
      some (emit [method.name.text, lit "_tag_"], methodNameCste service method) := by
  let tag := emit [method.name.text, lit "_tag_"]
  let argument := methodNameCste service method ++ closeParen :: (lit ")" ++ l)
  let initializer := tag ++ openParen :: (lit "c->register_method(" ++ argument)
  have hline : tagLine service method ++ l = lit "  , " ++ initializer := by
    have htag : lit "_tag_(c->register_method("
        = lit "_tag_" ++ openParen :: lit "c->register_method(" := rfl
    have hend : lit "))" = closeParen :: lit ")" := rfl
    simp [tagLine, initializer, argument, tag, emit, htag, hend]
  have hname : openParen ∉ method.name.text := (method.name.spells []).notMem (by decide)
  have htag : openParen ∉ tag := by simp +decide [tag, emit, hname]
  have hconstant : closeParen ∉ methodNameCste service method :=
    (spells_methodNameCste service method).notMem (by decide)
  rw [hline, readTag, Lines.reader_append, Lines.behind_append htag, Lines.reader_append,
    Lines.upTo_append htag, Lines.upTo_append hconstant]

/-- The tags of the stub are those of the methods. -/
theorem tags_source (service : ServiceDescriptor) :
    scan newline readTag (generateServiceSource service) = service.methods.map
      (fun method => (emit [method.name.text, lit "_tag_"], methodNameCste service method)) := by
  have hread : Ignores readTag sourceStarts := Lines.ignores_reader (by decide) (by decide) _
  have hdefinitions := (Lined.flatMap (fun method (_ : method ∈ service.methods) =>
    lined_constantDefinition service method)).finds
      (show Ignores readTag _ from Lines.ignores_reader (by decide) (by decide) _)
  have hname : ∀ l, readTag (service.name.text ++ 58 :: l) = none := by
    intro l
    rw [readTag, Lines.reader, Lines.dropPrefix_eq_none (by decide) (by decide)
      (space_notMem_name service)]
    rfl
  have hconstructor := finds_constructor service hread.empty hname (fun _ => rfl)
    (fun method l => readTag_tagLine service method l)
  have hfinds := finds_serviceSource hread service hdefinitions hconstructor
  rw [List.nil_append, List.filterMap_eq_map'] at hfinds
  exact hfinds.scan_eq hread.empty

end Codegen

end EasyGrpc
