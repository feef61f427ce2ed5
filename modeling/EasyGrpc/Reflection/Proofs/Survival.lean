import EasyGrpc.Reflection.Proofs.Closure

set_option autoImplicit false

/-! # Which request sequences the reflection service survives

The callback on a request does not look whether an earlier one has ended the response stream, as the
final callback does: what follows a request that fails is applied to a promise without storage. -/

namespace EasyGrpc

namespace Reflection

variable {File Message Field : Type}

/-! ## What a stream of answers should become -/

/-- The responses before the first error. -/
def pushed :
    List (Except RpcError ServerReflectionResponse) → List ServerReflectionResponse
  | .ok response :: answers => response :: pushed answers
  | _ => []

/-- The end of the response stream: the first error, if there is one. -/
def streamEnd : List (Except RpcError ServerReflectionResponse) → StreamEnd
  | [] => .complete
  | .ok _ :: answers => streamEnd answers
  | .error e :: _ => .failed (.rpcError e)

/-- The answers behind the first error. -/
def behindError : List (Except RpcError ServerReflectionResponse) →
    List (Except RpcError ServerReflectionResponse)
  | [] => []
  | .ok _ :: answers => behindError answers
  | .error _ :: answers => answers

/-- One response for each request before the first that fails, then one end, and nothing after
    it. -/
structure Survives (answers : List (Except RpcError ServerReflectionResponse))
    (prom : StreamPromise ServerReflectionResponse) : Prop where
  log : prom.log = (pushed answers).map .push ++ [.finish (streamEnd answers)]
  faults : prom.faults = []

theorem behindError_eq_nil_iff (answers : List (Except RpcError ServerReflectionResponse)) :
    behindError answers = [] ↔ ∀ a ∈ answers.dropLast, a.isOk = true := by
  induction answers with
  | nil => simp [behindError]
  | cons a answers ih =>
      by_cases hnil : answers = []
      · subst hnil
        cases a with
        | ok response => simp [behindError]
        | error e => simp [behindError]
      · rw [List.dropLast_cons_of_ne_nil hnil, List.forall_mem_cons]
        cases a with
        | ok response => simp [behindError, ih, Except.isOk, Except.toBool]
        | error e => simp [behindError, hnil, Except.isOk, Except.toBool]

/-! ## What it becomes -/

/-- What the callback on a request does to the promise. -/
def operation : Except RpcError ServerReflectionResponse → StreamOp ServerReflectionResponse
  | .ok response => .push response
  | .error e => .finish (.failed (.rpcError e))

/-- Without storage every operation is a fault. -/
theorem foldl_apply_of_no_storage {prom : StreamPromise ServerReflectionResponse}
    (h : prom.storage = false) (ops : List (StreamOp ServerReflectionResponse)) :
    ops.foldl StreamPromise.apply prom = { prom with faults := prom.faults ++ ops } := by
  induction ops generalizing prom with
  | nil => simp
  | cons op ops ih =>
      have hop : prom.apply op = { prom with faults := prom.faults ++ [op] } := by
        cases op <;> simp [StreamPromise.apply, StreamPromise.push, StreamPromise.finish, h]
      have hrest := @ih { prom with faults := prom.faults ++ [op] } h
      rw [List.foldl_cons, hop, hrest, List.append_assoc]
      rfl

/-- By induction on the answers: the log is as it should be, and the answers behind the first error
    have become faults. -/
theorem onEnd_foldl {prom : StreamPromise ServerReflectionResponse} (h : prom.storage = true)
    (answers : List (Except RpcError ServerReflectionResponse)) :
    (ReflectionImpl.onEnd ((answers.map operation).foldl StreamPromise.apply prom)).log =
        prom.log ++ ((pushed answers).map .push ++ [.finish (streamEnd answers)]) ∧
      (ReflectionImpl.onEnd ((answers.map operation).foldl StreamPromise.apply prom)).faults =
        prom.faults ++ (behindError answers).map operation := by
  induction answers generalizing prom with
  | nil =>
      simp [ReflectionImpl.onEnd, h, StreamPromise.complete, StreamPromise.finish, pushed, streamEnd,
        behindError]
  | cons a answers ih =>
      rw [List.map_cons, List.foldl_cons]
      cases a with
      | ok response =>
          have hpush : prom.apply (operation (.ok response)) =
              { prom with log := prom.log ++ [.push response] } := by
            simp [operation, StreamPromise.apply, StreamPromise.push, h]
          obtain ⟨hlog, hfaults⟩ := @ih { prom with log := prom.log ++ [.push response] } h
          rw [hpush, hlog, hfaults]
          simp [pushed, streamEnd, behindError]
      | error e =>
          have hfinish : prom.apply (operation (.error e)) =
              { prom with
                storage := false, log := prom.log ++ [.finish (.failed (.rpcError e))] } := by
            simp [operation, StreamPromise.apply, StreamPromise.finish, h]
          rw [hfinish, foldl_apply_of_no_storage rfl]
          simp [ReflectionImpl.onEnd, pushed, streamEnd, behindError]

namespace ReflectionImpl

/-! ## Which requests are answered -/

/-- A request with its kind set that asks for something the pool has. -/
def Answerable (s : ReflectionImpl File Message Field) : ServerReflectionRequest → Prop
  | .notSet => False
  | .listServices _ => True
  | .allExtensionNumbersOfType type =>
      ∃ pool desc, s.descriptorPool = some pool ∧ pool.findMessageTypeByName type = some desc
  | req => ∃ pool root, s.descriptorPool = some pool ∧ pool.root? req = some root

/-- A file query that finds its file returns a response. -/
theorem answer_of_answerable [Fintype File] {s : ReflectionImpl File Message Field} {depth : ℕ}
    (hdepth : Fintype.card File < depth) {req : ServerReflectionRequest} (h : s.Answerable req) :
    ∃ response, s.answer depth req = some (.ok response) := by
  have hfile (h : ∃ pool root, s.descriptorPool = some pool ∧ pool.root? req = some root) :
      ∃ response, s.answer depth req = some (.ok response) := by
    obtain ⟨pool, root, hpool, hroot⟩ := h
    obtain ⟨files, ⟨filled, hfill, -⟩, -⟩ := fillFileResponse_spec pool root hdepth
    exact ⟨filled.response, by rw [answer_of_root hpool hroot, hfill, Option.map_some]⟩
  cases req with
  | notSet => exact h.elim
  | listServices content => exact ⟨_, rfl⟩
  | allExtensionNumbersOfType type =>
      obtain ⟨pool, desc, hpool, hdesc⟩ := h
      simp only [answer, getAllExtensionNumbers, hpool, hdesc]
      exact ⟨_, rfl⟩
  | fileByFilename filename => exact hfile h
  | fileContainingSymbol symbol => exact hfile h
  | fileContainingExtension containingType extensionNumber => exact hfile h

theorem fileQuery_of_error {s : ReflectionImpl File Message Field}
    {find : DescriptorPool File Message Field → Except RpcError File} (depth : ℕ)
    (h : ∀ pool, s.descriptorPool = some pool → ∃ e, find pool = .error e) :
    ∃ e, s.fileQuery depth find = some (.error e) := by
  cases hpool : s.descriptorPool with
  | none => exact ⟨⟨.cancelled, .ofText "no descriptor info available"⟩, by simp only [fileQuery, hpool]⟩
  | some pool =>
      obtain ⟨e, hfind⟩ := h pool hpool
      exact ⟨e, by simp only [fileQuery, hpool, hfind]⟩

/-- Every other request throws. -/
theorem answer_of_not_answerable {s : ReflectionImpl File Message Field} (depth : ℕ)
    {req : ServerReflectionRequest} (h : ¬ s.Answerable req) :
    ∃ e, s.answer depth req = some (.error e) := by
  cases req with
  | notSet => exact ⟨_, rfl⟩
  | listServices content => exact absurd trivial h
  | fileByFilename filename =>
      refine fileQuery_of_error depth (fun pool hpool => ?_)
      cases hfind : pool.findFileByName filename with
      | none => exact ⟨_, rfl⟩
      | some root => exact absurd ⟨pool, root, hpool, hfind⟩ h
  | fileContainingSymbol symbol =>
      refine fileQuery_of_error depth (fun pool hpool => ?_)
      cases hfind : pool.findFileContainingSymbol symbol with
      | none => exact ⟨_, rfl⟩
      | some root => exact absurd ⟨pool, root, hpool, hfind⟩ h
  | fileContainingExtension containingType extensionNumber =>
      refine fileQuery_of_error depth (fun pool hpool => ?_)
      cases hdesc : pool.findMessageTypeByName containingType with
      | none => exact ⟨_, rfl⟩
      | some desc =>
          cases hfind : pool.findExtensionByNumber desc extensionNumber with
          | none => exact ⟨⟨.notFound, .ofText "Extension not found"⟩, by simp only [hfind]⟩
          | some fieldDesc =>
              refine absurd ⟨pool, pool.file fieldDesc, hpool, ?_⟩ h
              simp [DescriptorPool.root?, hdesc, hfind]
  | allExtensionNumbersOfType type =>
      cases hpool : s.descriptorPool with
      | none =>
          simp only [answer, getAllExtensionNumbers, hpool]
          exact ⟨_, rfl⟩
      | some pool =>
          cases hdesc : pool.findMessageTypeByName type with
          | none =>
              simp only [answer, getAllExtensionNumbers, hpool, hdesc]
              exact ⟨_, rfl⟩
          | some desc => exact absurd ⟨pool, desc, hpool, hdesc⟩ h

/-! ## All of it -/

/-- Every request is answered, by a response exactly if it is answerable. -/
theorem exists_reply [Fintype File] (s : ReflectionImpl File Message Field) {depth : ℕ}
    (hdepth : Fintype.card File < depth) :
    ∃ reply : ServerReflectionRequest → Except RpcError ServerReflectionResponse,
      ∀ req, s.answer depth req = some (reply req) ∧
        ((reply req).isOk = true ↔ s.Answerable req) := by
  have hall (req : ServerReflectionRequest) : ∃ a, s.answer depth req = some a ∧
      (a.isOk = true ↔ s.Answerable req) := by
    by_cases h : s.Answerable req
    · obtain ⟨response, hanswer⟩ := answer_of_answerable hdepth h
      exact ⟨_, hanswer, by simp [h, Except.isOk, Except.toBool]⟩
    · obtain ⟨e, hanswer⟩ := answer_of_not_answerable depth h
      exact ⟨_, hanswer, by simp [h, Except.isOk, Except.toBool]⟩
  choose reply hreply using hall
  exact ⟨reply, hreply⟩

theorem serverReflectionInfo_eq {s : ReflectionImpl File Message Field} {depth : ℕ}
    {reply : ServerReflectionRequest → Except RpcError ServerReflectionResponse}
    (hreply : ∀ req, s.answer depth req = some (reply req))
    (requests : List ServerReflectionRequest) :
    s.serverReflectionInfo depth requests =
      some (onEnd (((requests.map reply).map operation).foldl StreamPromise.apply
        ({} : StreamPromise ServerReflectionResponse).getFuture)) := by
  have hfold (prom : StreamPromise ServerReflectionResponse) :
      requests.foldlM (s.onRequest depth) prom =
        some (((requests.map reply).map operation).foldl StreamPromise.apply prom) := by
    induction requests generalizing prom with
    | nil => rfl
    | cons req requests ih =>
        have hreq : s.onRequest depth prom req = some (prom.apply (operation (reply req))) := by
          rw [onRequest, hreply, Option.map_some]
          cases reply req <;> rfl
        rw [List.foldlM_cons, hreq]
        exact ih _
  rw [serverReflectionInfo, hfold, Option.map_some]

/-- **Which request sequences the reflection service survives.** Every request is answered, by a
    response or by an error. The responses before the first error are pushed in order, then the
    stream is ended once, and nothing comes after that, exactly if every request before the last is
    answerable. -/
theorem reflection_survives_iff [Fintype File] (s : ReflectionImpl File Message Field) {depth : ℕ}
    (hdepth : Fintype.card File < depth) (requests : List ServerReflectionRequest) :
    ∃ reply : ServerReflectionRequest → Except RpcError ServerReflectionResponse,
      (∀ req, s.answer depth req = some (reply req)) ∧
      ∃ prom, s.serverReflectionInfo depth requests = some prom ∧
        (Survives (requests.map reply) prom ↔ ∀ req ∈ requests.dropLast, s.Answerable req) := by
  obtain ⟨reply, hreply⟩ := s.exists_reply hdepth
  have hanswer (req : ServerReflectionRequest) := (hreply req).1
  refine ⟨reply, hanswer, _, serverReflectionInfo_eq hanswer requests, ?_⟩
  obtain ⟨hlog, hfaults⟩ := onEnd_foldl
    (show ({} : StreamPromise ServerReflectionResponse).getFuture.storage = true from rfl)
    (requests.map reply)
  have hbehind : Survives (requests.map reply) (onEnd (((requests.map reply).map operation).foldl
      StreamPromise.apply ({} : StreamPromise ServerReflectionResponse).getFuture)) ↔
      behindError (requests.map reply) = [] := by
    constructor
    · intro hsurvives
      have hnil := hfaults.symm.trans hsurvives.faults
      simpa [StreamPromise.getFuture] using hnil
    · intro hnil
      exact ⟨by rw [hlog]; rfl, by rw [hfaults, hnil]; rfl⟩
  rw [hbehind, behindError_eq_nil_iff, ← List.map_dropLast, List.forall_mem_map]
  exact forall₂_congr (fun req _ => (hreply req).2)

/-- An unknown name comes last. -/
theorem reflection_survives_iff_last_unknown :
    ∃ reply : ServerReflectionRequest → Except RpcError ServerReflectionResponse,
      ∃ prom, serverReflectionInfo ⟨[], some diamond⟩ 6
          [.listServices "*", .fileByFilename "missing.proto"] = some prom ∧
        Survives ([.listServices "*", .fileByFilename "missing.proto"].map reply) prom := by
  obtain ⟨reply, -, prom, hprom, hiff⟩ := reflection_survives_iff ⟨[], some diamond⟩
    (show Fintype.card (Fin 5) < 6 by decide) [.listServices "*", .fileByFilename "missing.proto"]
  refine ⟨reply, prom, hprom, hiff.2 (fun req hreq => ?_)⟩
  obtain rfl : req = .listServices "*" := by simpa using hreq
  trivial

/-- It comes first: the response to the next request is pushed into a promise that has ended. -/
theorem response_pushed_after_error :
    ∃ prom, serverReflectionInfo ⟨[], some diamond⟩ 6
        [.fileByFilename "missing.proto", .listServices "*"] = some prom ∧
      prom.log = [.finish (.failed (.rpcError ⟨.notFound, .ofText "File not found"⟩))] ∧
      prom.faults = [.push (.listServicesResponse ["grpc.reflection.v1alpha.ServerReflection"])] ∧
      ∀ answers, ¬ Survives answers prom := by
  obtain ⟨prom, hprom, hlog, hfaults⟩ : ∃ prom, serverReflectionInfo ⟨[], some diamond⟩ 6
        [.fileByFilename "missing.proto", .listServices "*"] = some prom ∧
      prom.log = [.finish (.failed (.rpcError ⟨.notFound, .ofText "File not found"⟩))] ∧
      prom.faults = [.push (.listServicesResponse ["grpc.reflection.v1alpha.ServerReflection"])] :=
    ⟨_, rfl, rfl, rfl⟩
  refine ⟨prom, hprom, hlog, hfaults, fun answers hsurvives => ?_⟩
  exact absurd (hfaults.symm.trans hsurvives.faults) (by simp)

end ReflectionImpl

end Reflection

end EasyGrpc
