import Mathlib.Data.Set.List
import Mathlib.Logic.Equiv.List
import Mathlib.Tactic.DeriveCountable
import EasyGrpc.Reflection.Proofs.Survival
import EasyGrpc.Rpc.Proofs.BidirProgress
import EasyGrpc.Rpc.Reflection

set_option autoImplicit false

/-! # The reflection service answers

A client that asks only for what the descriptor pool has is given one response for each request, in
order, whatever the order of steps on the two sides. -/

namespace EasyGrpc

/-! ## The two streams of a call -/

namespace StreamPromise

variable {α : Type}

theorem log_apply {p : StreamPromise α} (h : p.storage = true) (op : StreamOp α) :
    (p.apply op).log = p.log ++ [op] ∧ (p.apply op).storage = op.end?.isNone := by
  cases op with
  | push v => simp [apply, push, h, StreamOp.end?]
  | finish t => simp [apply, finish, h, StreamOp.end?]

/-- What is in the log stays there. -/
theorem log_prefix_apply (p : StreamPromise α) (op : StreamOp α) : p.log <+: (p.apply op).log := by
  cases hs : p.storage with
  | true =>
      rw [(log_apply hs op).1]
      exact List.prefix_append _ _
  | false => cases op <;> simp [apply, push, finish, hs]

theorem ends_ne_nil_of_log {p : StreamPromise α} {i : ℕ} {op : StreamOp α}
    (hop : p.log[i]? = some op) (hend : op.end?.isSome = true) : p.ends ≠ [] := by
  obtain ⟨t, ht⟩ := Option.isSome_iff_exists.1 hend
  have hmem : t ∈ p.ends := List.mem_filterMap.2 ⟨op, List.mem_of_getElem? hop, ht⟩
  exact List.ne_nil_of_mem hmem

/-- A stream that has ended stays so. -/
theorem ends_ne_nil_of_prefix {p q : StreamPromise α} (h : p.log <+: q.log) (hends : p.ends ≠ []) :
    q.ends ≠ [] := by
  intro hnil
  have hprefix : p.ends <+: q.ends := h.filterMap _
  rw [hnil] at hprefix
  exact hends (List.prefix_nil.1 hprefix)

end StreamPromise

namespace BidirRpc

variable {Req Rep : Type} [Serializer Req] [Serializer Rep] {s s' : BidirRpc Req Rep}

/-- Only the user's handler writes to the reply stream. -/
theorem replies_step {e : Event Req Rep} (hstep : s.step e = some s')
    (hpush : ∀ rep, e ≠ .handlerPush rep) (hend : ∀ t, e ≠ .handlerEnd t) :
    s'.server.replies.pushed = s.server.replies.pushed ∧
      s'.server.replies.terminal = s.server.replies.terminal := by
  have hclient : ∀ {ce}, ClientMove s s' ce → s'.server.replies.pushed = s.server.replies.pushed ∧
      s'.server.replies.terminal = s.server.replies.terminal := by
    intro ce hmove
    rw [hmove.server]
    exact ⟨rfl, rfl⟩
  have hserver : ∀ {se}, ServerMove s s' se → (∀ rep, se ≠ .push rep) → (∀ t, se ≠ .finish t) →
      s'.server.replies.pushed = s.server.replies.pushed ∧
        s'.server.replies.terminal = s.server.replies.terminal := by
    intro se hmove hnopush hnoend
    rcases BidirServer.source_step hmove.step with ⟨hpushed, hterm, -⟩ | ⟨rep, he, -⟩ | ⟨t, he, -⟩
    · exact ⟨hpushed, hterm⟩
    · exact absurd he (hnopush rep)
    · exact absurd he (hnoend t)
  cases e with
  | callerPush req => exact hclient (clientMove_of_user hstep (fun _ _ he => by cases he))
  | callerEnd => exact hclient (clientMove_of_user hstep (fun _ _ he => by cases he))
  | handlerPush rep => exact absurd rfl (hpush rep)
  | handlerEnd t => exact absurd rfl (hend t)
  | attach =>
      exact hserver (serverMove_of_user hstep (fun _ _ he => by cases he))
        (fun _ he => by cases he) (fun _ he => by cases he)
  | startHandshake =>
      exact hserver (serverMove_of_user hstep (fun _ _ he => by cases he))
        (fun _ he => by cases he) (fun _ he => by cases he)
  | clientDone i err =>
      obtain ⟨r, hmove⟩ := clientMove_of_done hstep
      exact hclient hmove
  | serverDone i =>
      obtain ⟨r, hmove⟩ := serverMove_of_done hstep
      exact hserver hmove (fun _ he => by cases he) (fun _ he => by cases he)

/-- What the handler was given of the requests it keeps. -/
theorem readerLog_step {e : Event Req Rep} (hstep : s.step e = some s') :
    s.server.handler.obj.readerProm.log <+: s'.server.handler.obj.readerProm.log := by
  rcases step_moves hstep with ⟨ce, hmove⟩ | ⟨se, hmove⟩
  · rw [hmove.server]
  · rcases BidirServer.reader_step hmove.step with ⟨hsame, -⟩ | ⟨i, r, -, -, -, -, hread⟩
    · rw [hsame]
    · rcases hread with ⟨data, -, hprom⟩ | ⟨-, hprom⟩
      · rw [hprom]
        exact StreamPromise.log_prefix_apply _ (.push (deserialize data))
      · rw [hprom]
        exact StreamPromise.log_prefix_apply _ (.finish .complete)

end BidirRpc

namespace Reflection

variable {File Message Field : Type}

/-! ## What a callback does to the promise -/

/-- A callback applies one operation to a promise with storage. Behind the first error it changes
    nothing that the stream sees. -/
theorem ReflectionImpl.callback_cases {impl : ReflectionImpl File Message Field} {depth : ℕ}
    {prom prom' : StreamPromise ServerReflectionResponse} {op : StreamOp ServerReflectionRequest}
    (h : impl.callback depth prom op = some prom') :
    (prom.storage = true ∧ ∃ out, prom' = prom.apply out ∧
      (out = .finish .complete → op.end?.isSome = true)) ∨
    (prom.storage = false ∧ prom'.storage = false ∧ prom'.log = prom.log) := by
  cases hs : prom.storage with
  | true =>
      refine Or.inl ⟨rfl, ?_⟩
      cases op with
      | push req =>
          obtain ⟨a, -, rfl⟩ := Option.map_eq_some_iff.1 h
          cases a with
          | ok response => exact ⟨.push response, rfl, fun hno => by cases hno⟩
          | error e => exact ⟨.finish (.failed (.rpcError e)), rfl, fun hno => by cases hno⟩
      | finish t =>
          obtain rfl := Option.some.inj h
          exact ⟨.finish .complete, by rw [onEnd, if_pos hs]; rfl, fun _ => rfl⟩
  | false =>
      refine Or.inr ⟨rfl, ?_⟩
      cases op with
      | push req =>
          obtain ⟨a, -, rfl⟩ := Option.map_eq_some_iff.1 h
          cases a with
          | ok response => simp [StreamPromise.push, hs]
          | error e => simp [StreamPromise.finish, hs]
      | finish t =>
          obtain rfl := Option.some.inj h
          rw [onEnd, if_neg (by simp [hs])]
          exact ⟨hs, rfl⟩

/-- On requests, the callbacks apply the operations of their answers. -/
theorem ReflectionImpl.foldlM_callback {impl : ReflectionImpl File Message Field} {depth : ℕ}
    {reply : ServerReflectionRequest → Except RpcError ServerReflectionResponse}
    (hreply : ∀ req, impl.answer depth req = some (reply req))
    (requests : List ServerReflectionRequest) (prom : StreamPromise ServerReflectionResponse) :
    (requests.map StreamOp.push).foldlM (impl.callback depth) prom
      = some (((requests.map reply).map operation).foldl StreamPromise.apply prom) := by
  induction requests generalizing prom with
  | nil => rfl
  | cons req requests ih =>
      have hreq : impl.callback depth prom (.push req)
          = some (prom.apply (operation (reply req))) := by
        rw [callback, onRequest, hreply, Option.map_some]
        cases reply req <;> rfl
      rw [List.map_cons, List.foldlM_cons, hreq]
      exact ih _

/-- Requests that are all answered push their responses. -/
theorem foldl_operation_of_ok {prom : StreamPromise ServerReflectionResponse}
    (h : prom.storage = true) (responses : List ServerReflectionResponse) :
    ((responses.map Except.ok).map operation).foldl StreamPromise.apply prom
      = { prom with log := prom.log ++ responses.map .push } := by
  induction responses generalizing prom with
  | nil => simp
  | cons response responses ih =>
      have hpush : prom.apply (operation (.ok response))
          = { prom with log := prom.log ++ [.push response] } := by
        simp [operation, StreamPromise.apply, StreamPromise.push, h]
      have hrest := @ih { prom with log := prom.log ++ [.push response] } h
      rw [List.map_cons, List.map_cons, List.foldl_cons, hpush, hrest]
      simp

/-- One that is not ends the stream with its error. -/
theorem ends_foldl_operation {prom : StreamPromise ServerReflectionResponse}
    (h : prom.storage = true) {answers : List (Except RpcError ServerReflectionResponse)}
    (herror : ∃ a ∈ answers, a.isOk = false) :
    (((answers.map operation).foldl StreamPromise.apply prom).storage = false ∧
      ∃ e, ((answers.map operation).foldl StreamPromise.apply prom).ends
        = prom.ends ++ [.failed e]) := by
  induction answers generalizing prom with
  | nil =>
      obtain ⟨a, hmem, -⟩ := herror
      cases hmem
  | cons a answers ih =>
      rw [List.map_cons, List.foldl_cons]
      cases a with
      | ok response =>
          have hrest : ∃ a ∈ answers, a.isOk = false := by
            obtain ⟨a, hmem, hno⟩ := herror
            rcases List.mem_cons.1 hmem with rfl | hmem
            · cases hno
            · exact ⟨a, hmem, hno⟩
          have hpush : prom.apply (operation (.ok response)) = prom.push response := rfl
          obtain ⟨hstorage, e, hends⟩ :=
            @ih (prom.push response) ((StreamPromise.storage_push ..).trans h) hrest
          rw [hpush]
          exact ⟨hstorage, e, by rw [hends, StreamPromise.ends_push]⟩
      | error e =>
          have hfinish : prom.apply (operation (.error e))
              = prom.finish (.failed (.rpcError e)) := rfl
          have hnone := StreamPromise.storage_finish (p := prom) (.failed (.rpcError e))
          rw [hfinish, foldl_apply_of_no_storage hnone]
          exact ⟨hnone, _, StreamPromise.ends_finish h _⟩

namespace ReflectionRpc

variable [Serializer ServerReflectionRequest] [Serializer ServerReflectionResponse]

/-! ## The steps, with what each requires -/

/-- One constructor for each event that `step` can accept; the callback either writes to the
    response stream or finds it ended. -/
inductive Moves (impl : ReflectionImpl File Message Field) (depth : ℕ) (s : ReflectionRpc) :
    Event → ReflectionRpc → Prop
  | rpc {e : BidirRpc.Event ServerReflectionRequest ServerReflectionResponse}
      {rpc : BidirRpc ServerReflectionRequest ServerReflectionResponse}
      (hown : isResponse e = false) (hstep : s.rpc.step e = some rpc) :
      Moves impl depth s (.rpc e) { s with rpc }
  | respond {op : StreamOp ServerReflectionRequest} {out : StreamOp ServerReflectionResponse}
      {rpc : BidirRpc ServerReflectionRequest ServerReflectionResponse}
      (hnext : s.rpc.server.handler.obj.readerProm.log[s.seen]? = some op)
      (hcall : impl.callback depth s.prom op = some (s.prom.apply out))
      (hstorage : s.prom.storage = true)
      (hout : out = .finish .complete → op.end?.isSome = true)
      (hstep : s.rpc.step (handlerEvent out) = some rpc) :
      Moves impl depth s .callback { rpc, prom := s.prom.apply out, seen := s.seen + 1 }
  | behind {op : StreamOp ServerReflectionRequest} {prom : StreamPromise ServerReflectionResponse}
      (hnext : s.rpc.server.handler.obj.readerProm.log[s.seen]? = some op)
      (hcall : impl.callback depth s.prom op = some prom) (hstorage : s.prom.storage = false)
      (hstorage' : prom.storage = false) (hlog : prom.log = s.prom.log) :
      Moves impl depth s .callback { s with prom, seen := s.seen + 1 }

/-- **What a step can do.** -/
theorem moves_of_step {impl : ReflectionImpl File Message Field} {depth : ℕ} {s s' : ReflectionRpc}
    {e : Event} (h : s.step impl depth e = some s') : Moves impl depth s e s' := by
  cases e with
  | rpc e =>
      simp only [step] at h
      split at h
      · cases h
      · next hown =>
          obtain ⟨rpc, hstep, rfl⟩ := Option.map_eq_some_iff.1 h
          exact .rpc (by simpa using hown) hstep
  | callback =>
      obtain ⟨op, hnext, h⟩ := Option.bind_eq_some_iff.1 h
      obtain ⟨prom, hcall, h⟩ := Option.bind_eq_some_iff.1 h
      obtain ⟨rpc, hrun, rfl⟩ := Option.map_eq_some_iff.1 h
      rcases ReflectionImpl.callback_cases hcall with ⟨hstorage, out, rfl, hout⟩ |
        ⟨hstorage, hstorage', hlog⟩
      · rw [(StreamPromise.log_apply hstorage out).1, List.drop_left] at hrun
        obtain ⟨mid, hstep, hmid⟩ := Option.bind_eq_some_iff.1 hrun
        obtain rfl := Option.some.inj hmid
        exact .respond hnext hcall hstorage hout hstep
      · rw [hlog, List.drop_length] at hrun
        obtain rfl := Option.some.inj hrun
        exact .behind hnext hcall hstorage hstorage' hlog

/-! ## The invariant -/

/-- The promise is what the callbacks have made of the requests handed over so far, and its stream
    is the one the handler sends. -/
structure Inv (impl : ReflectionImpl File Message Field) (depth : ℕ) (s : ReflectionRpc) :
    Prop where
  reachable : (BidirRpc.machine _ _).Reachable s.rpc
  seen_le : s.seen ≤ s.rpc.server.handler.obj.readerProm.log.length
  follows : (s.rpc.server.handler.obj.readerProm.log.take s.seen).foldlM (impl.callback depth)
    ({} : StreamPromise ServerReflectionResponse).getFuture = some s.prom
  log : s.prom.log = s.rpc.server.replies.pushed.map .push
    ++ s.rpc.server.replies.terminal.toList.map .finish
  storage : s.prom.storage = s.rpc.server.replies.terminal.isNone
  /-- The responses are completed when the requests are. -/
  ended : s.rpc.server.replies.terminal = some .complete →
    s.rpc.server.handler.obj.readerProm.ends ≠ []

variable {impl : ReflectionImpl File Message Field} {depth : ℕ} {s s' : ReflectionRpc}

/-- The callbacks run on one operation more. -/
theorem Inv.follows_next (h : s.Inv impl depth) {op : StreamOp ServerReflectionRequest}
    {prom : StreamPromise ServerReflectionResponse}
    (hnext : s.rpc.server.handler.obj.readerProm.log[s.seen]? = some op)
    (hcall : impl.callback depth s.prom op = some prom) :
    (s.rpc.server.handler.obj.readerProm.log.take (s.seen + 1)).foldlM (impl.callback depth)
      ({} : StreamPromise ServerReflectionResponse).getFuture = some prom := by
  rw [List.take_add_one, hnext, List.foldlM_append, h.follows]
  simp [hcall]

/-- An operation on the promise, and what the handler sees of it. -/
theorem handlerEvent_step {rpc rpc' : BidirRpc ServerReflectionRequest ServerReflectionResponse}
    {out : StreamOp ServerReflectionResponse} (hstep : rpc.step (handlerEvent out) = some rpc') :
    rpc.server.replies.terminal = none ∧
      rpc'.server.replies.pushed = rpc.server.replies.pushed ++ out.value?.toList ∧
      rpc'.server.replies.terminal = out.end? ∧
      rpc'.server.handler.obj.readerProm = rpc.server.handler.obj.readerProm := by
  cases out with
  | push rep =>
      have hmove := BidirRpc.serverMove_of_user hstep (fun _ _ he => by cases he)
      rcases BidirServer.source_step hmove.step with ⟨-, -, hno, -⟩ | ⟨rep', ⟨rfl⟩, hopen, hsrc⟩ |
        ⟨t, he, -⟩
      · exact absurd rfl (hno rep)
      · rcases BidirServer.reader_step hmove.step with ⟨hprom, -⟩ | ⟨i, r, he, -⟩
        · rw [hsrc]
          exact ⟨hopen, rfl, hopen, hprom⟩
        · cases he
      · cases he
  | finish t =>
      have hmove := BidirRpc.serverMove_of_user hstep (fun _ _ he => by cases he)
      rcases BidirServer.source_step hmove.step with ⟨-, -, -, hno⟩ | ⟨rep, he, -⟩ |
        ⟨t', ⟨rfl⟩, hopen, hsrc⟩
      · exact absurd rfl (hno t)
      · cases he
      · rcases BidirServer.reader_step hmove.step with ⟨hprom, -⟩ | ⟨i, r, he, -⟩
        · rw [hsrc]
          exact ⟨hopen, (List.append_nil _).symm, rfl, hprom⟩
        · cases he

theorem inv_step {e : Event} (hstep : s.step impl depth e = some s') (h : s.Inv impl depth) :
    s'.Inv impl depth := by
  cases moves_of_step hstep with
  | @rpc e rpc hown hrpc =>
      obtain ⟨hpushed, hterm⟩ := BidirRpc.replies_step hrpc
        (by rintro rep rfl; cases hown) (by rintro t rfl; cases hown)
      have hlog := BidirRpc.readerLog_step hrpc
      have htake : rpc.server.handler.obj.readerProm.log.take s.seen
          = s.rpc.server.handler.obj.readerProm.log.take s.seen := by
        obtain ⟨rest, hrest⟩ := hlog
        rw [← hrest, List.take_append_of_le_length h.seen_le]
      exact
        { reachable := h.reachable.step hrpc
          seen_le := h.seen_le.trans hlog.length_le
          follows := by rw [htake]; exact h.follows
          log := by rw [hpushed, hterm]; exact h.log
          storage := by rw [hterm]; exact h.storage
          ended := fun hcomplete =>
            StreamPromise.ends_ne_nil_of_prefix hlog (h.ended (hterm ▸ hcomplete)) }
  | @respond op out rpc hnext hcall hstorage hout hrpc =>
      obtain ⟨hopen, hpushed, hterm, hprom⟩ := handlerEvent_step hrpc
      obtain ⟨hlog, hstorage'⟩ := StreamPromise.log_apply hstorage out
      have hlen := (List.getElem?_eq_some_iff.1 hnext).1
      refine
        { reachable := h.reachable.step hrpc
          seen_le := ?_
          follows := ?_
          log := ?_
          storage := ?_
          ended := ?_ }
      · rw [hprom]
        exact hlen
      · rw [hprom]
        exact h.follows_next hnext hcall
      · rw [hlog, h.log, hopen, hpushed, hterm]
        cases out <;> simp [StreamOp.value?, StreamOp.end?]
      · rw [hstorage', hterm]
      · intro hcomplete
        rw [hprom]
        refine StreamPromise.ends_ne_nil_of_log hnext (hout ?_)
        cases out with
        | push rep => rw [hterm] at hcomplete; cases hcomplete
        | finish t => rw [hterm] at hcomplete; rw [Option.some.inj hcomplete]
  | @behind op prom hnext hcall hstorage hstorage' hlog =>
      exact
        { reachable := h.reachable
          seen_le := (List.getElem?_eq_some_iff.1 hnext).1
          follows := h.follows_next hnext hcall
          log := hlog.trans h.log
          storage := hstorage'.trans (hstorage.symm.trans h.storage)
          ended := h.ended }

theorem inv_of_reachable (h : (machine impl depth).Reachable s) : s.Inv impl depth := by
  induction h with
  | init =>
      refine ⟨.init, Nat.zero_le _, rfl, rfl, rfl, ?_⟩
      intro hno
      cases hno
  | step _ hnext ih => exact inv_step hnext ih

/-! ## The handler is never stuck -/

/-- The handshake never completes after the responses: they are completed when the requests are,
    which are read after the handshake. -/
theorem Inv.not_late (h : s.Inv impl depth) (e : BidirServer.Event ServerReflectionResponse) :
    s.rpc.server.handshakeAfterEnd e = false := by
  by_contra hlate
  cases e with
  | complete i r =>
      have hserver := BidirRpc.server_inv h.reachable
      simp only [BidirServer.handshakeAfterEnd, Bool.not_eq_false, Bool.and_eq_true,
        beq_iff_eq] at hlate
      obtain ⟨⟨hb, hfin⟩, -⟩ := hlate
      have hended : s.rpc.server.replies.attached = true ∧
          s.rpc.server.replies.terminal.any StreamEnd.isComplete = true :=
        Bool.and_eq_true_iff.1 (hserver.feeds.ended.symm.trans hfin)
      have hcomplete : s.rpc.server.replies.terminal = some .complete := by
        cases hterm : s.rpc.server.replies.terminal with
        | none => simp [hterm] at hended
        | some t =>
            cases t with
            | complete => rfl
            | failed e => simp [hterm, StreamEnd.isComplete] at hended
      have hends := List.length_pos_iff.2 (h.ended hcomplete)
      have hpos := Call.pending_pos hb (p := BidirServerBatch.isHandshake) rfl
      have hside := hserver.counts.recvSide_le
      have hone := hserver.counts.handshake_le
      rw [hserver.reader.terminations_eq] at hside
      omega
  | _ => exact hlate rfl

theorem server_inTime (h : (machine impl depth).Reachable s) :
    ((BidirServer.machine _ _).guard
      (fun c e => !c.handshakeAfterEnd e)).Reachable s.rpc.server := by
  induction h with
  | init => exact .init
  | @step s s' e hs hnext ih =>
      have hinv := inv_of_reachable hs
      have hkeep : ∀ {e rpc}, s.rpc.step e = some rpc →
          ((BidirServer.machine ServerReflectionRequest ServerReflectionResponse).guard
            (fun c e => !c.handshakeAfterEnd e)).Reachable rpc.server := by
        intro e rpc hrpc
        rcases BidirRpc.step_moves hrpc with ⟨ce, hmove⟩ | ⟨se, hmove⟩
        · rw [hmove.server]
          exact ih
        · exact ih.step (Machine.guard_step.2 ⟨by rw [hinv.not_late se]; rfl, hmove.step⟩)
      cases moves_of_step hnext with
      | rpc hown hrpc => exact hkeep hrpc
      | respond hnext hcall hstorage hout hrpc => exact hkeep hrpc
      | behind hnext hcall hstorage hstorage' hlog => exact ih

theorem not_endStalled (h : (machine impl depth).Reachable s) : ¬ s.rpc.server.EndStalled :=
  (BidirRpc.server_inv (inv_of_reachable h).reachable).not_endStalled
    (BidirServer.settled_of_guard (server_inTime h))

/-! ## What is left to do -/

/-- A step of the call and its callbacks, as opposed to the caller's. -/
def Event.isInternal : Event → Bool
  | .rpc e => e.isInternal
  | .callback => true

/-- The work of the RPC, and what the callbacks that are still to come add to it. -/
def work (s : ReflectionRpc) : ℕ :=
  s.rpc.work + 3 * (s.rpc.client.requests.pushed.length + 1 - s.seen)

theorem work_handlerEvent_le
    {rpc rpc' : BidirRpc ServerReflectionRequest ServerReflectionResponse}
    {out : StreamOp ServerReflectionResponse} (h : (BidirRpc.machine _ _).Reachable rpc)
    (hstep : rpc.step (handlerEvent out) = some rpc') :
    rpc'.work ≤ rpc.work + 2 ∧ rpc'.client = rpc.client := by
  obtain ⟨-, hpushed, -, hprom⟩ := handlerEvent_step hstep
  obtain ⟨se, hmove, huser⟩ : ∃ se, BidirRpc.ServerMove rpc rpc' se ∧ se.isInternal = false := by
    cases out with
    | push rep => exact ⟨_, BidirRpc.serverMove_of_user hstep (fun _ _ he => by cases he), rfl⟩
    | finish t => exact ⟨_, BidirRpc.serverMove_of_user hstep (fun _ _ he => by cases he), rfl⟩
  have hserver := BidirServer.work_user_le (BidirRpc.server_inv h) hmove.step huser
  have hone : out.value?.toList.length ≤ 1 := by cases out <;> simp [StreamOp.value?]
  refine ⟨?_, hmove.client⟩
  simp only [BidirRpc.work, hmove.client, hpushed, hprom, List.length_append]
  omega

/-- The callbacks run on the requests, and on their end. -/
theorem length_log_le (h : (BidirRpc.machine _ _).Reachable s.rpc) :
    s.rpc.server.handler.obj.readerProm.log.length
      ≤ s.rpc.client.requests.pushed.length + 1 := by
  have hserver := BidirRpc.server_inv h
  have hvalues := BidirRpc.length_requests_le h
  have hside := hserver.counts.recvSide_le
  have hone := hserver.counts.handshake_le
  rw [hserver.reader.terminations_eq] at hside
  rw [hserver.reader.log_eq, List.length_append, List.length_map, List.length_map]
  omega

theorem quiesces : (machine impl depth).Quiesces Event.isInternal work := by
  constructor
  intro s s' e hs hinternal hstep
  have hinv := inv_of_reachable hs
  cases moves_of_step hstep with
  | @rpc e rpc hown hrpc =>
      have hlower := BidirRpc.quiesces.lower hinv.reachable hinternal hrpc
      have hrequests := BidirRpc.requests_of_internal hrpc hinternal
      simp only [work, hrequests]
      omega
  | @respond op out rpc hnext hcall hstorage hout hrpc =>
      obtain ⟨hwork, hclient⟩ := work_handlerEvent_le hinv.reachable hrpc
      have hlen := (List.getElem?_eq_some_iff.1 hnext).1
      have hlog := length_log_le hinv.reachable
      simp only [work, hclient]
      omega
  | @behind op prom hnext hcall hstorage hstorage' hlog' =>
      have hlen := (List.getElem?_eq_some_iff.1 hnext).1
      have hlog := length_log_le hinv.reachable
      simp only [work]
      omega

/-! ## When nothing of it is left -/

section Rest

variable {reply : ServerReflectionRequest → Except RpcError ServerReflectionResponse}

theorem rpc_atRest (hrest : (machine impl depth).AtRest Event.isInternal s) :
    (BidirRpc.machine _ _).AtRest BidirRpc.Event.isInternal s.rpc := by
  intro e hinternal
  have hown : isResponse e = false := by cases e <;> first | rfl | cases hinternal
  have hnone : (if isResponse e then none
      else (s.rpc.step e).map (fun rpc => { s with rpc })) = none := hrest (.rpc e) hinternal
  rwa [hown, if_neg Bool.false_ne_true, Option.map_eq_none_iff] at hnone

/-- A response stream that is open can be written to. -/
theorem handlerEvent_enabled {rpc : BidirRpc ServerReflectionRequest ServerReflectionResponse}
    (hopen : rpc.server.replies.terminal = none) (out : StreamOp ServerReflectionResponse) :
    ∃ rpc', rpc.step (handlerEvent out) = some rpc' := by
  cases out with
  | push rep =>
      exact ⟨_, by simp only [handlerEvent, BidirRpc.step, BidirRpc.stepServer, BidirServer.step,
        Source.push_eq_some.2 ⟨hopen, rfl⟩, Option.map_some]; rfl⟩
  | finish t =>
      exact ⟨_, by simp only [handlerEvent, BidirRpc.step, BidirRpc.stepServer, BidirServer.step,
        Source.finish_eq_some.2 ⟨hopen, rfl⟩, Option.map_some]; rfl⟩

/-- Every callback has run. -/
theorem seen_of_atRest (h : (machine impl depth).Reachable s)
    (hrest : (machine impl depth).AtRest Event.isInternal s)
    (hreply : ∀ req, impl.answer depth req = some (reply req)) :
    s.rpc.server.handler.obj.readerProm.log.length ≤ s.seen := by
  by_contra hlt
  have hinv := inv_of_reachable h
  obtain ⟨op, hnext⟩ : ∃ op, s.rpc.server.handler.obj.readerProm.log[s.seen]? = some op :=
    ⟨_, List.getElem?_eq_getElem (Nat.lt_of_not_le hlt)⟩
  obtain ⟨prom, hcall⟩ : ∃ prom, impl.callback depth s.prom op = some prom := by
    cases op with
    | push req => exact ⟨_, by rw [ReflectionImpl.callback, ReflectionImpl.onRequest, hreply]; rfl⟩
    | finish t => exact ⟨_, rfl⟩
  have hnone := hrest .callback rfl
  simp only [machine, step, hnext, Option.bind_some, hcall, respond, Option.map_eq_none_iff]
    at hnone
  rcases ReflectionImpl.callback_cases hcall with ⟨hstorage, out, rfl, -⟩ | ⟨-, -, hlog⟩
  · rw [(StreamPromise.log_apply hstorage out).1, List.drop_left] at hnone
    have hopen : s.rpc.server.replies.terminal = none := by
      rw [hinv.storage] at hstorage
      simpa using hstorage
    obtain ⟨rpc, hstep⟩ := handlerEvent_enabled hopen out
    simp [Machine.run, BidirRpc.machine, hstep] at hnone
  · rw [hlog, List.drop_length] at hnone
    cases hnone

/-- The handler was given all there is of the requests, also if it is deleted. -/
theorem log_of_atRest (h : (machine impl depth).Reachable s)
    (hrest : (machine impl depth).AtRest Event.isInternal s) (hgo : ¬ s.rpc.client.CloseStalled) :
    s.rpc.server.handler.obj.readerProm.log = s.rpc.client.requests.pushed.map .push
      ++ (if s.rpc.client.requests.terminal.isSome then [.finish .complete] else []) := by
  have hinv := inv_of_reachable h
  have hserver := BidirRpc.server_inv hinv.reachable
  cases hdel : s.rpc.server.handler.deleted with
  | false => exact BidirRpc.reads_of_atRest hinv.reachable (rpc_atRest hrest) hgo hdel
  | true =>
      have hclosed := hserver.counts.deleted_end (by simp [hdel])
      have hends := hinv.ended (hserver.feeds.closed hclosed).2.1
      exact BidirRpc.log_of_ended hinv.reachable hends

/-- So the promise is what `ServerReflectionInfo` makes of them. -/
theorem prom_of_atRest (h : (machine impl depth).Reachable s)
    (hrest : (machine impl depth).AtRest Event.isInternal s) (hgo : ¬ s.rpc.client.CloseStalled)
    (hreply : ∀ req, impl.answer depth req = some (reply req)) :
    s.prom = (if s.rpc.client.requests.terminal.isSome then ReflectionImpl.onEnd else id)
      (((s.rpc.client.requests.pushed.map reply).map operation).foldl StreamPromise.apply
        ({} : StreamPromise ServerReflectionResponse).getFuture) := by
  have hfollows := (inv_of_reachable h).follows
  rw [List.take_of_length_le (seen_of_atRest h hrest hreply), log_of_atRest h hrest hgo,
    List.foldlM_append, ReflectionImpl.foldlM_callback hreply] at hfollows
  cases hended : s.rpc.client.requests.terminal.isSome with
  | true =>
      rw [hended] at hfollows
      exact (Option.some.inj hfollows).symm
  | false =>
      rw [hended] at hfollows
      exact (Option.some.inj hfollows).symm

/-- What the stream of `prom` holds is what the handler was given of the responses. -/
theorem Inv.values_eq (h : s.Inv impl depth) :
    s.prom.values = s.rpc.server.replies.pushed ∧
      s.prom.ends = s.rpc.server.replies.terminal.toList := by
  rw [StreamPromise.values, StreamPromise.ends, h.log]
  cases s.rpc.server.replies.terminal <;>
    simp [StreamOp.value?, StreamOp.end?, List.filterMap_append, List.filterMap_map,
      Function.comp_def]

/-- What there is when only the caller can do something, if `reply` is how requests are
    answered. -/
structure Rests (reply : ServerReflectionRequest → Except RpcError ServerReflectionResponse)
    (s : ReflectionRpc) : Prop where
  /-- A caller that has not ended its requests can push one, which is sent at once. -/
  waits : s.rpc.client.requests.terminal = none →
    s.rpc.client.session.deleted = false ∧ s.rpc.client.session.obj.canSend = true
  /-- If every request has a response, the caller has them all, in order, and is told that there are
      no more if it has ended its requests. -/
  answered : ∀ responses : List ServerReflectionResponse,
    s.rpc.client.requests.pushed.map reply = responses.map .ok →
    s.prom.faults = [] ∧
    s.rpc.client.session.obj.rep.log = responses.map .push
      ++ (if s.rpc.client.requests.terminal.isSome then [.finish .complete] else [])
  /-- And nothing of the call is left then. -/
  ended : s.rpc.client.requests.terminal.isSome = true →
    (∀ req ∈ s.rpc.client.requests.pushed, (reply req).isOk = true) →
    s.rpc.client.session.deleted = true ∧ s.rpc.server.handler.deleted = true ∧
      s.rpc.client.session.obj.call.outstanding = [] ∧
      s.rpc.server.handler.obj.call.outstanding = []
  /-- If one has none, and no other came behind it, the caller of a call that has ended is told that
      the responses are complete as well, and the handler is left behind. -/
  failed : s.rpc.client.requests.terminal.isSome = true → s.prom.faults = [] →
    (∃ req ∈ s.rpc.client.requests.pushed, (reply req).isOk = false) →
    s.rpc.client.session.obj.rep.ends = [.complete] ∧ s.rpc.server.handler.deleted = false ∧
      s.rpc.client.session.obj.call.outstanding = [] ∧
      s.rpc.server.handler.obj.call.outstanding = []

/-- Requests that all have responses make a response stream of them. -/
theorem replies_of_atRest (h : (machine impl depth).Reachable s)
    (hrest : (machine impl depth).AtRest Event.isInternal s) (hgo : ¬ s.rpc.client.CloseStalled)
    (hreply : ∀ req, impl.answer depth req = some (reply req))
    {responses : List ServerReflectionResponse}
    (hall : s.rpc.client.requests.pushed.map reply = responses.map .ok) :
    s.prom.faults = [] ∧ s.rpc.server.replies.pushed = responses ∧
      s.rpc.server.replies.terminal
        = if s.rpc.client.requests.terminal.isSome then some .complete else none := by
  have hprom := prom_of_atRest h hrest hgo hreply
  obtain ⟨hvalues, hends⟩ := (inv_of_reachable h).values_eq
  rw [hall, foldl_operation_of_ok rfl] at hprom
  -- The promise before the final callback.
  generalize hfold : { ({} : StreamPromise ServerReflectionResponse).getFuture with
    log := ({} : StreamPromise ServerReflectionResponse).getFuture.log
      ++ responses.map StreamOp.push } = prom at hprom
  have hopen : prom.storage = true := by rw [← hfold]; rfl
  have hpushed : prom.values = responses ∧ prom.ends = [] ∧ prom.faults = [] := by
    rw [← hfold]
    simp [StreamPromise.values, StreamPromise.ends, StreamPromise.getFuture, StreamOp.value?,
      StreamOp.end?, List.filterMap_map, Function.comp_def]
  obtain ⟨hall, hnone, hfaults⟩ := hpushed
  rw [← hvalues]
  cases hended : s.rpc.client.requests.terminal.isSome with
  | true =>
      have hfinish : s.prom = prom.finish .complete := by
        rw [hprom, hended, if_pos rfl, ReflectionImpl.onEnd, if_pos hopen]
        rfl
      rw [hfinish, StreamPromise.ends_finish hopen, hnone] at hends
      rw [hfinish, StreamPromise.values_finish, StreamPromise.faults_finish hopen]
      exact ⟨hfaults, hall, Option.toList_eq_singleton_iff.1 hends.symm⟩
  | false =>
      have hsame : s.prom = prom := by
        rw [hprom, hended]
        rfl
      rw [hsame, hnone] at hends
      rw [hsame]
      exact ⟨hfaults, hall, Option.toList_eq_nil_iff.1 hends.symm⟩

/-- One that has none makes it fail. -/
theorem failed_of_atRest (h : (machine impl depth).Reachable s)
    (hrest : (machine impl depth).AtRest Event.isInternal s) (hgo : ¬ s.rpc.client.CloseStalled)
    (hreply : ∀ req, impl.answer depth req = some (reply req))
    (herror : ∃ req ∈ s.rpc.client.requests.pushed, (reply req).isOk = false) :
    ∃ e, s.rpc.server.replies.terminal = some (.failed e) := by
  have hprom := prom_of_atRest h hrest hgo hreply
  have hends := (inv_of_reachable h).values_eq.2
  obtain ⟨req, hmem, hno⟩ := herror
  obtain ⟨hstorage, e, hfold⟩ :=
    @ends_foldl_operation ({} : StreamPromise ServerReflectionResponse).getFuture rfl _
      ⟨reply req, List.mem_map_of_mem hmem, hno⟩
  refine ⟨e, ?_⟩
  have hlast : s.prom.ends = [.failed e] := by
    rw [hprom]
    split
    · rw [ReflectionImpl.onEnd, hstorage, if_neg Bool.false_ne_true]
      exact hfold
    · exact hfold
  rw [hlast] at hends
  exact Option.toList_eq_singleton_iff.1 hends.symm

theorem rests_of_atRest (h : (machine impl depth).Reachable s)
    (hrest : (machine impl depth).AtRest Event.isInternal s) (hgo : ¬ s.rpc.client.CloseStalled)
    (hreply : ∀ req, impl.answer depth req = some (reply req)) : s.Rests reply := by
  have hreach := (inv_of_reachable h).reachable
  have hrpc := rpc_atRest hrest
  have hclient := BidirRpc.client_inv hreach
  have hmoves : ¬ s.rpc.Stalled := not_or.2 ⟨hgo, not_endStalled h⟩
  refine
    { waits := fun hopen => ⟨hclient.live_of_open hopen, BidirRpc.canSend_of_atRest hreach hrpc⟩
      answered := ?_
      ended := ?_
      failed := ?_ }
  · intro responses hall
    obtain ⟨hfaults, hpushed, hterm⟩ := replies_of_atRest h hrest hgo hreply hall
    refine ⟨hfaults, ?_⟩
    cases hended : s.rpc.client.requests.terminal with
    | none =>
        rw [hended] at hterm
        have hreceives := BidirRpc.receives_of_atRest hreach hrpc (by rw [hterm]; rfl)
        rw [hpushed, hclient.live_of_open hended] at hreceives
        exact hreceives
    | some t =>
        rw [hended] at hterm
        have hreceives := BidirRpc.receives_of_atRest hreach hrpc (by rw [hterm]; rfl)
        have hdel := (BidirRpc.ended_of_atRest hreach hrpc hmoves (by rw [hended]; rfl) hterm).2.2.1
        rw [hpushed, hdel] at hreceives
        exact hreceives
  · intro hended hok
    obtain ⟨responses, hall⟩ : ∃ responses : List ServerReflectionResponse,
        responses.map Except.ok = s.rpc.client.requests.pushed.map reply := by
      have hrange : s.rpc.client.requests.pushed.map reply ∈ Set.range (List.map Except.ok) := by
        rw [Set.range_list_map]
        intro a hmem
        obtain ⟨req, hreq, rfl⟩ := List.mem_map.1 hmem
        have hisOk := hok req hreq
        cases ha : reply req with
        | ok response => exact ⟨response, rfl⟩
        | error e => rw [ha] at hisOk; cases hisOk
      exact hrange
    obtain ⟨-, -, hterm⟩ := replies_of_atRest h hrest hgo hreply hall.symm
    rw [hended, if_pos rfl] at hterm
    obtain ⟨hnone, hnone', hdel, hdel'⟩ :=
      BidirRpc.ended_of_atRest hreach hrpc hmoves hended hterm
    exact ⟨hdel, hdel', hnone, hnone'⟩
  · intro hended _ herror
    obtain ⟨e, hterm⟩ := failed_of_atRest h hrest hgo hreply herror
    obtain ⟨hnone, hnone', hdel, hdel'⟩ :=
      BidirRpc.ended_of_atRest hreach hrpc hmoves hended hterm
    refine ⟨?_, hdel', hnone, hnone'⟩
    rw [(BidirRpc.wire_of_reachable hreach).rep_ends, hdel]
    rfl

/-- **The reflection service answers.** Every request is answered, by a response exactly if it is
    answerable. In every reachable state of a call, what the two sides, gRPC core and the service do
    of their own comes to an end, in whatever order they do it, and then, unless the client is
    stalled, the caller has the answers as `Rests` says. -/
theorem reflection_answers [Fintype File] (impl : ReflectionImpl File Message Field) {depth : ℕ}
    (hdepth : Fintype.card File < depth) :
    ∃ reply : ServerReflectionRequest → Except RpcError ServerReflectionResponse,
      (∀ req, impl.answer depth req = some (reply req) ∧
        ((reply req).isOk = true ↔ impl.Answerable req)) ∧
      ∀ s, (machine impl depth).Reachable s → (machine impl depth).ComesToRest Event.isInternal work
        (fun s => s.rpc.client.CloseStalled ∨ s.Rests reply) s := by
  obtain ⟨reply, hreply⟩ := impl.exists_reply hdepth
  refine ⟨reply, hreply, fun s hs => quiesces.comesToRest (fun s h hrest => ?_) hs⟩
  exact or_iff_not_imp_left.2 (fun hgo => rests_of_atRest h hrest hgo fun req => (hreply req).1)

end Rest

end ReflectionRpc

/-! ### Some encoding of the messages -/

instance countableUInt8 : Countable UInt8 :=
  Function.Injective.countable (f := UInt8.toNat) (fun _ _ h => UInt8.toNat_inj.1 h)

instance countableString : Countable String := by
  have hchar : Countable Char :=
    Function.Injective.countable (f := Char.toNat) (fun _ _ h => Char.toNat_inj.1 h)
  exact Function.Injective.countable (f := String.toList) (fun _ _ h => String.toList_inj.1 h)

deriving instance Countable for ServerReflectionRequest
deriving instance Countable for ServerReflectionResponse

theorem nonempty_serializer {α : Type} [Countable α] (v : α) : Nonempty (Serializer α) := by
  have hnonempty : Nonempty α := ⟨v⟩
  obtain ⟨f, hf⟩ := exists_injective_nat α
  refine ⟨{
    serialize := fun v => List.replicate (f v) 0
    deserialize := fun b => Function.invFun f b.length
    deserialize_serialize := ?_ }⟩
  intro v
  rw [List.length_replicate, Function.leftInverse_invFun hf v]

/-- A client asks for the services, of a server with none of its own. -/
theorem ReflectionRpc.reflection_answers_list_services :
    ∃ (_ : Serializer ServerReflectionRequest) (_ : Serializer ServerReflectionResponse)
      (reply : ServerReflectionRequest → Except RpcError ServerReflectionResponse)
      (s : ReflectionRpc), s.rpc.client.requests.pushed = [.listServices "*"] ∧
      reply (.listServices "*")
        = .ok (.listServicesResponse ["grpc.reflection.v1alpha.ServerReflection"]) ∧
      (machine ⟨[], some diamond⟩ 6).ComesToRest Event.isInternal work
        (fun s => s.rpc.client.CloseStalled ∨ s.Rests reply) s := by
  obtain ⟨hreq⟩ := nonempty_serializer ServerReflectionRequest.notSet
  obtain ⟨hrep⟩ := nonempty_serializer ServerReflectionResponse.notSet
  obtain ⟨reply, hreply, hrests⟩ := reflection_answers ⟨[], some diamond⟩
    (show Fintype.card (Fin 5) < 6 by decide)
  have hrun : (machine ⟨[], some diamond⟩ 6).Reachable _ :=
    Machine.reachable_of_run
      [.rpc (.callerPush (.listServices "*")), .rpc .callerEnd, .rpc .attach] rfl
  exact ⟨hreq, hrep, reply, _, rfl, (Option.some.inj (hreply (.listServices "*")).1).symm,
    hrests _ hrun⟩

end Reflection

end EasyGrpc
