import EasyGrpc.Client.Unary
import EasyGrpc.Client.Proofs.ServerStreaming
import EasyGrpc.Client.Proofs.ClientStreaming

set_option autoImplicit false

/-! # The sessions with one batch at a time settle once and die clean

`Unary_call_completion`, `Streaming_call_session` and `Client_streaming_call_session` reach their
last batch by different routes, and share what follows: its completion, and no other, makes `exec`
return true, settles the reply, and leaves nothing outstanding. -/

namespace EasyGrpc

variable {Req Rep : Type}

/-- **Settling once.** `session` is the object of a state of `M`, and `settled` counts how often the
    caller's promise or reply stream was terminated. -/
structure SettlesOnce {τ ε σ κ : Type} [BatchSpec κ] [CompletionCallback σ κ] (M : Machine τ ε)
    (session : τ → Live σ) (settled : σ → ℕ) : Prop where
  /-- At most one batch is outstanding. -/
  one_batch : ∀ {c}, M.Reachable c →
    (CompletionCallback.call (session c).obj).outstanding.length ≤ 1
  /-- `exec` runs only on a session that exists, and returns true exactly for the batch with the
      status; no other batch is outstanding. -/
  exec_true : ∀ {c i r o}, M.Reachable c → (session c).workerMain i r = some o →
    (session c).deleted = false ∧
    ∃ b, (CompletionCallback.call (session c).obj).outstanding = [b] ∧
      (o.deleted = true ↔ Op.recvStatusOnClient ∈ BatchSpec.ops b)
  /-- The reply is not settled before that, -/
  not_before : ∀ {c}, M.Reachable c → (session c).deleted = false → settled (session c).obj = 0
  /-- it is settled once by it, which leaves no batch outstanding, -/
  settled_once : ∀ {c}, M.Reachable c → (session c).deleted = true →
    settled (session c).obj = 1 ∧ (CompletionCallback.call (session c).obj).outstanding = []
  /-- and nothing touches the session afterwards. -/
  untouched : ∀ {c c' e}, M.Reachable c → M.step c e = some c' → (session c).deleted = true →
    session c' = session c

/-! ## The unary call -/

namespace UnaryClient

variable [Serializer Req] [Serializer Rep]

/-- The completion while its batch is outstanding. -/
def waiting (Rep : Type) (req : Req) : Live (UnaryCallCompletion Rep) where
  obj := { call := ({} : Call UnaryClientBatch).startBatch (.call (serialize req)) }

/-- The completion once its batch has brought `r`. -/
def resolved (Rep : Type) [Serializer Rep] (req : Req) (r : Received) :
    Live (UnaryCallCompletion Rep) where
  obj :=
    { call := (waiting Rep req).obj.call.completeAt 0
      rep := [UploadClient.resolution Rep r]
      recvBuffer := r.message
      status := r.status
      statusDetails := r.statusDetails }
  deleted := true

/-- **What a step can do**: the one batch completes. -/
theorem complete_cases {req : Req} {i : ℕ} {r : Received} {o : Live (UnaryCallCompletion Rep)}
    (h : (waiting Rep req).workerMain i r = some o) : i = 0 ∧ o = resolved Rep req r := by
  obtain ⟨b, hb, hcase⟩ := Live.workerMain_eq_some h
  obtain rfl : i = 0 := by
    obtain ⟨hlt, -⟩ := List.getElem?_eq_some_iff.1 hb
    simpa [CompletionCallback.call, waiting, Call.startBatch] using hlt
  refine ⟨rfl, ?_⟩
  rcases hcase with ⟨hdel, -⟩ | ⟨-, rfl⟩
  · cases hdel
  · rfl

theorem workerMain_resolved (req : Req) (r q : Received) (i : ℕ) :
    (resolved Rep req r).workerMain i q = none := rfl

/-- The states of a unary call. -/
theorem cases_of_reachable {req : Req} {c : Live (UnaryCallCompletion Rep)}
    (h : (machine Rep req).Reachable c) :
    c = waiting Rep req ∨ ∃ r, c = resolved Rep req r := by
  refine h.invariant (P := fun c => c = waiting Rep req ∨ ∃ r, c = resolved Rep req r)
    (Or.inl rfl) ?_
  intro c c' e hstep hc
  obtain ⟨i, r⟩ := e
  rcases hc with rfl | ⟨q, rfl⟩
  · obtain ⟨-, rfl⟩ := complete_cases hstep
    exact Or.inr ⟨r, rfl⟩
  · cases (workerMain_resolved req q r i).symm.trans hstep

theorem settlesOnce (req : Req) :
    SettlesOnce (machine Rep req) id (fun s => s.rep.length) where
  one_batch h := by
    rcases cases_of_reachable h with rfl | ⟨r, rfl⟩
    · exact Nat.le_refl 1
    · exact Nat.zero_le 1
  exec_true h hwork := by
    rcases cases_of_reachable h with rfl | ⟨r, rfl⟩
    · obtain ⟨-, rfl⟩ := complete_cases hwork
      refine ⟨rfl, .call (serialize req), rfl, ?_⟩
      simp [resolved, BatchSpec.ops]
    · cases (workerMain_resolved req r _ _).symm.trans hwork
  not_before h hlive := by
    rcases cases_of_reachable h with rfl | ⟨r, rfl⟩
    · rfl
    · cases hlive
  settled_once h hdel := by
    rcases cases_of_reachable h with rfl | ⟨r, rfl⟩
    · cases hdel
    · exact ⟨rfl, rfl⟩
  untouched {c c' e} h hstep hdel := by
    obtain ⟨i, q⟩ := e
    rcases cases_of_reachable h with rfl | ⟨r, rfl⟩
    · cases hdel
    · cases (workerMain_resolved req r q i).symm.trans hstep

end UnaryClient

/-! ## The server-streaming call -/

namespace StreamingClient

open StreamingCallSession StreamingClientBatch

variable [Serializer Req] [Serializer Rep]

/-- The session of a call whose future was taken in time. -/
structure Settling (req : Req) (c : StreamingClient Rep) : Prop where
  inv : Inv req c
  returned : c.returned = true
  reply : c.session.obj.replyStreamPromise.Sound
  ends : c.session.obj.replyStreamPromise.ends.length = c.session.deleted.toNat

theorem settling_init (req : Req) : Settling req (startedMachine Rep req).init where
  inv := ⟨fun _ => ⟨.first (serialize req), rfl, rfl⟩, nofun, rfl⟩
  returned := rfl
  reply := .fresh
  ends := rfl

theorem settling_handled {req : Req} {c : StreamingClient Rep} (h : Settling req c)
    (hlive : c.session.deleted = false) (r : Received) :
    Settling req { c with session := c.session.obj.handled r } := by
  have hends : c.session.obj.replyStreamPromise.ends = [] := by
    have hlen := h.ends
    rw [hlive] at hlen
    exact List.length_eq_zero_iff.1 hlen
  have hstorage := h.reply.storage_iff.2 hends
  cases hfin : c.session.obj.finishing with
  | true =>
      refine ⟨inv_handled h.inv hlive r, h.returned, ?_, ?_⟩
      · rw [handled_status hfin]
        exact h.reply.finish hstorage _
      · rw [handled_status hfin]
        simp [afterStatus, hstorage, hends]
  | false =>
      cases hmsg : r.message with
      | some data =>
          refine ⟨inv_handled h.inv hlive r, h.returned, ?_, ?_⟩
          · rw [handled_reply hfin hmsg]
            exact h.reply.push hstorage _
          · rw [handled_reply hfin hmsg]
            simp [afterReply, hends]
      | none =>
          refine ⟨inv_handled h.inv hlive r, h.returned, ?_, ?_⟩
          · rw [handled_end hfin hmsg]
            exact h.reply
          · rw [handled_end hfin hmsg]
            exact h.ends.trans (by rw [hlive])

/-- Once the caller has its future only completions happen. -/
theorem started_cases {req : Req} {c c' : StreamingClient Rep} {e : Event} (h : Settling req c)
    (hstep : c.step e = some c') :
    ∃ r, e = .complete 0 r ∧ c.session.deleted = false ∧
      c' = { c with session := c.session.obj.handled r } := by
  rcases step_cases h.inv hstep with ⟨-, hret, -⟩ | hdone
  · rw [h.returned] at hret
    cases hret
  · exact hdone

theorem settling_of_reachable {req : Req} {c : StreamingClient Rep}
    (h : (startedMachine Rep req).Reachable c) : Settling req c := by
  refine h.invariant (settling_init req) ?_
  intro c c' e hstep hc
  obtain ⟨r, -, hlive, rfl⟩ := started_cases hc hstep
  exact settling_handled hc hlive r

theorem settlesOnce (req : Req) :
    SettlesOnce (startedMachine Rep req) session
      (fun s => s.replyStreamPromise.terminations.length) where
  one_batch {c} h := by
    have hinv := (settling_of_reachable h).inv
    cases hdel : c.session.deleted with
    | true => exact (congrArg List.length (hinv.none hdel).1).trans_le (Nat.zero_le 1)
    | false =>
        obtain ⟨b, hout, -⟩ := hinv.one hdel
        exact (congrArg List.length hout).le
  exec_true {c i r o} h hwork := by
    have hc := settling_of_reachable h
    have hstep : c.step (.complete i r) = some { c with session := o } := by
      simp only [step, hwork, Option.map_some]
    obtain ⟨q, he, hlive, hnew⟩ := started_cases hc hstep
    obtain ⟨b, hout, hfinal⟩ := hc.inv.one hlive
    obtain rfl : o = c.session.obj.handled q := congrArg StreamingClient.session hnew
    refine ⟨hlive, b, hout, ?_⟩
    -- `finishing_` says whether the batch is the final one, the only one with the status.
    cases hfin : c.session.obj.finishing with
    | true =>
        rw [hfin] at hfinal
        rw [handled_status hfin]
        cases b <;> simp_all [isFinal, BatchSpec.ops]
    | false =>
        rw [hfin] at hfinal
        cases hmsg : q.message with
        | some data =>
            rw [handled_reply hfin hmsg]
            cases b <;> simp_all [isFinal, BatchSpec.ops]
        | none =>
            rw [handled_end hfin hmsg]
            cases b <;> simp_all [isFinal, BatchSpec.ops]
  not_before {c} h hlive := by
    have hc := settling_of_reachable h
    rw [hc.reply.terminations_eq, hc.ends, hlive]
    rfl
  settled_once {c} h hdel := by
    have hc := settling_of_reachable h
    refine ⟨?_, (hc.inv.none hdel).1⟩
    rw [hc.reply.terminations_eq, hc.ends, hdel]
    rfl
  untouched {c c' e} h hstep hdel := by
    obtain ⟨r, -, hlive, -⟩ := started_cases (settling_of_reachable h) hstep
    rw [hlive] at hdel
    cases hdel

end StreamingClient

/-! ## The client-streaming call -/

namespace UploadClient

open ClientStreamingCallSession UploadClientBatch

variable [Serializer Req] [Serializer Rep]

theorem started_of_reachable {c : UploadClient Req Rep}
    (h : (startedMachine Req Rep).Reachable c) : c.Inv ∧ c.construction = .returned := by
  refine h.invariant (P := fun c : UploadClient Req Rep => c.Inv ∧ c.construction = .returned)
    ⟨inv_flagSet rfl rfl rfl, rfl⟩ ?_
  intro c c' e hstep hc
  have hset : c.construction ≠ .batchStarted := by rw [hc.2]; decide
  exact ⟨inv_step hstep hset hc.1, (construction_step hstep hset).2 hc.2⟩

theorem settlesOnce :
    SettlesOnce (startedMachine Req Rep) session (fun s => s.rep.length) where
  one_batch h := (started_of_reachable h).1.one_outstanding
  exec_true {c i r o} h hwork := by
    have hinv := (started_of_reachable h).1
    obtain ⟨b, hb, hlive, rfl⟩ := complete_cases hinv hwork
    refine ⟨hlive, b, ?_, ?_⟩
    · show c.session.obj.call.outstanding = [b]
      have hle := hinv.one_outstanding
      cases hout : c.session.obj.call.outstanding with
      | nil =>
          rw [hout] at hb
          cases hb
      | cons b' rest =>
          rw [hout] at hb hle
          obtain rfl : rest = [] := by simpa using hle
          obtain ⟨hlt, rfl⟩ := List.getElem?_eq_some_iff.1 hb
          simp
    · cases b <;> simp [handled, BatchSpec.ops]
  not_before h hlive := by
    have hrep := ((started_of_reachable h).1.counts.last_live hlive).2
    rw [hrep]
    rfl
  settled_once h hdel := by
    obtain ⟨hquiet, -, hone⟩ := (started_of_reachable h).1.counts.last_deleted hdel
    exact ⟨hone, List.isEmpty_iff.1 hquiet⟩
  untouched {c c' e} h hstep hdel := by
    obtain ⟨hinv, hret⟩ := started_of_reachable h
    have hopen : c.requests.terminal ≠ none := by
      intro hopen
      rw [hinv.live_of_open hopen] at hdel
      cases hdel
    cases moves_of_step hstep with
    | setFlag hfirst => simp [hret] at hfirst
    | listen hset => simp [hret] at hset
    | leave hlistening => simp [hret] at hlistening
    | push _ hnone => exact absurd hnone hopen
    | finish _ hnone => exact absurd hnone hopen
    | complete hwork =>
        obtain ⟨b, -, hlive, -⟩ := complete_cases hinv hwork
        rw [hlive] at hdel
        cases hdel

end UploadClient

/-! ## All three -/

variable [Serializer Req] [Serializer Rep]

end EasyGrpc
