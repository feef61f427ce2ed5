import EasyGrpc.Client.ServerStreaming

set_option autoImplicit false

/-! # Invariants of the client of a server-streaming call

Exactly one batch is outstanding until the session is deleted, and it is the final one exactly if
`finishing_` is set: so `exec`, which ignores the flags, always knows what has completed. -/

namespace EasyGrpc

variable {Req Rep : Type}

namespace StreamingCallSession

open StreamingClientBatch

/-- The session once its one outstanding batch has completed. -/
def done (s : StreamingCallSession Rep) : StreamingCallSession Rep :=
  { s with call := s.call.completeAt 0 }

variable [Serializer Rep]

/-- The session after the final status. -/
def afterStatus (s : StreamingCallSession Rep) (r : Received) : StreamingCallSession Rep :=
  { s.done with
    status := r.status, statusDetails := r.statusDetails
    replyStreamPromise := s.replyStreamPromise.finish (finalEnd r.status r.statusDetails) }

/-- The session after a reply. -/
def afterReply (s : StreamingCallSession Rep) (data : Buffer) : StreamingCallSession Rep :=
  { { s.done with recvBuffer := none }.startBatch .read with
    replyStreamPromise := s.replyStreamPromise.push (deserialize data) }

/-- The session after the server's end. -/
def afterEnd (s : StreamingCallSession Rep) : StreamingCallSession Rep :=
  { s.done with recvBuffer := none, finishing := true }.startBatch .final

/-- What a live session becomes when its outstanding batch completes with `r`. -/
def handled (s : StreamingCallSession Rep) (r : Received) : Live (StreamingCallSession Rep) :=
  if s.finishing then ⟨s.afterStatus r, true⟩
  else match r.message with
    | some data => ⟨s.afterReply data, false⟩
    | none => ⟨s.afterEnd, false⟩

theorem handled_status {s : StreamingCallSession Rep} (hfin : s.finishing = true) (r : Received) :
    s.handled r = ⟨s.afterStatus r, true⟩ := by
  simp [handled, hfin]

theorem handled_reply {s : StreamingCallSession Rep} {r : Received} {data : Buffer}
    (hfin : s.finishing = false) (hmsg : r.message = some data) :
    s.handled r = ⟨s.afterReply data, false⟩ := by
  simp [handled, hfin, hmsg]

theorem handled_end {s : StreamingCallSession Rep} {r : Received} (hfin : s.finishing = false)
    (hmsg : r.message = none) : s.handled r = ⟨s.afterEnd, false⟩ := by
  simp [handled, hfin, hmsg]

/-- `exec` handles the batch that is outstanding, as long as `finishing_` says which it is. -/
theorem workerMain_handled {s : StreamingCallSession Rep} {b : StreamingClientBatch}
    (hout : s.call.outstanding = [b]) (hfinal : b.isFinal = s.finishing) (r : Received) :
    (⟨s, false⟩ : Live (StreamingCallSession Rep)).workerMain 0 r = some (s.handled r) := by
  have hb : (CompletionCallback.call s).outstanding[0]? = some b := by
    show s.call.outstanding[0]? = some b
    rw [hout]
    rfl
  unfold Live.workerMain
  simp only [hb]
  cases b with
  | first m =>
      have hfin : s.finishing = false := hfinal.symm
      rcases r with ⟨_ | data, _, _, _, _⟩ <;>
        simp [CompletionCallback.exec, CompletionCallback.receive, CompletionCallback.setCall,
          CompletionCallback.call, exec, receive, handled, afterReply, afterEnd, done, startBatch,
          hfin]
  | read =>
      have hfin : s.finishing = false := hfinal.symm
      rcases r with ⟨_ | data, _, _, _, _⟩ <;>
        simp [CompletionCallback.exec, CompletionCallback.receive, CompletionCallback.setCall,
          CompletionCallback.call, exec, receive, handled, afterReply, afterEnd, done, startBatch,
          hfin]
  | final =>
      have hfin : s.finishing = true := hfinal.symm
      simp [CompletionCallback.exec, CompletionCallback.receive, CompletionCallback.setCall,
        CompletionCallback.call, exec, receive, handled, afterStatus, done, hfin]

end StreamingCallSession

namespace StreamingClient

open StreamingCallSession StreamingClientBatch

variable [Serializer Req] [Serializer Rep]

/-! ## The invariant -/

/-- The batches of a session: the one outstanding, and what was sent. -/
structure Inv (req : Req) (c : StreamingClient Rep) : Prop where
  one : c.session.deleted = false → ∃ b, c.session.obj.call.outstanding = [b] ∧
    b.isFinal = c.session.obj.finishing
  none : c.session.deleted = true → c.session.obj.call.outstanding = [] ∧
    c.session.obj.finishing = true
  sent : c.session.obj.call.sent = [serialize req]

omit [Serializer Rep] in
/-- `get_future` touches no batch. -/
theorem Inv.future {req : Req} {c : StreamingClient Rep} (h : Inv req c) {late : Bool} :
    Inv req { c with
      returned := true
      lateFuture := late
      session := c.session.update
        (fun s => { s with replyStreamPromise := s.replyStreamPromise.getFuture }) } := by
  cases hdel : c.session.deleted with
  | true =>
      rw [Live.update_of_deleted hdel]
      exact ⟨h.one, h.none, h.sent⟩
  | false =>
      rw [Live.update_of_live hdel]
      exact ⟨h.one, h.none, h.sent⟩

/-- **What a step can do.** -/
theorem step_cases {req : Req} {c c' : StreamingClient Rep} {e : Event} (h : Inv req c)
    (hstep : c.step e = some c') :
    (e = .getFuture ∧ c.returned = false ∧ c' = { c with
      returned := true
      lateFuture := c.session.deleted
      session := c.session.update
        (fun s => { s with replyStreamPromise := s.replyStreamPromise.getFuture }) }) ∨
    (∃ r, e = .complete 0 r ∧ c.session.deleted = false ∧
      c' = { c with session := c.session.obj.handled r }) := by
  cases e with
  | complete i r =>
      obtain ⟨session, hwork, rfl⟩ := Option.map_eq_some_iff.1 hstep
      obtain ⟨b, hb, -⟩ := Live.workerMain_eq_some hwork
      have hb' : c.session.obj.call.outstanding[i]? = some b := hb
      cases hdel : c.session.deleted with
      | true =>
          rw [(h.none hdel).1] at hb'
          cases hb'
      | false =>
          obtain ⟨b', hout, hfinal⟩ := h.one hdel
          obtain rfl : i = 0 := by
            rw [hout] at hb'
            obtain ⟨hlt, -⟩ := List.getElem?_eq_some_iff.1 hb'
            simpa using hlt
          have hsess : c.session = ⟨c.session.obj, false⟩ := by rw [← hdel]
          rw [hsess, workerMain_handled hout hfinal] at hwork
          obtain rfl := Option.some.inj hwork
          exact Or.inr ⟨r, rfl, rfl, rfl⟩
  | getFuture =>
      simp only [step] at hstep
      split at hstep
      · cases hstep
      · next hret =>
          exact Or.inl ⟨rfl, by simpa using hret, (Option.some.inj hstep).symm⟩

theorem inv_handled {req : Req} {c : StreamingClient Rep} (h : Inv req c)
    (hlive : c.session.deleted = false) (r : Received) :
    Inv req { c with session := c.session.obj.handled r } := by
  obtain ⟨b, hout, hfinal⟩ := h.one hlive
  have hdone : (c.session.obj.call.completeAt 0).outstanding = [] := by
    simp [Call.completeAt, hout]
  cases hfin : c.session.obj.finishing with
  | true =>
      rw [handled_status hfin]
      refine ⟨?_, ?_, h.sent⟩
      · intro hno
        cases hno
      · intro _
        exact ⟨hdone, hfin⟩
  | false =>
      cases hmsg : r.message with
      | some data =>
          rw [handled_reply hfin hmsg]
          refine ⟨?_, ?_, ?_⟩
          · intro _
            exact ⟨.read, by simp [afterReply, startBatch, Call.startBatch, done, hdone], hfin.symm⟩
          · intro hno
            cases hno
          · simpa [afterReply, startBatch, done, Call.sent_startBatch, BatchSpec.ops,
              List.filterMap_cons, Op.message?] using h.sent
      | none =>
          rw [handled_end hfin hmsg]
          refine ⟨?_, ?_, ?_⟩
          · intro _
            exact ⟨.final, by simp [afterEnd, startBatch, Call.startBatch, done, hdone], rfl⟩
          · intro hno
            cases hno
          · simpa [afterEnd, startBatch, done, Call.sent_startBatch, BatchSpec.ops,
              List.filterMap_cons, Op.message?] using h.sent

theorem inv_step {req : Req} {c c' : StreamingClient Rep} {e : Event}
    (hstep : (machine Rep req).step c e = some c') (h : Inv req c) : Inv req c' := by
  rcases step_cases h hstep with ⟨-, -, rfl⟩ | ⟨r, -, hlive, rfl⟩
  · exact h.future
  · exact inv_handled h hlive r

theorem inv_init (req : Req) : Inv req (machine Rep req).init := by
  refine ⟨fun _ => ⟨.first (serialize req), rfl, rfl⟩, ?_, rfl⟩
  intro hno
  cases hno

/-- The invariant holds in every reachable state, whatever the completions bring. -/
theorem inv_of_reachable {req : Req} {c : StreamingClient Rep}
    (h : (machine Rep req).Reachable c) : Inv req c :=
  h.invariant (inv_init req) inv_step

end StreamingClient

end EasyGrpc
