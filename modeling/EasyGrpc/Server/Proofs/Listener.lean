import EasyGrpc.Server.Listener

set_option autoImplicit false

/-! # What a throwing handler does to its listener

A listener is ready as long as no exception has left `exec`: one new object, one request for it. So
it all comes down to what `perform` does with the exception, which is different in every handler
class. -/

namespace EasyGrpc

variable {Req Rep : Type}

namespace MethodListener

variable {η ρ : Type} {H : HandlerType η ρ}

/-! ## The invariant -/

/-- Objects are accepted in the order they were made, and the next one is the pending one. -/
structure Inv (H : HandlerType η ρ) (l : MethodListener η) : Prop where
  accepted_eq : l.accepted = List.range l.accepted.length
  invoked_eq : l.invoked = l.accepted
  ready : l.deleted = false → l.terminated = none →
    l.pendingCall = some (l.accepted.length, H.fresh) ∧ l.requests = [l.accepted.length] ∧
      l.created = l.accepted.length + 1

theorem inv_init : Inv H (machine H).init := ⟨rfl, rfl, fun _ _ => ⟨rfl, rfl, rfl⟩⟩

/-- The listener after `perform` has returned. -/
def taken (H : HandlerType η ρ) (l : MethodListener η) (h : η) : MethodListener η :=
  { l with
    requests := [l.accepted.length + 1]
    accepted := l.accepted ++ [l.accepted.length]
    invoked := l.invoked ++ [l.accepted.length]
    performed := l.performed ++ [(l.accepted.length, h)]
    pendingCall := some (l.accepted.length + 1, H.fresh)
    created := l.accepted.length + 2 }

/-- The listener after `perform` has let `e` through. -/
def broken (l : MethodListener η) (e : Exception) : MethodListener η :=
  { l with
    requests := []
    accepted := l.accepted ++ [l.accepted.length]
    invoked := l.invoked ++ [l.accepted.length]
    terminated := some e }

/-- What accepting a call does to a listener that is ready. -/
theorem step_accept {l : MethodListener η} (h : Inv H l) (hlive : l.deleted = false)
    (hrun : l.terminated = none) (payload : Buffer) (cb : Except Exception ρ) :
    l.step H (.accept 0 payload cb) = some (match H.perform H.fresh payload cb with
      | .ok h => l.taken H h
      | .error e => l.broken e) := by
  obtain ⟨hpending, hrequests, hcreated⟩ := h.ready hlive hrun
  simp only [step, hlive, hrun, Option.isSome_none, Bool.or_self, Bool.false_eq_true, if_false,
    hrequests, List.getElem?_cons_zero, Option.bind_some, exec, hpending, Option.map_some]
  cases hperf : H.perform H.fresh payload cb with
  | error e => simp [broken, hpending, hlive]
  | ok h => simp [taken, inject, hcreated, hlive, hrun]

theorem inv_taken {l : MethodListener η} (h : Inv H l) (hd : η) : Inv H (l.taken H hd) := by
  refine ⟨?_, ?_, ?_⟩
  · simp only [taken, List.length_append, List.length_singleton, List.range_succ]
    rw [← h.accepted_eq]
  · simp only [taken, h.invoked_eq]
  · intro _ _
    simp [taken]

theorem inv_broken {l : MethodListener η} (h : Inv H l) (e : Exception) : Inv H (l.broken e) := by
  refine ⟨?_, ?_, nofun⟩
  · simp only [broken, List.length_append, List.length_singleton, List.range_succ]
    rw [← h.accepted_eq]
  · simp only [broken, h.invoked_eq]

theorem inv_step {l l' : MethodListener η} {e : Event ρ} (h : Inv H l)
    (hstep : l.step H e = some l') : Inv H l' := by
  by_cases hover : (l.deleted || l.terminated.isSome) = true
  · cases e with
    | accept i payload cb => simp [step, hover] at hstep
    | shutdown i => simp [step, hover] at hstep
  · obtain ⟨hlive, hrun⟩ : l.deleted = false ∧ l.terminated = none := by simpa using hover
    obtain ⟨-, hrequests, -⟩ := h.ready hlive hrun
    cases e with
    | accept i payload cb =>
        obtain rfl : i = 0 := by
          by_contra hi
          obtain ⟨j, rfl⟩ := Nat.exists_eq_succ_of_ne_zero hi
          simp [step, hover, hrequests] at hstep
        rw [step_accept h hlive hrun] at hstep
        cases hperf : H.perform H.fresh payload cb with
        | ok hd =>
            rw [hperf] at hstep
            obtain rfl := Option.some.inj hstep
            exact inv_taken h hd
        | error e =>
            rw [hperf] at hstep
            obtain rfl := Option.some.inj hstep
            exact inv_broken h e
    | shutdown i =>
        simp only [step, hover] at hstep
        obtain ⟨id, -, rfl⟩ := Option.map_eq_some_iff.1 hstep
        exact ⟨h.accepted_eq, h.invoked_eq, nofun⟩

theorem inv_of_reachable {l : MethodListener η} (h : (machine H).Reachable l) : Inv H l :=
  h.invariant inv_init (fun hstep hl => inv_step hl hstep)

end MethodListener

/-! ## `perform` in one go

The machines of the streaming handlers take `perform` apart, since other threads run in between.
Nobody else running, its parts add up to `perform`. -/

section Perform

variable [Serializer Req] [Serializer Rep]

theorem UploadServer.run_perform (rep : Except Exception Rep) :
    ∃ c, (UploadServer.machine Req Rep).run (UploadServer.machine Req Rep).init
        [.reply rep, .startReading, .attach] = some c ∧
      ClientStreamingCallHandler.perform { readerProm := {} } (.ok (some rep))
        = .ok c.handler.obj :=
  ⟨_, rfl, rfl⟩

theorem StreamingServer.run_perform_throws (payload : Buffer) (e : Exception) :
    ∃ c, (StreamingServer.machine Req Rep).run (StreamingServer.machine Req Rep).init
        [.perform payload, .throws e] = some c ∧
      ServerStreamingCallHandler.perform {} (.error e : Except Exception (Source Rep))
        = c.handler.obj :=
  ⟨_, rfl, rfl⟩

theorem StreamingServer.run_perform (payload : Buffer) {replies : Source Rep}
    (hfree : replies.attached = false) :
    ∃ c, (StreamingServer.machine Req Rep).run { handler := ⟨{}, false⟩, replies }
        [.perform payload, .attach] = some c ∧
      ServerStreamingCallHandler.perform {} (.ok replies) = c.handler.obj := by
  obtain ⟨attached, pushed, terminal⟩ := replies
  subst hfree
  exact ⟨_, rfl, rfl⟩

omit [Serializer Req] in
open BidirStreamingCallHandler BidirServerBatch in
/-- The reply stream does not start the handshake. -/
theorem BidirServer.starts_drain (replies : Source Rep) (h : BidirStreamingCallHandler Req) :
    (replies.drain push onRepliesEnd h).call.starts isHandshake = h.call.starts isHandshake := by
  refine Source.drain_induction (P := fun _ (h' : BidirStreamingCallHandler Req) =>
    h'.call.starts isHandshake = h.call.starts isHandshake) rfl ?_ ?_ replies
  · intro _ h' v _ _ ih
    unfold push flush
    split
    · exact ih
    · split
      · exact ih
      · exact (Call.starts_startBatch _ _ _).trans ih
  · intro _ h' t _ _ ih
    cases t with
    | complete =>
        simp only [onRepliesEnd, finish]
        split
        · exact (Call.starts_startBatch _ _ _).trans ih
        · exact ih
    | failed e => exact (Call.starts_startBatch _ _ _).trans ih

theorem BidirServer.run_perform {replies : Source Rep} (hfree : replies.attached = false) :
    ∃ c, (BidirServer.machine Req Rep).run { handler := ⟨.create, false⟩, replies }
        [.attach, .startHandshake] = some c ∧
      BidirStreamingCallHandler.perform { readerProm := {} } (.ok replies) = .ok c.handler.obj := by
  have hnone := BidirServer.starts_drain replies (.create : BidirStreamingCallHandler Req)
  obtain ⟨attached, pushed, terminal⟩ := replies
  subst hfree
  refine ⟨⟨⟨_, false⟩, ⟨true, pushed, terminal⟩⟩, ?_, rfl⟩
  have hzero : (Source.drain ⟨true, pushed, terminal⟩ BidirStreamingCallHandler.push
      BidirStreamingCallHandler.onRepliesEnd (.create : BidirStreamingCallHandler Req)).call.starts
        BidirServerBatch.isHandshake = 0 := hnone
  simp [Machine.run, BidirServer.machine, BidirServer.step, Source.attach, Live.update, hzero]
  rfl

end Perform

/-! ## What `perform` does with an exception -/

namespace RpcKind

/-- The kinds of call whose `perform` answers with the details of the exception `e`: the unary ones,
    and the server-streaming one, which always answers `GRPC_STATUS_OK` with no text, if that is
    what the details are. -/
def contains : RpcKind → Exception → Bool
  | .unarySync, _ | .unaryAsync, _ => true
  | .serverStreaming, e => getErrorDetails e = (.ok, "")
  | .clientStreaming, _ | .bidirStreaming, _ => false

theorem contains_iff (Req Rep : Type) [Serializer Req] [Serializer Rep] (k : RpcKind)
    (payload : Buffer) (e : Exception) :
    (∃ h, (k.handlerType Req Rep).perform (k.handlerType Req Rep).fresh payload (.error e) = .ok h ∧
      k.statuses h = [getErrorDetails e]) ↔ k.contains e = true := by
  cases k with
  | unarySync => exact iff_of_true ⟨_, rfl, rfl⟩ rfl
  | unaryAsync => exact iff_of_true ⟨_, rfl, rfl⟩ rfl
  | clientStreaming => exact iff_of_false (by rintro ⟨h, hperf, -⟩; cases hperf) nofun
  | bidirStreaming => exact iff_of_false (by rintro ⟨h, hperf, -⟩; cases hperf) nofun
  | serverStreaming =>
      constructor
      · rintro ⟨h, hperf, hstatuses⟩
        obtain rfl := Except.ok.inj hperf
        have hdetails : [(StatusCode.ok, "")] = [getErrorDetails e] := hstatuses
        simp only [contains, decide_eq_true_eq]
        exact (List.cons.inj hdetails).1.symm
      · intro hcontains
        have hdetails : getErrorDetails e = (.ok, "") := by simpa [contains] using hcontains
        exact ⟨_, rfl, by rw [hdetails]; rfl⟩

end RpcKind

/-! ## Throwing handlers -/

section Throwing

open MethodListener

variable [Serializer Req]

/-- The listener `l'` after a call accepted by `l` whose handler threw `e`. -/
structure Answered (Rep : Type) [Serializer Rep] (k : RpcKind) (e : Exception)
    (l l' : MethodListener (k.Handler Req)) : Prop where
  /-- No exception has left `perform`. -/
  contained : l'.terminated = none
  /-- The call was answered with the details of the exception. -/
  answered : ∃ id h, l'.accepted = l.accepted ++ [id] ∧ l'.performed = l.performed ++ [(id, h)] ∧
    k.statuses h = [getErrorDetails e]
  /-- The listener is ready again, with a new object and one request for it. -/
  ready : ∃ id, l'.pendingCall = some (id, (k.handlerType Req Rep).fresh) ∧ id ∉ l'.accepted ∧
    l'.requests = [id]

/-- A handler of kind `k` that throws `e` fails its call and nothing else, whatever calls were
    accepted before; and over all of them each accepted object gets `perform` once. -/
structure FailsAlone (Req Rep : Type) [Serializer Req] [Serializer Rep] (k : RpcKind)
    (e : Exception) : Prop where
  fails : ∀ l, (machine (k.handlerType Req Rep)).Reachable l → l.deleted = false →
    l.terminated = none → ∀ payload, ∃ l',
      (machine (k.handlerType Req Rep)).step l (.accept 0 payload (.error e)) = some l' ∧
      Answered Rep k e l l'
  performed_once : ∀ l, (machine (k.handlerType Req Rep)).Reachable l →
    l.invoked = l.accepted ∧ l.accepted.Nodup

variable [Serializer Rep]

omit [Serializer Req] [Serializer Rep] in
/-- Each accepted object gets `perform` once. -/
theorem performed_once {η ρ : Type} {H : HandlerType η ρ} {l : MethodListener η}
    (h : (machine H).Reachable l) : l.invoked = l.accepted ∧ l.accepted.Nodup := by
  have hinv := inv_of_reachable h
  refine ⟨hinv.invoked_eq, ?_⟩
  rw [hinv.accepted_eq]
  exact List.nodup_range

/-- A contained exception leaves the listener ready. -/
theorem answered_taken {k : RpcKind} {e : Exception} {l : MethodListener (k.Handler Req)}
    (hinv : Inv (k.handlerType Req Rep) l) (hrun : l.terminated = none) {h : k.Handler Req}
    (hstatuses : k.statuses h = [getErrorDetails e]) :
    Answered Rep k e l (l.taken (k.handlerType Req Rep) h) := by
  refine ⟨hrun, ⟨_, h, rfl, rfl, hstatuses⟩, _, rfl, ?_, rfl⟩
  intro hmem
  have haccepted := (inv_taken hinv h).accepted_eq
  rw [haccepted, List.mem_range] at hmem
  simp [taken] at hmem

/-- The very first call already needs an exception that is contained. -/
theorem FailsAlone.contains {k : RpcKind} {e : Exception} (hfails : FailsAlone Req Rep k e) :
    k.contains e = true := by
  let H := k.handlerType Req Rep
  obtain ⟨l', hstep, hanswered⟩ := hfails.fails _ .init rfl rfl []
  have hl' := (step_accept (H := H) inv_init rfl rfl [] (.error e)).symm.trans hstep
  cases hperf : H.perform H.fresh [] (.error e) with
  | error x =>
      rw [hperf] at hl'
      obtain rfl := Option.some.inj hl'
      cases hanswered.contained
  | ok h =>
      rw [hperf] at hl'
      obtain rfl := Option.some.inj hl'
      obtain ⟨id, h', -, hperformed, hstatuses⟩ := hanswered.answered
      obtain rfl : h = h' := (Prod.mk.inj (List.cons.inj hperformed).1).2
      exact (k.contains_iff Req Rep [] e).1 ⟨h, hperf, hstatuses⟩

/-- **A throwing handler fails its call and nothing else**, exactly for the kinds of call and the
    exceptions of `RpcKind.contains`. -/
theorem throwing_handler_fails_alone_iff (k : RpcKind) (e : Exception) :
    FailsAlone Req Rep k e ↔ k.contains e = true := by
  refine ⟨FailsAlone.contains, ?_⟩
  intro hcontains
  refine ⟨?_, fun l hl => performed_once hl⟩
  intro l hl hlive hrun payload
  obtain ⟨h, hperf, hstatuses⟩ := (k.contains_iff Req Rep payload e).2 hcontains
  have hinv := inv_of_reachable hl
  refine ⟨l.taken (k.handlerType Req Rep) h, ?_, answered_taken hinv hrun hstatuses⟩
  exact (step_accept hinv hlive hrun payload (.error e)).trans (by rw [hperf])

/-- A client-streaming or bidirectional handler that throws `error::unimplemented("not done")` ends
    the process, and a server-streaming one is answered with `GRPC_STATUS_OK`. -/
theorem throw_not_contained :
    let e : Exception := .rpcError ⟨.unimplemented, .ofText "not done"⟩
    (∀ k ∈ [RpcKind.clientStreaming, .bidirStreaming], ∃ l,
      (machine (k.handlerType Buffer Buffer)).step (machine (k.handlerType Buffer Buffer)).init
        (.accept 0 [] (.error e)) = some l ∧ l.terminated = some e) ∧
    (∃ l h, (machine (RpcKind.serverStreaming.handlerType Buffer Buffer)).step
        (machine (RpcKind.serverStreaming.handlerType Buffer Buffer)).init
        (.accept 0 [] (.error e)) = some l ∧ l.performed = [(0, h)] ∧
      RpcKind.serverStreaming.statuses h = [(.ok, "")]) ∧
    ∀ k ∈ [RpcKind.clientStreaming, .bidirStreaming, .serverStreaming],
      ¬ FailsAlone Buffer Buffer k e := by
  refine ⟨?_, ⟨_, _, rfl, rfl, rfl⟩, ?_⟩
  · intro k hk
    simp only [List.mem_cons, List.not_mem_nil, or_false] at hk
    rcases hk with rfl | rfl
    · exact ⟨_, rfl, rfl⟩
    · exact ⟨_, rfl, rfl⟩
  · intro k hk hfails
    have hcontains := hfails.contains
    simp only [List.mem_cons, List.not_mem_nil, or_false] at hk
    rcases hk with rfl | rfl | rfl <;>
      simp [RpcKind.contains, getErrorDetails] at hcontains

end Throwing

end EasyGrpc
