import EasyGrpc.Client.BidirCallbacks
import EasyGrpc.Server.BidirCallbacks

set_option autoImplicit false

/-! # Callbacks that use the other direction of a bidirectional call

Both classes hand messages to the user's callbacks from within `exec`. The handler has unlocked
`mtx_` by then, so a callback may do what it likes with the reply stream. The session delivers the
end of the replies before it locks `mtx_`, but a reply while it holds it: a callback that uses the
open request stream then locks `mtx_` a second time on the same thread. -/

namespace EasyGrpc

variable {Req Rep : Type} [Serializer Req] [Serializer Rep]

/-! ## The session -/

namespace BidirCaller

open BidirStreamingCallSession BidirClientBatch

/-- A reply is delivered to a callback that uses the request stream, which is still open. -/
def answersInline (c : BidirCaller Req Rep) : Event Req → Bool
  | .complete i r reaction => !c.client.session.deleted &&
      c.client.session.obj.call.outstanding[i]? == some .read && r.message.isSome && c.listening &&
      c.client.requests.terminal.isNone && !reaction.isEmpty
  | _ => false

omit [Serializer Rep] in
/-- An operation on the open request stream locks `mtx_`. -/
theorem act_of_open {g : Guarded (BidirClient Req Rep)} (hopen : g.val.requests.terminal = none)
    (op : StreamOp Req) : ∃ f, act g op = g.withLock f := by
  cases op with
  | push req =>
      simp only [act, Source.push_eq_some.2 ⟨hopen, rfl⟩]
      exact ⟨_, rfl⟩
  | finish t =>
      simp only [act, Source.finish_eq_some.2 ⟨hopen, rfl⟩]
      exact ⟨_, rfl⟩

omit [Serializer Rep] in
/-- An operation on a request stream that is over does nothing. -/
theorem act_of_over {g : Guarded (BidirClient Req Rep)}
    (hover : g.val.requests.terminal.isSome = true) (op : StreamOp Req) : act g op = some g := by
  cases op with
  | push req => simp [act, Source.push, hover]
  | finish t => simp [act, Source.finish, hover]

omit [Serializer Rep] in
theorem act_of_free {g : Guarded (BidirClient Req Rep)} (hfree : g.held = false)
    (op : StreamOp Req) : ∃ g', act g op = some g' ∧ g'.held = false := by
  cases hterm : g.val.requests.terminal with
  | none =>
      obtain ⟨f, hact⟩ := act_of_open hterm op
      exact ⟨_, hact.trans (Guarded.withLock_of_free hfree f), hfree⟩
  | some t => exact ⟨g, act_of_over (by simp [hterm]) op, hfree⟩

omit [Serializer Rep] in
/-- A thread that holds `mtx_` gets stuck on the first operation on the open request stream. -/
theorem foldlM_of_held {g : Guarded (BidirClient Req Rep)} (hheld : g.held = true)
    (reaction : List (StreamOp Req)) : reaction.foldlM act g = none ↔
      (g.val.requests.terminal.isNone && !reaction.isEmpty) = true := by
  cases hterm : g.val.requests.terminal with
  | some t =>
      have hover : reaction.foldlM act g = some g := by
        induction reaction with
        | nil => rfl
        | cons op reaction ih =>
            rw [List.foldlM_cons, act_of_over (by simp [hterm])]
            exact ih
      simp [hover]
  | none =>
      cases reaction with
      | nil => simp
      | cons op reaction =>
          obtain ⟨f, hact⟩ := act_of_open hterm op
          simp [List.foldlM_cons, hact, Guarded.withLock_of_held hheld]

omit [Serializer Rep] in
/-- What a thread that does not hold `mtx_` delivers does not get it stuck. -/
theorem deliver_of_free {g : Guarded (BidirClient Req Rep)} (hfree : g.held = false)
    (listening : Bool) (op : StreamOp Rep) (reaction : List (StreamOp Req)) :
    ∃ g', deliver g listening op reaction = some g' ∧ g'.held = false := by
  unfold deliver
  cases listening with
  | true => exact Guarded.foldlM_of_free (fun g op hg => act_of_free hg op) reaction hfree
  | false => exact ⟨_, rfl, hfree⟩

omit [Serializer Rep] in
/-- A thread that holds `mtx_` gets stuck on what it delivers exactly if a callback is attached that
    uses the open request stream. -/
theorem deliver_of_held {g : Guarded (BidirClient Req Rep)} (hheld : g.held = true)
    (listening : Bool) (op : StreamOp Rep) (reaction : List (StreamOp Req)) :
    deliver g listening op reaction = none ↔
      (listening && g.val.requests.terminal.isNone && !reaction.isEmpty) = true := by
  unfold deliver
  cases listening with
  | false => simp
  | true =>
      rw [if_pos rfl, Bool.true_and]
      exact foldlM_of_held
        (g := g.map (onSession · (fun s => { s with rep := s.rep.apply op }))) hheld reaction

/-- The completion thread gets stuck in `exec` exactly when it reads a reply for a callback that
    uses the open request stream. -/
theorem exec_eq_none (client : BidirClient Req Rep) (listening : Bool) (b : BidirClientBatch)
    (reaction : List (StreamOp Req)) :
    exec ⟨client, false⟩ listening (BatchSpec.flags b) reaction = none ↔
      (b == .read && client.session.obj.recvBuffer.isSome && listening &&
        client.requests.terminal.isNone && !reaction.isEmpty) = true := by
  cases b with
  | handshake => simp [exec, BatchSpec.flags]
  | write m => simp [exec, BatchSpec.flags]
  | close => simp [exec, BatchSpec.flags]
  | status =>
      cases hend : finalEnd client.session.obj.status client.session.obj.errorString with
      | none => simp [exec, BatchSpec.flags, hend]
      | some t =>
          obtain ⟨g, hg, -⟩ := deliver_of_free (g := ⟨client, false⟩) rfl listening (.finish t)
            reaction
          simp [exec, BatchSpec.flags, hend, hg]
  | read =>
      cases hbuf : client.session.obj.recvBuffer with
      | none => simp [exec, BatchSpec.flags, hbuf]
      | some data =>
          have hread : exec ⟨client, false⟩ listening (BatchSpec.flags BidirClientBatch.read) reaction
              = (deliver (Guarded.map ⟨client, true⟩
                  (onSession · (fun s => { s with recvBuffer := none }.startBatch .read)))
                  listening (.push (deserialize data)) reaction).map
                    (fun g => (false, g.unlock)) := by
            simp [exec, BatchSpec.flags, hbuf, Option.map_eq_bind]
          rw [hread, Option.map_eq_none_iff, deliver_of_held rfl]
          simp [Guarded.map, onSession]

/-- A callback that leaves the request stream alone changes nothing about `exec`. -/
theorem exec_nil (client : BidirClient Req Rep) (listening : Bool) (b : BidirClientBatch) :
    exec ⟨client, false⟩ listening (BatchSpec.flags b) []
      = some ((client.session.obj.exec (BatchSpec.flags b)).1,
        ⟨onSession client (fun s => (s.exec (BatchSpec.flags b)).2), false⟩) := by
  have hquiet : ∀ (g : Guarded (BidirClient Req Rep)) (op : StreamOp Rep),
      deliver g listening op [] = some (g.map (onSession · (fun s =>
        { s with rep := s.rep.apply op }))) := by
    intro g op
    unfold deliver
    split <;> rfl
  cases b with
  | handshake =>
      simp [exec, BatchSpec.flags, Guarded.map, Guarded.unlock,
        BidirStreamingCallSession.exec, onSession]
  | write m =>
      simp [exec, BatchSpec.flags, Guarded.map, Guarded.unlock,
        BidirStreamingCallSession.exec, onSession]
  | close =>
      simp [exec, BatchSpec.flags, Guarded.map, Guarded.unlock,
        BidirStreamingCallSession.exec, onSession]
  | status =>
      cases hend : finalEnd client.session.obj.status client.session.obj.errorString with
      | none => simp [exec, BatchSpec.flags, hend, BidirStreamingCallSession.exec, onSession]
      | some t =>
          simp [exec, BatchSpec.flags, hend, hquiet, Guarded.map, BidirStreamingCallSession.exec,
            onSession, StreamPromise.apply]
  | read =>
      cases hbuf : client.session.obj.recvBuffer with
      | none =>
          simp [exec, BatchSpec.flags, hbuf, Guarded.map, Guarded.unlock,
            BidirStreamingCallSession.exec, onSession]
      | some data =>
          simp [exec, BatchSpec.flags, hbuf, hquiet, Guarded.map, Guarded.unlock,
            BidirStreamingCallSession.exec, onSession, StreamPromise.apply]

/-- **Without reactions the callers' model is the session's**: a completion does what it does in
    `BidirClient`. -/
theorem step_complete_nil {c : BidirCaller Req Rep} (hrunning : c.stuck = false) (i : ℕ)
    (r : Received) : c.step (.complete i r [])
      = (c.client.step (.complete i r)).map (fun client => { c with client }) := by
  simp only [step, hrunning, Bool.false_eq_true, if_false]
  cases hb : c.client.session.obj.call.outstanding[i]? with
  | none => simp [BidirClient.step, Live.workerMain, CompletionCallback.call, hb]
  | some b =>
      cases hdel : c.client.session.deleted with
      | true => simp
      | false =>
          simp only [Bool.false_eq_true, if_false, exec_nil, Option.map_some, settle]
          have hwork := Live.workerMain_of_live hdel hb r
          have hclass : CompletionCallback.aborts (Live.completed c.client.session.obj i b r)
              (BatchSpec.flags b)
            = (Live.completed c.client.session.obj i b r).aborts (BatchSpec.flags b) := rfl
          rw [hclass] at hwork
          -- The process ends in both, or in neither.
          cases haborts :
            (Live.completed c.client.session.obj i b r).aborts (BatchSpec.flags b) with
          | true => simp [BidirClient.step, hwork, onSession, haborts]
          | false =>
              simp [BidirClient.step, hwork, onSession, haborts, hrunning, CompletionCallback.exec]

omit [Serializer Req] [Serializer Rep] in
theorem stuck_settle {c : BidirCaller Req Rep} (hrunning : c.stuck = false)
    (o : Option (BidirClient Req Rep)) : (c.settle o).stuck = true ↔ o = none := by
  cases o with
  | none => simp [settle]
  | some client => simp [settle, hrunning]

/-- A step gets its thread stuck exactly if it is a completion whose reply goes to a callback that
    uses the open request stream. -/
theorem stuck_step {c c' : BidirCaller Req Rep} {e : Event Req} (hstep : c.step e = some c') :
    c'.stuck = true ↔ c.answersInline e = true := by
  unfold step at hstep
  split at hstep
  · cases hstep
  · next hrunning =>
      cases e with
      | request op =>
          simp only [Option.ite_none_right_eq_some] at hstep
          obtain ⟨-, hsettle⟩ := hstep
          obtain ⟨g, hact, -⟩ := act_of_free (g := ⟨c.client, false⟩) rfl op
          obtain rfl := Option.some.inj hsettle
          simp [hact, settle, answersInline, hrunning]
      | listen =>
          simp only [Option.ite_none_right_eq_some] at hstep
          obtain rfl := Option.some.inj hstep.2
          simp [answersInline, hrunning]
      | getFuture =>
          obtain ⟨client, -, rfl⟩ := Option.map_eq_some_iff.1 hstep
          simp [answersInline, hrunning]
      | complete i r reaction =>
          simp only at hstep
          cases hb : c.client.session.obj.call.outstanding[i]? with
          | none => simp [hb] at hstep
          | some b =>
              simp only [hb] at hstep
              cases hdel : c.client.session.deleted with
              | true =>
                  simp only [hdel, if_true] at hstep
                  obtain ⟨client, -, rfl⟩ := Option.map_eq_some_iff.1 hstep
                  simp [answersInline, hdel, hrunning]
              | false =>
                  simp only [hdel, Bool.false_eq_true, if_false, Option.ite_none_left_eq_some] at hstep
                  obtain ⟨-, hsettle⟩ := hstep
                  obtain rfl := Option.some.inj hsettle
                  rw [stuck_settle (by simpa using hrunning), Option.map_eq_none_iff, exec_eq_none]
                  cases b with
                  | read =>
                      simp [answersInline, hb, hdel, onSession, Live.completed,
                        CompletionCallback.receive, CompletionCallback.setCall, receive]
                  | handshake => simp [answersInline, hb]
                  | write m => simp [answersInline, hb]
                  | close => simp [answersInline, hb]
                  | status => simp [answersInline, hb]

end BidirCaller

/-! ## The handler -/

namespace BidirResponder

open BidirStreamingCallHandler

omit [Serializer Req] [Serializer Rep] in
theorem callback_of_free {g : Guarded (BidirServer Req Rep)} (hfree : g.held = false)
    (f : BidirStreamingCallHandler Req → BidirStreamingCallHandler Req) :
    ∃ g', callback g f = some g' ∧ g'.held = false :=
  ⟨_, Guarded.withLock_of_free hfree _, hfree⟩

omit [Serializer Req] in
theorem act_of_free {g : Guarded (BidirServer Req Rep)} (hfree : g.held = false)
    (op : StreamOp Rep) : ∃ g', act g op = some g' ∧ g'.held = false := by
  cases op with
  | push rep =>
      simp only [act]
      cases g.val.replies.push rep with
      | none => exact ⟨g, rfl, hfree⟩
      | some replies =>
          dsimp only
          split
          · exact callback_of_free (g := g.map (fun c => { c with replies })) hfree _
          · exact ⟨_, rfl, hfree⟩
  | finish t =>
      simp only [act]
      cases g.val.replies.finish t with
      | none => exact ⟨g, rfl, hfree⟩
      | some replies =>
          dsimp only
          split
          · exact callback_of_free (g := g.map (fun c => { c with replies })) hfree _
          · exact ⟨_, rfl, hfree⟩

omit [Serializer Req] in
theorem deliver_of_free {g : Guarded (BidirServer Req Rep)} (hfree : g.held = false)
    (listening : Bool) (op : StreamOp Req) (reaction : List (StreamOp Rep)) :
    ∃ g', deliver g listening op reaction = some g' ∧ g'.held = false := by
  unfold deliver
  cases listening with
  | true => exact Guarded.foldlM_of_free (fun g op hg => act_of_free hg op) reaction hfree
  | false => exact ⟨_, rfl, hfree⟩

omit [Serializer Req] in
theorem drain_of_free {g : Guarded (BidirServer Req Rep)} (hfree : g.held = false)
    (replies : Source Rep) : ∃ g', drain g replies = some g' ∧ g'.held = false := by
  obtain ⟨g₁, hvalues, hfree₁⟩ := Guarded.foldlM_of_free
    (fun (g : Guarded (BidirServer Req Rep)) (rep : Rep) hg => callback_of_free hg (·.push rep))
    replies.pushed hfree
  unfold drain
  rw [hvalues]
  cases replies.terminal with
  | none => exact ⟨g₁, rfl, hfree₁⟩
  | some t => exact callback_of_free hfree₁ _

/-- Whatever the callback does, `exec` unlocks `mtx_` before it runs. -/
theorem exec_ne_none (server : BidirServer Req Rep) (listening : Bool) (flags : BitVec 4)
    (reaction : List (StreamOp Rep)) : exec ⟨server, false⟩ listening flags reaction ≠ none := by
  have hdeliver : ∀ (g : Guarded (BidirServer Req Rep)) (op : StreamOp Req),
      ∃ g', deliver g.unlock listening op reaction = some g' := by
    intro g op
    obtain ⟨g', hg, -⟩ := deliver_of_free (g := g.unlock) rfl listening op reaction
    exact ⟨g', hg⟩
  intro hnone
  simp only [exec, Guarded.lock_of_free, Option.bind_eq_bind, Option.bind_some] at hnone
  split at hnone
  · split at hnone
    · rw [Option.bind_eq_none_iff] at hnone
      obtain ⟨g, hg⟩ := hdeliver _ _
      cases hnone g hg
    · rw [Option.bind_eq_none_iff] at hnone
      obtain ⟨g, hg⟩ := hdeliver _ _
      cases hnone g hg
  · cases hnone

/-- A callback that leaves the reply stream alone changes nothing about `exec`. -/
theorem exec_nil (server : BidirServer Req Rep) (listening : Bool) (b : BidirServerBatch) :
    exec ⟨server, false⟩ listening (BatchSpec.flags b) []
      = some ((server.handler.obj.exec (BatchSpec.flags b)).1,
        ⟨onHandler server (fun h => (h.exec (BatchSpec.flags b)).2), false⟩) := by
  have hquiet : ∀ (g : Guarded (BidirServer Req Rep)) (op : StreamOp Req),
      deliver g listening op [] = some (g.map (onHandler · (fun h =>
        { h with readerProm := h.readerProm.apply op }))) := by
    intro g op
    unfold deliver
    split <;> rfl
  cases b with
  | handshake =>
      simp [exec, BatchSpec.flags, Guarded.map, Guarded.unlock,
        BidirStreamingCallHandler.exec, onHandler]
  | send m =>
      simp [exec, BatchSpec.flags, Guarded.map, Guarded.unlock,
        BidirStreamingCallHandler.exec, onHandler]
  | serverEnd =>
      simp [exec, BatchSpec.flags, Guarded.map, Guarded.unlock,
        BidirStreamingCallHandler.exec, onHandler]
  | fail =>
      simp [exec, BatchSpec.flags, Guarded.map, Guarded.unlock,
        BidirStreamingCallHandler.exec, onHandler]
  | recv =>
      cases hpayload : server.handler.obj.payload with
      | none =>
          simp [exec, BatchSpec.flags, hpayload, hquiet, Guarded.map, Guarded.unlock,
            BidirStreamingCallHandler.exec, onHandler, StreamPromise.apply, StreamPromise.complete]
      | some rawData =>
          simp [exec, BatchSpec.flags, hpayload, hquiet, Guarded.map, Guarded.unlock,
            BidirStreamingCallHandler.exec, onHandler, StreamPromise.apply]

/-- **Without reactions the responder's model is the handler's**: a completion does what it does in
    `BidirServer`. -/
theorem step_complete_nil {c : BidirResponder Req Rep} (hrunning : c.stuck = false) (i : ℕ)
    (r : Received) : c.step (.complete i r [])
      = (c.server.step (.complete i r)).map (fun server => { c with server }) := by
  simp only [step, hrunning, Bool.false_eq_true, if_false]
  cases hb : c.server.handler.obj.call.outstanding[i]? with
  | none => simp [BidirServer.step, Live.workerMain, CompletionCallback.call, hb]
  | some b =>
      cases hdel : c.server.handler.deleted with
      | true => simp
      | false =>
          simp only [Bool.false_eq_true, if_false, exec_nil, Option.map_some, settle]
          simp [BidirServer.step, Live.workerMain, CompletionCallback.call, hb, hdel, hrunning,
            onHandler, Live.completed, CompletionCallback.setCall, CompletionCallback.exec,
            CompletionCallback.receive]

omit [Serializer Req] [Serializer Rep] in
theorem stuck_settle {c : BidirResponder Req Rep} (hrunning : c.stuck = false)
    {o : Option (BidirServer Req Rep)} (hsome : o ≠ none) : (c.settle o).stuck = false := by
  cases o with
  | none => exact absurd rfl hsome
  | some server => exact hrunning

/-- No step gets its thread stuck, whatever the callbacks do. -/
theorem stuck_step {c c' : BidirResponder Req Rep} {e : Event Rep} (hstep : c.step e = some c') :
    c'.stuck = false := by
  unfold step at hstep
  split at hstep
  · cases hstep
  · next hnot =>
      have hrunning : c.stuck = false := by simpa using hnot
      cases e with
      | reply op =>
          simp only [Option.ite_none_right_eq_some] at hstep
          obtain rfl := Option.some.inj hstep.2
          obtain ⟨g, hact, -⟩ := act_of_free (g := ⟨c.server, false⟩) rfl op
          exact stuck_settle hrunning (by simp [hact])
      | listen =>
          simp only [Option.ite_none_left_eq_some] at hstep
          obtain rfl := Option.some.inj hstep.2
          exact hrunning
      | attach =>
          obtain ⟨replies, -, rfl⟩ := Option.map_eq_some_iff.1 hstep
          obtain ⟨g, hdrain, -⟩ := drain_of_free (g := ⟨{ c.server with replies }, false⟩) rfl replies
          exact stuck_settle hrunning (by simp [hdrain])
      | startHandshake =>
          obtain ⟨server, -, rfl⟩ := Option.map_eq_some_iff.1 hstep
          exact hrunning
      | complete i r reaction =>
          simp only at hstep
          cases hb : c.server.handler.obj.call.outstanding[i]? with
          | none => simp [hb] at hstep
          | some b =>
              simp only [hb] at hstep
              split at hstep
              · obtain ⟨server, -, rfl⟩ := Option.map_eq_some_iff.1 hstep
                exact hrunning
              · obtain rfl := Option.some.inj hstep
                refine stuck_settle hrunning ?_
                rw [Ne, Option.map_eq_none_iff]
                exact exec_ne_none _ _ _ _

end BidirResponder

/-! ## Both classes -/

/-- **No thread locks `mtx_` while it holds it**, in every run of a handler and in every run of a
    session in which no reply is delivered to a callback that uses the open request stream. A step
    of a session gets its thread stuck exactly if it delivers such a reply. -/
theorem callbacks_never_relock :
    (∀ c : BidirCaller Req Rep,
      ((BidirCaller.machine Req Rep).guard (fun c e => !c.answersInline e)).Reachable c →
        c.stuck = false) ∧
    (∀ (c c' : BidirCaller Req Rep) (e : BidirCaller.Event Req),
      (BidirCaller.machine Req Rep).step c e = some c' →
        (c'.stuck = true ↔ c.answersInline e = true)) ∧
    (∀ c : BidirResponder Req Rep, (BidirResponder.machine Req Rep).Reachable c →
      c.stuck = false) := by
  refine ⟨?_, ?_, ?_⟩
  · intro c h
    refine Machine.Reachable.guard_invariant (P := fun c => c.stuck = false) rfl ?_ h
    intro c c' e _ hstep hguard _
    by_contra hstuck
    have hinline := (BidirCaller.stuck_step hstep).1 (by simpa using hstuck)
    rw [hinline] at hguard
    cases hguard
  · intro c c' e hstep
    exact BidirCaller.stuck_step hstep
  · intro c h
    exact h.invariant (P := fun c => c.stuck = false) rfl
      (fun hstep _ => BidirResponder.stuck_step hstep)

/-- A caller that only listens to the replies, and a handler that answers every request from within
    the callback, both get through. -/
theorem callbacks_never_relock_echo :
    (∃ c : BidirCaller Buffer Buffer, c.client.session.deleted = true ∧ c.stuck = false) ∧
    ∃ c : BidirResponder Buffer Buffer, c.server.replies.pushed = [[1], [2]] ∧
      c.server.replies.terminal = some .complete ∧ c.stuck = false := by
  have hcaller : ((BidirCaller.machine Buffer Buffer).guard
      (fun c e => !c.answersInline e)).Reachable _ :=
    Machine.reachable_of_run [.getFuture, .listen, .complete 0 {} [], .request (.push [1]),
      .complete 1 {} [], .complete 0 { message := some [9] } [], .request (.finish .complete),
      .complete 1 {} [], .complete 0 {} [], .complete 0 {} [.push [3]]] rfl
  have hresponder : (BidirResponder.machine Buffer Buffer).Reachable _ :=
    Machine.reachable_of_run [.listen, .attach, .startHandshake, .complete 0 {} [],
      .complete 0 { message := some [1] } [.push [1]],
      .complete 0 { message := some [2] } [.push [2], .finish .complete]] rfl
  exact ⟨⟨_, rfl, callbacks_never_relock.1 _ hcaller⟩,
    ⟨_, rfl, rfl, callbacks_never_relock.2.2 _ hresponder⟩⟩

/-- A caller that answers a reply with a further request from within the callback. -/
theorem ping_pong_relocks :
    ¬ ∀ c : BidirCaller Buffer Buffer, (BidirCaller.machine Buffer Buffer).Reachable c →
      c.stuck = false := by
  intro hall
  have hrun : (BidirCaller.machine Buffer Buffer).Reachable _ :=
    Machine.reachable_of_run [.getFuture, .listen, .complete 0 {} [],
      .complete 0 { message := some [1] } [.push [2]]] rfl
  have hrunning := hall _ hrun
  cases hrunning

end EasyGrpc
