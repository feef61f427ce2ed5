import EasyGrpc.Library.Quiescence
import EasyGrpc.Queue.Proofs.Parties
import EasyGrpc.Rpc.Proofs.Outcome

set_option autoImplicit false

/-! # A unary RPC is a call of its handler

Whatever the order of the two completion threads, a unary RPC comes to rest, and then the caller has
what the method makes of its request, or the method's future is still pending. -/

namespace EasyGrpc

variable {Req Rep : Type} [Serializer Req] [Serializer Rep]

/-! ## What a handler still has to do -/

namespace UnaryServer

open UnaryCallHandler

/-- The batches that are outstanding, and the answer that `perform` may give. -/
def work (c : UnaryServer Rep) : ℕ :=
  c.handler.obj.call.outstanding.length + (if c.performed then 0 else 2)

omit [Serializer Req] in
theorem length_finish (h : UnaryCallHandler) (o : Except Exception Rep) :
    (h.finish o).call.outstanding.length = h.call.outstanding.length + 1 := by
  cases o with
  | ok rep => exact Call.length_startBatch h.call _
  | error e => exact Call.length_startBatch h.call _

theorem length_perform_le (h : UnaryCallHandler) (method : UnaryMethod Req Rep)
    (payload : Buffer) :
    (h.perform method payload).call.outstanding.length ≤ h.call.outstanding.length + 1 := by
  unfold UnaryCallHandler.perform
  cases method.invoke (deserialize payload) with
  | some o => exact (length_finish h o).le
  | none => exact Nat.le_succ _

/-- One constructor for each step that `step` can take. -/
inductive Moves (method : UnaryMethod Req Rep) (c : UnaryServer Rep) :
    Event Rep → UnaryServer Rep → Prop
  | perform {payload : Buffer} (hnot : c.performed = false) : Moves method c (.perform payload)
      { performed := true
        outcome := method.invoke (deserialize payload)
        handler := c.handler.update (·.perform method payload) }
  | reply {o : Except Exception Rep} (hperformed : c.performed = true) (hnone : c.outcome = none) :
      Moves method c (.reply o)
        { c with outcome := some o, handler := c.handler.update (·.finish o) }
  | complete {i : ℕ} {r : Received} {handler : Live UnaryCallHandler}
      (hwork : c.handler.workerMain i r = some handler) :
      Moves method c (.complete i r) { c with handler }

theorem moves_of_step {method : UnaryMethod Req Rep} {c c' : UnaryServer Rep} {e : Event Rep}
    (hstep : c.step method e = some c') : Moves method c e c' := by
  cases e with
  | perform payload =>
      obtain ⟨hnot, hnext⟩ := Option.ite_none_left_eq_some.1 hstep
      obtain rfl := Option.some.inj hnext
      exact .perform (by simpa using hnot)
  | reply o =>
      obtain ⟨hready, hnext⟩ := Option.ite_none_right_eq_some.1 hstep
      obtain rfl := Option.some.inj hnext
      rw [Bool.and_eq_true, Option.isNone_iff_eq_none] at hready
      exact .reply hready.1 hready.2
  | complete i r =>
      obtain ⟨handler, hwork, rfl⟩ := Option.map_eq_some_iff.1 hstep
      exact .complete hwork

/-- The steps of the two threads of the server. -/
def Event.isInternal : Event Rep → Bool
  | .reply _ => false
  | _ => true

theorem work_step {method : UnaryMethod Req Rep} {c c' : UnaryServer Rep} {e : Event Rep}
    (hstep : c.step method e = some c') (hinternal : e.isInternal = true) : c'.work < c.work := by
  cases moves_of_step hstep with
  | @perform payload hnot =>
      have hlength := Live.update_obj (o := c.handler)
        (P := fun h : UnaryCallHandler =>
          h.call.outstanding.length ≤ c.handler.obj.call.outstanding.length + 1)
        (f := (·.perform method payload)) (Nat.le_succ _) (length_perform_le _ method payload)
      simp only [work, hnot, if_true, Bool.false_eq_true, if_false]
      omega
  | reply => cases hinternal
  | complete hwork =>
      obtain ⟨b, hb, hcase⟩ := Live.workerMain_eq_some hwork
      have hlength := Call.length_completeAt (c := c.handler.obj.call) hb
      rcases hcase with ⟨-, rfl⟩ | ⟨-, rfl⟩
      all_goals
        show (c.handler.obj.call.completeAt _).outstanding.length + _ < _
        simp only [work]
        omega

theorem performed_step {method : UnaryMethod Req Rep} {c c' : UnaryServer Rep} {e : Event Rep}
    (hstep : c.step method e = some c') (hperformed : c.performed = true) :
    c'.performed = true := by
  cases moves_of_step hstep with
  | perform => rfl
  | reply => exact hperformed
  | complete => exact hperformed

/-- A handler that exists has everything it has started outstanding. -/
theorem outstanding_of_live {method : UnaryMethod Req Rep} {c : UnaryServer Rep}
    (h : (machine method).Reachable c) (hlive : c.handler.deleted = false) :
    c.handler.obj.call.outstanding.length = c.handler.obj.call.started.length := by
  have hlast : ∀ (o : UnaryCallHandler) (b : UnaryServerBatch), true = true →
      (CompletionCallback.exec o (BatchSpec.flags b)).1 = true := fun _ _ _ => rfl
  have hall := Party.lasts_outstanding (P := party method) hlast h hlive
  rw [Call.pending, Call.starts, List.countP_true] at hall
  exact hall

end UnaryServer

/-! ## Both sides together -/

namespace UnaryRpc

open UnaryClient

variable {method : UnaryMethod Req Rep} {req : Req} {s s' : UnaryRpc Rep}

/-- A step of the two sides and of gRPC core, as opposed to the user's. -/
def Event.isInternal : Event Rep → Bool
  | .handlerReply _ => false
  | _ => true

def work (s : UnaryRpc Rep) : ℕ := s.client.obj.call.outstanding.length + s.server.work

theorem Wire.sent (h : s.Wire req) : s.client.obj.call.sent = [serialize req] := by
  rcases h.client with ⟨hwait, -⟩ | ⟨r, o, hclient, -, -⟩
  · rw [hwait]
    rfl
  · rw [hclient]
    rfl

theorem reachable_step {e : Event Rep} (h : (machine method req).Reachable s)
    (hstep : s.step method e = some s') : (machine method req).Reachable s' :=
  h.step (e := e) hstep

/-- A step is one of the server, which is given the caller's request, or the client's last. -/
theorem step_cases {e : Event Rep} (h : s.Wire req) (hstep : s.step method e = some s') :
    (∃ se, s.stepServer method se = some s' ∧ se.isInternal = e.isInternal ∧
      ∀ payload, se = .perform payload → payload = serialize req) ∨
    (e.isInternal = true ∧ s'.server = s.server ∧ s.client.obj.call.outstanding.length = 1 ∧
      s'.client.obj.call.outstanding = []) := by
  cases e with
  | accept =>
      rw [step, h.sent] at hstep
      exact Or.inl ⟨.perform (serialize req), hstep, rfl, by simp⟩
  | handlerReply o => exact Or.inl ⟨.reply o, hstep, rfl, by simp⟩
  | serverDone i r => exact Or.inl ⟨.complete i r, hstep, rfl, by simp⟩
  | clientDone i err =>
      obtain ⟨b, -, hstep⟩ := Option.bind_eq_some_iff.1 hstep
      obtain ⟨r, -, hstep⟩ := Option.bind_eq_some_iff.1 hstep
      obtain ⟨client, hwork, rfl⟩ := Option.map_eq_some_iff.1 hstep
      refine Or.inr ⟨rfl, rfl, ?_⟩
      rcases h.client with ⟨hwait, -⟩ | ⟨q, o, hclient, -, -⟩
      · rw [hwait] at hwork ⊢
        obtain ⟨-, rfl⟩ := complete_cases hwork
        exact ⟨rfl, rfl⟩
      · rw [hclient] at hwork
        cases (workerMain_resolved req q r i).symm.trans hwork

/-- The steps of the two sides and of gRPC core come to an end. -/
theorem quiesces : (machine method req).Quiesces Event.isInternal work := by
  constructor
  intro s s' e hs hinternal hstep
  rcases step_cases (wire_of_reachable hs) hstep with
    ⟨se, hserver, hsame, -⟩ | ⟨-, hserver, hone, hnone⟩
  · obtain ⟨server, hnext, rfl⟩ := Option.map_eq_some_iff.1 hserver
    have hlt := UnaryServer.work_step hnext (hsame.trans hinternal)
    simp only [work]
    omega
  · simp only [work, hserver, hone, hnone, List.length_nil]
    omega

/-- The server is reachable on its own, and what the method makes of the request by itself is the
    outcome. -/
theorem server_of_reachable (h : (machine method req).Reachable s) :
    (UnaryServer.machine method).Reachable s.server ∧
      ∀ o, s.server.performed = true → method.invoke req = some o → s.server.outcome = some o := by
  induction h with
  | init =>
      refine ⟨.init, fun o hno => ?_⟩
      cases hno
  | @step s s' e hs hnext ih =>
      have hwire := wire_of_reachable hs
      rcases step_cases hwire hnext with ⟨se, hserver, -, hpayload⟩ | ⟨-, hserver, -⟩
      · obtain ⟨server, hmove, rfl⟩ := Option.map_eq_some_iff.1 hserver
        refine ⟨ih.1.step (e := se) hmove, fun o hperformed hinvoke => ?_⟩
        have hkept := (UnaryServer.inv_step hwire.server hmove).2 o
        cases UnaryServer.moves_of_step hmove with
        | perform =>
            rw [hpayload _ rfl, Serializer.deserialize_serialize]
            exact hinvoke
        | reply => exact hkept (ih.2 o hperformed hinvoke)
        | complete => exact hkept (ih.2 o hperformed hinvoke)
      · rw [hserver]
        exact ih

/-! ## When nothing is left to do -/

section Rest

theorem performed_of_atRest (h : (machine method req).Reachable s)
    (hrest : (machine method req).AtRest Event.isInternal s) : s.server.performed = true := by
  by_contra hnot
  have haccept := hrest .accept rfl
  simp [machine, step, (wire_of_reachable h).sent, stepServer, UnaryServer.step, hnot] at haccept

theorem server_quiet_of_atRest (hrest : (machine method req).AtRest Event.isInternal s) :
    s.server.handler.obj.call.outstanding = [] := by
  cases hout : s.server.handler.obj.call.outstanding with
  | nil => rfl
  | cons b rest =>
      have hb : s.server.handler.obj.call.outstanding[0]? = some b := by rw [hout]; rfl
      have hwork := Live.isSome_workerMain (o := s.server.handler) hb (r := {}) rfl
      have hdone := hrest (.serverDone 0 {}) rfl
      simp only [machine, step, stepServer, UnaryServer.step, Option.map_eq_none_iff] at hdone
      rw [hdone] at hwork
      cases hwork

/-- What there is when only the user can do something. -/
structure Rests (method : UnaryMethod Req Rep) (req : Req) (s : UnaryRpc Rep) : Prop where
  performed : s.server.performed = true
  /-- What the method has returned or thrown is the outcome. -/
  invoked : ∀ o, method.invoke req = some o → s.server.outcome = some o
  /-- While the method's future is pending, both objects exist and the caller waits. -/
  waits : s.server.outcome = none → s.client.deleted = false ∧ s.server.handler.deleted = false ∧
    s.client.obj.rep = []
  /-- Afterwards they are deleted, with nothing outstanding, and the caller has the outcome. -/
  ended : ∀ o, s.server.outcome = some o → s.client.deleted = true ∧
    s.server.handler.deleted = true ∧ s.client.obj.call.outstanding = [] ∧
      s.server.handler.obj.call.outstanding = [] ∧ s.client.obj.rep = [UploadRpc.resolutionOf o]

theorem waits_of_reachable (h : (machine method req).Reachable s) (hnone : s.server.outcome = none) :
    s.client.deleted = false ∧ s.server.handler.deleted = false ∧ s.client.obj.rep = [] := by
  have hwire := wire_of_reachable h
  rcases hwire.client with ⟨hwait, -⟩ | ⟨r, o, -, ho, -⟩
  · rw [hwait]
    exact ⟨rfl, (hwire.server.idle hnone).1, rfl⟩
  · rw [hnone] at ho
    cases ho

theorem ended_of_atRest (h : (machine method req).Reachable s)
    (hrest : (machine method req).AtRest Event.isInternal s) {o : Except Exception Rep}
    (ho : s.server.outcome = some o) :
    s.client.deleted = true ∧ s.server.handler.deleted = true ∧
      s.client.obj.call.outstanding = [] ∧ s.server.handler.obj.call.outstanding = [] ∧
      s.client.obj.rep = [UploadRpc.resolutionOf o] := by
  have hwire := wire_of_reachable h
  have hquiet := server_quiet_of_atRest hrest
  have hserver : s.server.handler.deleted = true := by
    by_contra hlive
    -- The answer was started, so it would be outstanding.
    have hlength := UnaryServer.outstanding_of_live (server_of_reachable h).1 (by simpa using hlive)
    rw [hquiet] at hlength
    have hnone : s.server.handler.obj.call.started = [] :=
      List.length_eq_zero_iff.1 hlength.symm
    have hstatuses := hwire.server.statuses
    rw [ho, Call.statuses, Call.ops, hnone] at hstatuses
    cases o <;> cases hstatuses
  rcases hwire.client with ⟨hwait, hpos⟩ | ⟨r, o', hclient, ho', hres⟩
  · have hcan := hwire.can_complete method ho (by rw [hwait]; rfl)
    have hstuck : s.step method (.clientDone 0 none) = none := hrest (.clientDone 0 none) rfl
    rw [hstuck] at hcan
    cases hcan
  · obtain rfl := Option.some.inj (ho.symm.trans ho')
    rw [hclient, ← hres]
    exact ⟨rfl, hserver, rfl, hquiet, rfl⟩

theorem rests_of_atRest (h : (machine method req).Reachable s)
    (hrest : (machine method req).AtRest Event.isInternal s) : s.Rests method req where
  performed := performed_of_atRest h hrest
  invoked _ hinvoke := (server_of_reachable h).2 _ (performed_of_atRest h hrest) hinvoke
  waits := waits_of_reachable h
  ended _ := ended_of_atRest h hrest

end Rest

end UnaryRpc

end EasyGrpc
