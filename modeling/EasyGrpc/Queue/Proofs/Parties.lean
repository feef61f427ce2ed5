import EasyGrpc.Queue.Parties

set_option autoImplicit false

/-! # What all parties have in common

A step of a party starts batches or completes one. So what it has put on the wire stays there, and
the batches whose completion deletes its object are outstanding as long as the object exists. -/

namespace EasyGrpc

namespace Call.Starts

variable {κ : Type} {c c' : Call κ}

/-- The batches of any kind that were started are outstanding. -/
theorem counts (h : c.Starts c') (p : κ → Bool) :
    c'.pending p + c.starts p = c.pending p + c'.starts p := by
  obtain ⟨new, hstarted, hout⟩ := h
  simp only [Call.pending, Call.starts, hstarted, hout, List.countP_append]
  omega

theorem started_kept (h : c.Starts c') : c.started <+: c'.started := by
  obtain ⟨new, hstarted, -⟩ := h
  exact ⟨new, hstarted.symm⟩

end Call.Starts

namespace Party

variable {P : Party}

/-- A completion: the batch it is about, and what `exec` starts then. A deleted object starts
    nothing. -/
theorem complete_step {t t' : P.State} {i : ℕ} {r : Received}
    (h : P.machine.step t (P.complete i r) = some t') :
    ∃ b, (P.call t).outstanding[i]? = some b ∧
      ((P.call t).completeAt i).Starts (P.call t') ∧
      (P.deleted t = true → P.deleted t' = true) ∧
      (P.deleted t = false → P.deleted t' = (CompletionCallback.exec
        (Live.completed (P.object t).obj i b r) (BatchSpec.flags b)).1) := by
  rw [P.step_complete, Option.map_eq_some_iff] at h
  obtain ⟨o, hwork, rfl⟩ := h
  obtain ⟨b, hb, hcase⟩ := Live.workerMain_eq_some hwork
  refine ⟨b, hb, ?_⟩
  simp only [call, deleted, P.object_setObject]
  rcases hcase with ⟨hdel, rfl⟩ | ⟨hlive, rfl⟩
  · simp only [P.call_setCall]
    refine ⟨.refl _, fun _ => hdel, fun hno => ?_⟩
    rw [hdel] at hno
    cases hno
  · have hstarts := P.exec_starts (Live.completed (P.object t).obj i b r) (BatchSpec.flags b)
    simp only [Live.completed, P.call_receive, P.call_setCall] at hstarts
    refine ⟨hstarts, fun hno => ?_, fun _ => rfl⟩
    rw [hlive] at hno
    cases hno

/-- Every batch that was started stays started. -/
theorem started_step {t t' : P.State} {e : P.Event} (h : P.machine.step t e = some t') :
    (P.call t).started <+: (P.call t').started := by
  cases hcomplete : P.completes e with
  | false => exact (P.step_other h hcomplete).2.started_kept
  | true =>
      obtain ⟨i, r, rfl⟩ := P.eq_complete hcomplete
      obtain ⟨b, -, hstarts, -⟩ := complete_step h
      exact hstarts.started_kept

theorem statuses_step {t t' : P.State} {e : P.Event} (h : P.machine.step t e = some t') :
    (P.call t).statuses <+: (P.call t').statuses := by
  obtain ⟨new, hnew⟩ := started_step h
  refine ⟨(new.flatMap BatchSpec.ops).filterMap Op.status?, ?_⟩
  simp only [Call.statuses, Call.ops, ← hnew, List.flatMap_append, List.filterMap_append]

/-- **Last batches.** Where `exec` deletes the object for batches of one kind, every batch of this
    kind is outstanding as long as the object exists. -/
theorem lasts_outstanding {isLast : P.Batch → Bool}
    (hlast : ∀ o b, isLast b = true →
      (CompletionCallback.exec (o : P.Obj) (BatchSpec.flags b)).1 = true)
    {t : P.State} (h : P.machine.Reachable t) (hlive : P.deleted t = false) :
    (P.call t).pending isLast = (P.call t).starts isLast := by
  induction h with
  | init =>
      have hcounts := P.init_starts.counts isLast
      simpa [call, Call.pending, Call.starts] using hcounts
  | @step t t' e _ hstep ih =>
      cases hcomplete : P.completes e with
      | false =>
          obtain ⟨hdel, hstarts⟩ := P.step_other hstep hcomplete
          have hcounts := hstarts.counts isLast
          have hbefore := ih (hdel.symm.trans hlive)
          simp only [call] at hbefore ⊢
          omega
      | true =>
          obtain ⟨i, r, rfl⟩ := P.eq_complete hcomplete
          obtain ⟨b, hb, hstarts, hkept, hexec⟩ := complete_step hstep
          have hlive' : P.deleted t = false := by
            by_contra hdel
            rw [hkept (by simpa using hdel)] at hlive
            cases hlive
          have hnot : isLast b = false := by
            by_contra hyes
            rw [hexec hlive', hlast _ b (by simpa using hyes)] at hlive
            cases hlive
          have hcounts := hstarts.counts isLast
          have hpending := Call.pending_completeAt hb isLast
          have hbefore := ih hlive'
          simp only [hnot, Bool.toNat_false, Call.starts_completeAt] at hpending hcounts
          omega

end Party

end EasyGrpc
