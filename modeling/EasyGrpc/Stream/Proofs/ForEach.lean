import EasyGrpc.Stream.ForEach
import EasyGrpc.Stream.Proofs.Storage

set_option autoImplicit false

/-! # What becomes of an exception of a stream's callback

Every exception the callback throws leaves the code (`escaped_of_reachable`), and the future of
`for_each` is resolved by the end of the stream only (`resolved_by_end`). -/

namespace EasyGrpc

variable {ι α : Type}

/-! ## The end of a stream -/

/-- What the stream was ended with. -/
def Ending.end? : Ending → Option StreamEnd
  | .pending => none
  | .calling t | .returned t => some t

namespace Stream

/-- What is not a call of the callback tells of the end of the stream. -/
structure EndsOnly (s : Stream ι α) : Prop where
  log : ∀ task ∈ s.log, task.isCall = false → ∃ t, s.ending.end? = some t ∧ task = .ofEnd t
  queue : ∀ task ∈ s.queue, task ∈ s.log
  ran : ∀ task ∈ s.ran, task ∈ s.log
  complete : s.storage.complete = true → s.ending.end? = some .complete
  fail : s.storage.fail = true →
    ∃ x, s.storage.error = some x ∧ s.ending.end? = some (.failed x)
  seen : ∀ complete fail, s.attaching = .registered complete fail →
    (complete = true → s.storage.complete = true) ∧ (fail = true → s.storage.fail = true)

theorem EndsOnly.enqueue {s : Stream ι α} (h : s.EndsOnly) (ex : Executor) (tasks : List (Task ι α))
    (htasks : ∀ task ∈ tasks, task.isCall = false →
      ∃ t, s.ending.end? = some t ∧ task = .ofEnd t) : (s.enqueue ex tasks).EndsOnly := by
  have hlog : ∀ task ∈ s.log ++ tasks, task.isCall = false →
      ∃ t, s.ending.end? = some t ∧ task = .ofEnd t := by
    intro task hmem
    rcases List.mem_append.1 hmem with hmem | hmem
    · exact h.log task hmem
    · exact htasks task hmem
  have hold : ∀ task ∈ s.log, task ∈ s.log ++ tasks := fun task => List.mem_append_left _
  have hnew : ∀ l : List (Task ι α), (∀ task ∈ l, task ∈ s.log) →
      ∀ task ∈ l ++ tasks, task ∈ s.log ++ tasks := by
    intro l hl task hmem
    rcases List.mem_append.1 hmem with hmem | hmem
    · exact hold task (hl task hmem)
    · exact List.mem_append_right _ hmem
  unfold Stream.enqueue
  split
  · exact ⟨hlog, fun task hmem => hold task (h.queue task hmem), hnew _ h.ran, h.complete, h.fail,
      h.seen⟩
  · exact ⟨hlog, hnew _ h.queue, fun task hmem => hold task (h.ran task hmem), h.complete, h.fail,
      h.seen⟩

theorem ends_of_calls (buffer : List (ι × α)) {e : Option StreamEnd} :
    ∀ task ∈ callsOf buffer, task.isCall = false → ∃ t, e = some t ∧ task = .ofEnd t := by
  intro task hmem hcall
  obtain ⟨p, -, rfl⟩ := List.mem_map.1 hmem
  cases hcall

theorem EndsOnly.finish {s : Stream ι α} (h : s.EndsOnly) (hpending : s.ending = .pending)
    (t : StreamEnd) : ({ s with
      storage := s.storage.finish t
      ending := if s.storage.ready then .calling t else .returned t } : Stream ι α).EndsOnly := by
  have hnone : s.ending.end? = none := by
    rw [hpending]
    rfl
  -- Nothing was noted before, so only the new end can be.
  have hcomplete : s.storage.complete = false := by
    by_contra hc
    cases hnone.symm.trans (h.complete (by simpa using hc))
  have hfail : s.storage.fail = false := by
    by_contra hf
    obtain ⟨x, -, hend⟩ := h.fail (by simpa using hf)
    cases hnone.symm.trans hend
  have hend : (if s.storage.ready then Ending.calling t else .returned t).end? = some t := by
    split <;> rfl
  refine ⟨?_, h.queue, h.ran, ?_, ?_, ?_⟩
  · intro task hmem hcall
    obtain ⟨t', ht', -⟩ := h.log task hmem hcall
    cases hnone.symm.trans ht'
  · intro hc
    refine hend.trans ?_
    cases hready : s.storage.ready <;> cases t <;>
      simp [StreamStorage.finish, hready, hcomplete] at hc ⊢
  · intro hf
    cases hready : s.storage.ready <;> cases t <;>
      simp [StreamStorage.finish, hready, hfail, Ending.end?] at hf ⊢
  · intro complete fail hatt
    obtain ⟨hseen, hseen'⟩ := h.seen complete fail hatt
    rw [hcomplete] at hseen
    rw [hfail] at hseen'
    exact ⟨fun hc => Bool.noConfusion (hseen hc), fun hf => Bool.noConfusion (hseen' hf)⟩

theorem EndsOnly.deliverEnd {s : Stream ι α} (h : s.EndsOnly) {ex : Executor} {t : StreamEnd}
    (hcalling : s.ending = .calling t) :
    ({ s.enqueue ex [.ofEnd t] with ending := .returned t } : Stream ι α).EndsOnly := by
  have hend : s.ending.end? = some t := by
    rw [hcalling]
    rfl
  have hnew := h.enqueue ex [.ofEnd t] (by
    intro task hmem _
    exact ⟨t, hend, List.mem_singleton.1 hmem⟩)
  have hsame : (s.enqueue ex [.ofEnd t]).ending.end? = (Ending.returned t).end? := by
    rw [ending_enqueue, hend]
    rfl
  refine ⟨?_, hnew.queue, hnew.ran, ?_, ?_, hnew.seen⟩
  · exact fun task hmem hcall => hsame ▸ hnew.log task hmem hcall
  · exact fun hc => hsame ▸ hnew.complete hc
  · exact fun hf => hsame ▸ hnew.fail hf

/-- What `set_handler` saw noted, it tells of the end the stream has. -/
theorem EndsOnly.notification {s : Stream ι α} (h : s.EndsOnly) {complete fail : Bool}
    (hregistered : s.attaching = .registered complete fail) :
    ∀ task ∈ s.storage.notification complete fail, ∃ t, s.ending.end? = some t ∧
      task = .ofEnd t := by
  obtain ⟨hcomplete, hfail⟩ := h.seen complete fail hregistered
  intro task hmem
  unfold StreamStorage.notification at hmem
  split at hmem
  · next hc => exact ⟨.complete, h.complete (hcomplete hc), List.mem_singleton.1 hmem⟩
  · split at hmem
    · next hf =>
        obtain ⟨x, hx, hend⟩ := h.fail (hfail hf)
        refine ⟨.failed x, hend, ?_⟩
        rw [List.mem_singleton.1 hmem, hx]
        rfl
    · cases hmem

variable [DecidableEq ι]

theorem EndsOnly.lock {s : Stream ι α} (h : s.EndsOnly) (i : ι) (v : α) (p : Pushing α) :
    ({ s with storage := s.storage.push i v }.setProducer i p).EndsOnly := by
  have hpush : (s.storage.push i v).complete = s.storage.complete ∧
      (s.storage.push i v).fail = s.storage.fail ∧
      (s.storage.push i v).error = s.storage.error := by
    unfold StreamStorage.push
    split <;> exact ⟨rfl, rfl, rfl⟩
  obtain ⟨hcomplete, hfail, herror⟩ := hpush
  refine ⟨h.log, h.queue, h.ran, ?_, ?_, ?_⟩
  · exact fun hc => h.complete (hcomplete.symm.trans hc)
  · intro hf
    obtain ⟨x, hx, hend⟩ := h.fail (hfail.symm.trans hf)
    exact ⟨x, herror.trans hx, hend⟩
  · intro complete fail hatt
    obtain ⟨hseen, hseen'⟩ := h.seen complete fail hatt
    exact ⟨fun hc => hcomplete.trans (hseen hc), fun hf => hfail.trans (hseen' hf)⟩

variable [Fintype ι]

theorem endsOnly_step {ex : Executor} {s s' : Stream ι α} {e : Event ι α}
    (hstep : s.step ex e = some s') (h : s.EndsOnly) : s'.EndsOnly := by
  cases moves_of_step hstep with
  | push hpending hidle => exact ⟨h.log, h.queue, h.ran, h.complete, h.fail, h.seen⟩
  | @lock i v hlocking => exact h.lock i v _
  | @deliver i v hcalling =>
      have hnew := h.enqueue ex _ (ends_of_calls [(i, v)])
      exact ⟨hnew.log, hnew.queue, hnew.ran, hnew.complete, hnew.fail, hnew.seen⟩
  | finish hpending hidle => exact h.finish hpending _
  | deliverEnd hcalling => exact h.deliverEnd hcalling
  | publish hdetached => exact ⟨h.log, h.queue, h.ran, h.complete, h.fail, by simp⟩
  | register hpublished =>
      have hnew := h.enqueue ex _ (ends_of_calls s.storage.fullfilled)
      refine ⟨hnew.log, hnew.queue, hnew.ran, ?_, ?_, ?_⟩
      · exact fun hc => (ending_enqueue ..).symm ▸ h.complete hc
      · exact fun hf => (ending_enqueue ..).symm ▸ h.fail hf
      · intro complete fail hatt
        cases hatt
        exact ⟨id, id⟩
  | @notify complete fail hregistered =>
      have hnew := h.enqueue ex (s.storage.notification complete fail)
        (fun task hmem _ => h.notification hregistered task hmem)
      exact ⟨hnew.log, hnew.queue, hnew.ran, hnew.complete, hnew.fail, by simp⟩
  | @run k task hturn htask =>
      refine ⟨h.log, ?_, ?_, h.complete, h.fail, h.seen⟩
      · exact fun t ht => h.queue t (List.mem_of_mem_eraseIdx ht)
      · intro t ht
        rcases List.mem_append.1 ht with ht | ht
        · exact h.ran t ht
        · rw [List.mem_singleton.1 ht]
          exact h.queue task (List.mem_of_getElem? htask)

end Stream

/-! ## The callback throws -/

namespace ForEach

/-- The future was failed with `x`, once, and `x` has left no operation. -/
structure FailsFuture (s : ForEach ι α) (x : Exception) : Prop where
  resolved : s.resolutions = [.fail (some x)]
  contained : s.escaped = []

variable [DecidableEq ι] [Fintype ι] {ex : Executor} {cb : Callback α}

/-- A step is one of the stream, or the `set_handler` that is left. -/
theorem step_cases {s s' : ForEach ι α} {e : Stream.Event ι α}
    (hstep : (machine ι α ex cb).step s e = some s') :
    s.plain ex cb e = some s' ∨ ∃ k x, s' = s.abort ex k x := by
  obtain ⟨-, hs⟩ := Option.ite_none_left_eq_some.1 hstep
  split at hs
  · split at hs
    · split at hs
      · next k x hx => exact .inr ⟨k, x, (Option.some.inj hs).symm⟩
      · exact .inl hs
    · exact .inl hs
  · exact .inl hs

theorem escaped_of_reachable {s : ForEach ι α} (h : (machine ι α ex cb).Reachable s) :
    s.escaped.map Prod.snd = s.thrown := by
  have hescape : ∀ (s : ForEach ι α) (site : Site ι) (xs : List Exception),
      s.escaped.map Prod.snd = s.thrown →
      (s.escape site xs).escaped.map Prod.snd = (s.escape site xs).thrown := by
    intro s site xs hs
    simp [escape, hs, Function.comp_def]
  induction h with
  | init => rfl
  | step _ hstep ih =>
      rcases step_cases hstep with hplain | ⟨k, x, rfl⟩
      · obtain ⟨stream, -, rfl⟩ := Option.map_eq_some_iff.1 hplain
        exact hescape _ _ _ ih
      · exact hescape _ _ _ ih

theorem endsOnly_of_reachable {s : ForEach ι α} (h : (machine ι α ex cb).Reachable s) :
    s.stream.EndsOnly := by
  induction h with
  | init => constructor <;> simp [machine]
  | step _ hstep ih =>
      rcases step_cases hstep with hplain | ⟨k, x, rfl⟩
      · obtain ⟨stream, hstream, rfl⟩ := Option.map_eq_some_iff.1 hplain
        exact Stream.endsOnly_step hstream ih
      · refine ih.enqueue ex _ ?_
        intro task hmem
        exact Stream.ends_of_calls _ task (List.mem_of_mem_take hmem)

/-- The future is resolved with the end of the stream, or not at all. -/
theorem resolved_by_end {s : ForEach ι α} (h : (machine ι α ex cb).Reachable s) :
    ∀ task ∈ s.resolutions, ∃ t, s.stream.ending.end? = some t ∧ task = .ofEnd t := by
  have hends := endsOnly_of_reachable h
  intro task hmem
  obtain ⟨hran, hcall⟩ := List.mem_filter.1 hmem
  exact hends.log task (hends.ran task hran) (by simpa using hcall)

/-- **No throwing callback fails the future of `for_each`**: whatever the callback throws, on
    whichever value and with whichever executor, leaves the push, the `for_each` or the executor
    that ran it, and the future is failed with it only if the producer ends the stream with it. -/
theorem throwing_callback_fails_no_future {s : ForEach ι α} (h : (machine ι α ex cb).Reachable s)
    {x : Exception} (hx : x ∈ s.thrown) :
    ¬ s.FailsFuture x ∧ (∃ site, (site, x) ∈ s.escaped) ∧
    (Task.fail (some x) ∈ s.resolutions → s.stream.ending.end? = some (.failed x)) := by
  obtain ⟨site, hsite⟩ : ∃ site, (site, x) ∈ s.escaped := by
    rw [← escaped_of_reachable h] at hx
    obtain ⟨⟨site, x'⟩, hmem, rfl⟩ := List.mem_map.1 hx
    exact ⟨site, hmem⟩
  refine ⟨?_, ⟨site, hsite⟩, ?_⟩
  · intro hfails
    rw [hfails.contained] at hsite
    cases hsite
  · intro hmem
    obtain ⟨t, hend, ht⟩ := resolved_by_end h _ hmem
    cases t with
    | complete => cases ht
    | failed x' =>
        cases ht
        exact hend

/-- A callback that throws on the value 7. -/
def throwsOn7 : Callback ℕ :=
  fun _ v => if v = 7 then some (.stdException (.ofText "seven")) else none

/-- The value is pushed after the callback was attached, and the stream is completed after that. -/
theorem throwing_callback_fails_no_future_pushed :
    ∃ s : ForEach (Fin 1) ℕ, s.resolutions = [.fullfill] ∧
      s.escaped = [(.push 0, .stdException (.ofText "seven"))] ∧
      ¬ s.FailsFuture (.stdException (.ofText "seven")) ∧
      (∃ site, (site, .stdException (.ofText "seven")) ∈ s.escaped) ∧
      (Task.fail (some (.stdException (.ofText "seven"))) ∈ s.resolutions →
        s.stream.ending.end? = some (.failed (.stdException (.ofText "seven")))) := by
  have hreach := Machine.reachable_of_run (M := machine (Fin 1) ℕ .immediate throwsOn7)
    [.publish, .register, .notify, .push 0 7, .deliver 0, .finish .complete, .deliverEnd] rfl
  exact ⟨_, rfl, rfl, throwing_callback_fails_no_future hreach (List.mem_singleton.2 rfl)⟩

/-- The value is buffered when the callback is attached: `for_each` itself is left, and nobody
    learns of the end of the stream. -/
theorem throwing_callback_leaves_for_each :
    ∃ s : ForEach (Fin 1) ℕ, (machine (Fin 1) ℕ .immediate throwsOn7).run {}
        [.push 0 7, .lock 0, .publish, .register, .finish .complete] = some s ∧
      s.thrown = [.stdException (.ofText "seven")] ∧
      s.escaped = [(.forEach, .stdException (.ofText "seven"))] ∧
      s.resolutions = [] ∧ ¬ s.FailsFuture (.stdException (.ofText "seven")) := by
  refine ⟨_, rfl, rfl, rfl, rfl, ?_⟩
  intro h
  cases h.resolved

end ForEach

end EasyGrpc
