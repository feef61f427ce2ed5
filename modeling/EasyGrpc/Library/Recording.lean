import EasyGrpc.Library.Machine

set_option autoImplicit false

/-! # Runs and what is recorded of them

`Machine.recording` is a machine whose states also carry a record of the run so far: each step
appends what `note` makes of the state before it, the event and the state after it. The machine
itself is not changed by being watched (`recording_step`), so a property of everything that happens
on a run is a property of the record. -/

variable {σ ε β γ : Type*}

/-- A state together with what was noted on the way to it, oldest first. -/
structure Recorded (σ β : Type*) where
  state : σ
  record : List β

namespace Machine

/-- `M`, of each of whose steps `note` is taken. -/
def recording (M : Machine σ ε) (note : σ → ε → σ → List β) : Machine (Recorded σ β) ε where
  init := ⟨M.init, []⟩
  step s e := (M.step s.state e).map (fun s' => ⟨s', s.record ++ note s.state e s'⟩)

variable {M : Machine σ ε} {note : σ → ε → σ → List β}

theorem recording_step {s s' : Recorded σ β} {e : ε} :
    (M.recording note).step s e = some s' ↔
      M.step s.state e = some s'.state ∧ s'.record = s.record ++ note s.state e s'.state := by
  rw [recording, Option.map_eq_some_iff]
  constructor
  · rintro ⟨t, ht, rfl⟩
    exact ⟨ht, rfl⟩
  · rintro ⟨ht, hrecord⟩
    refine ⟨s'.state, ht, ?_⟩
    rw [← hrecord]

/-- Every watched run is a run. -/
theorem Reachable.of_recording {s : Recorded σ β} (h : (M.recording note).Reachable s) :
    M.Reachable s.state := by
  induction h with
  | init => exact .init
  | step _ hstep ih => exact ih.step (recording_step.1 hstep).1

/-- **Record rule.** What holds of everything a step of a reachable state is noted with holds of
    everything on record. -/
theorem Reachable.forall_record {P : β → Prop}
    (hnote : ∀ {s s' : σ} {e : ε}, M.Reachable s → M.step s e = some s' →
      ∀ x ∈ note s e s', P x)
    {s : Recorded σ β} (h : (M.recording note).Reachable s) : ∀ x ∈ s.record, P x := by
  induction h with
  | init =>
      intro x hx
      cases hx
  | step hs hstep ih =>
      obtain ⟨hmove, hrecord⟩ := recording_step.1 hstep
      intro x hx
      rw [hrecord] at hx
      rcases List.mem_append.1 hx with hx | hx
      · exact ih x hx
      · exact hnote hs.of_recording hmove x hx

/-- **Account rule.** A list that each step extends by what it notes is the account of the
    record. -/
theorem Reachable.account {f : σ → List γ} {g : β → List γ} (hinit : f M.init = [])
    (hnote : ∀ {s s' : σ} {e : ε}, M.Reachable s → M.step s e = some s' →
      f s' = f s ++ (note s e s').flatMap g)
    {s : Recorded σ β} (h : (M.recording note).Reachable s) : f s.state = s.record.flatMap g := by
  induction h with
  | init => exact hinit
  | step hs hstep ih =>
      obtain ⟨hmove, hrecord⟩ := recording_step.1 hstep
      rw [hnote hs.of_recording hmove, hrecord, List.flatMap_append, ih]

end Machine
