import EasyGrpc.Library.Machine

set_option autoImplicit false

/-! # Coming to rest

Some events of a machine are its own and the others are its users'. A machine whose own steps lower
a measure comes to rest whenever its users do nothing: none of its own runs is longer than the
measure, and each can be continued to a state in which no step of its own is enabled. What holds in
such a state is then what the users can wait for. -/

namespace Machine

variable {σ ε : Type*}

/-- No step of the machine's own is enabled. -/
def AtRest (M : Machine σ ε) (own : ε → Bool) (s : σ) : Prop :=
  ∀ e, own e = true → M.step s e = none

/-- Every step of the machine's own lowers `μ`, in every state it can be in. -/
structure Quiesces (M : Machine σ ε) (own : ε → Bool) (μ : σ → ℕ) : Prop where
  lower : ∀ {s s' : σ} {e : ε}, M.Reachable s → own e = true → M.step s e = some s' → μ s' < μ s

/-- What the users of a machine can rely on in `s`, where `R` is what they wait for. -/
structure ComesToRest (M : Machine σ ε) (own : ε → Bool) (μ : σ → ℕ) (R : σ → Prop) (s : σ) :
    Prop where
  /-- No run of the machine's own is longer than the measure. -/
  bounded : ∀ es s', (∀ e ∈ es, own e = true) → M.run s es = some s' → es.length ≤ μ s
  /-- When none of its own steps is enabled, `R` holds. -/
  rests : M.AtRest own s → R s
  /-- It can always get there. -/
  reaches : ∃ es s', (∀ e ∈ es, own e = true) ∧ M.run s es = some s' ∧ M.AtRest own s' ∧ R s'

namespace Quiesces

variable {M : Machine σ ε} {own : ε → Bool} {μ : σ → ℕ}

/-- **Runs are bounded.** No run of the machine's own is longer than the measure. -/
theorem length_le (h : M.Quiesces own μ) {s s' : σ} {es : List ε} (hs : M.Reachable s)
    (hown : ∀ e ∈ es, own e = true) (hrun : M.run s es = some s') : es.length + μ s' ≤ μ s := by
  induction es generalizing s with
  | nil =>
      simp only [Machine.run, Option.some.injEq] at hrun
      simp [hrun]
  | cons e es ih =>
      simp only [Machine.run, Option.bind_eq_some_iff] at hrun
      obtain ⟨s₁, h₁, h₂⟩ := hrun
      have hlt := h.lower hs (hown e List.mem_cons_self) h₁
      have hle := ih (hs.step h₁) (fun x hx => hown x (List.mem_cons_of_mem _ hx)) h₂
      rw [List.length_cons]
      omega

/-- **Every run comes to rest.** -/
theorem exists_atRest (h : M.Quiesces own μ) {s : σ} (hs : M.Reachable s) :
    ∃ es s', (∀ e ∈ es, own e = true) ∧ M.run s es = some s' ∧ M.AtRest own s' := by
  induction hμ : μ s using Nat.strongRecOn generalizing s with
  | _ n ih =>
      by_cases hrest : M.AtRest own s
      · exact ⟨[], s, by simp, rfl, hrest⟩
      · obtain ⟨e, hown, hstep⟩ : ∃ e, own e = true ∧ M.step s e ≠ none := by
          simpa [AtRest] using hrest
        obtain ⟨s₁, hs₁⟩ := Option.ne_none_iff_exists'.1 hstep
        have hlt := h.lower hs hown hs₁
        obtain ⟨es, s', hes, hrun, hrest'⟩ := ih (μ s₁) (hμ ▸ hlt) (hs.step hs₁) rfl
        refine ⟨e :: es, s', ?_, ?_, hrest'⟩
        · intro x hx
          rcases List.mem_cons.1 hx with rfl | hx
          · exact hown
          · exact hes x hx
        · simp only [Machine.run, hs₁, Option.bind_some, hrun]

/-- **A machine that quiesces comes to rest**, if `R` holds wherever it is at rest. -/
theorem comesToRest (h : M.Quiesces own μ) {R : σ → Prop}
    (hR : ∀ s, M.Reachable s → M.AtRest own s → R s) {s : σ} (hs : M.Reachable s) :
    M.ComesToRest own μ R s := by
  refine ⟨?_, hR s hs, ?_⟩
  · intro es s' hown hrun
    exact Nat.le_of_add_right_le (h.length_le hs hown hrun)
  · obtain ⟨es, s', hown, hrun, hrest⟩ := h.exists_atRest hs
    exact ⟨es, s', hown, hrun, hrest, hR s' (hs.run hrun) hrest⟩

end Quiesces

end Machine
