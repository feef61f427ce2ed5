import Mathlib.Data.List.Basic

set_option autoImplicit false

/-! # Guarded transition systems

A `Machine` is an initial state and an executable step function: `step s e` is `none` when the
event `e` is not enabled in `s`. Every behavioural model of the development is a `Machine`, so one
definition serves for replaying a concrete run (`Machine.run`, evaluated by `rfl`) and for proving a
property of every reachable state (`Machine.Reachable`).

Two constructions are shared by all of them: `Machine.guard` keeps only the steps that meet a
condition (a statement about *runs whose steps all meet the condition* is a statement about the
guarded machine), and `Simulation` relates a machine to a more abstract one. -/

variable {σ ε α β : Type*}

/-- An initial state and a partial step function; `none` means "not enabled". -/
structure Machine (σ ε : Type*) where
  init : σ
  step : σ → ε → Option σ

namespace Machine

/-! ## Runs and reachable states -/

/-- Replay the events `es` from `s`; `none` if one of them is not enabled on the way. -/
def run (M : Machine σ ε) : σ → List ε → Option σ
  | s, [] => some s
  | s, e :: es => (M.step s e).bind (M.run · es)

/-- The states some run from the initial state ends in. -/
inductive Reachable (M : Machine σ ε) : σ → Prop
  | init : M.Reachable M.init
  | step {s s' : σ} {e : ε} : M.Reachable s → M.step s e = some s' → M.Reachable s'

theorem Reachable.run {M : Machine σ ε} {s s' : σ} {es : List ε} (hs : M.Reachable s)
    (h : M.run s es = some s') : M.Reachable s' := by
  induction es generalizing s with
  | nil => simp only [Machine.run, Option.some.injEq] at h; exact h ▸ hs
  | cons e es ih =>
      simp only [Machine.run, Option.bind_eq_some_iff] at h
      obtain ⟨s₁, h₁, h₂⟩ := h
      exact ih (hs.step h₁) h₂

/-- The end of a replay from the initial state is reachable. -/
theorem reachable_of_run {M : Machine σ ε} {s : σ} (es : List ε) (h : M.run M.init es = some s) :
    M.Reachable s :=
  Reachable.init.run h

/-- **Invariant rule.** What holds initially and is preserved by every enabled step holds in every
    reachable state. -/
theorem Reachable.invariant {M : Machine σ ε} {P : σ → Prop} (h0 : P M.init)
    (hpres : ∀ {s s' : σ} {e : ε}, M.step s e = some s' → P s → P s') {s : σ}
    (hs : M.Reachable s) : P s := by
  induction hs with
  | init => exact h0
  | step _ hnext ih => exact hpres hnext ih

/-- **Run rule.** What every enabled step of a reachable state preserves, every run from one
    preserves. -/
theorem Reachable.run_invariant {M : Machine σ ε} {P : σ → Prop}
    (hpres : ∀ {s s' : σ} {e : ε}, M.Reachable s → M.step s e = some s' → P s → P s')
    {s s' : σ} {es : List ε} (hs : M.Reachable s) (h0 : P s) (h : M.run s es = some s') : P s' := by
  induction es generalizing s with
  | nil =>
      simp only [Machine.run, Option.some.injEq] at h
      exact h ▸ h0
  | cons e es ih =>
      simp only [Machine.run, Option.bind_eq_some_iff] at h
      obtain ⟨s₁, h₁, h₂⟩ := h
      exact ih (hs.step h₁) (hpres hs h₁ h0) h₂

/-- **Termination rule.** Where every enabled step lowers a measure, no run is longer than the
    measure of the state it starts in. -/
theorem length_run_le {M : Machine σ ε} (μ : σ → ℕ)
    (hstep : ∀ {s s' : σ} {e : ε}, M.step s e = some s' → μ s' < μ s) {s s' : σ} {es : List ε}
    (h : M.run s es = some s') : es.length + μ s' ≤ μ s := by
  induction es generalizing s with
  | nil =>
      simp only [Machine.run, Option.some.injEq] at h
      simp [h]
  | cons e es ih =>
      simp only [Machine.run, Option.bind_eq_some_iff] at h
      obtain ⟨s₁, h₁, h₂⟩ := h
      have hlt := hstep h₁
      have hle := ih h₂
      rw [List.length_cons]
      omega

/-! ## Guarded machines -/

/-- The machine that takes only the steps meeting `C`, a condition on the event and on the state
    before it. -/
def guard (M : Machine σ ε) (C : σ → ε → Bool) : Machine σ ε where
  init := M.init
  step s e := if C s e then M.step s e else none

theorem guard_step {M : Machine σ ε} {C : σ → ε → Bool} {s s' : σ} {e : ε} :
    (M.guard C).step s e = some s' ↔ C s e = true ∧ M.step s e = some s' := by
  simp only [guard]
  split
  · next h => simp [h]
  · next h => simp [h]

theorem Reachable.of_guard {M : Machine σ ε} {C : σ → ε → Bool} {s : σ}
    (h : (M.guard C).Reachable s) : M.Reachable s := by
  induction h with
  | init => exact .init
  | step _ hnext ih => exact ih.step (guard_step.1 hnext).2

/-- A run that meets a condition meets every weaker one. -/
theorem Reachable.guard_mono {M : Machine σ ε} {C D : σ → ε → Bool}
    (hCD : ∀ s e, C s e = true → D s e = true) {s : σ} (h : (M.guard C).Reachable s) :
    (M.guard D).Reachable s := by
  induction h with
  | init => exact .init
  | step _ hnext ih =>
      obtain ⟨hC, hM⟩ := guard_step.1 hnext
      exact ih.step (guard_step.2 ⟨hCD _ _ hC, hM⟩)

theorem run_of_guard {M : Machine σ ε} {C : σ → ε → Bool} {s s' : σ} {es : List ε}
    (h : (M.guard C).run s es = some s') : M.run s es = some s' := by
  induction es generalizing s with
  | nil => exact h
  | cons e es ih =>
      simp only [Machine.run, Option.bind_eq_some_iff] at h ⊢
      obtain ⟨s₁, hstep, hrest⟩ := h
      exact ⟨s₁, (guard_step.1 hstep).2, ih hrest⟩

/-- **Invariant rule for runs that meet `C`.** Preservation is asked only of the steps that meet
    `C`, and may use what is already known of every reachable state. -/
theorem Reachable.guard_invariant {M : Machine σ ε} {C : σ → ε → Bool} {P : σ → Prop}
    (h0 : P M.init)
    (hpres : ∀ {s s' : σ} {e : ε}, M.Reachable s → M.step s e = some s' → C s e = true →
      P s → P s')
    {s : σ} (hs : (M.guard C).Reachable s) : P s := by
  induction hs with
  | init => exact h0
  | step hs hnext ih =>
      obtain ⟨hC, hM⟩ := guard_step.1 hnext
      exact hpres hs.of_guard hM hC ih

/-- **Breaking rule.** If no run that meets `C` ends in `P`, every step that does not meet `C` leads
    into `P` and no step leads out of it, then a run ends in `P` exactly if one of its steps does
    not meet `C`. -/
theorem guard_run_eq_none_iff {M : Machine σ ε} {C : σ → ε → Bool} {P : σ → Prop}
    (hmeets : ∀ {s : σ}, (M.guard C).Reachable s → ¬ P s)
    (hbreaks : ∀ {s s' : σ} {e : ε}, M.Reachable s → M.step s e = some s' → C s e = false → P s')
    (hstays : ∀ {s s' : σ} {e : ε}, M.Reachable s → M.step s e = some s' → P s → P s')
    {s s' : σ} {es : List ε} (hs : (M.guard C).Reachable s) (hrun : M.run s es = some s') :
    (M.guard C).run s es = none ↔ P s' := by
  induction es generalizing s with
  | nil =>
      simp only [Machine.run, Option.some.injEq] at hrun
      obtain rfl := hrun
      constructor
      · intro hnone
        cases hnone
      · intro hP
        exact absurd hP (hmeets hs)
  | cons e es ih =>
      simp only [Machine.run, Option.bind_eq_some_iff] at hrun
      obtain ⟨s₁, hstep, hrun⟩ := hrun
      cases hC : C s e with
      | true =>
          have hguard := guard_step.2 ⟨hC, hstep⟩
          simp only [Machine.run, hguard, Option.bind_some]
          exact ih (hs.step hguard) hrun
      | false =>
          have hbroken := hbreaks hs.of_guard hstep hC
          have hnone : (M.guard C).step s e = none := by simp [guard, hC]
          simp only [Machine.run, hnone, Option.bind_none, true_iff]
          exact (hs.of_guard.step hstep).run_invariant hstays hbroken hrun

end Machine

/-! ## Simulations -/

/-- `M` simulates into `A`: states are read through `abs`, and each step of a state in `inv` is
    matched by a (possibly empty) sequence of abstract events. -/
structure Simulation (M : Machine σ ε) (A : Machine α β) where
  abs : σ → α
  /-- What is known of the concrete state; supplied by the concrete machine's own invariant. -/
  inv : σ → Prop
  events : σ → ε → List β
  inv_of_reachable : ∀ {s : σ}, M.Reachable s → inv s
  abs_init : abs M.init = A.init
  abs_step : ∀ {s s' : σ} {e : ε}, inv s → M.step s e = some s' →
    A.run (abs s) (events s e) = some (abs s')

/-- **Simulation rule.** The image of a reachable state is reachable in the abstract machine. -/
theorem Simulation.reachable {M : Machine σ ε} {A : Machine α β} (S : Simulation M A) {s : σ}
    (h : M.Reachable s) : A.Reachable (S.abs s) := by
  induction h with
  | init => rw [S.abs_init]; exact .init
  | step hs hnext ih => exact ih.run (S.abs_step (S.inv_of_reachable hs) hnext)
