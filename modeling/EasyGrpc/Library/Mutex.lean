import Mathlib.Data.List.Basic

set_option autoImplicit false

/-! # A non-recursive mutex

The state a mutex protects, as the one thread sees it that is running: `held` says whether this
thread holds the mutex. An operation is `none` when the thread tries to lock the mutex while it
holds it. -/

variable {σ α : Type*}

structure Guarded (σ : Type*) where
  val : σ
  held : Bool := false

namespace Guarded

def lock (g : Guarded σ) : Option (Guarded σ) :=
  if g.held then none else some { g with held := true }

/-- Also the end of a scope whose lock was released before. -/
def unlock (g : Guarded σ) : Guarded σ := { g with held := false }

def map (g : Guarded σ) (f : σ → σ) : Guarded σ := { g with val := f g.val }

/-- `f` in a scope that holds the mutex. -/
def withLock (g : Guarded σ) (f : σ → σ) : Option (Guarded σ) :=
  g.lock.map (fun g => (g.map f).unlock)

@[simp] theorem lock_of_free (val : σ) : lock ⟨val, false⟩ = some ⟨val, true⟩ := rfl

theorem withLock_of_free {g : Guarded σ} (h : g.held = false) (f : σ → σ) :
    g.withLock f = some { g with val := f g.val } := by
  simp [withLock, lock, map, unlock, h]

theorem withLock_of_held {g : Guarded σ} (h : g.held = true) (f : σ → σ) :
    g.withLock f = none := by
  simp [withLock, lock, h]

/-- Actions that succeed and give the mutex back when the thread does not hold it do so one after
    the other. -/
theorem foldlM_of_free {act : Guarded σ → α → Option (Guarded σ)}
    (hact : ∀ g a, g.held = false → ∃ g', act g a = some g' ∧ g'.held = false) (actions : List α)
    {g : Guarded σ} (hfree : g.held = false) :
    ∃ g', actions.foldlM act g = some g' ∧ g'.held = false := by
  induction actions generalizing g with
  | nil => exact ⟨g, rfl, hfree⟩
  | cons a actions ih =>
      obtain ⟨g₁, hstep, hfree₁⟩ := hact g a hfree
      obtain ⟨g₂, hrest, hfree₂⟩ := ih hfree₁
      refine ⟨g₂, ?_, hfree₂⟩
      rw [List.foldlM_cons, hstep]
      exact hrest

end Guarded
