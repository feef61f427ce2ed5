import Mathlib.Logic.Equiv.Basic
import EasyGrpc.Library.Machine

set_option autoImplicit false

/-! # Exclusive ownership

Objects that hold at most one resource each, numbered in the order of their creation. A resource is
created into an empty object, moves from one object to another, and is released by the object that
holds it. `Ownership.machine` is that specification and `Holdings.Conserved` its law; a program that
moves handles between objects by hand inherits it from a `Simulation`. -/

variable {ι α : Type*}

@[ext]
structure Holdings (ι : Type*) where
  held : ι → Option ℕ
  /-- How many resources were created. -/
  created : ℕ
  /-- Those released, oldest first. -/
  released : List ℕ

namespace Holdings

/-! ## Objects with a handle -/

/-- What each of the objects holds; `get` reads the handle of one. -/
def heldBy (get : α → Option ℕ) (object : ι → Option α) (p : ι) : Option ℕ := (object p).bind get

theorem heldBy_of_eq (get : α → Option ℕ) {object : ι → Option α} {p : ι} {o : Option α}
    (h : object p = o) : heldBy get object p = o.bind get :=
  congrArg (·.bind get) h

variable [DecidableEq ι]

theorem heldBy_update (get : α → Option ℕ) (object : ι → Option α) (p : ι) (o : Option α) :
    heldBy get (Function.update object p o) = Function.update (heldBy get object) p (o.bind get) :=
  Function.comp_update (fun o : Option α => o.bind get) object p o

/-- An object without a handle is as good as none. -/
theorem heldBy_update_none {get : α → Option ℕ} {object : ι → Option α} {p : ι} {o : Option α}
    (hp : object p = none) (ho : o.bind get = none) :
    heldBy get (Function.update object p o) = heldBy get object := by
  have hempty : heldBy get object p = none := heldBy_of_eq get hp
  rw [heldBy_update, ho, ← hempty, Function.update_eq_self]

/-! ## Operations -/

/-- Create a resource into `p`. -/
def acquire (s : Holdings ι) (p : ι) : Holdings ι :=
  { s with held := Function.update s.held p (some s.created), created := s.created + 1 }

/-- What `p` holds goes to `q`. -/
def transfer (s : Holdings ι) (p q : ι) : Holdings ι :=
  { s with held := Function.update (Function.update s.held q (s.held p)) p none }

/-- Release what `p` holds. -/
def release (s : Holdings ι) (p : ι) : Holdings ι :=
  { s with held := Function.update s.held p none, released := s.released ++ (s.held p).toList }

theorem held_acquire (s : Holdings ι) (p q : ι) :
    (s.acquire p).held q = if q = p then some s.created else s.held q :=
  Function.update_apply ..

theorem held_transfer (s : Holdings ι) (p q o : ι) :
    (s.transfer p q).held o = if o = p then none else if o = q then s.held p else s.held o := by
  simp only [transfer, Function.update_apply]

theorem held_release (s : Holdings ι) (p q : ι) :
    (s.release p).held q = if q = p then none else s.held q :=
  Function.update_apply ..

/-- A resource that is released by the object it was created into leaves no trace but the record of
    its release. -/
theorem acquire_release {s : Holdings ι} {p : ι} (hp : s.held p = none) :
    (s.acquire p).release p
      = { s with created := s.created + 1, released := s.released ++ [s.created] } := by
  have hheld : (s.acquire p).held p = some s.created := by rw [held_acquire, if_pos rfl]
  have hback : Function.update (s.acquire p).held p none = s.held := by
    rw [acquire, Function.update_idem, ← hp, Function.update_eq_self]
  rw [release, hback, hheld]
  rfl

end Holdings

namespace Ownership

inductive Event (ι : Type*) where
  | acquire (p : ι)
  | transfer (p q : ι)
  | release (p : ι)

/-- Only an empty object is given a resource. -/
def step [DecidableEq ι] (s : Holdings ι) : Event ι → Option (Holdings ι)
  | .acquire p => if s.held p = none then some (s.acquire p) else none
  | .transfer p q => if s.held q = none then some (s.transfer p q) else none
  | .release p => some (s.release p)

def machine (ι : Type*) [DecidableEq ι] : Machine (Holdings ι) (Event ι) where
  init := ⟨fun _ => none, 0, []⟩
  step := step

end Ownership

/-! ## Conservation -/

namespace Holdings

/-- No resource has two holders, and those released are those without one; none of them twice. -/
structure Conserved (s : Holdings ι) : Prop where
  distinct : ∀ {p q : ι} {r : ℕ}, s.held p = some r → s.held q = some r → p = q
  held_lt : ∀ {p : ι} {r : ℕ}, s.held p = some r → r < s.created
  released_iff : ∀ r, r ∈ s.released ↔ r < s.created ∧ ∀ p, s.held p ≠ some r
  once : s.released.Nodup

variable [DecidableEq ι]

/-- The new resource has a number that no object holds. -/
theorem Conserved.acquire {s : Holdings ι} (h : s.Conserved) {p : ι} (hp : s.held p = none) :
    (s.acquire p).Conserved := by
  have hfresh : ∀ q, s.held q ≠ some s.created := fun q hq => absurd (h.held_lt hq) (by simp)
  have hcreated : (s.acquire p).created = s.created + 1 := rfl
  have hreleased : (s.acquire p).released = s.released := rfl
  refine ⟨?_, ?_, ?_, h.once⟩
  · intro q q' r hq hq'
    rw [held_acquire] at hq hq'
    have := @h.distinct q q' r
    grind
  · intro q r hq
    rw [held_acquire] at hq
    have := @h.held_lt q r
    grind
  · intro r
    rw [hreleased, hcreated, h.released_iff r]
    constructor
    · rintro ⟨hlt, hne⟩
      refine ⟨Nat.lt_succ_of_lt hlt, ?_⟩
      intro q
      rw [held_acquire]
      have := hne q
      grind
    · rintro ⟨hlt, hne⟩
      have hr : r ≠ s.created := by
        rintro rfl
        exact hne p (by rw [held_acquire, if_pos rfl])
      refine ⟨by omega, ?_⟩
      intro q
      have := hne q
      rw [held_acquire] at this
      grind

/-- With `q` empty, `p` and `q` change places. -/
theorem held_transfer_swap {s : Holdings ι} {p q : ι} (hq : s.held q = none) (o : ι) :
    (s.transfer p q).held o = s.held (Equiv.swap p q o) := by
  rw [held_transfer, Equiv.swap_apply_def]
  by_cases hp : o = p
  · rw [if_pos hp, if_pos hp, hq]
  · rw [if_neg hp, if_neg hp]
    by_cases ho : o = q
    · rw [if_pos ho, if_pos ho]
    · rw [if_neg ho, if_neg ho]

theorem Conserved.transfer {s : Holdings ι} (h : s.Conserved) {p q : ι} (hq : s.held q = none) :
    (s.transfer p q).Conserved := by
  refine ⟨?_, ?_, ?_, h.once⟩
  · intro o o' r ho ho'
    rw [held_transfer_swap hq] at ho ho'
    exact (Equiv.swap p q).injective (h.distinct ho ho')
  · intro o r ho
    rw [held_transfer_swap hq] at ho
    exact h.held_lt ho
  · intro r
    have hnone : (∀ o, (s.transfer p q).held o ≠ some r) ↔ ∀ o, s.held o ≠ some r := by
      simp only [held_transfer_swap hq]
      exact (Equiv.swap p q).forall_congr_left.trans (by simp)
    rw [hnone]
    exact h.released_iff r

/-- What `p` held has no holder any more. -/
theorem Conserved.release {s : Holdings ι} (h : s.Conserved) (p : ι) : (s.release p).Conserved := by
  have hmem : ∀ r, r ∈ (s.release p).released ↔ r ∈ s.released ∨ s.held p = some r := by
    intro r
    rw [Holdings.release, List.mem_append, Option.mem_toList]
  have hheld : ∀ {q : ι} {r : ℕ}, (s.release p).held q = some r → q ≠ p ∧ s.held q = some r := by
    intro q r hq
    rw [held_release] at hq
    exact Option.ite_none_left_eq_some.1 hq
  refine ⟨?_, ?_, ?_, ?_⟩
  · intro q q' r hq hq'
    exact h.distinct (hheld hq).2 (hheld hq').2
  · intro q r hq
    exact h.held_lt (hheld hq).2
  · intro r
    rw [hmem, h.released_iff r]
    constructor
    · rintro (⟨hlt, hne⟩ | hp)
      · exact ⟨hlt, fun q hq => hne q (hheld hq).2⟩
      · exact ⟨h.held_lt hp, fun q hq => (hheld hq).1 (h.distinct (hheld hq).2 hp)⟩
    · rintro ⟨hlt, hne⟩
      by_cases hp : s.held p = some r
      · exact .inr hp
      · refine .inl ⟨hlt, ?_⟩
        intro q hq
        have hqp : q ≠ p := by
          rintro rfl
          exact hp hq
        exact hne q (by rw [held_release, if_neg hqp, hq])
  · refine List.nodup_append.2 ⟨h.once, ?_, ?_⟩
    · cases s.held p <;> simp
    · intro r hr r' hr' heq
      have hp : s.held p = some r' := Option.mem_toList.1 hr'
      exact ((h.released_iff r).1 hr).2 p (heq ▸ hp)

end Holdings

namespace Ownership

variable [DecidableEq ι]

theorem run_acquire {s : Holdings ι} {p : ι} (hp : s.held p = none) :
    (machine ι).run s [.acquire p] = some (s.acquire p) := by
  simp [Machine.run, machine, step, hp]

theorem run_acquire_release {s : Holdings ι} {p : ι} (hp : s.held p = none) :
    (machine ι).run s [.acquire p, .release p]
      = some { s with created := s.created + 1, released := s.released ++ [s.created] } := by
  have hrun : (machine ι).run s [.acquire p, .release p] = some ((s.acquire p).release p) := by
    simp [Machine.run, machine, step, hp]
  rw [hrun, Holdings.acquire_release hp]

theorem run_transfer {s : Holdings ι} {p q : ι} (hq : s.held q = none) :
    (machine ι).run s [.transfer p q] = some (s.transfer p q) := by
  simp [Machine.run, machine, step, hq]

theorem run_release {s : Holdings ι} {p : ι} :
    (machine ι).run s [.release p] = some (s.release p) :=
  rfl

theorem run_release_transfer {s : Holdings ι} {p q : ι} :
    (machine ι).run s [.release p, .transfer q p] = some ((s.release p).transfer q p) := by
  have hp : (s.release p).held p = none := by rw [Holdings.held_release, if_pos rfl]
  exact run_transfer hp

/-! ## Every run conserves resources -/

theorem conserved_init : (machine ι).init.Conserved := by
  refine ⟨?_, ?_, ?_, List.nodup_nil⟩ <;> simp [machine]

theorem conserved_step {s s' : Holdings ι} {e : Event ι} (hstep : (machine ι).step s e = some s')
    (h : s.Conserved) : s'.Conserved := by
  cases e with
  | acquire p =>
      obtain ⟨hp, hs⟩ := Option.ite_none_right_eq_some.1 hstep
      cases hs
      exact h.acquire hp
  | transfer p q =>
      obtain ⟨hq, hs⟩ := Option.ite_none_right_eq_some.1 hstep
      cases hs
      exact h.transfer hq
  | release p =>
      cases hstep
      exact h.release p

/-- **Exclusive ownership conserves resources**: in every reachable state a resource has at most one
    holder, and is released once it has none. -/
theorem conserved_of_reachable {s : Holdings ι} (h : (machine ι).Reachable s) : s.Conserved :=
  h.invariant conserved_init conserved_step

end Ownership
