import EasyGrpc.Library.Machine

set_option autoImplicit false

/-! # Families of machines

Any number of machines, of any number of kinds, side by side: members are added one at a time and
each step is a step of one member. This is the specification of a system that serves independent
parties through one shared resource. -/

namespace Machine

variable {ι : Type*} {σ ε : ι → Type*}

/-- What happens in a family. -/
inductive FamilyEvent {ι : Type*} (ε : ι → Type*) where
  /-- A member of kind `i` is added. -/
  | spawn (i : ι)
  /-- The `n`-th member takes the step `e` has for its kind. -/
  | act (n : ℕ) (e : (i : ι) → ε i)

/-- The machines `M` side by side. -/
def family (M : (i : ι) → Machine (σ i) (ε i)) : Machine (List (Sigma σ)) (FamilyEvent ε) where
  init := []
  step s
    | .spawn i => some (s ++ [⟨i, (M i).init⟩])
    | .act n e => s[n]?.bind (fun m =>
        ((M m.1).step m.2 (e m.1)).map (fun t => s.set n ⟨m.1, t⟩))

/-- **Members are independent.** Each member of a reachable family is in a state it reaches on its
    own. -/
theorem Reachable.family_member {M : (i : ι) → Machine (σ i) (ε i)} {s : List (Sigma σ)}
    (h : (family M).Reachable s) {m : Sigma σ} (hm : m ∈ s) : (M m.1).Reachable m.2 := by
  revert m
  refine h.invariant (P := fun s => ∀ {m : Sigma σ}, m ∈ s → (M m.1).Reachable m.2)
    (fun hm => by cases hm) ?_
  intro s s' e hstep ih m hm
  cases e with
  | spawn i =>
      obtain rfl : s ++ [⟨i, (M i).init⟩] = s' := by simpa [family] using hstep
      rcases List.mem_append.1 hm with hold | hnew
      · exact ih hold
      · obtain rfl : m = ⟨i, (M i).init⟩ := List.mem_singleton.1 hnew
        exact .init
  | act n e =>
      simp only [family, Option.bind_eq_some_iff, Option.map_eq_some_iff] at hstep
      obtain ⟨a, ha, t, ht, rfl⟩ := hstep
      rcases List.mem_or_eq_of_mem_set hm with hold | rfl
      · exact ih hold
      · exact (ih (List.mem_of_getElem? ha)).step ht

end Machine
