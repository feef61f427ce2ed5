import EasyGrpc.Client.Channel

set_option autoImplicit false

/-! # The handles of client channels

As long as no channel that holds a handle is move-assigned to, channels own their handles
exclusively (`holdingsSimulation`). The move assignment drops the handle it overwrites. -/

namespace EasyGrpc

namespace Channels

/-- No two channels hold one handle, and the handles destroyed are those that no channel holds; none
    of them twice. -/
structure HandlesConserved (s : Channels) : Prop where
  distinct : ∀ {p q h : ℕ}, s.handle p = some h → s.handle q = some h → p = q
  held_lt : ∀ {p h : ℕ}, s.handle p = some h → h < s.created.length
  once : s.destroyed.Nodup
  destroyed_iff : ∀ h, h ∈ s.destroyed ↔ h < s.created.length ∧ ∀ p, s.handle p ≠ some h

/-! ## Channels as owners -/

def holdings (s : Channels) : Holdings ℕ := ⟨s.handle, s.created.length, s.destroyed⟩

theorem handle_of_object {s : Channels} {p : ℕ} {c : Option Channel} (h : s.object p = c) :
    s.handle p = c.bind (·.handle) :=
  Holdings.heldBy_of_eq _ h

theorem handle_eq (s : Channels) : s.handle = Holdings.heldBy (·.handle) s.object :=
  rfl

theorem holdings_moveMembers {s : Channels} {p rhs : ℕ} {members : Channel}
    (hrhs : s.object rhs = some members) :
    (s.moveMembers p rhs members).holdings = s.holdings.transfer rhs p := by
  have hfrom : s.handle rhs = members.handle := handle_of_object hrhs
  have hheld : (s.moveMembers p rhs members).handle
      = Function.update (Function.update s.handle p members.handle) rhs none := by
    rw [handle_eq, handle_eq, moveMembers, Holdings.heldBy_update, Holdings.heldBy_update]
    rfl
  simp only [holdings, Holdings.transfer, hheld, hfrom]
  rfl

def ownerEvents : Event → List (Ownership.Event ℕ)
  | .construct _ => []
  | .connect p _ _ => [.acquire p]
  | .moveConstruct p rhs | .moveAssign p rhs => [.transfer rhs p]
  | .destroy p => [.release p]

theorem holdings_step {s s' : Channels} {e : Event} (hstep : machine.step s e = some s')
    (hkeep : overwrites s e = false) :
    (Ownership.machine ℕ).run s.holdings (ownerEvents e) = some s'.holdings := by
  cases e with
  | construct p =>
      obtain ⟨hp, hs⟩ := Option.ite_none_right_eq_some.1 hstep
      cases hs
      have hblank : (some ({} : Channel)).bind (·.handle) = none := rfl
      simp only [ownerEvents, Machine.run, holdings, handle_eq,
        Holdings.heldBy_update_none hp hblank]
  | connect p addr defaultPool =>
      obtain ⟨hp, hs⟩ := Option.ite_none_right_eq_some.1 hstep
      have hempty : s.handle p = none := handle_of_object hp
      cases hs
      rw [ownerEvents, Ownership.run_acquire (s := s.holdings) hempty]
      simp only [holdings, Holdings.acquire, handle_eq, Holdings.heldBy_update, Option.bind_some,
        List.length_append, List.length_singleton]
  | moveConstruct p rhs =>
      obtain ⟨hp, hs⟩ := Option.ite_none_right_eq_some.1 hstep
      obtain ⟨members, hrhs, rfl⟩ := Option.map_eq_some_iff.1 hs
      have hempty : s.handle p = none := handle_of_object hp
      rw [holdings_moveMembers hrhs]
      exact Ownership.run_transfer (s := s.holdings) hempty
  | moveAssign p rhs =>
      obtain ⟨hp, hs⟩ := Option.ite_none_left_eq_some.1 hstep
      obtain ⟨members, hrhs, rfl⟩ := Option.map_eq_some_iff.1 hs
      have hempty : s.handle p = none := by simpa [overwrites] using hkeep
      rw [holdings_moveMembers hrhs]
      exact Ownership.run_transfer (s := s.holdings) hempty
  | destroy p =>
      obtain ⟨channel, hp, hs⟩ := Option.map_eq_some_iff.1 hstep
      have hfrom : s.handle p = channel.handle := handle_of_object hp
      cases hs
      rw [ownerEvents, Ownership.run_release]
      simp only [holdings, Holdings.release, hfrom]
      simp only [handle_eq, Holdings.heldBy_update, Option.bind_none]

/-- **Channels own their handles**, in the runs that never assign to a channel with a handle. -/
def holdingsSimulation :
    Simulation (machine.guard (fun s e => !overwrites s e)) (Ownership.machine ℕ) where
  abs := holdings
  inv _ := True
  events _ := ownerEvents
  inv_of_reachable _ := trivial
  abs_init := rfl
  abs_step := by
    intro s s' e _ hstep
    obtain ⟨hkeep, hmove⟩ := Machine.guard_step.1 hstep
    exact holdings_step hmove (by simpa using hkeep)

/-! ## Conservation -/

theorem handlesConserved_of_holdings {s : Channels} (h : s.holdings.Conserved) :
    s.HandlesConserved where
  distinct := h.distinct
  held_lt := h.held_lt
  once := h.once
  destroyed_iff := h.released_iff

/-- **The handles of client channels are conserved** in every run that never move-assigns to a
    channel with a handle. -/
theorem channel_handles_conserved {s : Channels}
    (h : (machine.guard (fun s e => !overwrites s e)).Reachable s) : s.HandlesConserved :=
  handlesConserved_of_holdings
    (Ownership.conserved_of_reachable (holdingsSimulation.reachable h))

/-- A channel is connected, moved into a default-constructed one and destroyed with it. -/
theorem channel_handles_conserved_moved :
    ∃ s : Channels, s.destroyed = [0] ∧ s.HandlesConserved :=
  ⟨_, rfl, channel_handles_conserved (Machine.reachable_of_run
    [.construct 0, .connect 1 "127.0.0.1:1" (some 7), .moveAssign 0 1, .destroy 1, .destroy 0] rfl)⟩

/-- What a move assignment overwrites has no holder any more, and was not destroyed. -/
theorem not_conserved_of_overwrites {s s' : Channels} {e : Event} (h : s.HandlesConserved)
    (hstep : machine.step s e = some s') (hbad : overwrites s e = true) :
    ¬ s'.HandlesConserved := by
  cases e with
  | construct p => cases hbad
  | connect p addr defaultPool => cases hbad
  | moveConstruct p rhs => cases hbad
  | destroy p => cases hbad
  | moveAssign p rhs =>
      obtain ⟨lost, hlost⟩ := Option.isSome_iff_exists.1 hbad
      obtain ⟨-, hs⟩ := Option.ite_none_left_eq_some.1 hstep
      obtain ⟨members, hrhs, rfl⟩ := Option.map_eq_some_iff.1 hs
      have hheld := Holdings.held_transfer s.holdings rhs p
      rw [← holdings_moveMembers hrhs] at hheld
      intro hconserved
      have hdestroyed : lost ∈ s.destroyed := by
        refine (hconserved.destroyed_iff lost).2 ⟨h.held_lt hlost, ?_⟩
        intro o ho
        -- Only `p` held it, and it now holds what `rhs` did.
        have hnew := (hheld o).symm.trans ho
        by_cases horhs : o = rhs
        · rw [if_pos horhs] at hnew
          cases hnew
        · rw [if_neg horhs] at hnew
          by_cases hop : o = p
          · rw [if_pos hop] at hnew
            exact horhs (hop.trans (h.distinct hlost hnew))
          · rw [if_neg hop] at hnew
            exact hop (h.distinct hnew hlost)
      exact ((h.destroyed_iff lost).1 hdestroyed).2 p hlost

/-- Without objects every handle must have been destroyed. -/
theorem HandlesConserved.destroyed_of_empty {s : Channels} (h : s.HandlesConserved)
    (hempty : ∀ p, s.object p = none) {i : ℕ} (hi : i < s.created.length) : i ∈ s.destroyed := by
  refine (h.destroyed_iff i).2 ⟨hi, ?_⟩
  intro p hp
  rw [handle_of_object (hempty p)] at hp
  cases hp

/-- Two channels are connected, one is move-assigned to the other and both are destroyed: the handle
    that was overwritten is never destroyed. -/
theorem overwritten_channel_handle_leaks :
    ∃ s, machine.run machine.init [.connect 0 "127.0.0.1:1" none, .connect 1 "127.0.0.1:2" none,
        .moveAssign 0 1, .destroy 1, .destroy 0] = some s ∧
      (∀ p, s.object p = none) ∧ s.created.length = 2 ∧ s.destroyed = [1] ∧
      ¬ s.HandlesConserved := by
  have hempty : ∀ s, machine.run machine.init [.connect 0 "127.0.0.1:1" none,
      .connect 1 "127.0.0.1:2" none, .moveAssign 0 1, .destroy 1, .destroy 0] = some s →
      ∀ p, s.object p = none := by
    rintro s ⟨⟩ p
    simp only [machine, moveMembers, Function.update_apply]
    split_ifs <;> rfl
  refine ⟨_, rfl, hempty _ rfl, rfl, rfl, ?_⟩
  intro h
  have hdestroyed : 0 ∈ [1] := h.destroyed_of_empty (hempty _ rfl) (by decide)
  exact absurd hdestroyed (by decide)

end Channels

end EasyGrpc
