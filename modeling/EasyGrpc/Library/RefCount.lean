import Mathlib.Data.Set.Card
import EasyGrpc.Library.Ownership

set_option autoImplicit false

/-! # Reference counting

Objects that share resources: several may hold one. A count is kept beside each resource, raised and
lowered by whoever holds it, and the resource is released by the holder that lowers it from one.
`RefCounted.Exact` says that this finds the last holder. -/

variable {ι : Type*}

@[ext]
structure RefCounted (ι : Type*) extends Holdings ι where
  count : ℕ → ℕ
  /-- What was given to a holder, oldest first. -/
  acquired : List ℕ

namespace RefCounted

def holders (s : RefCounted ι) (r : ℕ) : Set ι := {p | s.held p = some r}

theorem mem_holders {s : RefCounted ι} {p : ι} {r : ℕ} : p ∈ s.holders r ↔ s.held p = some r :=
  Iff.rfl

/-! ## Operations -/

section Operations

variable [DecidableEq ι]

/-- A new resource, without a holder. -/
def create (s : RefCounted ι) : RefCounted ι := { s with created := s.created + 1 }

/-- `p` becomes a holder of `r`. -/
def share (s : RefCounted ι) (p : ι) (r : ℕ) : RefCounted ι :=
  { s with
    held := Function.update s.held p (some r)
    count := Function.update s.count r (s.count r + 1)
    acquired := s.acquired ++ [r] }

/-- What `p` holds goes to `q`. -/
def transfer (s : RefCounted ι) (p q : ι) : RefCounted ι :=
  { s with toHoldings := s.toHoldings.transfer p q }

/-- `p` gives up what it holds. -/
def drop (s : RefCounted ι) (p : ι) : RefCounted ι :=
  match s.held p with
  | none => s
  | some r =>
      { s with
        held := Function.update s.held p none
        count := Function.update s.count r (s.count r - 1)
        released := if s.count r = 1 then s.released ++ [r] else s.released }

theorem drop_of_none {s : RefCounted ι} {p : ι} (hp : s.held p = none) : s.drop p = s := by
  rw [drop, hp]

theorem drop_of_some {s : RefCounted ι} {p : ι} {r : ℕ} (hp : s.held p = some r) :
    s.drop p = { s with
      held := Function.update s.held p none
      count := Function.update s.count r (s.count r - 1)
      released := if s.count r = 1 then s.released ++ [r] else s.released } := by
  rw [drop, hp]

theorem held_share (s : RefCounted ι) (p : ι) (r : ℕ) (q : ι) :
    (s.share p r).held q = if q = p then some r else s.held q :=
  Function.update_apply ..

theorem held_drop {s : RefCounted ι} {p : ι} {r : ℕ} (hp : s.held p = some r) (q : ι) :
    (s.drop p).held q = if q = p then none else s.held q := by
  rw [drop_of_some hp]
  exact Function.update_apply ..

theorem holders_share {s : RefCounted ι} {p : ι} (hp : s.held p = none) (r r' : ℕ) :
    (s.share p r).holders r' = if r' = r then insert p (s.holders r') else s.holders r' := by
  ext q
  rw [mem_holders, held_share]
  by_cases hr : r' = r
  · rw [if_pos hr, Set.mem_insert_iff, hr, mem_holders]
    by_cases hqp : q = p <;> simp [hqp]
  · rw [if_neg hr, mem_holders]
    by_cases hqp : q = p
    · simp [hqp, hp, Ne.symm hr]
    · rw [if_neg hqp]

theorem holders_transfer {s : RefCounted ι} {p q : ι} (hq : s.held q = none) (r : ℕ) :
    (s.transfer p q).holders r = Set.preimage (Equiv.swap p q) (s.holders r) := by
  ext o
  exact iff_of_eq (congrArg (· = some r) (Holdings.held_transfer_swap hq o))

theorem holders_drop {s : RefCounted ι} {p : ι} {r : ℕ} (hp : s.held p = some r) (r' : ℕ) :
    (s.drop p).holders r' = if r' = r then s.holders r' \ {p} else s.holders r' := by
  ext q
  rw [mem_holders, held_drop hp, Option.ite_none_left_eq_some]
  by_cases hr : r' = r
  · rw [if_pos hr, Set.mem_sdiff, Set.mem_singleton_iff, mem_holders]
    exact and_comm
  · rw [if_neg hr, mem_holders]
    have hqp : s.held q = some r' → q ≠ p := by
      rintro hq rfl
      exact hr (Option.some.inj (hq.symm.trans hp))
    exact ⟨And.right, fun h => ⟨hqp h, h⟩⟩

end Operations

/-! ## Exact counts -/

/-- The counts are the numbers of holders, and a resource that had a holder is released once its
    count is zero; none is released twice. -/
structure Exact (s : RefCounted ι) : Prop where
  count_eq : ∀ r, (s.holders r).encard = s.count r
  held_acquired : ∀ {p : ι} {r : ℕ}, s.held p = some r → r ∈ s.acquired
  acquired_lt : ∀ r ∈ s.acquired, r < s.created
  released_iff : ∀ r, r ∈ s.released ↔ r ∈ s.acquired ∧ s.count r = 0
  once : s.released.Nodup

theorem Exact.count_eq_zero_iff {s : RefCounted ι} (h : s.Exact) (r : ℕ) :
    s.count r = 0 ↔ ∀ p, s.held p ≠ some r := by
  have hcount := h.count_eq r
  constructor
  · intro hzero p hp
    rw [hzero, Nat.cast_zero, Set.encard_eq_zero] at hcount
    exact Set.notMem_empty p (hcount ▸ mem_holders.2 hp)
  · intro hnone
    have hempty : s.holders r = ∅ := Set.eq_empty_of_forall_notMem hnone
    rw [hempty, Set.encard_empty] at hcount
    exact (Nat.cast_eq_zero.1 hcount.symm)

theorem Exact.count_pos {s : RefCounted ι} (h : s.Exact) {p : ι} {r : ℕ} (hp : s.held p = some r) :
    0 < s.count r :=
  Nat.pos_of_ne_zero (fun hzero => (h.count_eq_zero_iff r).1 hzero p hp)

/-- What is held was not released. -/
theorem Exact.held_live {s : RefCounted ι} (h : s.Exact) {p : ι} {r : ℕ} (hp : s.held p = some r) :
    r < s.created ∧ r ∉ s.released := by
  refine ⟨h.acquired_lt r (h.held_acquired hp), fun hreleased => ?_⟩
  have hzero := ((h.released_iff r).1 hreleased).2
  exact absurd (h.count_pos hp) (by omega)

/-- A resource is released when it had holders and has none. -/
theorem Exact.released_iff_unheld {s : RefCounted ι} (h : s.Exact) (r : ℕ) :
    r ∈ s.released ↔ r ∈ s.acquired ∧ ∀ p, s.held p ≠ some r := by
  rw [h.released_iff, h.count_eq_zero_iff]

theorem Exact.create {s : RefCounted ι} (h : s.Exact) : s.create.Exact where
  count_eq := h.count_eq
  held_acquired := h.held_acquired
  acquired_lt r hr := Nat.lt_succ_of_lt (h.acquired_lt r hr)
  released_iff := h.released_iff
  once := h.once

variable [DecidableEq ι]

theorem Exact.share {s : RefCounted ι} (h : s.Exact) {p : ι} {r : ℕ} (hp : s.held p = none)
    (hlt : r < s.created) (hlive : r ∉ s.released) : (s.share p r).Exact := by
  refine ⟨?_, ?_, ?_, ?_, h.once⟩
  · intro r'
    rw [holders_share hp]
    by_cases hr : r' = r
    · have hnew : p ∉ s.holders r := by
        rw [mem_holders, hp]
        simp
      rw [if_pos hr, hr, Set.encard_insert_of_notMem hnew, h.count_eq r]
      simp [RefCounted.share]
    · rw [if_neg hr, h.count_eq r']
      simp [RefCounted.share, Function.update_of_ne hr]
  · intro q r' hq
    rw [held_share] at hq
    by_cases hqp : q = p
    · rw [if_pos hqp] at hq
      cases hq
      exact List.mem_append_right _ (List.mem_singleton_self r)
    · rw [if_neg hqp] at hq
      exact List.mem_append_left _ (h.held_acquired hq)
  · intro r' hr'
    rcases List.mem_append.1 hr' with hr' | hr'
    · exact h.acquired_lt r' hr'
    · rw [List.mem_singleton.1 hr']
      exact hlt
  · intro r'
    by_cases hr : r' = r
    · subst hr
      have hcount : (s.share p r').count r' = s.count r' + 1 := Function.update_self ..
      rw [hcount]
      exact ⟨fun hreleased => absurd hreleased hlive, fun ⟨_, hzero⟩ => by omega⟩
    · have hcount : (s.share p r).count r' = s.count r' := Function.update_of_ne hr ..
      have hmem : r' ∈ (s.share p r).acquired ↔ r' ∈ s.acquired := by
        simp [RefCounted.share, hr]
      rw [hcount, hmem]
      exact h.released_iff r'

theorem Exact.transfer {s : RefCounted ι} (h : s.Exact) {p q : ι} (hq : s.held q = none) :
    (s.transfer p q).Exact := by
  refine ⟨?_, ?_, h.acquired_lt, h.released_iff, h.once⟩
  · intro r
    rw [holders_transfer hq, Set.encard_preimage_of_bijective (Equiv.swap p q).bijective]
    exact h.count_eq r
  · intro o r ho
    exact h.held_acquired ((Holdings.held_transfer_swap hq o).symm.trans ho)

theorem Exact.drop {s : RefCounted ι} (h : s.Exact) (p : ι) : (s.drop p).Exact := by
  cases hp : s.held p with
  | none =>
      rw [drop_of_none hp]
      exact h
  | some r =>
      have hpos := h.count_pos hp
      have hcount : (s.drop p).count = Function.update s.count r (s.count r - 1) := by
        rw [drop_of_some hp]
      have hreleased : ∀ r', r' ∈ (s.drop p).released ↔ r' ∈ s.released ∨ s.count r = 1 ∧ r' = r := by
        intro r'
        rw [drop_of_some hp]
        by_cases hone : s.count r = 1 <;> simp [hone]
      have hlive := h.held_live hp
      refine ⟨?_, ?_, ?_, ?_, ?_⟩
      · intro r'
        rw [holders_drop hp, hcount, Function.update_apply]
        by_cases hr : r' = r
        · rw [if_pos hr, if_pos hr, hr]
          rw [Set.encard_sdiff_singleton_of_mem (mem_holders.2 hp), h.count_eq r, ENat.natCast_sub]
          rfl
        · rw [if_neg hr, if_neg hr]
          exact h.count_eq r'
      · intro q r' hq
        rw [held_drop hp] at hq
        have hacquired : (s.drop p).acquired = s.acquired := by rw [drop_of_some hp]
        rw [hacquired]
        exact h.held_acquired (Option.ite_none_left_eq_some.1 hq).2
      · rw [drop_of_some hp]
        exact h.acquired_lt
      · intro r'
        have hacquired : (s.drop p).acquired = s.acquired := by rw [drop_of_some hp]
        rw [hreleased, hcount, hacquired, Function.update_apply]
        by_cases hr : r' = r
        · rw [if_pos hr, hr]
          have hmem := h.held_acquired hp
          constructor
          · rintro (hmem' | ⟨hone, -⟩)
            · exact absurd hmem' hlive.2
            · exact ⟨hmem, by omega⟩
          · rintro ⟨-, hzero⟩
            exact .inr ⟨by omega, rfl⟩
        · rw [if_neg hr]
          simp [hr, h.released_iff r']
      · rw [drop_of_some hp]
        by_cases hone : s.count r = 1
        · simp only [if_pos hone]
          refine List.nodup_append.2 ⟨h.once, List.nodup_singleton r, ?_⟩
          intro r₁ hr₁ r₂ hr₂ heq
          rw [List.mem_singleton.1 hr₂] at heq
          exact hlive.2 (heq ▸ hr₁)
        · simp only [if_neg hone]
          exact h.once

/-! ## The machine -/

inductive Event (ι : Type*) where
  | create
  | share (p : ι) (r : ℕ)
  | transfer (p q : ι)
  | drop (p : ι)

/-- Only an empty object is given a resource, and only one that was not released. -/
def step (s : RefCounted ι) : Event ι → Option (RefCounted ι)
  | .create => some s.create
  | .share p r =>
      if s.held p = none ∧ r < s.created ∧ r ∉ s.released then some (s.share p r) else none
  | .transfer p q => if s.held q = none then some (s.transfer p q) else none
  | .drop p => some (s.drop p)

def machine (ι : Type*) [DecidableEq ι] : Machine (RefCounted ι) (Event ι) where
  init := ⟨⟨fun _ => none, 0, []⟩, fun _ => 0, []⟩
  step := step

theorem Reachable.create {s : RefCounted ι} (h : (machine ι).Reachable s) :
    (machine ι).Reachable s.create :=
  h.step (e := .create) rfl

theorem Reachable.share {s : RefCounted ι} (h : (machine ι).Reachable s) {p : ι} {r : ℕ}
    (hp : s.held p = none) (hlt : r < s.created) (hlive : r ∉ s.released) :
    (machine ι).Reachable (s.share p r) :=
  h.step (e := .share p r) (if_pos ⟨hp, hlt, hlive⟩)

theorem Reachable.transfer {s : RefCounted ι} (h : (machine ι).Reachable s) {p q : ι}
    (hq : s.held q = none) : (machine ι).Reachable (s.transfer p q) :=
  h.step (e := .transfer p q) (if_pos hq)

theorem Reachable.drop {s : RefCounted ι} (h : (machine ι).Reachable s) (p : ι) :
    (machine ι).Reachable (s.drop p) :=
  h.step (e := .drop p) rfl

/-! ## Every run keeps its counts -/

theorem exact_init : (machine ι).init.Exact := by
  refine ⟨?_, ?_, ?_, ?_, List.nodup_nil⟩
  · intro r
    have hempty : (machine ι).init.holders r = ∅ := by
      refine Set.eq_empty_of_forall_notMem ?_
      intro p hp
      cases mem_holders.1 hp
    rw [hempty, Set.encard_empty]
    rfl
  · intro p r hp
    cases hp
  · simp [machine]
  · simp [machine]

theorem exact_step {s s' : RefCounted ι} {e : Event ι} (hstep : (machine ι).step s e = some s')
    (h : s.Exact) : s'.Exact := by
  cases e with
  | create =>
      cases hstep
      exact h.create
  | share p r =>
      obtain ⟨⟨hp, hlt, hlive⟩, hs⟩ := Option.ite_none_right_eq_some.1 hstep
      cases hs
      exact h.share hp hlt hlive
  | transfer p q =>
      obtain ⟨hq, hs⟩ := Option.ite_none_right_eq_some.1 hstep
      cases hs
      exact h.transfer hq
  | drop p =>
      cases hstep
      exact h.drop p

/-- **Reference counts are exact** in every reachable state. -/
theorem exact_of_reachable {s : RefCounted ι} (h : (machine ι).Reachable s) : s.Exact :=
  h.invariant exact_init exact_step

end RefCounted
