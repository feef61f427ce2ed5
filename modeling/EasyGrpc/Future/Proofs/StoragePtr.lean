import EasyGrpc.Future.StoragePtr

set_option autoImplicit false

/-! # Reference counts of shared states

`Storage_ptr` counts its references (`Counts`) as long as no copy is assigned, no allocation into a
pointer that is not null fails and no storage is given a 256th owner. -/

namespace EasyGrpc

namespace StoragePtrs

def owners (s : StoragePtrs) (i : ℕ) : Set ℕ := {p | s.ptr p = some (some i)}

/-- The counts of live storages are the numbers of their owners; a storage that had an owner is
    destroyed once it has none, and only once; no count is accessed after that, and every operation
    has returned. -/
structure CountsExact (s : StoragePtrs) : Prop where
  count_eq : ∀ i, i < s.constructed → i ∉ s.destroyed → (s.owners i).encard = (s.refCount i).toNat
  destroyed_iff : ∀ i, i ∈ s.destroyed ↔ i ∈ s.acquired ∧ ∀ p, s.ptr p ≠ some (some i)
  once : s.destroyed.Nodup
  no_fault : s.faults = []
  returned : s.noReturn = false

/-! ## Pointers as holders -/

def refCounted (s : StoragePtrs) : RefCounted ℕ where
  held := s.target
  created := s.constructed
  released := s.destroyed
  count i := (s.refCount i).toNat
  acquired := s.acquired

theorem target_eq_some {s : StoragePtrs} {p i : ℕ} :
    s.target p = some i ↔ s.ptr p = some (some i) := by
  rw [target, Option.bind_eq_some_iff]
  constructor
  · rintro ⟨o, ho, hi⟩
    rw [ho]
    exact congrArg some hi
  · intro h
    exact ⟨some i, h, rfl⟩

theorem target_of_ptr {s : StoragePtrs} {p : ℕ} {o : Option (Option ℕ)} (h : s.ptr p = o) :
    s.target p = o.bind id :=
  Holdings.heldBy_of_eq id h

theorem target_setPtr (s : StoragePtrs) (p : ℕ) (o : Option (Option ℕ)) :
    (s.setPtr p o).target = Function.update s.target p (o.bind id) :=
  Holdings.heldBy_update id s.ptr p o

theorem setPtr_setPtr (s : StoragePtrs) (p : ℕ) (o o' : Option (Option ℕ)) :
    (s.setPtr p o).setPtr p o' = s.setPtr p o' := by
  rw [setPtr, setPtr, setPtr, Function.update_idem]

theorem toNat_succ {c : UInt8} (h : c ≠ 255) : (c + 1).toNat = c.toNat + 1 := by
  have hlt : c.toNat ≠ 255 := fun heq => h (UInt8.toNat_inj.1 heq)
  have hle := c.toNat_lt
  rw [UInt8.toNat_add]
  simp
  omega

theorem toNat_pred {c : UInt8} (h : 0 < c.toNat) : (c - 1).toNat = c.toNat - 1 := by
  have hle : (1 : UInt8) ≤ c := by
    rw [UInt8.le_iff_toNat_le]
    exact h
  rw [UInt8.toNat_sub_of_le _ _ hle]
  rfl

/-- A function read through `toNat`, updated. -/
theorem toNat_update (f : ℕ → UInt8) (i : ℕ) (c : UInt8) :
    (fun j => (Function.update f i c j).toNat)
      = Function.update (fun j => (f j).toNat) i c.toNat :=
  Function.comp_update UInt8.toNat f i c

/-! ## The operations, as the specification has them -/

theorem refCounted_setPtr_inc {s : StoragePtrs} {p i : ℕ} (hfull : s.refCount i ≠ 255) :
    ((s.setPtr p (some (some i))).inc i).refCounted = s.refCounted.share p i := by
  refine RefCounted.ext (target_setPtr s p _) rfl rfl ?_ rfl
  refine (toNat_update s.refCount i (s.refCount i + 1)).trans ?_
  rw [toNat_succ hfull]
  rfl

theorem refCounted_clear_setPtr {s : StoragePtrs} (h : s.refCounted.Exact) {p : ℕ}
    {self : Option ℕ} (hp : s.ptr p = some self) {o : Option (Option ℕ)} (ho : o.bind id = none) :
    ((s.clear self).setPtr p o).refCounted = s.refCounted.drop p := by
  have hself : s.refCounted.held p = self := target_of_ptr hp
  cases self with
  | none =>
      rw [RefCounted.drop_of_none hself]
      refine RefCounted.ext ?_ rfl rfl rfl rfl
      refine (target_setPtr s p o).trans ?_
      rw [ho, ← hself]
      exact Function.update_eq_self ..
  | some i =>
      have hpos : 0 < (s.refCount i).toNat := h.count_pos hself
      rw [RefCounted.drop_of_some hself]
      refine RefCounted.ext ?_ rfl ?_ ?_ rfl
      · refine (target_setPtr (s.clear (some i)) p o).trans ?_
        rw [ho]
        rfl
      · have hone : s.refCount i = 1 ↔ (s.refCount i).toNat = 1 :=
          ⟨fun heq => by rw [heq]; rfl, fun heq => UInt8.toNat_inj.1 heq⟩
        exact if_congr hone rfl rfl
      · refine (toNat_update s.refCount i (s.refCount i - 1)).trans ?_
        rw [toNat_pred hpos]
        rfl

theorem refCounted_construct {s : StoragePtrs} (h : s.refCounted.Exact) :
    s.construct.refCounted = s.refCounted.create := by
  refine RefCounted.ext rfl rfl rfl ?_ rfl
  refine (toNat_update s.refCount s.constructed 0).trans ?_
  have hzero : s.refCounted.count s.constructed = 0 := by
    refine (h.count_eq_zero_iff s.constructed).2 ?_
    intro p hp
    exact absurd (h.held_live hp).1 (lt_irrefl s.constructed)
  exact (congrArg (Function.update _ s.constructed) hzero.symm).trans (Function.update_eq_self ..)

theorem refCounted_move {s : StoragePtrs} {p rhs : ℕ} {ptr : Option ℕ}
    (hrhs : s.ptr rhs = some ptr) :
    ((s.setPtr p (some ptr)).setPtr rhs (some none)).refCounted = s.refCounted.transfer rhs p := by
  refine RefCounted.ext ?_ rfl rfl rfl rfl
  have hfrom : s.target rhs = ptr := target_of_ptr hrhs
  refine (target_setPtr _ rhs _).trans ?_
  rw [target_setPtr]
  exact congrArg (fun o => Function.update (Function.update s.target p o) rhs none) hfrom.symm

/-! ## Every guarded run counts its references -/

/-- The pointers of `s` are holders that count their references. -/
def Counts (s : StoragePtrs) : Prop := (RefCounted.machine ℕ).Reachable s.refCounted

theorem Counts.exact {s : StoragePtrs} (h : s.Counts) : s.refCounted.Exact :=
  RefCounted.exact_of_reachable h

theorem Counts.setPtr_inc {s : StoragePtrs} (h : s.Counts) {p i : ℕ} (hp : s.target p = none)
    (hlt : i < s.constructed) (hlive : i ∉ s.destroyed) (hfull : s.refCount i ≠ 255) :
    ((s.setPtr p (some (some i))).inc i).Counts := by
  rw [Counts, refCounted_setPtr_inc hfull]
  exact RefCounted.Reachable.share h hp hlt hlive

/-- A null pointer changes nothing. -/
theorem Counts.setPtr_null {s : StoragePtrs} (h : s.Counts) {p : ℕ} {o : Option (Option ℕ)}
    (hp : s.target p = none) (ho : o.bind id = none) : (s.setPtr p o).Counts := by
  have hsame : (s.setPtr p o).refCounted = s.refCounted := by
    refine RefCounted.ext ?_ rfl rfl rfl rfl
    refine (target_setPtr s p o).trans ?_
    rw [ho, ← hp]
    exact Function.update_eq_self ..
  rw [Counts, hsame]
  exact h

theorem Counts.copy {s : StoragePtrs} (h : s.Counts) {p rhs : ℕ} {ptr : Option ℕ}
    (hp : s.target p = none) (hrhs : s.ptr rhs = some ptr) (hfull : s.full rhs = false) :
    ((s.setPtr p (some ptr)).incIfSet ptr).Counts := by
  cases ptr with
  | none => exact h.setPtr_null hp rfl
  | some i =>
      have hheld : s.target rhs = some i := target_of_ptr hrhs
      obtain ⟨hlt, hlive⟩ := h.exact.held_live hheld
      refine h.setPtr_inc hp hlt hlive ?_
      intro hmax
      simp [full, hheld, hmax] at hfull

theorem Counts.clear {s : StoragePtrs} (h : s.Counts) {p : ℕ} {self : Option ℕ}
    (hp : s.ptr p = some self) {o : Option (Option ℕ)} (ho : o.bind id = none) :
    ((s.clear self).setPtr p o).Counts := by
  rw [Counts, refCounted_clear_setPtr h.exact hp ho]
  exact RefCounted.Reachable.drop h p

theorem Counts.move {s : StoragePtrs} (h : s.Counts) {p rhs : ℕ} {ptr : Option ℕ}
    (hp : s.target p = none) (hrhs : s.ptr rhs = some ptr) :
    ((s.setPtr p (some ptr)).setPtr rhs (some none)).Counts := by
  rw [Counts, refCounted_move hrhs]
  exact RefCounted.Reachable.transfer h hp

theorem Counts.fresh {s : StoragePtrs} (h : s.Counts) : s.constructed ∉ s.destroyed := by
  intro hmem
  have hacquired := ((h.exact.released_iff s.constructed).1 hmem).1
  exact absurd (h.exact.acquired_lt _ hacquired) (lt_irrefl s.constructed)

theorem Counts.allocate {s : StoragePtrs} (h : s.Counts) {p : ℕ} (hp : s.target p = none) :
    ((s.construct.setPtr p (some (some s.constructed))).inc s.constructed).Counts := by
  have hnew : s.construct.Counts := by
    rw [Counts, refCounted_construct h.exact]
    exact RefCounted.Reachable.create h
  have hzero : s.construct.refCount s.constructed = 0 := Function.update_self ..
  refine hnew.setPtr_inc hp (Nat.lt_succ_self s.constructed) h.fresh ?_
  rw [hzero]
  decide

/-- A pointer that `clear` has run on is null. -/
theorem Counts.cleared {s : StoragePtrs} (h : s.Counts) {p : ℕ} {self : Option ℕ}
    (hp : s.ptr p = some self) : ((s.clear self).setPtr p (some none)).Counts ∧
      ((s.clear self).setPtr p (some none)).target p = none := by
  refine ⟨h.clear hp rfl, ?_⟩
  rw [target_setPtr]
  exact Function.update_self ..

theorem Counts.moveAssign {s : StoragePtrs} (h : s.Counts) {p rhs : ℕ} {self ptr : Option ℕ}
    (hp : s.ptr p = some self) (hrhs : s.ptr rhs = some ptr) :
    (((s.clear self).setPtr p (some ptr)).setPtr rhs (some none)).Counts := by
  obtain ⟨hcleared, hempty⟩ := h.cleared hp
  by_cases hself : rhs = p
  · -- Assigned to itself, the pointer is null in the end.
    rw [hself, setPtr_setPtr]
    exact hcleared
  · have hrhs' : ((s.clear self).setPtr p (some none)).ptr rhs = some ptr := by
      refine (Function.update_of_ne hself ..).trans ?_
      cases self <;> exact hrhs
    have hmoved := hcleared.move hempty hrhs'
    rw [setPtr_setPtr] at hmoved
    exact hmoved

theorem Counts.reallocate {s : StoragePtrs} (h : s.Counts) {p : ℕ} {self : Option ℕ}
    (hp : s.ptr p = some self) :
    (((s.clear self).construct.setPtr p (some (some (s.clear self).constructed))).inc
      (s.clear self).constructed).Counts := by
  obtain ⟨hcleared, hempty⟩ := h.cleared hp
  have hnew := hcleared.allocate hempty
  have hconstruct : ((s.clear self).setPtr p (some none)).construct
      = (s.clear self).construct.setPtr p (some none) := rfl
  rw [hconstruct, setPtr_setPtr] at hnew
  exact hnew

theorem perform_of_step {s s' : StoragePtrs} {e : Event} (hstep : machine.step s e = some s') :
    s.noReturn = false ∧ s.perform e = some s' := by
  obtain ⟨hreturned, hperform⟩ := Option.ite_none_left_eq_some.1 hstep
  exact ⟨by simpa using hreturned, hperform⟩

theorem counts_step {s s' : StoragePtrs} {e : Event} (hstep : s.perform e = some s')
    (hsafe : miscounts s e = false) (h : s.Counts) : s'.Counts := by
  cases e with
  | newStorage =>
      cases hstep
      rw [Counts, refCounted_construct h.exact]
      exact RefCounted.Reachable.create h
  | construct p =>
      obtain ⟨hp, hs⟩ := Option.ite_none_right_eq_some.1 hstep
      cases hs
      exact h.setPtr_null (target_of_ptr hp) rfl
  | raw p val =>
      obtain ⟨⟨hp, hlt, hlive⟩, hs⟩ := Option.ite_none_right_eq_some.1 hstep
      cases hs
      exact h.setPtr_inc (target_of_ptr hp) hlt hlive (of_decide_eq_false hsafe)
  | copyConstruct p rhs =>
      obtain ⟨hp, hs⟩ := Option.ite_none_right_eq_some.1 hstep
      obtain ⟨ptr, hrhs, rfl⟩ := Option.map_eq_some_iff.1 hs
      exact h.copy (target_of_ptr hp) hrhs hsafe
  | moveConstruct p rhs =>
      obtain ⟨hp, hs⟩ := Option.ite_none_right_eq_some.1 hstep
      obtain ⟨ptr, hrhs, rfl⟩ := Option.map_eq_some_iff.1 hs
      exact h.move (target_of_ptr hp) hrhs
  | copyAssign p rhs => cases hsafe
  | moveAssign p rhs =>
      obtain ⟨self, hp, hs⟩ := Option.bind_eq_some_iff.1 hstep
      obtain ⟨ptr, hrhs, rfl⟩ := Option.map_eq_some_iff.1 hs
      exact h.moveAssign hp hrhs
  | reset p =>
      obtain ⟨self, hp, rfl⟩ := Option.map_eq_some_iff.1 hstep
      exact h.clear hp rfl
  | allocate p allocation =>
      obtain ⟨self, hp, rfl⟩ := Option.map_eq_some_iff.1 hstep
      cases allocation with
      | ok => exact h.reallocate hp
      | throws =>
          -- The pointer was null, so nothing was cleared.
          have hempty : s.target p = none := by simpa [miscounts] using hsafe
          have hself : self = none := (target_of_ptr hp).symm.trans hempty
          rw [hself]
          exact h
  | destroy p =>
      obtain ⟨self, hp, rfl⟩ := Option.map_eq_some_iff.1 hstep
      exact h.clear hp rfl

theorem counts_of_reachable {s : StoragePtrs}
    (h : (machine.guard (fun s e => !miscounts s e)).Reachable s) : s.Counts := by
  refine h.guard_invariant .init ?_
  intro s s' e _ hstep hsafe hcounts
  exact counts_step (perform_of_step hstep).2 (by simpa using hsafe) hcounts

/-! ## No count is accessed too late -/

theorem access_of_live {s : StoragePtrs} {i : ℕ} (h : i ∉ s.destroyed) :
    (s.access i).faults = s.faults :=
  if_neg h

theorem faults_clear {s : StoragePtrs} (h : s.Counts) {p : ℕ} {self : Option ℕ}
    (hp : s.ptr p = some self) : (s.clear self).faults = s.faults := by
  cases self with
  | none => rfl
  | some i => exact access_of_live (h.exact.held_live (target_of_ptr hp)).2

theorem faults_incIfSet {s : StoragePtrs} (h : s.Counts) {p rhs : ℕ} {ptr : Option ℕ}
    (hrhs : s.ptr rhs = some ptr) :
    ((s.setPtr p (some ptr)).incIfSet ptr).faults = s.faults := by
  cases ptr with
  | none => rfl
  | some i =>
      have hlive := (h.exact.held_live (target_of_ptr hrhs)).2
      exact access_of_live (s := s.setPtr p (some (some i))) hlive

theorem faults_step {s s' : StoragePtrs} {e : Event} (hstep : s.perform e = some s')
    (h : s.Counts) : s'.faults = s.faults := by
  cases e with
  | newStorage =>
      cases hstep
      rfl
  | construct p =>
      obtain ⟨-, hs⟩ := Option.ite_none_right_eq_some.1 hstep
      cases hs
      rfl
  | raw p val =>
      obtain ⟨⟨-, -, hlive⟩, hs⟩ := Option.ite_none_right_eq_some.1 hstep
      cases hs
      exact access_of_live (s := s.setPtr p (some (some val))) hlive
  | copyConstruct p rhs =>
      obtain ⟨-, hs⟩ := Option.ite_none_right_eq_some.1 hstep
      obtain ⟨ptr, hrhs, rfl⟩ := Option.map_eq_some_iff.1 hs
      exact faults_incIfSet h hrhs
  | moveConstruct p rhs =>
      obtain ⟨-, hs⟩ := Option.ite_none_right_eq_some.1 hstep
      obtain ⟨ptr, -, rfl⟩ := Option.map_eq_some_iff.1 hs
      rfl
  | copyAssign p rhs =>
      obtain ⟨-, hs⟩ := Option.ite_none_left_eq_some.1 hstep
      obtain ⟨ptr, hrhs, rfl⟩ := Option.map_eq_some_iff.1 hs
      exact faults_incIfSet h hrhs
  | moveAssign p rhs =>
      obtain ⟨self, hp, hs⟩ := Option.bind_eq_some_iff.1 hstep
      obtain ⟨ptr, -, rfl⟩ := Option.map_eq_some_iff.1 hs
      exact faults_clear h hp
  | reset p =>
      obtain ⟨self, hp, rfl⟩ := Option.map_eq_some_iff.1 hstep
      exact faults_clear h hp
  | allocate p allocation =>
      obtain ⟨self, hp, rfl⟩ := Option.map_eq_some_iff.1 hstep
      cases allocation with
      | ok =>
          have hcleared : ((s.clear self).setPtr p (some none)).Counts := h.clear hp rfl
          refine Eq.trans ?_ (faults_clear h hp)
          exact access_of_live (s := (s.clear self).construct) hcleared.fresh
      | throws => exact faults_clear h hp
  | destroy p =>
      obtain ⟨self, hp, rfl⟩ := Option.map_eq_some_iff.1 hstep
      exact faults_clear h hp

theorem no_fault_of_reachable {s : StoragePtrs}
    (h : (machine.guard (fun s e => !miscounts s e)).Reachable s) : s.faults = [] := by
  induction h with
  | init => rfl
  | step hreach hnext ih =>
      obtain ⟨-, hstep⟩ := Machine.guard_step.1 hnext
      rw [faults_step (perform_of_step hstep).2 (counts_of_reachable hreach), ih]

/-! ## Every operation but copy assignment returns -/

@[simp] theorem noReturn_clear (s : StoragePtrs) (self : Option ℕ) :
    (s.clear self).noReturn = s.noReturn := by
  cases self <;> rfl

@[simp] theorem noReturn_incIfSet (s : StoragePtrs) (ptr : Option ℕ) :
    (s.incIfSet ptr).noReturn = s.noReturn := by
  cases ptr <;> rfl

theorem noReturn_step {s s' : StoragePtrs} {e : Event} (hstep : s.perform e = some s')
    (hsafe : miscounts s e = false) : s'.noReturn = s.noReturn := by
  cases e with
  | newStorage =>
      cases hstep
      rfl
  | construct p =>
      obtain ⟨-, hs⟩ := Option.ite_none_right_eq_some.1 hstep
      cases hs
      rfl
  | raw p val =>
      obtain ⟨-, hs⟩ := Option.ite_none_right_eq_some.1 hstep
      cases hs
      rfl
  | copyConstruct p rhs =>
      obtain ⟨-, hs⟩ := Option.ite_none_right_eq_some.1 hstep
      obtain ⟨ptr, -, rfl⟩ := Option.map_eq_some_iff.1 hs
      exact noReturn_incIfSet (s.setPtr p (some ptr)) ptr
  | moveConstruct p rhs =>
      obtain ⟨-, hs⟩ := Option.ite_none_right_eq_some.1 hstep
      obtain ⟨ptr, -, rfl⟩ := Option.map_eq_some_iff.1 hs
      rfl
  | copyAssign p rhs => cases hsafe
  | moveAssign p rhs =>
      obtain ⟨self, -, hs⟩ := Option.bind_eq_some_iff.1 hstep
      obtain ⟨ptr, -, rfl⟩ := Option.map_eq_some_iff.1 hs
      exact noReturn_clear s self
  | reset p =>
      obtain ⟨self, -, rfl⟩ := Option.map_eq_some_iff.1 hstep
      exact noReturn_clear s self
  | allocate p allocation =>
      obtain ⟨self, -, rfl⟩ := Option.map_eq_some_iff.1 hstep
      cases allocation <;> exact noReturn_clear s self
  | destroy p =>
      obtain ⟨self, -, rfl⟩ := Option.map_eq_some_iff.1 hstep
      exact noReturn_clear s self

theorem returned_of_reachable {s : StoragePtrs}
    (h : (machine.guard (fun s e => !miscounts s e)).Reachable s) : s.noReturn = false := by
  refine h.guard_invariant (P := fun s => s.noReturn = false) rfl ?_
  intro s s' e _ hstep hsafe hreturned
  rw [noReturn_step (perform_of_step hstep).2 (by simpa using hsafe), hreturned]

/-! ## Exact counts -/

/-- **Reference counts are exact** in every run without a copy assignment, a failing allocation into
    a pointer that is not null and a 256th owner. -/
theorem ref_counts_exact {s : StoragePtrs}
    (h : (machine.guard (fun s e => !miscounts s e)).Reachable s) : s.CountsExact := by
  have hexact := (counts_of_reachable h).exact
  refine ⟨?_, ?_, hexact.once, no_fault_of_reachable h, returned_of_reachable h⟩
  · intro i _ _
    have howners : s.owners i = s.refCounted.holders i := Set.ext (fun p => target_eq_some.symm)
    rw [howners]
    exact hexact.count_eq i
  · intro i
    have hunheld : (∀ p, s.refCounted.held p ≠ some i) ↔ ∀ p, s.ptr p ≠ some (some i) :=
      forall_congr' (fun p => not_congr target_eq_some)
    exact (hexact.released_iff_unheld i).trans (and_congr_right' hunheld)

/-- Two pointers share a storage, one of them is assigned to itself and the other is destroyed. -/
theorem ref_counts_exact_shared :
    ∃ s : StoragePtrs, s.destroyed = [0] ∧ s.refCount 0 = 0 ∧ s.CountsExact :=
  ⟨_, rfl, rfl, ref_counts_exact (Machine.reachable_of_run
    [.construct 0, .allocate 0 .ok, .copyConstruct 1 0, .moveAssign 0 0, .destroy 1] rfl)⟩

/-! ## What a miscounting step does -/

theorem owners_eq (s : StoragePtrs) (i : ℕ) : s.owners i = s.refCounted.holders i :=
  Set.ext (fun _ => target_eq_some.symm)

theorem Counts.owners_encard {s : StoragePtrs} (h : s.Counts) (i : ℕ) :
    (s.owners i).encard = (s.refCount i).toNat :=
  (congrArg Set.encard (owners_eq s i)).trans (h.exact.count_eq i)

/-- A live storage whose count moves while its owners stay, or whose owners change by one while its
    count stays, is miscounted. -/
theorem not_exact_of_ne {s : StoragePtrs} {i n : ℕ} (hlt : i < s.constructed)
    (hlive : i ∉ s.destroyed) (howners : (s.owners i).encard = n) (hne : (s.refCount i).toNat ≠ n) :
    ¬ s.CountsExact := by
  intro h
  have hcount := h.count_eq i hlt hlive
  rw [howners] at hcount
  exact hne (Nat.cast_injective hcount).symm

theorem owners_setPtr (s : StoragePtrs) (p i : ℕ) (o : Option (Option ℕ)) :
    (s.setPtr p o).owners i
      = if o = some (some i) then insert p (s.owners i) else s.owners i \ {p} := by
  ext q
  have hq : q ∈ (s.setPtr p o).owners i ↔ (if q = p then o else s.ptr q) = some (some i) :=
    iff_of_eq (congrArg (· = some (some i)) (Function.update_apply s.ptr p o q))
  rw [hq]
  by_cases hqp : q = p
  · rw [if_pos hqp, hqp]
    by_cases ho : o = some (some i) <;> simp [ho]
  · rw [if_neg hqp]
    by_cases ho : o = some (some i)
    · rw [if_pos ho, Set.mem_insert_iff, or_iff_right hqp]
      rfl
    · rw [if_neg ho, Set.mem_sdiff, Set.mem_singleton_iff]
      exact (and_iff_left hqp).symm

/-- The 256th owner of a storage makes its count zero. -/
theorem not_exact_of_full {s : StoragePtrs} (h : s.Counts) {p i : ℕ} (hp : s.target p = none)
    (hlt : i < s.constructed) (hlive : i ∉ s.destroyed) (hfull : s.refCount i = 255) :
    ¬ ((s.setPtr p (some (some i))).inc i).CountsExact := by
  have hnew : p ∉ s.owners i := by
    rintro (hi : s.ptr p = some (some i))
    rw [target_eq_some.2 hi] at hp
    cases hp
  have howners : ((s.setPtr p (some (some i))).owners i).encard = 256 := by
    rw [owners_setPtr, if_pos rfl, Set.encard_insert_of_notMem hnew, h.owners_encard, hfull]
    rfl
  refine not_exact_of_ne (n := 256) hlt hlive howners ?_
  have hcount : ((s.setPtr p (some (some i))).inc i).refCount i = s.refCount i + 1 :=
    Function.update_self ..
  rw [hcount, hfull]
  decide

theorem incIfSet_refCount (s : StoragePtrs) (ptr : Option ℕ) (i : ℕ) :
    (s.incIfSet ptr).refCount i = if ptr = some i then s.refCount i + 1 else s.refCount i := by
  cases ptr with
  | none => rfl
  | some j =>
      refine (Function.update_apply ..).trans ?_
      by_cases hij : i = j
      · rw [if_pos hij, if_pos (congrArg some hij.symm), hij]
      · rw [if_neg hij, if_neg (fun h => hij (Option.some.inj h).symm)]

theorem add_one_toNat_ne (c : UInt8) : (c + 1).toNat ≠ c.toNat := by
  intro h
  have hsame : c + 1 = c := UInt8.toNat_inj.1 h
  simp at hsame

/-- A copy assignment does not return, and what the pointer held before is not given up: if that was
    a storage, its count is off by one. -/
theorem copyAssign_miscounts {s s' : StoragePtrs} (h : s.Counts) {p rhs : ℕ}
    (hstep : s.perform (.copyAssign p rhs) = some s') : s'.noReturn = true ∧
      ∀ i, s.target p = some i → (s'.owners i).encard ≠ (s'.refCount i).toNat := by
  obtain ⟨-, hs⟩ := Option.ite_none_left_eq_some.1 hstep
  obtain ⟨ptr, -, rfl⟩ := Option.map_eq_some_iff.1 hs
  refine ⟨rfl, fun i hp => ?_⟩
  have hmem : p ∈ s.owners i := target_eq_some.1 hp
  have hpos : 0 < (s.refCount i).toNat := h.exact.count_pos hp
  have hcount := incIfSet_refCount (s.setPtr p (some ptr)) ptr i
  have howners : ((s.setPtr p (some ptr)).incIfSet ptr).owners i
      = (s.setPtr p (some ptr)).owners i := by
    cases ptr <;> rfl
  show (((s.setPtr p (some ptr)).incIfSet ptr).owners i).encard
    ≠ (((s.setPtr p (some ptr)).incIfSet ptr).refCount i).toNat
  rw [howners, owners_setPtr, hcount]
  by_cases hptr : ptr = some i
  · -- Assigned to itself, or to another owner of the same storage.
    rw [if_pos (congrArg some hptr), if_pos hptr, Set.insert_eq_of_mem hmem, h.owners_encard]
    exact fun heq => add_one_toNat_ne _ (Nat.cast_injective heq).symm
  · have hother : some ptr ≠ some (some i) := fun heq => hptr (Option.some.inj heq)
    have hfewer : (s.owners i \ {p}).encard = ((s.refCount i).toNat - 1 : ℕ) := by
      rw [Set.encard_sdiff_singleton_of_mem hmem, h.owners_encard, ENat.natCast_sub]
      rfl
    rw [if_neg hother, if_neg hptr, hfewer]
    intro heq
    have hsame : (s.refCount i).toNat - 1 = (s.refCount i).toNat := Nat.cast_injective heq
    omega

/-- The pointer keeps what it has given up. -/
theorem not_exact_of_throws {s : StoragePtrs} (h : s.Counts) {p i : ℕ}
    (hp : s.target p = some i) : ¬ (s.clear (some i)).CountsExact := by
  obtain ⟨hlt, hlive⟩ : i < s.constructed ∧ i ∉ s.destroyed := h.exact.held_live hp
  by_cases hone : s.refCount i = 1
  · intro hexact
    have hdestroyed : i ∈ (s.clear (some i)).destroyed := by
      simp [clear, hone]
    exact ((hexact.destroyed_iff i).1 hdestroyed).2 p (target_eq_some.1 hp)
  · have hlive' : i ∉ (s.clear (some i)).destroyed := by
      simp [clear, hone, hlive]
    refine not_exact_of_ne hlt hlive' (h.owners_encard i) ?_
    have hcount : (s.clear (some i)).refCount i = s.refCount i - 1 := Function.update_self ..
    have hpos : 0 < (s.refCount i).toNat := h.exact.count_pos hp
    rw [hcount, toNat_pred hpos]
    omega

/-- A step that miscounts breaks the counts at once. -/
theorem not_exact_of_miscounts {s s' : StoragePtrs} {e : Event} (h : s.Counts)
    (hstep : machine.step s e = some s') (hbad : miscounts s e = true) : ¬ s'.CountsExact := by
  obtain ⟨-, hstep⟩ := perform_of_step hstep
  cases e with
  | newStorage => cases hbad
  | construct p => cases hbad
  | moveConstruct p rhs => cases hbad
  | moveAssign p rhs => cases hbad
  | reset p => cases hbad
  | destroy p => cases hbad
  | raw p val =>
      obtain ⟨⟨hp, hlt, hlive⟩, hs⟩ := Option.ite_none_right_eq_some.1 hstep
      cases hs
      exact not_exact_of_full h (target_of_ptr hp) hlt hlive (of_decide_eq_true hbad)
  | copyConstruct p rhs =>
      obtain ⟨hp, hs⟩ := Option.ite_none_right_eq_some.1 hstep
      obtain ⟨ptr, hrhs, rfl⟩ := Option.map_eq_some_iff.1 hs
      obtain ⟨i, hi, hmax⟩ := (Option.any_eq_true ..).1 hbad
      have hptr : ptr = some i := (target_of_ptr hrhs).symm.trans hi
      obtain ⟨hlt, hlive⟩ := h.exact.held_live hi
      rw [hptr]
      exact not_exact_of_full h (target_of_ptr hp) hlt hlive (of_decide_eq_true hmax)
  | copyAssign p rhs =>
      intro hexact
      cases hexact.returned.symm.trans (copyAssign_miscounts h hstep).1
  | allocate p allocation =>
      obtain ⟨self, hp, rfl⟩ := Option.map_eq_some_iff.1 hstep
      cases allocation with
      | ok => cases hbad
      | throws =>
          obtain ⟨i, hi⟩ := Option.isSome_iff_exists.1 hbad
          have hself : self = some i := (target_of_ptr hp).symm.trans hi
          rw [hself]
          exact not_exact_of_throws h hi

/-- A copy is assigned to a pointer that holds the only reference to a storage: when the body of the
    operator ends, without a `return`, the storage has no owner, a count of one, and is not
    destroyed. -/
theorem copy_assignment_leaks_storage :
    ∃ s, machine.run machine.init [.construct 0, .allocate 0 .ok, .construct 1, .allocate 1 .ok,
        .copyAssign 0 1] = some s ∧
      (∀ p, s.ptr p ≠ some (some 0)) ∧ s.refCount 0 = 1 ∧ s.constructed = 2 ∧ s.destroyed = [] ∧
      s.noReturn = true ∧ ¬ s.CountsExact := by
  refine ⟨_, rfl, ?_, rfl, rfl, rfl, rfl, ?_⟩
  · intro p hp
    rcases p with _ | _ | p <;> cases hp
  · intro h
    cases h.returned

end StoragePtrs

end EasyGrpc
