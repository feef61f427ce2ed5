import Mathlib.Tactic.IntervalCases
import EasyGrpc.Core.Call

set_option autoImplicit false

/-! # The completion thread

`completion_queue.h` and `Completion_queue::worker_main`. The thread takes one completion event at a
time, decodes the object and the flags from the tag, runs `exec`, and deletes the object when `exec`
returns true. Events of an object that was deleted earlier are dropped: in the source they would run
`exec` on freed memory, which is what the properties about deletion are to exclude. -/

namespace EasyGrpc

/-! ## Completion tags -/

/-- `Completion_callback::completion_tag`: the flags are or-ed into the object's address. -/
def completionTag (self : BitVec 64) (flags : BitVec 4) : BitVec 64 := self ||| flags.setWidth 64

/-- `worker_main`: the flags of a tag. -/
def tagFlags (tag : BitVec 64) : BitVec 4 := (tag &&& 0xF#64).setWidth 4

/-- `worker_main`: the object of a tag. -/
def tagCallback (tag : BitVec 64) : BitVec 64 := tag &&& ~~~0xF#64

/-- The mask `0xF` selects the low four bits. -/
theorem getLsbD_tagMask (i : ℕ) : (0xF#64).getLsbD i = decide (i < 4) := by
  by_cases hi : i < 4
  · interval_cases i <;> rfl
  · have h16 : 2 ^ 4 ≤ 2 ^ i := Nat.pow_le_pow_right (by omega) (Nat.not_lt.1 hi)
    have hbit : Nat.testBit 15 i = false := Nat.testBit_lt_two_pow (by omega)
    simp [BitVec.getLsbD, hbit, hi]

/-- **Tags round-trip.** For an object aligned to 16 bytes `worker_main` gets back the object and
    the flags the batch was started with, so a batch can carry its flags instead of its tag. -/
theorem worker_main_decodes {self : BitVec 64} (flags : BitVec 4)
    (haligned : ∀ i < 4, self.getLsbD i = false) :
    tagFlags (completionTag self flags) = flags ∧
      tagCallback (completionTag self flags) = self := by
  constructor
  · apply BitVec.eq_of_getLsbD_eq
    intro i hi
    simp only [tagFlags, completionTag, BitVec.getLsbD_setWidth, BitVec.getLsbD_and,
      BitVec.getLsbD_or, getLsbD_tagMask, haligned i hi]
    simp [hi, show i < 64 by omega]
  · apply BitVec.eq_of_getLsbD_eq
    intro i hi
    simp only [tagCallback, completionTag, BitVec.getLsbD_setWidth, BitVec.getLsbD_and,
      BitVec.getLsbD_or, BitVec.getLsbD_not, getLsbD_tagMask]
    by_cases h4 : i < 4
    · simp [haligned i h4, h4]
    · simp [h4, hi, BitVec.getLsbD_of_ge flags i (Nat.not_lt.1 h4)]

/-! ## Completion callbacks and their deletion -/

/-- A `Completion_callback` class: the call its batches are started on, where the receive operations
    of a batch write to, and `exec`, which also says whether the object is to be deleted. No `exec`
    of this development looks at `event.success`. -/
class CompletionCallback (σ : Type) (κ : outParam Type) [BatchSpec κ] where
  call : σ → Call κ
  setCall : σ → Call κ → σ
  receive : σ → κ → Received → σ
  exec : σ → BitVec 4 → Bool × σ
  /-- An exception leaves `exec`, which is `noexcept`: the process ends. -/
  aborts : σ → BitVec 4 → Bool := fun _ _ => false

/-- An object and whether `worker_main` has deleted it. -/
structure Live (σ : Type) where
  obj : σ
  deleted : Bool := false

namespace Live

variable {σ κ : Type}

/-- A callback other than `exec` runs on the object, if it still exists. -/
def update (o : Live σ) (f : σ → σ) : Live σ := if o.deleted then o else { o with obj := f o.obj }

theorem update_of_live {o : Live σ} (h : o.deleted = false) (f : σ → σ) :
    o.update f = { o with obj := f o.obj } := by simp [update, h]

theorem update_of_deleted {o : Live σ} (h : o.deleted = true) (f : σ → σ) : o.update f = o := by
  simp [update, h]

@[simp] theorem deleted_update (o : Live σ) (f : σ → σ) : (o.update f).deleted = o.deleted := by
  unfold update
  split <;> rfl

/-- What `f` keeps, an update by `f` keeps. -/
theorem update_obj {P : σ → Prop} {o : Live σ} {f : σ → σ} (h : P o.obj) (hf : P (f o.obj)) :
    P (o.update f).obj := by
  unfold update
  split
  · exact h
  · exact hf

variable [BatchSpec κ] [CompletionCallback σ κ]

/-- One turn of `Completion_queue::worker_main`: the completion of the `i`-th outstanding batch of
    the object, bringing `r`. There is no such step where the process ends in `exec`. -/
def workerMain (o : Live σ) (i : ℕ) (r : Received) : Option (Live σ) :=
  match (CompletionCallback.call o.obj).outstanding[i]? with
  | none => none
  | some b =>
      let obj := CompletionCallback.setCall o.obj ((CompletionCallback.call o.obj).completeAt i)
      if o.deleted then some { o with obj := obj }
      else
        let obj := CompletionCallback.receive obj b r
        if CompletionCallback.aborts obj (BatchSpec.flags b) then none
        else
          let (kill, obj') := CompletionCallback.exec obj (BatchSpec.flags b)
          some { obj := obj', deleted := kill }

/-- The object as `exec` finds it when its `i`-th outstanding batch `b` completes. -/
def completed (s : σ) (i : ℕ) (b : κ) (r : Received) : σ :=
  CompletionCallback.receive
    (CompletionCallback.setCall s ((CompletionCallback.call s).completeAt i)) b r

/-- A turn for an object that exists. -/
theorem workerMain_of_live {o : Live σ} {i : ℕ} {b : κ} (hlive : o.deleted = false)
    (hb : (CompletionCallback.call o.obj).outstanding[i]? = some b) (r : Received) :
    o.workerMain i r =
      if CompletionCallback.aborts (completed o.obj i b r) (BatchSpec.flags b) then none
      else some { obj := (CompletionCallback.exec (completed o.obj i b r) (BatchSpec.flags b)).2,
                  deleted := (CompletionCallback.exec (completed o.obj i b r)
                    (BatchSpec.flags b)).1 } := by
  unfold workerMain
  rw [hb]
  simp only [hlive, Bool.false_eq_true, if_false]
  rfl

/-- The completion of an outstanding batch can be handled, unless the process ends there. -/
theorem isSome_workerMain {o : Live σ} {i : ℕ} {b : κ}
    (hb : (CompletionCallback.call o.obj).outstanding[i]? = some b) {r : Received}
    (hreturns : CompletionCallback.aborts (completed o.obj i b r) (BatchSpec.flags b) = false) :
    (o.workerMain i r).isSome = true := by
  cases hdel : o.deleted with
  | true => simp [workerMain, hb, hdel]
  | false =>
      rw [workerMain_of_live hdel hb, if_neg (Bool.eq_false_iff.1 hreturns)]
      rfl

theorem returns_of_workerMain {o o' : Live σ} {i : ℕ} {b : κ} {r : Received}
    (h : o.workerMain i r = some o') (hlive : o.deleted = false)
    (hb : (CompletionCallback.call o.obj).outstanding[i]? = some b) :
    CompletionCallback.aborts (completed o.obj i b r) (BatchSpec.flags b) = false := by
  by_contra haborts
  rw [workerMain_of_live hlive hb, if_pos (by simpa using haborts)] at h
  cases h

/-- What one turn of `worker_main` can do: nothing to an object already deleted but for the batch
    no longer being outstanding, and otherwise `exec`. -/
theorem workerMain_eq_some {o o' : Live σ} {i : ℕ} {r : Received}
    (h : o.workerMain i r = some o') :
    ∃ b, (CompletionCallback.call o.obj).outstanding[i]? = some b ∧
      ((o.deleted = true ∧ o' = { o with
          obj := CompletionCallback.setCall o.obj ((CompletionCallback.call o.obj).completeAt i) }) ∨
        (o.deleted = false ∧
          o' = { obj := (CompletionCallback.exec (completed o.obj i b r) (BatchSpec.flags b)).2,
                 deleted := (CompletionCallback.exec (completed o.obj i b r)
                  (BatchSpec.flags b)).1 })) := by
  unfold workerMain at h
  split at h
  · cases h
  · next b hb =>
      refine ⟨b, hb, ?_⟩
      cases hdel : o.deleted with
      | true =>
          simp only [hdel, if_true] at h
          exact Or.inl ⟨rfl, (Option.some.inj h).symm⟩
      | false =>
          simp only [hdel, Bool.false_eq_true, if_false] at h
          split at h
          · cases h
          · exact Or.inr ⟨rfl, (Option.some.inj h).symm⟩

end Live

end EasyGrpc
