import Mathlib.Algebra.Order.BigOperators.Group.Finset
import Mathlib.Data.Fintype.BigOperators
import Mathlib.Data.Fintype.Card
import EasyGrpc.Future.Join
import EasyGrpc.Future.Proofs.Chain

set_option autoImplicit false

/-! # `join` waits for all and keeps positions

A callback is `idle` exactly as long as the handler of its future was not called, and the counter
counts the callbacks that have returned, whatever their order; so the `ping` that makes it reach the
number of futures is the last one, and by then every slot holds its outcome. -/

namespace EasyGrpc

namespace Future

variable {ε : Type}

/-! ## Positions -/

theorem slot_tuple (ts : List (Option Type)) (slots : ∀ i : Fin ts.length, Expected ε (ts.get i))
    (i : Fin ts.length) : slot ts i (tuple ts slots) = slots i := by
  induction ts with
  | nil => exact i.elim0
  | cons t ts ih =>
      obtain ⟨i, hi⟩ := i
      cases i with
      | zero => rfl
      | succ i => exact ih (fun i => slots i.succ) ⟨i, Nat.lt_of_succ_lt_succ hi⟩

/-- The error of a slot. -/
def Expected.error? : {t : Option Type} → Expected ε t → Option ε
  | none, .ok _ => none
  | none, .error e => some e
  | some _, .ok _ => none
  | some _, .error e => some e

/-- `get_first_error`, by its first slot. -/
theorem getFirstError_cons (t : Option Type) (ts : List (Option Type)) (f : FinishType ε (t :: ts)) :
    getFirstError (t :: ts) f =
      match f.1.error? with
      | some e => some e
      | none => getFirstError ts f.2 := by
  obtain ⟨x, f⟩ := f
  cases t <;> cases x <;> rfl

theorem getFirstError_of_none {ts : List (Option Type)} {f : FinishType ε ts}
    (h : ∀ i, (slot ts i f).error? = none) : getFirstError ts f = none := by
  induction ts with
  | nil => rfl
  | cons t ts ih =>
      have hfirst : f.1.error? = none := h ⟨0, Nat.zero_lt_succ _⟩
      rw [getFirstError_cons, hfirst]
      exact ih (fun i => h i.succ)

/-- It is the error of the lowest-index slot that holds one. -/
theorem getFirstError_of_first {ts : List (Option Type)} {f : FinishType ε ts}
    {i : Fin ts.length} {e : ε} (hi : (slot ts i f).error? = some e)
    (hbefore : ∀ j < i, (slot ts j f).error? = none) : getFirstError ts f = some e := by
  induction ts with
  | nil => exact i.elim0
  | cons t ts ih =>
      rw [getFirstError_cons]
      obtain ⟨i, hlt⟩ := i
      cases i with
      | zero =>
          have hfirst : f.1.error? = some e := hi
          rw [hfirst]
      | succ i =>
          have hfirst : f.1.error? = none :=
            hbefore ⟨0, Nat.zero_lt_succ _⟩ (Nat.zero_lt_succ i)
          rw [hfirst]
          exact ih (i := ⟨i, Nat.lt_of_succ_lt_succ hlt⟩) hi
            (fun j hj => hbefore j.succ (Nat.succ_lt_succ hj))

theorem Outcome.argument_eq {t : Option Type} (o : Outcome ε [t]) :
    o.argument = o.slots.map (·.1) := by
  cases o <;> rfl

/-- The steps a callback has still to take, with its call. -/
def LandingCallback.remaining {t : Option Type} : LandingCallback ε t → ℕ
  | .idle => 3
  | .called _ => 2
  | .written => 1
  | .returned => 0

namespace Join

variable {ts : List (Option Type)} {op : ∀ i : Fin ts.length, Operation ε [ts.get i]}

/-- The outcome of the `i`-th future. -/
def outcome (op : ∀ i : Fin ts.length, Operation ε [ts.get i]) (i : Fin ts.length) :
    Expected ε (ts.get i) :=
  (op i).stored.1

/-! ## The invariant -/

/-- The callbacks that have returned. -/
def returned (s : Join ε ts) : Finset (Fin ts.length) :=
  Finset.univ.filter (fun i => (s.calls i).isReturned = true)

structure Inv (op : ∀ i : Fin ts.length, Operation ε [ts.get i]) (s : Join ε ts) : Prop where
  shared : ∀ i, Shared.Inv (op i) (s.shared i)
  unthrown : ∀ i, (s.shared i).handler ≠ .threw
  /-- The callback is called by the handler of its future. -/
  idle : ∀ i, s.calls i = .idle ↔ (s.shared i).invocations = []
  called : ∀ i e, s.calls i = .called e → e = outcome op i
  landing : ∀ i, (s.calls i).isWritten = true → s.landing i = outcome op i
  fullfilled : s.fullfilled = s.returned.card
  /-- The last `ping` finishes. -/
  finishes : s.finishes = if s.fullfilled = ts.length then [tuple ts (outcome op)] else []
  joined : Shared.Inv (.finish (tuple ts (outcome op))) s.joined
  joinedUnthrown : s.joined.handler ≠ .threw
  waiting : s.finishes = [] → s.joined.producer = .start

theorem inv_init (hpos : 0 < ts.length) (landing : ∀ i : Fin ts.length, Expected ε (ts.get i)) :
    Inv op (machine op landing).init where
  shared i := Shared.inv_init (op i)
  unthrown i := by simp [machine]
  idle i := ⟨fun _ => rfl, fun _ => rfl⟩
  called i e h := absurd h (by simp [machine])
  landing i h := absurd h (by simp [machine, LandingCallback.isWritten])
  fullfilled := by simp [machine, returned, LandingCallback.isReturned]
  finishes := by
    have hne : 0 ≠ ts.length := hpos.ne
    simp [machine, hne]
  joined := Shared.inv_init _
  joinedUnthrown := by simp [machine]
  waiting _ := rfl

/-! ## What a step can do -/

/-- One constructor for each way in which the threads can go on. -/
inductive Moves (op : ∀ i : Fin ts.length, Operation ε [ts.get i]) (s : Join ε ts) :
    Event ts.length → Join ε ts → Prop
  | quiet {e : Event ts.length} {i : Fin ts.length} {shared : Shared ε [ts.get i]}
      (hshared : Shared.Inv (op i) shared) (hthrew : shared.handler ≠ .threw)
      (hcalls : shared.invocations = (s.shared i).invocations) :
      Moves op s e { s with shared := Function.update s.shared i shared }
  /-- The storage of the `i`-th future calls the callback. -/
  | call {e : Event ts.length} {i : Fin ts.length} {shared : Shared ε [ts.get i]}
      {call : Invocation ε [ts.get i]} (binder : Bool)
      (hshared : Shared.Inv (op i) shared) (hthrew : shared.handler ≠ .threw)
      (hnil : (s.shared i).invocations = []) (hcalls : shared.invocations = [call]) :
      Moves op s e { s with
        shared := Function.update s.shared i shared
        calls := Function.update s.calls i (.called (outcome op i))
        inBinder := Function.update s.inBinder i binder }
  | write {i : Fin ts.length} {e : Expected ε (ts.get i)} (hcall : s.calls i = .called e) :
      Moves op s (.write i) { s with
        landing := Function.update s.landing i e
        calls := Function.update s.calls i .written }
  | ping {i : Fin ts.length} (hcall : s.calls i = .written) :
      Moves op s (.ping i) { s with
        fullfilled := s.fullfilled + 1
        finishes :=
          if s.fullfilled + 1 = ts.length then s.finishes ++ [tuple ts s.landing] else s.finishes
        calls := Function.update s.calls i .returned }
  | finish {f : FinishType ε ts} {fs : List (FinishType ε ts)} {joined : Shared ε ts}
      (hf : s.finishes = f :: fs) (hjoined : s.joined.produce (.finish f) = some joined) :
      Moves op s .finish { s with joined }
  | attach {joined : Shared ε ts} (hjoined : s.joined.handle false = some joined) :
      Moves op s .attach { s with joined }

/-- A storage that has taken a step has called the callback with the outcome of its future, or has
    not called it. -/
theorem moves_of_moved {s : Join ε ts} {e : Event ts.length} {i : Fin ts.length}
    {shared : Shared ε [ts.get i]} {binder : Bool} (hshared : Shared.Inv (op i) shared)
    (hthrew : shared.handler ≠ .threw)
    (hcases : shared.invocations = (s.shared i).invocations ∨
      ∃ call, shared.invocations = (s.shared i).invocations ++ [call]) :
    Moves op s e (s.moved i shared binder) := by
  rcases hcases with hquiet | ⟨call, hcall⟩
  · have hmoved : s.moved i shared binder =
        { s with shared := Function.update s.shared i shared } := by
      simp [moved, hquiet]
    rw [hmoved]
    exact .quiet hshared hthrew hquiet
  · have hnil : (s.shared i).invocations = [] := by
      have hle := hshared.length_invocations
      rw [hcall, List.length_append, List.length_singleton] at hle
      exact List.length_eq_zero_iff.1 (by omega)
    rw [hnil, List.nil_append] at hcall
    have hargument : call.outcome.argument = some (outcome op i) := by
      have hproduced := (hshared.proper call (by simp [hcall])).produced
      rw [Outcome.argument_eq, hproduced.slots]
      rfl
    have hmoved : s.moved i shared binder = { s with
        shared := Function.update s.shared i shared
        calls := Function.update s.calls i (.called (outcome op i))
        inBinder := Function.update s.inBinder i binder } := by
      simp [moved, hcall, hnil, hargument]
    rw [hmoved]
    exact .call binder hshared hthrew hnil hcall

/-- **What a step of a join can do.** -/
theorem moves_of_step {s s' : Join ε ts} {e : Event ts.length} (h : s.Inv op)
    (hstep : s.step op e = some s') : Moves op s e s' := by
  cases e with
  | produce i =>
      obtain ⟨shared, hshared, rfl⟩ := Option.map_eq_some_iff.1 hstep
      obtain ⟨hhandler, hcases⟩ := Shared.produce_cases hshared
      exact moves_of_moved (Shared.inv_produce (h.shared i) hshared)
        (hhandler ▸ h.unthrown i) hcases
  | handle i =>
      by_cases hbound : ∀ j < i, s.bound j = true
      · simp only [step, if_pos hbound] at hstep
        obtain ⟨shared, hshared, rfl⟩ := Option.map_eq_some_iff.1 hstep
        obtain ⟨-, hthrew, hcases⟩ := Shared.handle_cases hshared
        exact moves_of_moved (Shared.inv_handle (h.shared i) hshared) hthrew hcases
      · simp only [step, if_neg hbound] at hstep
        exact absurd hstep (by simp)
  | write i =>
      cases hcall : s.calls i with
      | called e =>
          simp only [step, write, hcall, Option.some.injEq] at hstep
          exact hstep ▸ .write hcall
      | idle => exact absurd hstep (by simp [step, write, hcall])
      | written => exact absurd hstep (by simp [step, write, hcall])
      | returned => exact absurd hstep (by simp [step, write, hcall])
  | ping i =>
      cases hcall : s.calls i with
      | written =>
          simp only [step, ping, hcall, Option.some.injEq] at hstep
          exact hstep ▸ .ping hcall
      | idle => exact absurd hstep (by simp [step, ping, hcall])
      | called e => exact absurd hstep (by simp [step, ping, hcall])
      | returned => exact absurd hstep (by simp [step, ping, hcall])
  | finish =>
      cases hf : s.finishes with
      | nil => exact absurd hstep (by simp [step, hf])
      | cons f fs =>
          simp only [step, hf] at hstep
          obtain ⟨joined, hjoined, rfl⟩ := Option.map_eq_some_iff.1 hstep
          rw [← hf]
          exact .finish hf hjoined
  | attach =>
      by_cases hbound : ∀ j, s.bound j = true
      · simp only [step, if_pos hbound] at hstep
        obtain ⟨joined, hjoined, rfl⟩ := Option.map_eq_some_iff.1 hstep
        exact .attach hjoined
      · simp only [step, if_neg hbound] at hstep
        exact absurd hstep (by simp)

/-! ## Every step keeps the invariant -/

/-- As many callbacks as there are futures are all of them. -/
theorem all_returned {s : Join ε ts} (hcard : s.returned.card = ts.length) (i : Fin ts.length) :
    (s.calls i).isReturned = true := by
  have huniv : s.returned = Finset.univ :=
    (Finset.card_eq_iff_eq_univ _).1 (hcard.trans (Fintype.card_fin _).symm)
  have hmem : i ∈ s.returned := huniv ▸ Finset.mem_univ i
  simpa [returned] using hmem

theorem isWritten_of_isReturned {t : Option Type} {c : LandingCallback ε t}
    (h : c.isReturned = true) : c.isWritten = true := by
  cases c with
  | returned => rfl
  | idle => exact absurd h (by simp [LandingCallback.isReturned])
  | called e => exact absurd h (by simp [LandingCallback.isReturned])
  | written => exact absurd h (by simp [LandingCallback.isReturned])

/-- A callback that neither had returned nor has now leaves the counter right. -/
theorem returned_update_of_not {s s' : Join ε ts} {i : Fin ts.length}
    {c : LandingCallback ε (ts.get i)} (hcalls : s'.calls = Function.update s.calls i c)
    (hbefore : (s.calls i).isReturned = false) (hafter : c.isReturned = false) :
    s'.returned = s.returned := by
  refine Finset.filter_congr (fun j _ => ?_)
  rw [hcalls]
  by_cases hj : j = i
  · subst hj
    rw [Function.update_self, hbefore, hafter]
  · rw [Function.update_of_ne hj]

/-- One that returns is counted. -/
theorem card_returned_update {s s' : Join ε ts} {i : Fin ts.length}
    (hcalls : s'.calls = Function.update s.calls i .returned)
    (hbefore : (s.calls i).isReturned = false) : s'.returned.card = s.returned.card + 1 := by
  have hnew : i ∉ s.returned := by simp [returned, hbefore]
  have hinsert : s'.returned = insert i s.returned := by
    ext j
    simp only [returned, hcalls, Finset.mem_insert, Finset.mem_filter, Finset.mem_univ, true_and]
    by_cases hj : j = i
    · subst hj
      simp [LandingCallback.isReturned]
    · simp [hj]
  rw [hinsert, Finset.card_insert_of_notMem hnew]

/-- The storage of the `i`-th future goes on, and the others stay as they are. -/
theorem Inv.stored {s : Join ε ts} (h : s.Inv op) {i : Fin ts.length}
    {shared : Shared ε [ts.get i]} (hshared : Shared.Inv (op i) shared)
    (hthrew : shared.handler ≠ .threw) (j : Fin ts.length) :
    Shared.Inv (op j) (Function.update s.shared i shared j) ∧
      (Function.update s.shared i shared j).handler ≠ .threw :=
  (Function.forall_update_iff s.shared (fun j shared => Shared.Inv (op j) shared ∧
    shared.handler ≠ .threw)).2 ⟨⟨hshared, hthrew⟩, fun j _ => ⟨h.shared j, h.unthrown j⟩⟩ j

/-- The `i`-th callback goes on; where it is called now, it is with the outcome of its future. -/
theorem Inv.called_update {s : Join ε ts} (h : s.Inv op) {i : Fin ts.length}
    {c : LandingCallback ε (ts.get i)} (hc : ∀ e, c = .called e → e = outcome op i)
    (j : Fin ts.length) (e : Expected ε (ts.get j))
    (he : Function.update s.calls i c j = .called e) : e = outcome op j :=
  (Function.forall_update_iff s.calls (fun j c => ∀ e, c = .called e → e = outcome op j)).2
    ⟨hc, fun j _ => h.called j⟩ j e he

/-- The storage of the `i`-th future goes on without calling the callback. -/
theorem Inv.quiet {s : Join ε ts} (h : s.Inv op) {i : Fin ts.length} {shared : Shared ε [ts.get i]}
    (hshared : Shared.Inv (op i) shared) (hthrew : shared.handler ≠ .threw)
    (hcalls : shared.invocations = (s.shared i).invocations) :
    ({ s with shared := Function.update s.shared i shared } : Join ε ts).Inv op where
  shared j := (h.stored hshared hthrew j).1
  unthrown j := (h.stored hshared hthrew j).2
  idle j := by
    by_cases hj : j = i
    · subst hj
      simpa [hcalls] using h.idle j
    · simpa [Function.update_of_ne hj] using h.idle j
  called := h.called
  landing := h.landing
  fullfilled := h.fullfilled
  finishes := h.finishes
  joined := h.joined
  joinedUnthrown := h.joinedUnthrown
  waiting := h.waiting

/-- It calls the callback. -/
theorem Inv.call {s : Join ε ts} (h : s.Inv op) {i : Fin ts.length} {shared : Shared ε [ts.get i]}
    {call : Invocation ε [ts.get i]} (hshared : Shared.Inv (op i) shared)
    (hthrew : shared.handler ≠ .threw) (hnil : (s.shared i).invocations = [])
    (hcalls : shared.invocations = [call]) (inBinder : Fin ts.length → Bool) :
    ({ s with
      shared := Function.update s.shared i shared
      calls := Function.update s.calls i (.called (outcome op i))
      inBinder } : Join ε ts).Inv op where
  shared j := (h.stored hshared hthrew j).1
  unthrown j := (h.stored hshared hthrew j).2
  idle j := by
    by_cases hj : j = i
    · subst hj
      simp [hcalls]
    · simpa [Function.update_of_ne hj] using h.idle j
  called := h.called_update (fun e he => (LandingCallback.called.inj he).symm)
  landing j hwritten := by
    dsimp only at hwritten
    by_cases hj : j = i
    · subst hj
      rw [Function.update_self] at hwritten
      exact absurd hwritten (by simp [LandingCallback.isWritten])
    · rw [Function.update_of_ne hj] at hwritten
      exact h.landing j hwritten
  fullfilled := by
    have hidle := (h.idle i).2 hnil
    rw [returned_update_of_not (s := s) rfl (by simp [hidle, LandingCallback.isReturned]) rfl]
    exact h.fullfilled
  finishes := h.finishes
  joined := h.joined
  joinedUnthrown := h.joinedUnthrown
  waiting := h.waiting

theorem Inv.write {s : Join ε ts} (h : s.Inv op) {i : Fin ts.length} {e : Expected ε (ts.get i)}
    (hcall : s.calls i = .called e) :
    ({ s with
      landing := Function.update s.landing i e
      calls := Function.update s.calls i .written } : Join ε ts).Inv op where
  shared := h.shared
  unthrown := h.unthrown
  idle j := by
    by_cases hj : j = i
    · subst hj
      have hidle := h.idle j
      simpa [hcall] using hidle
    · simpa [Function.update_of_ne hj] using h.idle j
  called := h.called_update (fun e' he => absurd he (by simp))
  landing j hwritten := by
    dsimp only at hwritten ⊢
    by_cases hj : j = i
    · subst hj
      rw [Function.update_self]
      exact h.called j e hcall
    · rw [Function.update_of_ne hj] at hwritten ⊢
      exact h.landing j hwritten
  fullfilled := by
    rw [returned_update_of_not (s := s) rfl (by simp [hcall, LandingCallback.isReturned]) rfl]
    exact h.fullfilled
  finishes := h.finishes
  joined := h.joined
  joinedUnthrown := h.joinedUnthrown
  waiting := h.waiting

theorem Inv.ping {s : Join ε ts} (h : s.Inv op) {i : Fin ts.length}
    (hcall : s.calls i = .written) :
    ({ s with
      fullfilled := s.fullfilled + 1
      finishes :=
        if s.fullfilled + 1 = ts.length then s.finishes ++ [tuple ts s.landing] else s.finishes
      calls := Function.update s.calls i .returned } : Join ε ts).Inv op := by
  -- This callback has not returned yet, so the counter is still below the number of futures.
  have hbefore : (s.calls i).isReturned = false := by simp [hcall, LandingCallback.isReturned]
  have hnot : s.fullfilled ≠ ts.length := by
    intro hfull
    have hreturned := all_returned (h.fullfilled.symm.trans hfull) i
    exact absurd (hbefore.symm.trans hreturned) (by simp)
  have hnil : s.finishes = [] := by rw [h.finishes, if_neg hnot]
  have hcard : s.fullfilled + 1 =
      (returned { s with calls := Function.update s.calls i .returned }).card := by
    rw [card_returned_update (s := s) rfl hbefore, h.fullfilled]
  have hlanding (j : Fin ts.length)
      (hwritten : (Function.update s.calls i .returned j).isWritten = true) :
      s.landing j = outcome op j := by
    by_cases hj : j = i
    · subst hj
      exact h.landing j (by simp [hcall, LandingCallback.isWritten])
    · rw [Function.update_of_ne hj] at hwritten
      exact h.landing j hwritten
  refine ⟨h.shared, h.unthrown, fun j => ?_, h.called_update (fun e he => absurd he (by simp)),
    hlanding, hcard, ?_, h.joined, h.joinedUnthrown, fun _ => h.waiting hnil⟩
  · by_cases hj : j = i
    · subst hj
      have hidle := h.idle j
      simpa [hcall] using hidle
    · simpa [Function.update_of_ne hj] using h.idle j
  · dsimp only
    by_cases hfull : s.fullfilled + 1 = ts.length
    · -- Every other callback has returned before, and every slot holds its outcome.
      have hall (j : Fin ts.length) :
          (Function.update s.calls i .returned j).isReturned = true :=
        all_returned (hcard.symm.trans hfull) j
      have hslots : s.landing = outcome op :=
        funext (fun j => hlanding j (isWritten_of_isReturned (hall j)))
      rw [if_pos hfull, if_pos hfull, hnil, hslots, List.nil_append]
    · rw [if_neg hfull, if_neg hfull, hnil]

/-- What is finished is the tuple of all outcomes. -/
theorem Inv.eq_of_mem_finishes {s : Join ε ts} (h : s.Inv op) {f : FinishType ε ts}
    (hf : f ∈ s.finishes) : s.fullfilled = ts.length ∧ f = tuple ts (outcome op) := by
  rw [h.finishes] at hf
  by_cases hfull : s.fullfilled = ts.length
  · rw [if_pos hfull] at hf
    exact ⟨hfull, List.mem_singleton.1 hf⟩
  · rw [if_neg hfull] at hf
    exact absurd hf (by simp)

theorem inv_step {s s' : Join ε ts} {e : Event ts.length} (hstep : s.step op e = some s')
    (h : s.Inv op) : s'.Inv op := by
  cases moves_of_step h hstep with
  | quiet hshared hthrew hcalls => exact h.quiet hshared hthrew hcalls
  | call binder hshared hthrew hnil hcalls => exact h.call hshared hthrew hnil hcalls _
  | write hcall => exact h.write hcall
  | ping hcall => exact h.ping hcall
  | finish hf hjoined =>
      obtain ⟨-, rfl⟩ := h.eq_of_mem_finishes (hf ▸ List.mem_cons_self)
      have hthrew := (Shared.produce_cases hjoined).1 ▸ h.joinedUnthrown
      exact ⟨h.shared, h.unthrown, h.idle, h.called, h.landing, h.fullfilled, h.finishes,
        Shared.inv_produce h.joined hjoined, hthrew,
        fun hnil => absurd (hf.symm.trans hnil) (by simp)⟩
  | attach hjoined =>
      obtain ⟨hproducer, hthrew, -⟩ := Shared.handle_cases hjoined
      exact ⟨h.shared, h.unthrown, h.idle, h.called, h.landing, h.fullfilled, h.finishes,
        Shared.inv_handle h.joined hjoined, hthrew, fun hnil => hproducer ▸ h.waiting hnil⟩

theorem inv_of_reachable {landing : ∀ i : Fin ts.length, Expected ε (ts.get i)}
    (hlength : 2 ≤ ts.length) {s : Join ε ts} (h : (machine op landing).Reachable s) : s.Inv op :=
  h.invariant (inv_init (by omega) landing) inv_step

/-! ## Every run ends, and only when the joined future is finished -/

/-- An upper bound on the steps still to be taken. -/
def remaining (s : Join ε ts) : ℕ :=
  ∑ i, (3 * (s.shared i).remaining + (s.calls i).remaining) + s.joined.remaining

/-- Where only the `i`-th future and its callback go on, it is enough that they come closer to
    their end. -/
theorem remaining_lt {s s' : Join ε ts} (i : Fin ts.length)
    (hi : 3 * (s'.shared i).remaining + (s'.calls i).remaining <
      3 * (s.shared i).remaining + (s.calls i).remaining)
    (hshared : ∀ j ≠ i, s'.shared j = s.shared j) (hcalls : ∀ j ≠ i, s'.calls j = s.calls j)
    (hjoined : s'.joined = s.joined) : s'.remaining < s.remaining := by
  have hsum : ∑ j, (3 * (s'.shared j).remaining + (s'.calls j).remaining) <
      ∑ j, (3 * (s.shared j).remaining + (s.calls j).remaining) := by
    refine Finset.sum_lt_sum (fun j _ => ?_) ⟨i, Finset.mem_univ i, hi⟩
    by_cases hj : j = i
    · subst hj
      exact hi.le
    · rw [hshared j hj, hcalls j hj]
  rw [remaining, remaining, hjoined]
  omega

theorem remaining_moved {s : Join ε ts} {i : Fin ts.length} {shared : Shared ε [ts.get i]}
    {binder : Bool} (hless : shared.remaining < (s.shared i).remaining) :
    (s.moved i shared binder).remaining < s.remaining := by
  unfold moved
  dsimp only
  split
  · refine remaining_lt i ?_ (fun j hj => Function.update_of_ne hj _ _) (fun j _ => rfl) rfl
    simpa using hless
  · refine remaining_lt i ?_ (fun j hj => Function.update_of_ne hj _ _)
      (fun j hj => Function.update_of_ne hj _ _) rfl
    simp only [Function.update_self, LandingCallback.remaining]
    omega

theorem remaining_step {s s' : Join ε ts} {e : Event ts.length} (hstep : s.step op e = some s') :
    s'.remaining < s.remaining := by
  cases e with
  | produce i =>
      obtain ⟨shared, hshared, rfl⟩ := Option.map_eq_some_iff.1 hstep
      exact remaining_moved (Shared.remaining_step (e := .produce) hshared)
  | handle i =>
      simp only [step, Option.ite_none_right_eq_some] at hstep
      obtain ⟨shared, hshared, rfl⟩ := Option.map_eq_some_iff.1 hstep.2
      exact remaining_moved (@Shared.remaining_step _ _ (op i) _ _ .handle hshared)
  | write i =>
      simp only [step, write] at hstep
      split at hstep
      · next hcall =>
          obtain rfl := Option.some.inj hstep
          refine remaining_lt i ?_ (fun j _ => rfl) (fun j hj => Function.update_of_ne hj _ _) rfl
          simp [hcall, LandingCallback.remaining]
      · exact absurd hstep (by simp)
  | ping i =>
      simp only [step, ping] at hstep
      split at hstep
      · next hcall =>
          obtain rfl := Option.some.inj hstep
          refine remaining_lt i ?_ (fun j _ => rfl) (fun j hj => Function.update_of_ne hj _ _) rfl
          simp [hcall, LandingCallback.remaining]
      · exact absurd hstep (by simp)
  | finish =>
      simp only [step] at hstep
      split at hstep
      · exact absurd hstep (by simp)
      · obtain ⟨joined, hjoined, rfl⟩ := Option.map_eq_some_iff.1 hstep
        exact Nat.add_lt_add_left (Shared.remaining_step (e := .produce) hjoined) _
  | attach =>
      simp only [step, Option.ite_none_right_eq_some] at hstep
      obtain ⟨joined, hjoined, rfl⟩ := Option.map_eq_some_iff.1 hstep.2
      have hless := @Shared.remaining_step _ _ (.finish (tuple ts (outcome op))) _ _ .handle hjoined
      exact Nat.add_lt_add_left hless _

theorem remaining_le (s : Join ε ts) : s.remaining ≤ 24 * ts.length + 7 := by
  have hcall {t : Option Type} (c : LandingCallback ε t) : c.remaining ≤ 3 := by
    cases c <;> simp [LandingCallback.remaining]
  have hsum : ∑ i, (3 * (s.shared i).remaining + (s.calls i).remaining) ≤ 24 * ts.length := by
    have hle (i : Fin ts.length) :
        3 * (s.shared i).remaining + (s.calls i).remaining ≤ 24 := by
      have hshared := (s.shared i).remaining_le
      have hphase := hcall (s.calls i)
      omega
    have hcard := Finset.sum_le_card_nsmul Finset.univ _ 24 (fun i _ => hle i)
    simpa [Nat.mul_comm] using hcard
  have hjoined := s.joined.remaining_le
  rw [remaining]
  omega

/-- By strong induction on the order in which `bind_landing` attaches the callbacks: where no thread
    can go on, each of them has returned. -/
theorem Inv.returned_of_no_step {s : Join ε ts} (h : s.Inv op) (hno : ∀ e, s.step op e = none)
    (i : Fin ts.length) : (s.shared i).handler = .returned ∧ (s.calls i).isReturned = true := by
  induction i using WellFoundedLT.induction with
  | ind i ih =>
      have hbound : ∀ j < i, s.bound j = true := by
        intro j hj
        obtain ⟨hhandler, hreturned⟩ := ih j hj
        simp [bound, hhandler, hreturned]
      have hproduce := hno (.produce i)
      have hhandle := hno (.handle i)
      simp only [step, Option.map_eq_none_iff] at hproduce
      simp only [step, if_pos hbound, Option.map_eq_none_iff] at hhandle
      have hhandler := (Shared.handle_eq_none hhandle).resolve_right (h.unthrown i)
      refine ⟨hhandler, ?_⟩
      rcases (h.shared i).returned (Shared.produce_eq_none hproduce) with ⟨-, hone⟩ | ⟨hne, -⟩
      · cases hcall : s.calls i with
        | returned => rfl
        | idle => exact absurd hone (by simp [(h.idle i).1 hcall])
        | called e => exact absurd (hno (.write i)) (by simp [step, Join.write, hcall])
        | written => exact absurd (hno (.ping i)) (by simp [step, Join.ping, hcall])
      · exact absurd hhandler hne

/-- The joined future is finished, and its handler was called. -/
theorem Inv.finished {s : Join ε ts} (h : s.Inv op) (hno : ∀ e, s.step op e = none) :
    s.finishes = [tuple ts (outcome op)] ∧ s.joined.invocations.length = 1 := by
  have hall := h.returned_of_no_step hno
  have hcard : s.returned.card = ts.length := by
    have huniv : s.returned = Finset.univ :=
      Finset.filter_true_of_mem (fun i _ => (hall i).2)
    rw [huniv, Finset.card_univ, Fintype.card_fin]
  have hfinishes : s.finishes = [tuple ts (outcome op)] := by
    rw [h.finishes, if_pos (h.fullfilled.trans hcard)]
  have hbound : ∀ i, s.bound i = true := by
    intro i
    obtain ⟨hhandler, hreturned⟩ := hall i
    simp [bound, hhandler, hreturned]
  have hproduce := hno .finish
  have hattach := hno .attach
  simp only [step, hfinishes, Option.map_eq_none_iff] at hproduce
  simp only [step, if_pos hbound, Option.map_eq_none_iff] at hattach
  have hhandler := (Shared.handle_eq_none hattach).resolve_right h.joinedUnthrown
  refine ⟨hfinishes, ?_⟩
  rcases h.joined.returned (Shared.produce_eq_none hproduce) with ⟨-, hone⟩ | ⟨hne, -⟩
  · exact hone
  · exact absurd hhandler hne

/-! ## All of it -/

variable {N : ℕ} {types : Fin N → List (Option Type)} {futures : Fin N → List (Fin N)} {m dst : Fin N}

/-- `then` on the joined future: without an error the callback gets the values of all futures, -/
theorem then_of_no_error {op : ∀ i : Fin (types m).length, Operation ε [(types m).get i]}
    (cb : FullfillType (types m) → CallbackResult ε types (futures dst) (types dst))
    (hnone : ∀ i, (outcome op i).error? = none) :
    ∃ v, (Handler.then_ dst cb).finish (tuple _ (outcome op)) = some (.then_ m dst cb v) ∧
      ∀ i, slot _ i (fullfillToFinish _ v) = outcome op i := by
  have hfirst : getFirstError _ (tuple _ (outcome op)) = none :=
    getFirstError_of_none (fun i => by rw [slot_tuple, hnone])
  obtain ⟨v, hfull, -⟩ := values_of_no_error hfirst
  refine ⟨v, ?_, fun i => ?_⟩
  · simp only [Handler.finish, hfirst, hfull, Option.map_some]
  · rw [← eq_of_finishToFullfill hfull, slot_tuple]

/-- and otherwise it fails with the first one. -/
theorem then_of_first_error {op : ∀ i : Fin (types m).length, Operation ε [(types m).get i]}
    (cb : FullfillType (types m) → CallbackResult ε types (futures dst) (types dst))
    {i : Fin (types m).length} {e : ε} (hi : (outcome op i).error? = some e)
    (hbefore : ∀ j < i, (outcome op j).error? = none) :
    (Handler.then_ dst cb).finish (tuple _ (outcome op)) = some (.fail m dst e) := by
  have hfirst : getFirstError _ (tuple _ (outcome op)) = some e :=
    getFirstError_of_first (i := i) (by rw [slot_tuple, hi])
      (fun j hj => by rw [slot_tuple, hbefore j hj])
  simp only [Handler.finish, hfirst]

/-- **`join` waits for all and keeps positions.** However the futures are resolved and the threads
    interleave: `finish` is called at most once, when every slot is written, and with the outcome of
    the `i`-th future in slot `i`. A `then` on the joined future calls its callback with all values
    in order, or fails with the error of the lowest-index future that has failed. Every run ends,
    and it ends only when the joined future is finished and its handler was called. -/
theorem join_keeps_positions {op : ∀ i : Fin (types m).length, Operation ε [(types m).get i]}
    {landing : ∀ i : Fin (types m).length, Expected ε ((types m).get i)}
    (hlength : 2 ≤ (types m).length)
    (cb : FullfillType (types m) → CallbackResult ε types (futures dst) (types dst))
    {s : Join ε (types m)} (h : (machine op landing).Reachable s) :
    s.finishes.length ≤ 1 ∧
    (∀ f ∈ s.finishes,
      (∀ i, (s.calls i).isWritten = true) ∧ ∀ i, slot _ i f = outcome op i) ∧
    (∀ call ∈ s.joined.invocations, s.finishes.length = 1 ∧
      ((∀ i, (outcome op i).error? = none) →
        ∃ v, (Handler.then_ dst cb).call call.outcome = some (.then_ m dst cb v) ∧
          ∀ i, slot _ i (fullfillToFinish _ v) = outcome op i) ∧
      ∀ i e, (outcome op i).error? = some e → (∀ j < i, (outcome op j).error? = none) →
        (Handler.then_ dst cb).call call.outcome = some (.fail m dst e)) ∧
    (∀ es s', (machine op landing).run s es = some s' → es.length ≤ 24 * (types m).length + 7) ∧
    ((∀ e, (machine op landing).step s e = none) →
      s.finishes.length = 1 ∧ s.joined.invocations.length = 1) := by
  have hinv := inv_of_reachable hlength h
  have hone : s.finishes = [] ∨ s.finishes.length = 1 := by
    rw [hinv.finishes]
    by_cases hfull : s.fullfilled = (types m).length
    · simp [hfull]
    · simp [hfull]
  refine ⟨?_, ?_, ?_, ?_, ?_⟩
  · rcases hone with hnil | hone
    · simp [hnil]
    · exact hone.le
  · intro f hf
    obtain ⟨hfull, rfl⟩ := hinv.eq_of_mem_finishes hf
    refine ⟨fun i => isWritten_of_isReturned ?_, fun i => slot_tuple _ _ i⟩
    exact all_returned (hinv.fullfilled.symm.trans hfull) i
  · intro call hcall
    have hproduced := (hinv.joined.proper call hcall).produced
    have houtcome : call.outcome = .finish (tuple _ (outcome op)) := hproduced
    have hfinished : s.finishes.length = 1 := by
      refine hone.resolve_left (fun hnil => ?_)
      have hreturned := (hinv.joined.called (List.ne_nil_of_mem hcall)).1
      exact absurd ((hinv.waiting hnil).symm.trans hreturned) (by simp)
    rw [houtcome]
    exact ⟨hfinished, then_of_no_error cb, fun i e hi hbefore => then_of_first_error cb hi hbefore⟩
  · intro es s' hrun
    have hle := Machine.length_run_le remaining remaining_step hrun
    have hbound := s.remaining_le
    omega
  · intro hno
    obtain ⟨hfinishes, hcalled⟩ := hinv.finished hno
    exact ⟨by rw [hfinishes, List.length_singleton], hcalled⟩

/-- A `Future<int>` and a `Future<std::string>`, joined, and the future `then` makes of them. -/
def joinedTypes : Fin 2 → List (Option Type)
  | 0 => [some ℕ, some String]
  | 1 => [some ℕ]

def joinedOps : ∀ i : Fin (joinedTypes 0).length, Operation String [(joinedTypes 0).get i]
  | ⟨0, _⟩ => .fullfill (3, ())
  | ⟨1, _⟩ => .fail "nope"

def joinedLanding : ∀ i : Fin (joinedTypes 0).length, Expected String ((joinedTypes 0).get i)
  | ⟨0, _⟩ => .ok (0 : ℕ)
  | ⟨1, _⟩ => .ok ""

def joinedThen (cb : FullfillType (joinedTypes 0) →
    CallbackResult String joinedTypes [] (joinedTypes 1)) :
    Handler String joinedTypes (fun _ => []) 0 :=
  .then_ 1 cb

/-- The second future has failed before `join` is called; the first is resolved after it. -/
theorem join_keeps_positions_failed :
    ∃ s, (machine joinedOps joinedLanding).Reachable s ∧ s.joined.invocations.length = 1 ∧
      ∀ call ∈ s.joined.invocations, ∀ cb, (joinedThen cb).call call.outcome =
        some (.fail 0 1 "nope") := by
  obtain ⟨s, hrun, hlength⟩ :
      ∃ s, (machine joinedOps joinedLanding).Reachable s ∧ s.joined.invocations.length = 1 := by
    have hrun : (machine joinedOps joinedLanding).Reachable _ :=
      Machine.reachable_of_run
        [.produce ⟨1, by decide⟩, .produce ⟨1, by decide⟩, .produce ⟨1, by decide⟩,
          .handle ⟨0, by decide⟩, .handle ⟨0, by decide⟩,
          .handle ⟨1, by decide⟩, .handle ⟨1, by decide⟩, .handle ⟨1, by decide⟩,
          .write ⟨1, by decide⟩, .ping ⟨1, by decide⟩, .attach, .attach,
          .produce ⟨0, by decide⟩, .produce ⟨0, by decide⟩,
          .write ⟨0, by decide⟩, .ping ⟨0, by decide⟩, .finish, .finish] rfl
    exact ⟨_, hrun, rfl⟩
  refine ⟨s, hrun, hlength, fun call hcall cb => ?_⟩
  have hkeeps := @join_keeps_positions String 2 joinedTypes (fun _ => []) 0 1 _ _ (by decide) cb _ hrun
  obtain ⟨-, -, hthen, -⟩ := hkeeps
  refine (hthen call hcall).2.2 ⟨1, by decide⟩ "nope" rfl ?_
  intro j hj
  have hzero : j = ⟨0, by decide⟩ := Fin.ext (Nat.lt_one_iff.1 hj)
  rw [hzero]
  rfl

end Join

end Future

end EasyGrpc
