import EasyGrpc.Stream.Storage

set_option autoImplicit false

/-! # A stream loses, duplicates and reorders nothing

Every value pushed was handed to the handler, is buffered, or is in a push that has not returned
(`Stream.Inv.account`). The terminal operation and `set_handler` exclude each other on `mtx_`, so
that exactly one of them tells the handler about the end, after the last value
(`Stream.Inv.shape`). -/

namespace EasyGrpc

variable {ι α : Type}

/-! ## Reading the log -/

section Values

variable [DecidableEq ι]

/-- The value a task hands to the callback, if thread `i` has pushed it. -/
def Task.value? (i : ι) : Task ι α → Option α
  | .call j v => if j = i then some v else none
  | _ => none

/-- The values of thread `i` among the tasks, in order. -/
def valuesOf (i : ι) (tasks : List (Task ι α)) : List α := tasks.filterMap (Task.value? i)

/-- The values of thread `i` in the buffer, in order. -/
def bufferedBy (i : ι) (buffer : List (ι × α)) : List α :=
  buffer.filterMap (fun p => if p.1 = i then some p.2 else none)

/-- The calls for buffered values. -/
def callsOf (buffer : List (ι × α)) : List (Task ι α) := buffer.map (fun p => .call p.1 p.2)

@[simp] theorem valuesOf_append (i : ι) (l m : List (Task ι α)) :
    valuesOf i (l ++ m) = valuesOf i l ++ valuesOf i m :=
  List.filterMap_append

@[simp] theorem valuesOf_nil (i : ι) : valuesOf i ([] : List (Task ι α)) = [] := rfl

@[simp] theorem valuesOf_ofEnd (i : ι) (t : StreamEnd) :
    valuesOf i [(Task.ofEnd t : Task ι α)] = [] := by
  cases t <;> rfl

theorem valuesOf_call (i j : ι) (v : α) :
    valuesOf i [Task.call j v] = if j = i then [v] else [] := by
  unfold valuesOf
  split
  · next h => simp [Task.value?, h]
  · next h => simp [Task.value?, h]

@[simp] theorem valuesOf_callsOf (i : ι) (buffer : List (ι × α)) :
    valuesOf i (callsOf buffer) = bufferedBy i buffer := by
  simp only [valuesOf, callsOf, bufferedBy, List.filterMap_map]
  rfl

@[simp] theorem bufferedBy_append (i : ι) (l m : List (ι × α)) :
    bufferedBy i (l ++ m) = bufferedBy i l ++ bufferedBy i m :=
  List.filterMap_append

theorem bufferedBy_single (i j : ι) (v : α) :
    bufferedBy i [(j, v)] = if j = i then [v] else [] := by
  unfold bufferedBy
  split
  · next h => simp [h]
  · next h => simp [h]

end Values

/-! ## What a storage owes its handler -/

namespace StreamStorage

/-- What the noted end is to enqueue; nothing if no end was noted. -/
def owed (s : StreamStorage ι α) : List (Task ι α) := s.notification s.complete s.fail

theorem owed_eq_nil {s : StreamStorage ι α} :
    s.owed = [] ↔ s.complete = false ∧ s.fail = false := by
  unfold owed notification
  cases s.complete <;> cases s.fail <;> simp

theorem owed_finish {s : StreamStorage ι α} (hready : s.ready = false) (hnone : s.owed = [])
    (t : StreamEnd) : (s.finish t).owed = [Task.ofEnd t] := by
  obtain ⟨hcomplete, -⟩ := owed_eq_nil.1 hnone
  cases t <;> simp [finish, hready, owed, notification, hcomplete, Task.ofEnd]

@[simp] theorem ready_finish (s : StreamStorage ι α) (t : StreamEnd) :
    (s.finish t).ready = s.ready := by
  unfold finish
  split
  · rfl
  · cases t <;> rfl

@[simp] theorem callback_finish (s : StreamStorage ι α) (t : StreamEnd) :
    (s.finish t).callback = s.callback := by
  unfold finish
  split
  · rfl
  · cases t <;> rfl

@[simp] theorem fullfilled_finish (s : StreamStorage ι α) (t : StreamEnd) :
    (s.finish t).fullfilled = s.fullfilled := by
  unfold finish
  split
  · rfl
  · cases t <;> rfl

theorem push_of_ready {s : StreamStorage ι α} (h : s.ready = true) (i : ι) (v : α) :
    s.push i v = s := by
  simp [push, h]

theorem push_of_not_ready {s : StreamStorage ι α} (h : s.ready = false) (i : ι) (v : α) :
    s.push i v = { s with fullfilled := s.fullfilled ++ [(i, v)] } := by
  simp [push, h]

end StreamStorage

namespace Stream

/-! ## What `enqueue` leaves alone -/

section Enqueue

variable (ex : Executor) (s : Stream ι α) (tasks : List (Task ι α))

@[simp] theorem log_enqueue : (s.enqueue ex tasks).log = s.log ++ tasks := by
  unfold enqueue
  split <;> rfl

@[simp] theorem storage_enqueue : (s.enqueue ex tasks).storage = s.storage := by
  unfold enqueue
  split <;> rfl

@[simp] theorem producer_enqueue : (s.enqueue ex tasks).producer = s.producer := by
  unfold enqueue
  split <;> rfl

@[simp] theorem ending_enqueue : (s.enqueue ex tasks).ending = s.ending := by
  unfold enqueue
  split <;> rfl

@[simp] theorem attaching_enqueue : (s.enqueue ex tasks).attaching = s.attaching := by
  unfold enqueue
  split <;> rfl

@[simp] theorem pushed_enqueue : (s.enqueue ex tasks).pushed = s.pushed := by
  unfold enqueue
  split <;> rfl

end Enqueue

/-! ## The invariant -/

/-- What the handler has been told of the end. -/
def told (s : Stream ι α) : List (Task ι α) :=
  match s.ending with
  | .returned t => if s.storage.owed.isEmpty || s.attaching == .attached then [.ofEnd t] else []
  | _ => []

/-- The ready bit is set. -/
def Attaching.isReady : Attaching → Bool
  | .registered _ _ | .attached => true
  | _ => false

variable [DecidableEq ι]

structure Inv (s : Stream ι α) : Prop where
  /-- Every value of a thread was handed over, is buffered or is in flight, in this order. -/
  account : ∀ i, valuesOf i s.log ++ (if s.storage.ready then [] else bufferedBy i s.storage.fullfilled)
    ++ (s.producer i).inFlight = s.pushed i
  calling_ready : ∀ i v, s.producer i = .calling v → s.storage.ready = true
  quiet : s.ending ≠ .pending → ∀ i, s.producer i = .idle
  callback_eq : s.storage.callback = true ↔ s.attaching ≠ .detached
  ready_eq : s.storage.ready = Attaching.isReady s.attaching
  /-- The flags `set_handler` saw do not change any more. -/
  seen : ∀ complete fail, s.attaching = .registered complete fail →
    complete = s.storage.complete ∧ fail = s.storage.fail
  /-- An end is noted in the storage only if the handler was not ready for it. -/
  unnoted : (∀ t, s.ending ≠ .returned t) → s.storage.owed = []
  end_ready : ∀ t, s.ending = .calling t → s.storage.ready = true
  noted : ∀ t, s.ending = .returned t →
    s.storage.owed = [.ofEnd t] ∨ (s.storage.owed = [] ∧ s.storage.ready = true)
  /-- The handler sees the values and then the end. -/
  shape : ∃ values, s.log = callsOf values ++ s.told

omit [DecidableEq ι] in
theorem told_of_not_returned {s : Stream ι α} (h : ∀ t, s.ending ≠ .returned t) : s.told = [] := by
  unfold told
  split
  · next t ht => exact absurd ht (h t)
  · rfl

omit [DecidableEq ι] in
theorem told_of_returned {s : Stream ι α} {t : StreamEnd} (h : s.ending = .returned t) :
    s.told = if s.storage.owed.isEmpty || s.attaching == .attached then [.ofEnd t] else [] := by
  simp only [told, h]

/-! ## Every step keeps the invariant -/

omit [DecidableEq ι] in
theorem not_returned_of_pending {s : Stream ι α} (h : s.ending = .pending) :
    ∀ t, s.ending ≠ .returned t := by
  intro t ht
  rw [h] at ht
  cases ht

/-- A thread moves on with its push, while the stream has not ended. -/
theorem Inv.moved {s s' : Stream ι α} (h : s.Inv) (hpending : s.ending = .pending)
    (hending : s'.ending = s.ending) (hattaching : s'.attaching = s.attaching)
    (buffer values : List (ι × α)) (hstorage : s'.storage = { s.storage with fullfilled := buffer })
    (hlog : s'.log = s.log ++ callsOf values)
    (haccount : ∀ i, valuesOf i s'.log
      ++ (if s'.storage.ready then [] else bufferedBy i s'.storage.fullfilled)
      ++ (s'.producer i).inFlight = s'.pushed i)
    (hcalling : ∀ i v, s'.producer i = .calling v → s'.storage.ready = true) : s'.Inv := by
  have hopen := not_returned_of_pending hpending
  have hopen' : ∀ t, s'.ending ≠ .returned t := hending ▸ hopen
  refine
    { account := haccount
      calling_ready := hcalling
      quiet := fun hne => absurd (hending.trans hpending) hne
      callback_eq := by rw [hstorage, hattaching]; exact h.callback_eq
      ready_eq := by rw [hstorage, hattaching]; exact h.ready_eq
      seen := by rw [hstorage, hattaching]; exact h.seen
      unnoted := fun _ => by rw [hstorage]; exact h.unnoted hopen
      end_ready := ?_
      noted := fun t ht => absurd ht (hopen' t)
      shape := ?_ }
  · intro t ht
    rw [hending, hpending] at ht
    cases ht
  · obtain ⟨old, hold⟩ := h.shape
    refine ⟨old ++ values, ?_⟩
    rw [hlog, hold, told_of_not_returned hopen, told_of_not_returned hopen']
    simp [callsOf]

/-- A push is only in progress while the stream has not ended. -/
theorem Inv.pending_of_push {s : Stream ι α} (h : s.Inv) {i : ι} (hbusy : s.producer i ≠ .idle) :
    s.ending = .pending := by
  by_contra hne
  exact hbusy (h.quiet hne i)

theorem Inv.push {s : Stream ι α} (h : s.Inv) (hpending : s.ending = .pending) {i : ι} {v : α}
    (hidle : s.producer i = .idle) :
    Inv ({ s with pushed := Function.update s.pushed i (s.pushed i ++ [v]) }.setProducer i
      (if s.storage.ready then .calling v else .locking v)) := by
  refine h.moved hpending rfl rfl s.storage.fullfilled [] rfl (by simp [callsOf, setProducer]) ?_ ?_
  · intro j
    have haccount := h.account j
    by_cases hj : j = i
    · subst hj
      rw [hidle] at haccount
      simp only [setProducer, Function.update_self]
      rw [← haccount]
      by_cases hready : s.storage.ready = true <;> simp [hready, Pushing.inFlight]
    · simp only [setProducer, Function.update_of_ne hj]
      exact haccount
  · intro j w hw
    by_cases hj : j = i
    · subst hj
      simp only [setProducer, Function.update_self] at hw
      split at hw
      · next hready => exact hready
      · cases hw
    · simp only [setProducer, Function.update_of_ne hj] at hw
      exact h.calling_ready j w hw

theorem Inv.lock {s : Stream ι α} (h : s.Inv) {i : ι} {v : α} (hlocking : s.producer i = .locking v) :
    Inv ({ s with storage := s.storage.push i v }.setProducer i
      (if s.storage.ready then .calling v else .idle)) := by
  have hpending := h.pending_of_push (i := i) (by rw [hlocking]; simp)
  cases hready : s.storage.ready with
  | true =>
      -- The handler became ready between the load and the lock.
      rw [StreamStorage.push_of_ready hready]
      refine h.moved hpending rfl rfl s.storage.fullfilled [] rfl (by simp [callsOf, setProducer]) ?_
        (fun _ _ _ => hready)
      intro j
      have haccount := h.account j
      by_cases hj : j = i
      · subst hj
        simp only [setProducer, Function.update_self]
        rw [hlocking] at haccount
        exact haccount
      · simp only [setProducer, Function.update_of_ne hj]
        exact haccount
  | false =>
      rw [StreamStorage.push_of_not_ready hready]
      refine h.moved hpending rfl rfl (s.storage.fullfilled ++ [(i, v)]) [] rfl
        (by simp [callsOf, setProducer]) ?_ ?_
      · intro j
        have haccount := h.account j
        simp only [hready, Bool.false_eq_true, if_false] at haccount
        by_cases hj : j = i
        · subst hj
          rw [hlocking] at haccount
          simp [setProducer, hready, Pushing.inFlight, bufferedBy_single, ← haccount]
        · have hne : i ≠ j := fun he => hj he.symm
          simp [setProducer, hready, Function.update_of_ne hj, bufferedBy_single, hne,
            ← haccount]
      · intro j w hw
        by_cases hj : j = i
        · subst hj
          simp [setProducer] at hw
        · simp only [setProducer, Function.update_of_ne hj] at hw
          have hno := h.calling_ready j w hw
          rw [hready] at hno
          cases hno

theorem Inv.deliver {ex : Executor} {s : Stream ι α} (h : s.Inv) {i : ι} {v : α}
    (hcalling : s.producer i = .calling v) :
    Inv ((s.enqueue ex [.call i v]).setProducer i .idle) := by
  have hpending := h.pending_of_push (i := i) (by rw [hcalling]; simp)
  have hready := h.calling_ready i v hcalling
  refine h.moved hpending (by simp [setProducer]) (by simp [setProducer]) s.storage.fullfilled
    [(i, v)] (by simp [setProducer]) (by simp [callsOf, setProducer]) ?_
    (fun _ _ _ => by simpa [setProducer] using hready)
  intro j
  have haccount := h.account j
  simp only [hready, if_true, List.append_nil] at haccount
  by_cases hj : j = i
  · subst hj
    rw [hcalling] at haccount
    simp [setProducer, hready, Pushing.inFlight, valuesOf_call, ← haccount]
  · have hne : i ≠ j := fun he => hj he.symm
    simp [setProducer, hready, Function.update_of_ne hj, valuesOf_call, hne, ← haccount]

theorem Inv.finish {s : Stream ι α} (h : s.Inv) (hpending : s.ending = .pending)
    (hidle : ∀ i, s.producer i = .idle) (t : StreamEnd) :
    Inv { s with
      storage := s.storage.finish t
      ending := if s.storage.ready then .calling t else .returned t } := by
  have hopen := not_returned_of_pending hpending
  have hnone := h.unnoted hopen
  obtain ⟨values, hshape⟩ := h.shape
  rw [told_of_not_returned hopen, List.append_nil] at hshape
  cases hready : s.storage.ready with
  | true =>
      have hsame : s.storage.finish t = s.storage := by simp [StreamStorage.finish, hready]
      rw [hsame]
      refine ⟨h.account, h.calling_ready, fun _ => hidle, h.callback_eq, h.ready_eq, h.seen,
        fun _ => hnone, fun _ _ => hready, ?_, values, ?_⟩
      · intro t' ht'
        cases ht'
      · rw [told_of_not_returned (by simp), List.append_nil]
        exact hshape
  | false =>
      -- The end is noted; `set_handler` has yet to take its critical section and will see it.
      have howed := StreamStorage.owed_finish hready hnone t
      have hdetached : Attaching.isReady s.attaching = false := h.ready_eq.symm.trans hready
      refine
        { account := by simpa using h.account
          calling_ready := by simpa using h.calling_ready
          quiet := fun _ => hidle
          callback_eq := by simpa using h.callback_eq
          ready_eq := by simpa using h.ready_eq
          seen := ?_
          unnoted := fun hno => absurd rfl (hno t)
          end_ready := fun t' ht' => by cases ht'
          noted := ?_
          shape := ⟨values, ?_⟩ }
      · intro complete fail hatt
        simp only at hatt
        rw [hatt] at hdetached
        cases hdetached
      · intro t' ht'
        obtain rfl : t = t' := by simpa using ht'
        exact Or.inl howed
      · have hattached : s.attaching ≠ .attached := by
          intro hatt
          rw [hatt] at hdetached
          cases hdetached
        rw [told_of_returned rfl]
        simp [howed, hattached, hshape]

theorem Inv.deliverEnd {ex : Executor} {s : Stream ι α} (h : s.Inv) {t : StreamEnd}
    (hcalling : s.ending = .calling t) :
    Inv { s.enqueue ex [.ofEnd t] with ending := .returned t } := by
  have hopen : ∀ t', s.ending ≠ .returned t' := by
    intro t' ht'
    rw [hcalling] at ht'
    cases ht'
  have hnone := h.unnoted hopen
  have hready := h.end_ready t hcalling
  have hidle := h.quiet (by rw [hcalling]; simp)
  obtain ⟨values, hshape⟩ := h.shape
  rw [told_of_not_returned hopen, List.append_nil] at hshape
  refine
    { account := by simpa using h.account
      calling_ready := by simpa using h.calling_ready
      quiet := fun _ => by simpa using hidle
      callback_eq := by simpa using h.callback_eq
      ready_eq := by simpa using h.ready_eq
      seen := by simpa using h.seen
      unnoted := fun hno => absurd rfl (hno t)
      end_ready := fun t' ht' => by cases ht'
      noted := ?_
      shape := ⟨values, ?_⟩ }
  · intro t' _
    exact Or.inr (by simpa using ⟨hnone, hready⟩)
  · rw [told_of_returned rfl]
    simp [hnone, hshape]

theorem Inv.publish {s : Stream ι α} (h : s.Inv) (hdetached : s.attaching = .detached) :
    Inv { s with storage := { s.storage with callback := true }, attaching := .published } := by
  have hready : s.storage.ready = false := by rw [h.ready_eq, hdetached]; rfl
  obtain ⟨values, hshape⟩ := h.shape
  refine ⟨h.account, h.calling_ready, h.quiet, by simp, hready, ?_, h.unnoted, h.end_ready, h.noted,
    values, ?_⟩
  · intro complete fail hatt
    cases hatt
  · rw [hshape]
    unfold told
    simp only [hdetached]
    rfl

theorem Inv.register {ex : Executor} {s : Stream ι α} (h : s.Inv)
    (hpublished : s.attaching = .published) :
    Inv { s.enqueue ex (callsOf s.storage.fullfilled) with
      storage := s.storage.setReady
      attaching := .registered s.storage.complete s.storage.fail } := by
  have hready : s.storage.ready = false := by rw [h.ready_eq, hpublished]; rfl
  obtain ⟨values, hshape⟩ := h.shape
  have hcallback : s.storage.callback = true := h.callback_eq.2 (by rw [hpublished]; simp)
  -- Nothing was told of the end yet: an end that has come was noted.
  have hnoted : ∀ t, s.ending = .returned t → s.storage.owed = [.ofEnd t] := by
    intro t ht
    rcases h.noted t ht with howed | ⟨-, hno⟩
    · exact howed
    · rw [hready] at hno
      cases hno
  have htold : s.told = [] := by
    by_cases hopen : ∀ t, s.ending ≠ .returned t
    · exact told_of_not_returned hopen
    · push Not at hopen
      obtain ⟨t, ht⟩ := hopen
      rw [told_of_returned ht, hnoted t ht, hpublished]
      rfl
  rw [htold, List.append_nil] at hshape
  refine
    { account := ?_
      calling_ready := fun _ _ _ => rfl
      quiet := by simpa using h.quiet
      callback_eq := by simpa [StreamStorage.setReady] using hcallback
      ready_eq := rfl
      seen := ?_
      unnoted := fun hno => h.unnoted (by simpa using hno)
      end_ready := fun _ _ => rfl
      noted := ?_
      shape := ⟨values ++ s.storage.fullfilled, ?_⟩ }
  · intro i
    have haccount := h.account i
    simp only [hready, Bool.false_eq_true, if_false] at haccount
    simpa [StreamStorage.setReady] using haccount
  · intro complete fail hatt
    simp only [Attaching.registered.injEq] at hatt
    exact ⟨hatt.1.symm, hatt.2.symm⟩
  · intro t ht
    simp only [ending_enqueue] at ht
    exact Or.inl (hnoted t ht)
  · have htold' : told { s.enqueue ex (callsOf s.storage.fullfilled) with
        storage := s.storage.setReady
        attaching := .registered s.storage.complete s.storage.fail } = [] := by
      by_cases hopen : ∀ t, s.ending ≠ .returned t
      · exact told_of_not_returned (by simpa using hopen)
      · push Not at hopen
        obtain ⟨t, ht⟩ := hopen
        have howed : s.storage.setReady.owed = [.ofEnd t] := hnoted t ht
        rw [told_of_returned (t := t) (by simpa using ht)]
        simp [howed]
    rw [htold']
    simp [hshape, callsOf]

theorem Inv.notify {ex : Executor} {s : Stream ι α} (h : s.Inv) {complete fail : Bool}
    (hregistered : s.attaching = .registered complete fail) :
    Inv { s.enqueue ex (s.storage.notification complete fail) with attaching := .attached } := by
  -- The flags seen under the lock are still those of the storage: a later end finds it ready.
  obtain ⟨rfl, rfl⟩ := h.seen complete fail hregistered
  have hready : s.storage.ready = true := by rw [h.ready_eq, hregistered]; rfl
  have hcallback : s.storage.callback = true := h.callback_eq.2 (by rw [hregistered]; simp)
  obtain ⟨values, hshape⟩ := h.shape
  have hvalues : ∀ i, valuesOf i s.storage.owed = [] := by
    intro i
    by_cases hopen : ∀ t, s.ending ≠ .returned t
    · rw [h.unnoted hopen]
      rfl
    · push Not at hopen
      obtain ⟨t, ht⟩ := hopen
      rcases h.noted t ht with howed | ⟨howed, -⟩
      · rw [howed]
        exact valuesOf_ofEnd i t
      · rw [howed]
        rfl
  refine
    { account := ?_
      calling_ready := by simpa using h.calling_ready
      quiet := by simpa using h.quiet
      callback_eq := by simpa using hcallback
      ready_eq := by simpa [Attaching.isReady] using hready
      seen := fun _ _ hatt => by cases hatt
      unnoted := by simpa using h.unnoted
      end_ready := by simpa using h.end_ready
      noted := by simpa using h.noted
      shape := ⟨values, ?_⟩ }
  · intro i
    have hnone : valuesOf i (s.storage.notification s.storage.complete s.storage.fail) = [] :=
      hvalues i
    simpa [hnone] using h.account i
  · have howes : s.storage.notification s.storage.complete s.storage.fail = s.storage.owed := rfl
    by_cases hopen : ∀ t, s.ending ≠ .returned t
    · rw [told_of_not_returned hopen] at hshape
      rw [told_of_not_returned (by simpa using hopen)]
      simp [howes, h.unnoted hopen, hshape]
    · push Not at hopen
      obtain ⟨t, ht⟩ := hopen
      rw [told_of_returned (t := t) (by simpa using ht)]
      rw [told_of_returned ht, hregistered] at hshape
      rcases h.noted t ht with howed | ⟨howed, -⟩
      · rw [howed] at hshape
        simpa [howes, howed] using hshape
      · rw [howed] at hshape
        simpa [howes, howed] using hshape

variable [Fintype ι]

omit [DecidableEq ι] in
theorem allIdle_iff {s : Stream ι α} : s.allIdle = true ↔ ∀ i, s.producer i = .idle := by
  have hone : ∀ p : Pushing α, p.inFlight.isEmpty = true ↔ p = .idle := by
    intro p
    cases p <;> simp [Pushing.inFlight]
  simp only [allIdle, decide_eq_true_eq, hone]

/-! ## The steps, with what each requires -/

/-- One constructor for each step that `step` can take, with the position its thread has to be
    in. -/
inductive Moves (ex : Executor) (s : Stream ι α) : Event ι α → Stream ι α → Prop
  | push {i : ι} {v : α} (hpending : s.ending = .pending) (hidle : s.producer i = .idle) :
      Moves ex s (.push i v)
        ({ s with pushed := Function.update s.pushed i (s.pushed i ++ [v]) }.setProducer i
          (if s.storage.ready then .calling v else .locking v))
  | lock {i : ι} {v : α} (hlocking : s.producer i = .locking v) :
      Moves ex s (.lock i) ({ s with storage := s.storage.push i v }.setProducer i
        (if s.storage.ready then .calling v else .idle))
  | deliver {i : ι} {v : α} (hcalling : s.producer i = .calling v) :
      Moves ex s (.deliver i) ((s.enqueue ex [.call i v]).setProducer i .idle)
  | finish {t : StreamEnd} (hpending : s.ending = .pending) (hidle : ∀ i, s.producer i = .idle) :
      Moves ex s (.finish t) { s with
        storage := s.storage.finish t
        ending := if s.storage.ready then .calling t else .returned t }
  | deliverEnd {t : StreamEnd} (hcalling : s.ending = .calling t) :
      Moves ex s .deliverEnd { s.enqueue ex [.ofEnd t] with ending := .returned t }
  | publish (hdetached : s.attaching = .detached) :
      Moves ex s .publish { s with
        storage := { s.storage with callback := true }, attaching := .published }
  | register (hpublished : s.attaching = .published) :
      Moves ex s .register { s.enqueue ex (callsOf s.storage.fullfilled) with
        storage := s.storage.setReady
        attaching := .registered s.storage.complete s.storage.fail }
  | notify {complete fail : Bool} (hregistered : s.attaching = .registered complete fail) :
      Moves ex s .notify
        { s.enqueue ex (s.storage.notification complete fail) with attaching := .attached }
  | run {k : ℕ} {task : Task ι α} (hturn : ex = .unordered ∨ k = 0)
      (htask : s.queue[k]? = some task) :
      Moves ex s (.run k) { s with queue := s.queue.eraseIdx k, ran := s.ran ++ [task] }

/-- **What one step of a stream can do.** -/
theorem moves_of_step {ex : Executor} {s s' : Stream ι α} {e : Event ι α}
    (hstep : (machine ι α ex).step s e = some s') : Moves ex s e s' := by
  cases e with
  | push i v =>
      simp only [machine, step] at hstep
      split at hstep
      · next hpending hidle =>
          obtain rfl := Option.some.inj hstep
          exact .push hpending hidle
      · cases hstep
  | lock i =>
      simp only [machine, step] at hstep
      split at hstep
      · next v hlocking =>
          obtain rfl := Option.some.inj hstep
          exact .lock hlocking
      · cases hstep
  | deliver i =>
      simp only [machine, step] at hstep
      split at hstep
      · next v hcalling =>
          obtain rfl := Option.some.inj hstep
          exact .deliver hcalling
      · cases hstep
  | finish t =>
      simp only [machine, step] at hstep
      split at hstep
      · next hguard =>
          simp only [Bool.and_eq_true, decide_eq_true_eq] at hguard
          obtain rfl := Option.some.inj hstep
          exact .finish hguard.1 (allIdle_iff.1 hguard.2)
      · cases hstep
  | deliverEnd =>
      simp only [machine, step] at hstep
      split at hstep
      · next t hcalling =>
          obtain rfl := Option.some.inj hstep
          exact .deliverEnd hcalling
      · cases hstep
  | publish =>
      simp only [machine, step] at hstep
      split at hstep
      · next hdetached =>
          obtain rfl := Option.some.inj hstep
          exact .publish hdetached
      · cases hstep
  | register =>
      simp only [machine, step] at hstep
      split at hstep
      · next hpublished =>
          obtain rfl := Option.some.inj hstep
          exact .register hpublished
      · cases hstep
  | notify =>
      simp only [machine, step] at hstep
      split at hstep
      · next complete fail hregistered =>
          obtain rfl := Option.some.inj hstep
          exact .notify hregistered
      · cases hstep
  | run k =>
      simp only [machine, step] at hstep
      split at hstep
      · next hturn =>
          obtain ⟨task, htask, rfl⟩ := Option.map_eq_some_iff.1 hstep
          exact .run (by simpa using hturn) htask
      · cases hstep

theorem inv_step {ex : Executor} {s s' : Stream ι α} {e : Event ι α}
    (hstep : (machine ι α ex).step s e = some s') (h : s.Inv) : s'.Inv := by
  cases moves_of_step hstep with
  | push hpending hidle => exact h.push hpending hidle
  | lock hlocking => exact h.lock hlocking
  | deliver hcalling => exact h.deliver hcalling
  | finish hpending hidle => exact h.finish hpending hidle _
  | deliverEnd hcalling => exact h.deliverEnd hcalling
  | publish hdetached => exact h.publish hdetached
  | register hpublished => exact h.register hpublished
  | notify hregistered => exact h.notify hregistered
  | run hturn htask =>
      -- The invariant does not look at what the executor has run.
      exact ⟨h.account, h.calling_ready, h.quiet, h.callback_eq, h.ready_eq, h.seen, h.unnoted,
        h.end_ready, h.noted, h.shape⟩

theorem inv_init {ex : Executor} : ((machine ι α ex).init).Inv := by
  refine ⟨fun _ => rfl, ?_, fun hne => absurd rfl hne, by simp [machine], rfl, ?_, fun _ => rfl, ?_,
    ?_, [], rfl⟩
  · intro i v hcalling
    cases hcalling
  · intro complete fail hatt
    cases hatt
  · intro t ht
    cases ht
  · intro t ht
    cases ht

theorem inv_of_reachable {ex : Executor} {s : Stream ι α} (h : (machine ι α ex).Reachable s) :
    s.Inv :=
  h.invariant inv_init inv_step

/-! ## What the executor runs -/

/-- The tasks enqueued are those that ran and those that wait, in this order unless the executor is
    free to reorder them. -/
structure Scheduled (ex : Executor) (s : Stream ι α) : Prop where
  perm : (s.ran ++ s.queue).Perm s.log
  ordered : ex ≠ .unordered → s.ran ++ s.queue = s.log
  immediate : ex = .immediate → s.queue = []

omit [DecidableEq ι] [Fintype ι] in
theorem Scheduled.enqueue {ex : Executor} {s : Stream ι α} (h : Scheduled ex s)
    (tasks : List (Task ι α)) : Scheduled ex (s.enqueue ex tasks) := by
  by_cases him : ex = .immediate
  · have hqueue := h.immediate him
    have hran : s.ran = s.log := by
      have hordered := h.ordered (by rw [him]; simp)
      rwa [hqueue, List.append_nil] at hordered
    simp only [Stream.enqueue, if_pos him]
    refine ⟨?_, ?_, fun _ => hqueue⟩
    · rw [hqueue, List.append_nil, hran]
    · intro _
      rw [hqueue, List.append_nil, hran]
  · simp only [Stream.enqueue, if_neg him]
    refine ⟨?_, ?_, fun hno => absurd hno him⟩
    · rw [← List.append_assoc]
      exact h.perm.append_right tasks
    · intro hne
      rw [← List.append_assoc, h.ordered hne]

omit [DecidableEq ι] [Fintype ι] in
/-- `Scheduled` looks at the tasks only. -/
theorem Scheduled.copy {ex : Executor} {s s' : Stream ι α} (h : Scheduled ex s)
    (hlog : s'.log = s.log) (hqueue : s'.queue = s.queue) (hran : s'.ran = s.ran) :
    Scheduled ex s' := by
  obtain ⟨h1, h2, h3⟩ := h
  refine ⟨?_, ?_, ?_⟩ <;> rw [hqueue]
  · rw [hran, hlog]
    exact h1
  · rw [hran, hlog]
    exact h2
  · exact h3

theorem scheduled_step {ex : Executor} {s s' : Stream ι α} {e : Event ι α}
    (hstep : (machine ι α ex).step s e = some s') (h : Scheduled ex s) : Scheduled ex s' := by
  cases moves_of_step hstep with
  | push hpending hidle => exact h.copy rfl rfl rfl
  | lock hlocking => exact h.copy rfl rfl rfl
  | deliver hcalling => exact (h.enqueue _).copy rfl rfl rfl
  | finish hpending hidle => exact h.copy rfl rfl rfl
  | deliverEnd hcalling => exact (h.enqueue _).copy rfl rfl rfl
  | publish hdetached => exact h.copy rfl rfl rfl
  | register hpublished => exact (h.enqueue _).copy rfl rfl rfl
  | notify hregistered => exact (h.enqueue _).copy rfl rfl rfl
  | @run k task hturn htask =>
      obtain ⟨hlt, hget⟩ := List.getElem?_eq_some_iff.1 htask
      refine ⟨?_, ?_, ?_⟩
      · have hrest := List.getElem_cons_eraseIdx_perm hlt
        rw [hget] at hrest
        rw [List.append_assoc]
        exact (hrest.append_left s.ran).trans h.perm
      · intro hne
        -- An executor that keeps the order runs the first task.
        obtain rfl : k = 0 := hturn.resolve_left hne
        rw [← h.ordered hne]
        cases hqueue : s.queue with
        | nil => simp [hqueue] at htask
        | cons first rest =>
            obtain rfl : first = task := by simpa [hqueue] using htask
            simp
      · intro him
        rw [h.immediate him] at hlt
        exact absurd hlt (Nat.not_lt_zero k)

theorem scheduled_of_reachable {ex : Executor} {s : Stream ι α}
    (h : (machine ι α ex).Reachable s) : Scheduled ex s :=
  h.invariant ⟨.nil, fun _ => rfl, fun _ => rfl⟩ scheduled_step

/-! ## The end -/

/-- The task resolves the future of `for_each`. -/
def isEnd : Task ι α → Bool
  | .call _ _ => false
  | _ => true

omit [DecidableEq ι] [Fintype ι] in
theorem isEnd_ofEnd (t : StreamEnd) : isEnd (.ofEnd t : Task ι α) = true := by
  cases t <;> rfl

omit [DecidableEq ι] [Fintype ι] in
theorem not_isEnd_of_mem_callsOf {values : List (ι × α)} {task : Task ι α}
    (h : task ∈ callsOf values) : isEnd task = false := by
  obtain ⟨p, -, rfl⟩ := List.mem_map.1 h
  rfl

omit [DecidableEq ι] [Fintype ι] in
/-- The handler is told of the end at most once, and of the end there was. -/
theorem told_cases (s : Stream ι α) :
    s.told = [] ∨ ∃ t, s.ending = .returned t ∧ s.told = [.ofEnd t] := by
  by_cases hopen : ∀ t, s.ending ≠ .returned t
  · exact Or.inl (told_of_not_returned hopen)
  · push Not at hopen
    obtain ⟨t, ht⟩ := hopen
    rw [told_of_returned ht]
    split
    · exact Or.inr ⟨t, ht, rfl⟩
    · exact Or.inl rfl

omit [Fintype ι] in
/-- Once told of the end, the handler has every value. -/
theorem Inv.all_of_told {s : Stream ι α} (h : s.Inv) (htold : s.told ≠ []) (i : ι) :
    valuesOf i s.log = s.pushed i := by
  rcases told_cases s with hnone | ⟨t, ht, -⟩
  · exact absurd hnone htold
  · have hready : s.storage.ready = true := by
      rcases h.noted t ht with howed | ⟨-, hready⟩
      · have hattached : s.attaching = .attached := by
          by_contra hno
          rw [told_of_returned ht, howed] at htold
          simp [hno] at htold
        rw [h.ready_eq, hattached]
        rfl
      · exact hready
    have haccount := h.account i
    rw [h.quiet (by rw [ht]; simp) i] at haccount
    simpa [hready, Pushing.inFlight] using haccount

omit [Fintype ι] in
theorem Inv.told_of_mem {s : Stream ι α} (h : s.Inv) {task : Task ι α} (hmem : task ∈ s.log)
    (hend : isEnd task = true) : ∃ t, s.ending = .returned t ∧ s.told = [.ofEnd t] ∧
      task = .ofEnd t := by
  obtain ⟨values, hshape⟩ := h.shape
  rw [hshape, List.mem_append] at hmem
  rcases hmem with hcall | htold
  · rw [not_isEnd_of_mem_callsOf hcall] at hend
    cases hend
  · rcases told_cases s with hnone | ⟨t, ht, hone⟩
    · rw [hnone] at htold
      cases htold
    · rw [hone] at htold
      exact ⟨t, ht, hone, List.mem_singleton.1 htold⟩

omit [Fintype ι] in
theorem Inv.countP_log {s : Stream ι α} (h : s.Inv) : s.log.countP isEnd = s.told.length := by
  obtain ⟨values, hshape⟩ := h.shape
  have hcalls : (callsOf values).countP isEnd = 0 := by
    rw [List.countP_eq_zero]
    intro task hmem
    simp [not_isEnd_of_mem_callsOf hmem]
  rw [hshape, List.countP_append, hcalls, Nat.zero_add]
  rcases told_cases s with hnone | ⟨t, -, hone⟩
  · rw [hnone]
    rfl
  · rw [hone]
    simp [isEnd_ofEnd]

omit [Fintype ι] in
/-- An executor that keeps the order has nothing left once it has resolved the future. -/
theorem Inv.queue_of_resolved {ex : Executor} {s : Stream ι α} (h : s.Inv) (hs : Scheduled ex s)
    (hex : ex ≠ .unordered) {task : Task ι α} (hmem : task ∈ s.ran) (hend : isEnd task = true) :
    s.queue = [] := by
  have hlog : task ∈ s.log := by
    rw [← hs.ordered hex]
    exact List.mem_append_left _ hmem
  obtain ⟨t, -, htold, -⟩ := h.told_of_mem hlog hend
  obtain ⟨values, hshape⟩ := h.shape
  by_contra hne
  -- The last task waiting would be the last one enqueued: a second end.
  have hlast : s.queue.getLast? = some (.ofEnd t) := by
    have heq := congrArg List.getLast? ((hs.ordered hex).trans hshape)
    rw [htold, List.getLast?_append_of_ne_nil _ hne, List.getLast?_concat] at heq
    exact heq
  have hqueue : 0 < s.queue.countP isEnd :=
    List.countP_pos_iff.2 ⟨.ofEnd t, List.mem_of_getLast? hlast, isEnd_ofEnd t⟩
  have hran : 0 < s.ran.countP isEnd := List.countP_pos_iff.2 ⟨task, hmem, hend⟩
  have htotal := h.countP_log
  rw [← hs.ordered hex, List.countP_append, htold, List.length_singleton] at htotal
  omega

/-- A stream that can do nothing more was ended and attached to, and everything has run. -/
theorem finished_of_no_step {ex : Executor} {s : Stream ι α}
    (hstuck : ∀ e, (machine ι α ex).step s e = none) :
    (∃ t, s.ending = .returned t) ∧ s.attaching = .attached ∧ s.queue = [] := by
  have hidle : ∀ i, s.producer i = .idle := by
    intro i
    cases hp : s.producer i with
    | idle => rfl
    | locking v =>
        have hlock := hstuck (.lock i)
        simp [machine, step, hp] at hlock
    | calling v =>
        have hdeliver := hstuck (.deliver i)
        simp [machine, step, hp] at hdeliver
  refine ⟨?_, ?_, ?_⟩
  · cases hending : s.ending with
    | pending =>
        have hfinish := hstuck (.finish .complete)
        simp [machine, step, hending, allIdle_iff.2 hidle] at hfinish
    | calling t =>
        have hdeliver := hstuck .deliverEnd
        simp [machine, step, hending] at hdeliver
    | returned t => exact ⟨t, rfl⟩
  · cases hatt : s.attaching with
    | detached =>
        have hpublish := hstuck .publish
        simp [machine, step, hatt] at hpublish
    | published =>
        have hregister := hstuck .register
        simp [machine, step, hatt] at hregister
    | registered complete fail =>
        have hnotify := hstuck .notify
        simp [machine, step, hatt] at hnotify
    | attached => rfl
  · cases hqueue : s.queue with
    | nil => rfl
    | cons task rest =>
        have hrun := hstuck (.run 0)
        simp [machine, step, hqueue] at hrun

/-! ## The guarantees of a stream -/

/-- What the producers and the consumer of a stream can rely on. -/
structure DeliversOnce (ex : Executor) (s : Stream ι α) : Prop where
  /-- The assertion of `push`, and the handler it calls exists. -/
  push_asserts : ∀ i, s.ending = .pending ∨ s.producer i ≠ .idle →
    s.storage.complete = false ∧ s.storage.fail = false
  callback_set : s.storage.ready = true → s.storage.callback = true
  /-- The handler receives the values of a thread in the order pushed, none of them twice. -/
  in_order : ∀ i, valuesOf i s.log <+: s.pushed i
  /-- It receives no value after the end, and only the end there was. -/
  end_last : ∃ values, s.log = callsOf values ∨
    ∃ t, s.ending = .returned t ∧ s.log = callsOf values ++ [.ofEnd t]
  /-- With the end it has every value. -/
  end_complete : ∀ task ∈ s.log, isEnd task = true → ∀ i, valuesOf i s.log = s.pushed i
  /-- Whatever the executor: the future is resolved at most once, with the end there was. -/
  resolved_once : s.ran.countP isEnd ≤ 1
  resolved_with : ∀ task ∈ s.ran, isEnd task = true →
    ∃ t, s.ending = .returned t ∧ task = .ofEnd t
  /-- Each task enqueued has run once or waits. -/
  runs_once : (s.ran ++ s.queue).Perm s.log
  /-- An executor that keeps the order runs the callback in the order received, and resolves the
      future after the last run. -/
  runs_in_order : ex ≠ .unordered → s.ran <+: s.log
  resolved_last : ex ≠ .unordered → ∀ task ∈ s.ran, isEnd task = true →
    s.ran = s.log ∧ ∀ i, valuesOf i s.ran = s.pushed i
  /-- Once the terminal operation and `for_each` have returned, every value was received once, then
      the end. -/
  all_received : ∀ t, s.ending = .returned t → s.attaching = .attached →
    (∀ i, valuesOf i s.log = s.pushed i) ∧ ∃ values, s.log = callsOf values ++ [.ofEnd t]
  /-- A run that cannot be continued got there, and all of it has run. -/
  none_stuck : (∀ e, (machine ι α ex).step s e = none) →
    (∃ t, s.ending = .returned t) ∧ s.attaching = .attached ∧ s.ran.Perm s.log

/-- **A stream loses, duplicates and reorders nothing, whenever the consumer attaches**: in every
    reachable state of every interleaving of any number of pushing threads, the terminal operation,
    `for_each` and the executor. -/
theorem stream_delivers_once {ex : Executor} {s : Stream ι α} (h : (machine ι α ex).Reachable s) :
    s.DeliversOnce ex := by
  have hinv := inv_of_reachable h
  have hsched := scheduled_of_reachable h
  have hlogged : ∀ {task}, task ∈ s.ran → task ∈ s.log := fun hmem =>
    hsched.perm.subset (List.mem_append_left _ hmem)
  obtain ⟨values, hshape⟩ := hinv.shape
  refine
    { push_asserts := ?_
      callback_set := ?_
      in_order := ?_
      end_last := ⟨values, ?_⟩
      end_complete := ?_
      resolved_once := ?_
      resolved_with := ?_
      runs_once := hsched.perm
      runs_in_order := fun hex => ⟨s.queue, hsched.ordered hex⟩
      resolved_last := ?_
      all_received := ?_
      none_stuck := ?_ }
  · intro i hbusy
    have hpending : s.ending = .pending := by
      rcases hbusy with hpending | hbusy
      · exact hpending
      · exact hinv.pending_of_push hbusy
    exact StreamStorage.owed_eq_nil.1 (hinv.unnoted (not_returned_of_pending hpending))
  · intro hready
    apply hinv.callback_eq.2
    intro hdetached
    rw [hinv.ready_eq, hdetached] at hready
    cases hready
  · intro i
    rw [← hinv.account i, List.append_assoc]
    exact List.prefix_append _ _
  · rcases told_cases s with hnone | ⟨t, ht, hone⟩
    · rw [hnone, List.append_nil] at hshape
      exact Or.inl hshape
    · rw [hone] at hshape
      exact Or.inr ⟨t, ht, hshape⟩
  · intro task hmem hend i
    obtain ⟨t, -, htold, -⟩ := hinv.told_of_mem hmem hend
    exact hinv.all_of_told (by rw [htold]; simp) i
  · have htotal := hsched.perm.countP_eq isEnd
    rw [List.countP_append, hinv.countP_log] at htotal
    have hle : s.told.length ≤ 1 := by
      rcases told_cases s with hnone | ⟨t, -, hone⟩
      · rw [hnone]
        exact Nat.zero_le 1
      · rw [hone]
        exact Nat.le_refl 1
    omega
  · intro task hmem hend
    obtain ⟨t, ht, -, htask⟩ := hinv.told_of_mem (hlogged hmem) hend
    exact ⟨t, ht, htask⟩
  · intro hex task hmem hend
    have hran : s.ran = s.log := by
      have hordered := hsched.ordered hex
      rwa [hinv.queue_of_resolved hsched hex hmem hend, List.append_nil] at hordered
    obtain ⟨t, -, htold, -⟩ := hinv.told_of_mem (hlogged hmem) hend
    refine ⟨hran, ?_⟩
    intro i
    rw [hran]
    exact hinv.all_of_told (by rw [htold]; simp) i
  · intro t ht hattached
    have htold : s.told = [.ofEnd t] := by
      rw [told_of_returned ht, hattached]
      simp
    refine ⟨fun i => hinv.all_of_told (by rw [htold]; simp) i, values, ?_⟩
    rw [hshape, htold]
  · intro hstuck
    obtain ⟨hended, hattached, hqueue⟩ := finished_of_no_step hstuck
    have hperm := hsched.perm
    rw [hqueue, List.append_nil] at hperm
    exact ⟨hended, hattached, hperm⟩

/-- Two threads: one value buffered, one past its first load when the handler becomes ready, one
    handed over directly; then the end, and a FIFO executor that has run it all. -/
theorem stream_delivers_once_two_threads :
    ∃ s : Stream Bool ℕ, (machine Bool ℕ .fifo).Reachable s ∧
      s.ran = [.call true 1, .call false 2, .call true 3, .fullfill] ∧ s.queue = [] ∧
      s.DeliversOnce .fifo :=
  have hrun : (machine Bool ℕ .fifo).Reachable _ :=
    Machine.reachable_of_run
      [.push true 1, .lock true, .push false 2, .publish, .register, .lock false, .deliver false,
        .push true 3, .notify, .deliver true, .finish .complete, .run 0, .run 0, .deliverEnd, .run 0,
        .run 0] rfl
  ⟨_, hrun, rfl, rfl, stream_delivers_once hrun⟩

end Stream

end EasyGrpc
