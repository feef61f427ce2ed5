import EasyGrpc.Stream.Proofs.Storage

set_option autoImplicit false

/-! # A stream is what its users take it for

The sessions and handlers see a user's stream as a `Source`: values are pushed one after the other,
the consumer attaches at some point, and is given what was pushed before it and then what is pushed
after it. `Stream_storage` simulates it: a push takes effect when the value is buffered or handed
over, and `for_each` when it has drained the buffer, or when it has passed on the end if that was
noted by then. -/

namespace EasyGrpc

variable {ι α : Type}

namespace Stream

/-! ## The stream as its users see it -/

/-- The value of a task, with the thread that pushed it. -/
def taskValue? : Task ι α → Option (ι × α)
  | .call i v => some (i, v)
  | _ => none

/-- `for_each` has taken effect: the handler is ready and owes nothing. -/
def isAttached (s : Stream ι α) : Bool :=
  s.storage.ready && (s.storage.owed.isEmpty || s.attaching == .attached)

def toSource (s : Stream ι α) : Source (ι × α) where
  attached := s.isAttached
  pushed := s.log.filterMap taskValue? ++ (if s.storage.ready then [] else s.storage.fullfilled)
  terminal := match s.ending with
    | .returned t => some t
    | _ => none

theorem filterMap_callsOf (values : List (ι × α)) :
    (callsOf values).filterMap taskValue? = values := by
  induction values with
  | nil => rfl
  | cons p values ih =>
      simp only [callsOf, List.map_cons, List.filterMap_cons, taskValue?] at ih ⊢
      rw [ih]

theorem filterMap_ofEnd (t : StreamEnd) :
    ([Task.ofEnd t] : List (Task ι α)).filterMap taskValue? = [] := by
  cases t <;> rfl

theorem filterMap_told (s : Stream ι α) : s.told.filterMap taskValue? = [] := by
  rcases told_cases s with hnone | ⟨t, -, hone⟩
  · rw [hnone]
    rfl
  · rw [hone]
    exact filterMap_ofEnd t

variable [DecidableEq ι] [Fintype ι]

/-- What a step of the storage is for the users. -/
def sourceEvents (s : Stream ι α) : Event ι α → List (Source.Event (ι × α))
  | .lock i =>
      match s.producer i with
      | .locking v => if s.storage.ready then [] else [.push (i, v)]
      | _ => []
  | .deliver i =>
      match s.producer i with
      | .calling v => [.push (i, v)]
      | _ => []
  | .finish t => if s.storage.ready then [] else [.finish t]
  | .deliverEnd =>
      match s.ending with
      | .calling t => [.finish t]
      | _ => []
  | .register => if s.storage.owed.isEmpty then [.attach] else []
  | .notify => if s.storage.owed.isEmpty then [] else [.attach]
  | _ => []

omit [DecidableEq ι] [Fintype ι] in
theorem terminal_of_pending {s : Stream ι α} (h : s.ending = .pending) :
    s.toSource.terminal = none := by
  simp [toSource, h]

omit [DecidableEq ι] [Fintype ι] in
theorem run_push {s s' : Stream ι α} {p : ι × α} (hpending : s.ending = .pending)
    (hattached : s'.toSource.attached = s.toSource.attached)
    (hpushed : s'.toSource.pushed = s.toSource.pushed ++ [p])
    (hterminal : s'.toSource.terminal = s.toSource.terminal) :
    (Source.machine (ι × α)).run s.toSource [.push p] = some s'.toSource := by
  have hopen := terminal_of_pending hpending
  have hnext : s'.toSource
      = ⟨s.toSource.attached, s.toSource.pushed ++ [p], s.toSource.terminal⟩ := by
    rw [← hattached, ← hpushed, ← hterminal]
  simp [Machine.run, Source.machine, Source.step, Source.push, hopen, hnext]

theorem source_step {ex : Executor} {s s' : Stream ι α} {e : Event ι α} (h : s.Inv)
    (hstep : (machine ι α ex).step s e = some s') :
    (Source.machine (ι × α)).run s.toSource (sourceEvents s e) = some s'.toSource := by
  cases moves_of_step hstep with
  | push hpending hidle => rfl
  | @lock i v hlocking =>
      have hpending := h.pending_of_push (i := i) (by rw [hlocking]; simp)
      cases hready : s.storage.ready with
      | true =>
          -- The handler became ready in between: the value takes effect when it is handed over.
          simp only [sourceEvents, hlocking, hready, if_true, StreamStorage.push_of_ready hready]
          rfl
      | false =>
          simp only [sourceEvents, hlocking, hready, Bool.false_eq_true, if_false,
            StreamStorage.push_of_not_ready hready]
          refine run_push hpending ?_ ?_ rfl
          · simp [toSource, isAttached, setProducer, hready]
          · simp [toSource, setProducer, hready]
  | @deliver i v hcalling =>
      have hpending := h.pending_of_push (i := i) (by rw [hcalling]; simp)
      have hready := h.calling_ready i v hcalling
      simp only [sourceEvents, hcalling]
      refine run_push hpending ?_ ?_ ?_
      · simp [toSource, isAttached, setProducer]
      · simp [toSource, setProducer, hready, List.filterMap_append, taskValue?]
      · simp [toSource, setProducer]
  | @finish t hpending hidle =>
      have hopen := terminal_of_pending hpending
      cases hready : s.storage.ready with
      | true =>
          have hsame : s.storage.finish t = s.storage := by simp [StreamStorage.finish, hready]
          simp only [sourceEvents, hready, if_true, hsame, Machine.run, toSource, hpending,
            isAttached]
      | false =>
          simp only [toSource] at hopen
          simp [sourceEvents, hready, Machine.run, Source.machine, Source.step, Source.finish,
            toSource, hopen, isAttached]
  | @deliverEnd t hcalling =>
      have hready := h.end_ready t hcalling
      simp [sourceEvents, hcalling, Machine.run, Source.machine, Source.step, Source.finish,
        toSource, isAttached, hready, List.filterMap_append, filterMap_ofEnd]
  | publish hdetached =>
      have hready : s.storage.ready = false := by rw [h.ready_eq, hdetached]; rfl
      simp [sourceEvents, Machine.run, toSource, isAttached, hready]
  | register hpublished =>
      have hready : s.storage.ready = false := by rw [h.ready_eq, hpublished]; rfl
      have howed : s.storage.setReady.owed = s.storage.owed := rfl
      have hready' : s.storage.setReady.ready = true := rfl
      cases hnone : s.storage.owed.isEmpty <;>
        simp [sourceEvents, hnone, Machine.run, Source.machine, Source.step, Source.attach,
          toSource, isAttached, hready, hready', howed, List.filterMap_append, filterMap_callsOf]
  | @notify complete fail hregistered =>
      obtain ⟨rfl, rfl⟩ := h.seen complete fail hregistered
      have hready : s.storage.ready = true := by rw [h.ready_eq, hregistered]; rfl
      have hvalues : (s.storage.notification s.storage.complete s.storage.fail).filterMap
          taskValue? = [] := by
        unfold StreamStorage.notification
        cases s.storage.complete <;> cases s.storage.fail <;> rfl
      -- Attaching takes effect here only if the end was noted before the handler was ready.
      cases hnone : s.storage.owed.isEmpty <;>
        simp [sourceEvents, hnone, Machine.run, Source.machine, Source.step, Source.attach,
          toSource, isAttached, hready, hregistered, List.filterMap_append, hvalues]
  | run hturn htask => rfl

/-- **A stream is a `Source`**, whatever its threads do. -/
def sourceSimulation (ex : Executor) : Simulation (machine ι α ex) (Source.machine (ι × α)) where
  abs := toSource
  inv := Inv
  events := sourceEvents
  inv_of_reachable := inv_of_reachable
  abs_init := rfl
  abs_step := source_step

/-! ## What the consumer is given -/

/-- The callbacks of `for_each` and `finally` run by a task. -/
def runTask {σ : Type} (onValue : σ → ι × α → σ) (onEnd : σ → StreamEnd → σ) (c : σ) :
    Task ι α → σ
  | .call i v => onValue c (i, v)
  | .fullfill => onEnd c .complete
  | .fail error => onEnd c (.failed (error.getD .other))

omit [DecidableEq ι] [Fintype ι] in
theorem runTask_ofEnd {σ : Type} (onValue : σ → ι × α → σ) (onEnd : σ → StreamEnd → σ) (c : σ)
    (t : StreamEnd) : runTask onValue onEnd c (.ofEnd t) = onEnd c t := by
  cases t <;> rfl

omit [DecidableEq ι] [Fintype ι] in
theorem foldl_callsOf {σ : Type} (onValue : σ → ι × α → σ) (onEnd : σ → StreamEnd → σ) (c : σ)
    (values : List (ι × α)) :
    (callsOf values).foldl (runTask onValue onEnd) c = values.foldl onValue c := by
  simp only [callsOf, List.foldl_map]
  rfl

/-- **What the handler of an attached stream has received is what the `Source` hands over.** -/
theorem foldl_log_eq_drain {ex : Executor} {σ : Type} {onValue : σ → ι × α → σ}
    {onEnd : σ → StreamEnd → σ} {s : Stream ι α} (h : (machine ι α ex).Reachable s)
    (hattached : s.toSource.attached = true) (c : σ) :
    s.log.foldl (runTask onValue onEnd) c = s.toSource.drain onValue onEnd c := by
  have hinv := inv_of_reachable h
  obtain ⟨values, hshape⟩ := hinv.shape
  simp only [toSource, isAttached, Bool.and_eq_true] at hattached
  obtain ⟨hready, hnothing⟩ := hattached
  have hpushed : s.toSource.pushed = values := by
    simp only [toSource, hready, if_true, List.append_nil]
    rw [hshape, List.filterMap_append, filterMap_callsOf, filterMap_told, List.append_nil]
  rw [Source.drain, hpushed, hshape, List.foldl_append, foldl_callsOf]
  by_cases hopen : ∀ t, s.ending ≠ .returned t
  · have hterminal : s.toSource.terminal = none := by simp only [toSource]
    rw [told_of_not_returned hopen, hterminal, List.foldl_nil]
  · push Not at hopen
    obtain ⟨t, ht⟩ := hopen
    have hterminal : s.toSource.terminal = some t := by simp only [toSource, ht]
    rw [told_of_returned ht, if_pos hnothing, hterminal]
    exact runTask_ofEnd onValue onEnd _ t

end Stream

end EasyGrpc
