import EasyGrpc.Future.Storage

set_option autoImplicit false

/-! # A future's handler runs exactly once

The load, the two `fetch_or`s and the construction of `finished_` may be taken in any order the two
threads' programs allow. The invariant says who is still to call the handler: once both bits are
set, exactly the thread that set the second of them, and before that nobody. -/

namespace EasyGrpc

namespace Future

variable {ε : Type} {ts : List (Option Type)}

/-! ## The tuple conversions -/

/-- Wrapping every value loses none of them. -/
theorem finishToFullfill_fullfillToFinish (ts : List (Option Type)) (v : FullfillType ts) :
    finishToFullfill ts (fullfillToFinish ts v : FinishType ε ts) = some v := by
  induction ts with
  | nil => rfl
  | cons t ts ih =>
      cases t with
      | none => exact ih v
      | some T =>
          have hrest := ih v.2
          simp only [finishToFullfill, fullfillToFinish, hrest]
          rfl

theorem inEverySlot_failToExpect (e : ε) (ts : List (Option Type)) :
    InEverySlot e ts (failToExpect ts e) := by
  induction ts with
  | nil => trivial
  | cons t ts ih => exact ⟨rfl, ih⟩

/-- The handler receives what the producer produced: the values, the finish tuple, or the error in
    every slot. -/
def Operation.Produced : Operation ε ts → Outcome ε ts → Prop
  | .fullfill v, o => o = .fullfill v ∨ ∃ f, o = .finish f ∧ finishToFullfill ts f = some v
  | .finish f, o => o = .finish f
  | .fail e, o => ∃ f, o = .finish f ∧ InEverySlot e ts f

/-- What is kept in `finished_` is what was produced. -/
theorem Operation.produced_stored (op : Operation ε ts) : op.Produced (.finish op.stored) := by
  cases op with
  | fullfill v => exact Or.inr ⟨_, rfl, finishToFullfill_fullfillToFinish ts v⟩
  | finish f => rfl
  | fail e => exact ⟨_, rfl, inEverySlot_failToExpect e ts⟩

theorem Operation.produced_direct (op : Operation ε ts) : op.Produced op.direct := by
  cases op with
  | fullfill v => exact Or.inl rfl
  | finish f => rfl
  | fail e => exact ⟨_, rfl, inEverySlot_failToExpect e ts⟩

/-- Converting the error again gives what is in `finished_`. -/
theorem Operation.justInTime_stored (op : Operation ε ts) :
    op.justInTime (some op.stored) = .finish op.stored := by
  cases op <;> rfl

/-! ## The two bits -/

namespace Storage

theorem ready_fetchOr_readyBit (s : Storage ε ts) : (s.fetchOr readyBit).ready = true := by
  have h : ∀ x : BitVec 8, ((x ||| readyBit) &&& readyBit != 0) = true := by decide +kernel
  exact h s.state

theorem ready_fetchOr_finishedBit (s : Storage ε ts) :
    (s.fetchOr finishedBit).ready = s.ready := by
  have h : ∀ x : BitVec 8,
      ((x ||| finishedBit) &&& readyBit != 0) = (x &&& readyBit != 0) := by decide +kernel
  exact h s.state

theorem isFinished_fetchOr_finishedBit (s : Storage ε ts) :
    (s.fetchOr finishedBit).isFinished = true := by
  have h : ∀ x : BitVec 8, ((x ||| finishedBit) &&& finishedBit != 0) = true := by decide +kernel
  exact h s.state

theorem isFinished_fetchOr_readyBit (s : Storage ε ts) :
    (s.fetchOr readyBit).isFinished = s.isFinished := by
  have h : ∀ x : BitVec 8,
      ((x ||| readyBit) &&& finishedBit != 0) = (x &&& finishedBit != 0) := by decide +kernel
  exact h s.state

end Storage

namespace Shared

/-! ## The invariant -/

/-- A call of the handler that is as it should be. -/
structure Proper (op : Operation ε ts) (i : Invocation ε ts) : Prop where
  installed : i.installed = true
  constructed : i.slow = true → i.constructed = true
  produced : op.Produced i.outcome

/-- The producer has not published anything yet. -/
def early (s : Shared ε ts) : Bool :=
  s.producer = .start || s.producer = .storing || s.producer = .publishing

/-- The producer is about to call the handler. -/
def producerCalls (s : Shared ε ts) : Bool := s.producer = .calling || s.producer = .notifying

theorem producer_cases (s : Shared ε ts) :
    s.early = true ∨ s.producerCalls = true ∨ s.producer = .returned := by
  cases h : s.producer <;> simp [early, producerCalls, h]

structure Inv (op : Operation ε ts) (s : Shared ε ts) : Prop where
  /-- The ready bit says how far `set_handler` is. -/
  ready : s.storage.ready = true ↔ s.handler = .notifying ∨ s.handler = .returned
  /-- So does `callback_`. -/
  installed : s.storage.callback = false ↔ s.handler = .start ∨ s.handler = .threw
  /-- `finished_` is constructed before the finished bit is set. -/
  constructed : s.storage.isFinished = true ∨ s.producer = .publishing →
    s.storage.finished = some op.stored
  /-- As long as the producer has not published, nobody calls the handler. -/
  early : s.early = true → s.storage.isFinished = false ∧ s.invocations = []
  /-- A producer about to call has seen the ready bit, and `set_handler` will not call. -/
  calls : s.producerCalls = true → s.handler = .returned ∧ s.invocations = []
  notifies : s.producer = .notifying → s.storage.isFinished = true
  /-- `set_handler` is about to call only for a producer that has returned. -/
  handles : s.handler = .notifying → s.producer = .returned
  /-- A producer that has returned has called, or has left the call to `set_handler`. -/
  returned : s.producer = .returned →
    s.handler = .returned ∧ s.invocations.length = 1 ∨
    s.handler ≠ .returned ∧ s.invocations = [] ∧ s.storage.isFinished = true
  proper : ∀ i ∈ s.invocations, Proper op i

theorem inv_init (op : Operation ε ts) : Inv op ({} : Shared ε ts) where
  ready := by constructor <;> intro h <;> simp_all [Storage.ready]
  installed := by simp
  constructed := by intro h; simp_all [Storage.isFinished]
  early := fun _ => ⟨by simp [Storage.isFinished], rfl⟩
  calls := by intro h; simp [producerCalls] at h
  notifies := by intro h; cases h
  handles := by intro h; cases h
  returned := by intro h; cases h
  proper := by intro i hi; cases hi

/-! ## One step keeps the invariant -/

theorem Inv.callback_of_returned {op : Operation ε ts} {s : Shared ε ts} (h : Inv op s)
    (hret : s.handler = .returned) : s.storage.callback = true := by
  have hinst := h.installed
  simpa [hret] using hinst

/-- As long as `set_handler` has not returned, a producer that has returned has left the call to
    it. -/
theorem Inv.left_to_handler {op : Operation ε ts} {s : Shared ε ts} (h : Inv op s)
    (hh : s.handler ≠ .returned) (hp : s.producer = .returned) :
    s.invocations = [] ∧ s.storage.isFinished = true := by
  rcases h.returned hp with ⟨hret, -⟩ | ⟨-, hleft⟩
  · exact absurd hret hh
  · exact hleft

/-- Until then the producer does not call the handler itself. -/
theorem Inv.not_producerCalls {op : Operation ε ts} {s : Shared ε ts} (h : Inv op s)
    (hh : s.handler ≠ .returned) : ¬ s.producerCalls = true :=
  fun hc => hh (h.calls hc).1

/-- A call made by a producer about to call is proper. -/
theorem Inv.proper_direct {op : Operation ε ts} {s : Shared ε ts} (h : Inv op s)
    (hp : s.producer = .calling) : ∀ i ∈ (s.invoke op.direct false).invocations, Proper op i := by
  obtain ⟨hret, hnil⟩ := h.calls (by simp [producerCalls, hp])
  intro i hi
  simp only [invoke, hnil, List.nil_append, List.mem_singleton] at hi
  subst hi
  exact ⟨h.callback_of_returned hret, nofun, op.produced_direct⟩

/-- A call that passes on `finished_` is proper once the finished bit is set. -/
theorem Inv.proper_finished {op : Operation ε ts} {s : Shared ε ts} (h : Inv op s)
    (hcb : s.storage.callback = true) (hf : s.storage.isFinished = true) (hnil : s.invocations = [])
    {o : Outcome ε ts} (ho : o = .finish op.stored) :
    ∀ i ∈ (s.invoke o true).invocations, Proper op i := by
  intro i hi
  simp only [invoke, hnil, List.nil_append, List.mem_singleton] at hi
  subst hi
  refine ⟨hcb, fun _ => ?_, ?_⟩
  · simp [h.constructed (Or.inl hf)]
  · rw [ho]
    exact op.produced_stored

/-- As long as `set_handler` has not set the ready bit, the finished bit is set only by a producer
    that has returned. -/
theorem Inv.returned_of_isFinished {op : Operation ε ts} {s : Shared ε ts} (h : Inv op s)
    (hh : s.handler = .publishing) (hf : s.storage.isFinished = true) : s.producer = .returned := by
  rcases s.producer_cases with he | hc | hr
  · rw [(h.early he).1] at hf
    cases hf
  · rw [(h.calls hc).1] at hh
    cases hh
  · exact hr

/-- The producer's steps. -/
theorem inv_produce {op : Operation ε ts} {s s' : Shared ε ts} (hi : Inv op s)
    (h : s.produce op = some s') : Inv op s' := by
  unfold produce at h
  split at h
  · next hp =>
      cases Option.some.inj h
      have hearly : s.early = true := by simp [early, hp]
      obtain ⟨hf, hnil⟩ := hi.early hearly
      have hcons (hc : s.storage.isFinished = true) : s.storage.finished = some op.stored :=
        hi.constructed (Or.inl hc)
      by_cases hr : s.storage.ready
      · -- The ready bit can only be there if `set_handler` has returned: it is about to call only for
        -- a producer that has returned, which this one has not.
        have hret : s.handler = .returned :=
          (hi.ready.1 hr).resolve_left fun hn => by simp [hi.handles hn] at hp
        rw [if_pos hr]
        exact ⟨hi.ready, hi.installed, fun hc => hcons (by simpa using hc), by simp [early],
          fun _ => ⟨hret, hnil⟩, nofun, fun hn => by simp [hret] at hn, nofun, hi.proper⟩
      · rw [if_neg hr]
        exact ⟨hi.ready, hi.installed, fun hc => hcons (by simpa using hc), fun _ => ⟨hf, hnil⟩,
          by simp [producerCalls], nofun, fun hn => absurd (hi.ready.2 (Or.inl hn)) hr, nofun,
          hi.proper⟩
  · next hp =>
      cases Option.some.inj h
      obtain ⟨hret, hnil⟩ := hi.calls (by simp [producerCalls, hp])
      exact ⟨hi.ready, hi.installed, fun hc => hi.constructed (Or.inl (by simpa [invoke] using hc)),
        by simp [early], by simp [producerCalls], nofun, fun _ => rfl,
        fun _ => Or.inl ⟨hret, by simp [invoke, hnil]⟩, hi.proper_direct hp⟩
  · next hp =>
      cases Option.some.inj h
      obtain ⟨hf, hnil⟩ := hi.early (by simp [early, hp])
      exact ⟨hi.ready, hi.installed, fun _ => rfl, fun _ => ⟨hf, hnil⟩, by simp [producerCalls],
        nofun, fun hn => by simp [hi.handles hn] at hp, nofun, hi.proper⟩
  · next hp =>
      cases Option.some.inj h
      have hnil := (hi.early (by simp [early, hp])).2
      have hready := s.storage.ready_fetchOr_finishedBit
      have hfinished := s.storage.isFinished_fetchOr_finishedBit
      have hcons : s.storage.finished = some op.stored := hi.constructed (Or.inr hp)
      have hquiet : s.handler ≠ .notifying := fun hn => by simp [hi.handles hn] at hp
      by_cases hr : s.storage.ready
      · rw [if_pos hr]
        have hret : s.handler = .returned := (hi.ready.1 hr).resolve_left hquiet
        exact ⟨hready ▸ hi.ready, hi.installed, fun _ => hcons, by simp [early],
          fun _ => ⟨hret, hnil⟩, fun _ => hfinished, fun hn => absurd hn hquiet, nofun, hi.proper⟩
      · rw [if_neg hr]
        have hret : s.handler ≠ .returned := fun hret => hr (hi.ready.2 (Or.inr hret))
        exact ⟨hready ▸ hi.ready, hi.installed, fun _ => hcons, by simp [early],
          by simp [producerCalls], nofun, fun _ => rfl,
          fun _ => Or.inr ⟨hret, hnil, hfinished⟩, hi.proper⟩
  · next hp =>
      cases Option.some.inj h
      have hf := hi.notifies hp
      obtain ⟨hret, hnil⟩ := hi.calls (by simp [producerCalls, hp])
      have hcb := hi.callback_of_returned hret
      have ho : op.justInTime s.storage.finished = .finish op.stored := by
        rw [hi.constructed (Or.inl hf), op.justInTime_stored]
      exact ⟨hi.ready, hi.installed, fun _ => hi.constructed (Or.inl hf), by simp [early],
        by simp [producerCalls], nofun, fun _ => rfl,
        fun _ => Or.inl ⟨hret, by simp [invoke, hnil]⟩, hi.proper_finished hcb hf hnil ho⟩
  · cases h

/-- The steps of `set_handler`. -/
theorem inv_handle {op : Operation ε ts} {s s' : Shared ε ts} {throws : Bool} (hi : Inv op s)
    (h : s.handle throws = some s') : Inv op s' := by
  unfold handle at h
  split at h
  · next hh =>
      have hret : s.handler ≠ .returned := by simp [hh]
      have hcalls := hi.not_producerCalls hret
      have hr : ¬ s.storage.ready = true := by
        rw [hi.ready, hh]
        simp
      split at h
      · cases Option.some.inj h
        have hcb := hi.installed.2 (Or.inl hh)
        exact ⟨by simpa using hr, by simpa using hcb, hi.constructed, hi.early,
          fun hc => absurd hc hcalls, hi.notifies, nofun,
          fun hp => Or.inr ⟨nofun, hi.left_to_handler hret hp⟩, hi.proper⟩
      · cases Option.some.inj h
        exact ⟨⟨fun hr' => absurd hr' hr, by simp⟩, by simp, hi.constructed, hi.early,
          fun hc => absurd hc hcalls, hi.notifies, nofun,
          fun hp => Or.inr ⟨nofun, hi.left_to_handler hret hp⟩, hi.proper⟩
  · next hh =>
      split at h
      · cases h
      · cases Option.some.inj h
        have hready := s.storage.ready_fetchOr_readyBit
        have hfinished := s.storage.isFinished_fetchOr_readyBit
        have hret : s.handler ≠ .returned := by simp [hh]
        have hcalls := hi.not_producerCalls hret
        have hcb : (s.storage.fetchOr readyBit).callback ≠ false := by
          rw [Storage.fetchOr, ne_eq, hi.installed, hh]
          simp
        have hcons : (s.storage.fetchOr readyBit).isFinished = true ∨ s.producer = .publishing →
            s.storage.finished = some op.stored := hfinished ▸ hi.constructed
        by_cases hf : s.storage.isFinished
        · rw [if_pos hf]
          have hp := hi.returned_of_isFinished hh hf
          obtain ⟨hnil, -⟩ := hi.left_to_handler hret hp
          exact ⟨by simpa using hready, by simpa using hcb, hcons, hfinished ▸ hi.early,
            fun hc => absurd hc hcalls, fun hn => by simp [hp] at hn, fun _ => hp,
            fun _ => Or.inr ⟨nofun, hnil, hfinished.trans hf⟩, hi.proper⟩
        · rw [if_neg hf]
          -- A producer that has returned would have left the finished bit behind.
          have hp : s.producer ≠ .returned := fun hp => hf (hi.left_to_handler hret hp).2
          exact ⟨by simpa using hready, by simpa using hcb, hcons, hfinished ▸ hi.early,
            fun hc => absurd hc hcalls, fun hn => absurd (hi.notifies hn) hf, nofun,
            fun hn => absurd hn hp, hi.proper⟩
  · next hh =>
      split at h
      · cases h
      · cases Option.some.inj h
        have hp := hi.handles hh
        obtain ⟨hnil, hf⟩ := hi.left_to_handler (by simp [hh]) hp
        have hcb : s.storage.callback = true := by
          have hinst := hi.installed
          simpa [hh] using hinst
        have ho : Outcome.ofFinished s.storage.finished = .finish op.stored := by
          rw [hi.constructed (Or.inl hf)]
          rfl
        have hready : s.storage.ready = true := hi.ready.2 (Or.inl hh)
        exact ⟨by simpa [invoke] using hready, by simp [invoke, hcb], hi.constructed,
          fun hearly => by simp [invoke, early, hp] at hearly,
          fun hc => by simp [invoke, producerCalls, hp] at hc, hi.notifies, nofun,
          fun _ => Or.inl ⟨rfl, by simp [invoke, hnil]⟩, hi.proper_finished hcb hf hnil ho⟩
  · cases h
  · cases h

theorem inv_of_reachable {op : Operation ε ts} {s : Shared ε ts} (h : (machine op).Reachable s) :
    Inv op s := by
  refine h.invariant (inv_init op) ?_
  intro s s' e hstep hi
  cases e with
  | produce => exact inv_produce hi hstep
  | handle => exact inv_handle hi hstep
  | throws => exact inv_handle hi hstep

/-- The handler is not called twice. -/
theorem Inv.length_invocations {op : Operation ε ts} {s : Shared ε ts} (hi : Inv op s) :
    s.invocations.length ≤ 1 := by
  rcases s.producer_cases with he | hc | hr
  · simp [(hi.early he).2]
  · simp [(hi.calls hc).2]
  · rcases hi.returned hr with ⟨-, hone⟩ | ⟨-, hnil, -⟩
    · omega
    · simp [hnil]

/-! ## Every run ends -/

/-- An upper bound on the steps still to be taken. -/
def remaining (s : Shared ε ts) : ℕ :=
  (match s.producer with
    | .start => 4 | .storing => 3 | .publishing => 2 | .calling => 1 | .notifying => 1
    | .returned => 0) +
  (match s.handler with
    | .start => 3 | .publishing => 2 | .notifying => 1 | .returned => 0 | .threw => 0)

theorem remaining_step {op : Operation ε ts} {s s' : Shared ε ts} {e : Event}
    (h : s.step op e = some s') : s'.remaining < s.remaining := by
  cases e with
  | produce =>
      simp only [step, produce] at h
      split at h
      all_goals cases h
      all_goals grind [remaining, invoke]
  | handle =>
      simp only [step, handle] at h
      split at h
      all_goals cases h
      all_goals grind [remaining, invoke]
  | throws =>
      simp only [step, handle] at h
      split at h
      all_goals cases h
      all_goals grind [remaining, invoke]

theorem remaining_le (s : Shared ε ts) : s.remaining ≤ 7 := by
  unfold remaining
  cases s.producer <;> cases s.handler <;> simp

theorem produce_eq_none {op : Operation ε ts} {s : Shared ε ts} (h : s.produce op = none) :
    s.producer = .returned := by
  unfold produce at h
  split at h
  case h_6 hp => exact hp
  all_goals cases h

theorem handle_eq_none {s : Shared ε ts} (h : s.handle false = none) :
    s.handler = .returned ∨ s.handler = .threw := by
  unfold handle at h
  split at h
  case h_4 hh => exact Or.inl hh
  case h_5 hh => exact Or.inr hh
  all_goals cases h

/-- Both threads are done where neither can take a step. -/
theorem done_of_no_step {op : Operation ε ts} {s : Shared ε ts}
    (h : ∀ e, (machine op).step s e = none) :
    s.producer = .returned ∧ (s.handler = .returned ∨ s.handler = .threw) :=
  ⟨produce_eq_none (h .produce), handle_eq_none (h .handle)⟩

/-! ## The handler runs exactly once -/

/-- **A future's handler runs exactly once, with what was produced**: in every interleaving of one
    producer operation with one `set_handler`. It never runs twice, only once it is installed, on
    the slow paths only once `finished_` is constructed, and it receives the producer's values,
    finish tuple or error. No run goes on for ever, and where it ends the handler has run, unless
    its constructor has thrown and there is none. -/
theorem handler_runs_once {op : Operation ε ts} {s : Shared ε ts}
    (h : (machine op).Reachable s) :
    s.invocations.length ≤ 1 ∧
    (∀ i ∈ s.invocations, i.installed = true ∧ (i.slow = true → i.constructed = true) ∧
      op.Produced i.outcome) ∧
    (∀ es s', (machine op).run s es = some s' → es.length ≤ 7) ∧
    ((∀ e, (machine op).step s e = none) →
      s.handler = .returned ∧ s.storage.callback = true ∧ s.invocations.length = 1 ∨
      s.handler = .threw ∧ s.storage.callback = false ∧ s.invocations = []) := by
  have hi := inv_of_reachable h
  refine ⟨hi.length_invocations, ?_, ?_, ?_⟩
  · intro i hmem
    obtain ⟨hinst, hcons, hprod⟩ := hi.proper i hmem
    exact ⟨hinst, hcons, hprod⟩
  · intro es s' hrun
    have hle := Machine.length_run_le remaining remaining_step hrun
    have hbound := s.remaining_le
    omega
  · intro hstuck
    obtain ⟨hp, hh⟩ := done_of_no_step hstuck
    have hinst := hi.installed
    rcases hi.returned hp with ⟨hret, hone⟩ | ⟨hret, hnil, -⟩
    · refine Or.inl ⟨hret, ?_, hone⟩
      simpa [hret] using hinst
    · have hthrew := hh.resolve_left hret
      refine Or.inr ⟨hthrew, ?_, hnil⟩
      simpa [hthrew] using hinst

/-- The handler of a `Future<int, void>` is added between the load of `fullfill` and its `fetch_or`:
    it is called just in time. -/
theorem handler_runs_once_just_in_time :
    ∃ s, (machine (.fullfill (12, ()) : Operation ℕ [some ℕ, none])).Reachable s ∧
      s.invocations = [⟨.finish (fullfillToFinish _ (12, ())), true, true, true⟩] ∧
      s.handler = .returned ∧ s.invocations.length ≤ 1 :=
  have hrun : (machine (.fullfill (12, ()) : Operation ℕ [some ℕ, none])).Reachable _ :=
    Machine.reachable_of_run [.produce, .produce, .handle, .handle, .produce, .produce] rfl
  ⟨_, hrun, rfl, rfl, (handler_runs_once hrun).1⟩

end Shared

end Future

end EasyGrpc
