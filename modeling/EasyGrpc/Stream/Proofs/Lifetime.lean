import EasyGrpc.Future.Proofs.Storage
import EasyGrpc.Stream.Lifetime
import EasyGrpc.Stream.Proofs.Storage

set_option autoImplicit false

/-! # What is destroyed with a shared state

`~Future_storage` decides from two bits that say what was installed and constructed.
`~Stream_storage` decides from a pointer that nothing initialises: it is right where exactly one
handler was installed. -/

namespace EasyGrpc

/-! ## Futures -/

namespace Future

variable {ε : Type} {ts : List (Option Type)}

namespace Lifetime

/-- What the bits, the pointer and the union member say of each other and of the threads. -/
structure Inv (s : Lifetime ε ts) : Prop where
  ready : s.shared.storage.ready = true ↔
    s.shared.handler = .notifying ∨ s.shared.handler = .returned
  unset : s.shared.storage.callback = false ↔ s.shared.handler = .start ∨ s.shared.handler = .threw
  installed : s.installed = s.shared.storage.callback.toNat
  finished : s.shared.storage.finished.isSome = true ↔
    s.shared.storage.isFinished = true ∨ s.shared.producer = .publishing
  constructed : s.constructed = s.shared.storage.finished.isSome.toNat
  /-- A producer that stores has not stored before. -/
  storing : s.shared.producer = .storing → s.shared.storage.finished = none
  /-- One that starts may have, but then the handler is ready. -/
  start : s.shared.producer = .start →
    s.shared.storage.ready = true ∨ s.shared.storage.finished = none
  calls : s.shared.producer = .calling ∨ s.shared.producer = .notifying →
    s.shared.storage.ready = true

theorem inv_init : Inv ({} : Lifetime ε ts) := by
  constructor <;> simp [Storage.ready, Storage.isFinished]

/-- A step of the producer's operation: what it stores is constructed before it is published. -/
theorem Inv.produce {s : Lifetime ε ts} (h : s.Inv) {op : Operation ε ts} {shared : Shared ε ts}
    (hproduce : s.shared.produce op = some shared) : Inv { s with
      shared
      constructed :=
        if s.shared.producer = .storing then s.constructed + 1 else s.constructed } := by
  unfold Shared.produce at hproduce
  have hfinished := h.finished
  split at hproduce
  · next hp =>
      cases hproduce
      have hunfinished : s.shared.storage.finished.isSome = true ↔
          s.shared.storage.isFinished = true := by simpa [hp] using hfinished
      by_cases hr : s.shared.storage.ready = true
      · rw [if_pos hr]
        exact ⟨h.ready, h.unset, h.installed, by simpa using hunfinished,
          by simpa [hp] using h.constructed, by simp, by simp, fun _ => hr⟩
      · rw [if_neg hr]
        have hnone := (h.start hp).resolve_left hr
        exact ⟨h.ready, h.unset, h.installed, by simpa using hunfinished,
          by simpa [hp] using h.constructed, fun _ => hnone, by simp, by simp⟩
  · next hp =>
      cases hproduce
      exact ⟨h.ready, h.unset, h.installed, by simpa [hp, Shared.invoke] using hfinished,
        by simpa [hp, Shared.invoke] using h.constructed, by simp, by simp, by simp⟩
  · next hp =>
      cases hproduce
      have hzero := h.constructed
      rw [h.storing hp] at hzero
      refine ⟨h.ready, h.unset, h.installed, by simp, ?_, by simp, by simp, by simp⟩
      rw [if_pos hp, hzero]
      rfl
  · next hp =>
      cases hproduce
      have hready := s.shared.storage.ready_fetchOr_finishedBit
      have hset := s.shared.storage.isFinished_fetchOr_finishedBit
      have hsome : s.shared.storage.finished.isSome = true := hfinished.2 (.inr hp)
      have hkeep : (if s.shared.producer = .storing then s.constructed + 1 else s.constructed)
          = s.constructed := if_neg (by simp [hp])
      refine ⟨by rw [hready]; exact h.ready, h.unset, h.installed, ?_,
        hkeep.trans h.constructed, ?_, ?_, ?_⟩
      · exact ⟨fun _ => .inl hset, fun _ => hsome⟩
      · intro hn
        dsimp only at hn
        split at hn <;> cases hn
      · intro hn
        dsimp only at hn
        split at hn <;> cases hn
      · intro hn
        dsimp only at hn
        by_cases hr : s.shared.storage.ready = true
        · exact hready.trans hr
        · rw [if_neg hr] at hn
          simp at hn
  · next hp =>
      cases hproduce
      exact ⟨h.ready, h.unset, h.installed, by simpa [hp, Shared.invoke] using hfinished,
        by simpa [hp, Shared.invoke] using h.constructed, by simp, by simp, by simp⟩
  · cases hproduce

/-- An operation that is left by an exception has stored nothing, or the handler is ready. -/
theorem Inv.produceThrows {s s' : Lifetime ε ts} (h : s.Inv)
    (hstep : s.step .produceThrows = some s') : s'.Inv := by
  obtain ⟨op, -, hs⟩ := Option.bind_eq_some_iff.1 hstep
  have hfinished := h.finished
  split at hs
  · next hp =>
      cases hs
      exact ⟨h.ready, h.unset, h.installed, by simpa [hp] using hfinished, h.constructed,
        by simp, fun _ => .inr (h.storing hp), by simp⟩
  · next hp =>
      cases hs
      exact ⟨h.ready, h.unset, h.installed, by simpa [hp, Shared.invoke] using hfinished,
        h.constructed, by simp, fun _ => .inl (h.calls (.inl hp)), by simp⟩
  · next hp =>
      cases hs
      exact ⟨h.ready, h.unset, h.installed, by simpa [hp, Shared.invoke] using hfinished,
        h.constructed, by simp, fun _ => .inl (h.calls (.inr hp)), by simp⟩
  · cases hs

/-- A step of `set_handler`: the handler is installed once. -/
theorem Inv.handle {s : Lifetime ε ts} (h : s.Inv) {shared : Shared ε ts}
    (hhandle : s.shared.handle false = some shared) : Inv { s with
      shared
      installed := if s.shared.handler = .start then s.installed + 1 else s.installed } := by
  unfold Shared.handle at hhandle
  split at hhandle
  · next hh =>
      cases hhandle
      have hunset : s.shared.storage.callback = false := h.unset.2 (.inl hh)
      have hzero := h.installed
      rw [hunset] at hzero
      have hunready : ¬ s.shared.storage.ready = true := by
        rw [h.ready, hh]
        simp
      refine ⟨⟨fun hr => absurd hr hunready, by simp⟩, by simp, ?_, h.finished, h.constructed,
        h.storing, h.start, h.calls⟩
      rw [if_pos hh, hzero]
      rfl
  · next hh =>
      cases hhandle
      have hset := s.shared.storage.ready_fetchOr_readyBit
      have hfinished := s.shared.storage.isFinished_fetchOr_readyBit
      have hcallback : s.shared.storage.callback ≠ false := by
        rw [ne_eq, h.unset, hh]
        simp
      have hkeep : (if s.shared.handler = .start then s.installed + 1 else s.installed)
          = s.installed := if_neg (by simp [hh])
      refine ⟨?_, ?_, hkeep.trans h.installed, by rw [hfinished]; exact h.finished,
        h.constructed, h.storing, fun _ => .inl hset, fun _ => hset⟩
      · refine ⟨fun _ => ?_, fun _ => hset⟩
        by_cases hf : s.shared.storage.isFinished = true <;> simp [hf]
      · refine ⟨fun hno => absurd hno hcallback, fun hno => ?_⟩
        by_cases hf : s.shared.storage.isFinished = true <;> simp [hf] at hno
  · next hh =>
      cases hhandle
      exact ⟨by simpa [hh, Shared.invoke] using h.ready,
        by simpa [hh, Shared.invoke] using h.unset,
        by simpa [hh, Shared.invoke] using h.installed, h.finished, h.constructed, h.storing,
        h.start, h.calls⟩
  · cases hhandle
  · cases hhandle

theorem inv_step {s s' : Lifetime ε ts} {e : Event ε ts}
    (hstep : (machine ε ts).step s e = some s') (h : s.Inv) : s'.Inv := by
  cases e with
  | begin op =>
      obtain ⟨-, hs⟩ := Option.ite_none_right_eq_some.1 hstep
      cases hs
      exact ⟨h.ready, h.unset, h.installed, h.finished, h.constructed, h.storing, h.start, h.calls⟩
  | produce =>
      obtain ⟨op, -, hs⟩ := Option.bind_eq_some_iff.1 hstep
      obtain ⟨shared, hproduce, rfl⟩ := Option.map_eq_some_iff.1 hs
      exact h.produce hproduce
  | produceThrows => exact h.produceThrows hstep
  | handle =>
      obtain ⟨shared, hhandle, rfl⟩ := Option.map_eq_some_iff.1 hstep
      exact h.handle hhandle
  | handlerThrows =>
      obtain ⟨shared, hhandle, rfl⟩ := Option.map_eq_some_iff.1 hstep
      unfold Shared.handle at hhandle
      split at hhandle
      · next hh =>
          cases hhandle
          exact ⟨by simpa [hh] using h.ready, by simpa [hh] using h.unset, h.installed, h.finished,
            h.constructed, h.storing, h.start, h.calls⟩
      all_goals cases hhandle
  | retry =>
      obtain ⟨hthrew, hs⟩ := Option.ite_none_right_eq_some.1 hstep
      cases hs
      exact ⟨by simpa [hthrew] using h.ready, by simpa [hthrew] using h.unset, h.installed,
        h.finished, h.constructed, h.storing, h.start, h.calls⟩

theorem inv_of_reachable {s : Lifetime ε ts} (h : (machine ε ts).Reachable s) : s.Inv :=
  h.invariant inv_init inv_step

/-- The bits decide for what is there. -/
theorem proper_of_bits (ready finished : Bool) :
    DestructorEffect.Proper
      ((if ready then [.readCallback true, .destroyHandler (.handler 0)] else []) ++
        if finished then [.destroyFinished] else []) ready.toNat finished.toNat := by
  cases ready <;> cases finished <;> exact ⟨by decide, by decide, by decide⟩

/-- **The destructor of a future's state is proper**: it destroys the handler that was installed and
    `finished_` if it was constructed, and reads no pointer that was not assigned. -/
theorem proper_destructor {s : Lifetime ε ts} (h : (machine ε ts).Reachable s)
    (hsettled : s.settled = true) :
    DestructorEffect.Proper s.shared.storage.destructor s.installed s.constructed := by
  have hi := inv_of_reachable h
  obtain ⟨hproducer, hhandler⟩ : (s.shared.producer = .start ∨ s.shared.producer = .returned) ∧
      (s.shared.handler = .start ∨ s.shared.handler = .returned ∨ s.shared.handler = .threw) := by
    simpa [settled, or_assoc] using hsettled
  have hcallback : s.shared.storage.callback = s.shared.storage.ready := by
    have hready := hi.ready
    have hunset := hi.unset
    rcases hhandler with hh | hh | hh <;> simp_all
  have hfinished : s.shared.storage.finished.isSome = s.shared.storage.isFinished := by
    have hf := hi.finished
    rcases hproducer with hp | hp <;> simpa [hp, Bool.coe_iff_coe] using hf
  have hdestructor : s.shared.storage.destructor
      = (if s.shared.storage.ready then [.readCallback true, .destroyHandler (.handler 0)] else [])
        ++ if s.shared.storage.isFinished then [.destroyFinished] else [] := by
    rw [Storage.destructor, hcallback]
    cases s.shared.storage.ready <;> rfl
  rw [hdestructor, hi.installed, hi.constructed, hcallback, hfinished]
  exact proper_of_bits _ _

end Lifetime

end Future

/-! ## Streams -/

namespace Stream

variable {ι α : Type} [DecidableEq ι] [Fintype ι]

namespace Lifetime

omit [DecidableEq ι] [Fintype ι] in
theorem callback_push (s : StreamStorage ι α) (i : ι) (v : α) :
    (s.push i v).callback = s.callback := by
  unfold StreamStorage.push
  split <;> rfl

/-- Only `set_handler` assigns `callback_`. -/
theorem callback_step {ex : Executor} {s s' : Stream ι α} {e : Stream.Event ι α}
    (hstep : s.step ex e = some s') :
    s'.storage.callback = (s.storage.callback || installs e) := by
  cases moves_of_step hstep with
  | push hpending hidle => exact (Bool.or_false _).symm
  | lock hlocking => exact (callback_push ..).trans (Bool.or_false _).symm
  | deliver hcalling => simp [setProducer, installs]
  | finish hpending hidle => simp [installs]
  | deliverEnd hcalling => simp [installs]
  | publish hdetached => simp [installs]
  | register hpublished => simp [installs, StreamStorage.setReady]
  | notify hregistered => simp [installs]
  | run hturn htask => exact (Bool.or_false _).symm

/-- `callback_` is assigned once a handler was installed. -/
theorem callback_of_reachable {ex : Executor} {s : Lifetime ι α}
    (h : (machine ι α ex).Reachable s) : s.stream.storage.callback = decide (0 < s.installed) := by
  induction h with
  | init => rfl
  | @step s s' e _ hstep hcallback =>
    cases e with
    | op e =>
        obtain ⟨stream, hstream, rfl⟩ := Option.map_eq_some_iff.1 hstep
        have hnew := callback_step hstream
        rw [hcallback] at hnew
        cases hinstalls : installs e <;> simp [hnew, hinstalls]
    | handlerThrows =>
        obtain ⟨-, hs⟩ := Option.ite_none_right_eq_some.1 hstep
        cases hs
        exact hcallback
    | drainThrows k =>
        obtain ⟨-, hs⟩ := Option.ite_none_right_eq_some.1 hstep
        cases hs
        simpa using hcallback

/-- The destructor of a stream's state is proper exactly where one handler was installed, whatever
    is in the memory of `callback_`. -/
theorem proper_destructor_iff {ex : Executor} {s : Lifetime ι α}
    (h : (machine ι α ex).Reachable s) (junk : Option ℕ) :
    DestructorEffect.Proper (s.stream.storage.destructor s.installed junk) s.installed 0 ↔
      s.installed = 1 := by
  have hcallback := callback_of_reachable h
  rcases Nat.lt_trichotomy s.installed 1 with hnone | hone | hmany
  · -- `callback_` is read before it was assigned.
    have hread : s.stream.storage.callback = false := by
      rw [hcallback, decide_eq_false_iff_not]
      omega
    refine ⟨fun hproper => ?_, fun hone => by omega⟩
    have hassigned := hproper.reads false
    simp [StreamStorage.destructor, hread, DestructorEffect.assigned?] at hassigned
  · have hset : s.stream.storage.callback = true := by
      rw [hcallback, hone]
      rfl
    refine ⟨fun _ => hone, fun _ => ?_⟩
    have heffects : s.stream.storage.destructor 1 junk
        = [.readCallback true, .destroyHandler (.handler 0)] := by
      rw [StreamStorage.destructor, hset]
      rfl
    rw [hone, heffects]
    exact ⟨by decide, by decide, by decide⟩
  · -- Only the last handler is destroyed.
    have hset : s.stream.storage.callback = true := by
      rw [hcallback, decide_eq_true_iff]
      omega
    refine ⟨fun hproper => ?_, fun hone => by omega⟩
    have heffects : s.stream.storage.destructor s.installed junk
        = [.readCallback true, .destroyHandler (.handler (s.installed - 1))] := by
      rw [StreamStorage.destructor, hset]
      rfl
    have hlength := congrArg List.length hproper.handlers
    rw [heffects, List.length_map, List.length_range] at hlength
    have hone : 1 = s.installed := hlength
    omega

end Lifetime

end Stream

/-! ## Both -/

/-- **Shared states destroy what they hold.** The destructor of a future's state is proper after
    every run. That of a stream's state is proper exactly if `set_handler` has assigned `callback_`
    on the run, and only once. -/
theorem storages_destroy_handlers {ε : Type} {ts : List (Option Type)} {ι α : Type} [DecidableEq ι]
    [Fintype ι] {ex : Executor} {future : Future.Lifetime ε ts} {stream : Stream.Lifetime ι α}
    (hfuture : (Future.Lifetime.machine ε ts).Reachable future) (hsettled : future.settled = true)
    (hstream : (Stream.Lifetime.machine ι α ex).Reachable stream) :
    DestructorEffect.Proper future.shared.storage.destructor future.installed future.constructed ∧
    ∀ junk, DestructorEffect.Proper (stream.stream.storage.destructor stream.installed junk)
      stream.installed 0 ↔ stream.installed = 1 :=
  ⟨Future.Lifetime.proper_destructor hfuture hsettled,
    Stream.Lifetime.proper_destructor_iff hstream⟩

/-- A future that is resolved before a handler is attached, and a stream with a buffered value,
    ended before it is consumed. -/
theorem storages_destroy_handlers_attached :
    ∃ (future : Future.Lifetime String [some ℕ]) (stream : Stream.Lifetime (Fin 1) ℕ),
      future.shared.storage.destructor
        = [.readCallback true, .destroyHandler (.handler 0), .destroyFinished] ∧
      stream.stream.storage.destructor stream.installed none
        = [.readCallback true, .destroyHandler (.handler 0)] ∧
      DestructorEffect.Proper future.shared.storage.destructor 1 1 ∧
      DestructorEffect.Proper (stream.stream.storage.destructor stream.installed none) 1 0 := by
  have hfuture := Machine.reachable_of_run (M := Future.Lifetime.machine String [some ℕ])
    [.begin (.fullfill (7, ())), .produce, .produce, .produce, .handle, .handle, .handle] rfl
  have hstream := Machine.reachable_of_run (M := Stream.Lifetime.machine (Fin 1) ℕ .immediate)
    [.op (.push 0 7), .op (.lock 0), .op (.finish .complete), .op .publish, .op .register, .op .notify]
    rfl
  obtain ⟨hleft, hright⟩ := storages_destroy_handlers hfuture rfl hstream
  exact ⟨_, _, rfl, rfl, hleft, (hright none).2 rfl⟩

/-- A stream storage with a buffered value that is never consumed: its destructor reads `callback_`
    and destroys whatever is at the address it finds there. -/
theorem unattached_stream_storage_destroys_junk :
    ∃ s : Stream.Lifetime (Fin 1) ℕ, (Stream.Lifetime.machine (Fin 1) ℕ .immediate).run {}
        [.op (.push 0 7), .op (.lock 0), .op (.finish .complete)] = some s ∧
      s.installed = 0 ∧
      s.stream.storage.destructor s.installed (some 64)
        = [.readCallback false, .destroyHandler (.wild 64)] ∧
      ∀ junk, ¬ DestructorEffect.Proper (s.stream.storage.destructor s.installed junk) 0 0 := by
  have hreach := Machine.reachable_of_run (M := Stream.Lifetime.machine (Fin 1) ℕ .immediate)
    [.op (.push 0 7), .op (.lock 0), .op (.finish .complete)] rfl
  refine ⟨_, rfl, rfl, rfl, ?_⟩
  intro junk hproper
  exact absurd ((Stream.Lifetime.proper_destructor_iff hreach junk).1 hproper) (by decide)

end EasyGrpc
