import Mathlib.Data.Fintype.Order
import EasyGrpc.Library.Lists
import EasyGrpc.Future.Proofs.Reference

set_option autoImplicit false

/-! # Chains compute their reference meaning

Whatever the order in which promises are resolved, handlers are attached, threads interleave and
executors run their tasks. The invariant says that every task carries arguments of the reference
evaluation, and that the handler of a storage has pushed exactly as many tasks as it was called;
since a future has at most one user, a storage is then operated on at most once. -/

namespace EasyGrpc

namespace Future

variable {ε : Type} {N : ℕ} {T : Tree ε N}

namespace Shared

variable {ts : List (Option Type)}

/-- A step of the producer calls the handler at most once, and leaves `set_handler` alone. -/
theorem produce_cases {op : Operation ε ts} {s s' : Shared ε ts} (h : s.produce op = some s') :
    s'.handler = s.handler ∧
      (s'.invocations = s.invocations ∨ ∃ i, s'.invocations = s.invocations ++ [i]) := by
  unfold produce at h
  split at h
  all_goals cases h
  · exact ⟨rfl, Or.inl rfl⟩
  · exact ⟨rfl, Or.inr ⟨_, rfl⟩⟩
  · exact ⟨rfl, Or.inl rfl⟩
  · exact ⟨rfl, Or.inl rfl⟩
  · exact ⟨rfl, Or.inr ⟨_, rfl⟩⟩

/-- A step of `set_handler` calls the handler at most once, and leaves the producer alone. -/
theorem handle_cases {s s' : Shared ε ts} (h : s.handle false = some s') :
    s'.producer = s.producer ∧ s'.handler ≠ .threw ∧
      (s'.invocations = s.invocations ∨ ∃ i, s'.invocations = s.invocations ++ [i]) := by
  unfold handle at h
  split at h
  · obtain rfl := Option.some.inj h
    exact ⟨rfl, by simp, Or.inl rfl⟩
  · obtain rfl := Option.some.inj h
    refine ⟨rfl, ?_, Or.inl rfl⟩
    dsimp only
    split <;> simp
  · obtain rfl := Option.some.inj h
    exact ⟨rfl, by simp, Or.inr ⟨_, rfl⟩⟩
  · cases h
  · cases h

/-- Only a producer that has started can have led to a call of the handler. -/
theorem Inv.called {op : Operation ε ts} {s : Shared ε ts} (h : Inv op s)
    (hne : s.invocations ≠ []) : s.producer = .returned ∧ s.handler = .returned := by
  rcases s.producer_cases with he | hc | hr
  · exact absurd (h.early he).2 hne
  · exact absurd (h.calls hc).2 hne
  · rcases h.returned hr with ⟨hret, -⟩ | ⟨-, hnil, -⟩
    · exact ⟨hr, hret⟩
    · exact absurd hnil hne

end Shared

namespace Chain

/-! ## What a step can do -/

/-- One constructor for each way in which the tree can go on. -/
inductive Moves (s : Chain T) : Event N → Chain T → Prop
  | resolve {n : Fin N} {op : Operation ε (T.types n)} (hlink : T.link n = .promise op)
      (hnone : s.op n = none) :
      Moves s (.resolve n) { s with op := Function.update s.op n (some op) }
  /-- `then`, `then_expect` or the user's `finally`. -/
  | attach {e : Event N} {m : Fin N} {h : Handler ε T.types T.futures m} (hfits : h.Fits)
      (huser : ∀ n, h.user ≠ .captured n) (hnone : s.handler m = none) :
      Moves s e { s with handler := Function.update s.handler m (some h) }
  | produce {n : Fin N} {op : Operation ε (T.types n)} {shared : Shared ε (T.types n)}
      (hop : s.op n = some op) (hshared : (s.shared n).produce op = some shared) :
      Moves s (.produce n) (s.moved n shared)
  | handle {n : Fin N} {shared : Shared ε (T.types n)} (hset : s.handler n ≠ none)
      (hshared : (s.shared n).handle false = some shared) : Moves s (.handle n) (s.moved n shared)
  | operate {i : ℕ} {t : Task ε T.types T.futures} {dst : Fin N} {op : Operation ε (T.types dst)}
      (ht : s.tasks[i]? = some t) (heff : t.effect = .operate dst op) (hnone : s.op dst = none) :
      Moves s (.run i) { s with
        op := Function.update s.op dst (some op)
        tasks := s.tasks.eraseIdx i
        history := s.history ++ [t] }
  | follow {i : ℕ} {t : Task ε T.types T.futures} {m dst : Fin N}
      {htypes : T.types m = T.types dst} (ht : s.tasks[i]? = some t)
      (heff : t.effect = .follow m dst htypes) (hnone : s.handler m = none) :
      Moves s (.run i) { s with
        handler := Function.update s.handler m (some (.finally_ (.follow dst htypes)))
        tasks := s.tasks.eraseIdx i
        history := s.history ++ [t] }
  | terminate {i : ℕ} {t : Task ε T.types T.futures} (ht : s.tasks[i]? = some t)
      (heff : t.effect = .terminate) :
      Moves s (.run i) { s with tasks := s.tasks.eraseIdx i, history := s.history ++ [t] }

theorem operate_eq_some {s s' : Chain T} {n : Fin N} {op : Operation ε (T.types n)} :
    s.operate n op = some s' ↔
      s.op n = none ∧ s' = { s with op := Function.update s.op n (some op) } := by
  unfold operate
  cases s.op n <;> simp [eq_comm]

theorem setHandler_eq_some {s s' : Chain T} {n : Fin N} {h : Handler ε T.types T.futures n} :
    s.setHandler n h = some s' ↔
      s.handler n = none ∧ s' = { s with handler := Function.update s.handler n (some h) } := by
  unfold setHandler
  cases s.handler n <;> simp [eq_comm]

/-- **What a step of a tree can do.** -/
theorem moves_of_step {s s' : Chain T} {e : Event N} (hstep : s.step e = some s') :
    Moves s e s' := by
  cases e with
  | resolve n =>
      cases hlink : T.link n with
      | promise op =>
          simp only [step, hlink, operate_eq_some] at hstep
          obtain ⟨hnone, rfl⟩ := hstep
          exact .resolve hlink hnone
      | then_ parent hlt cb => exact absurd hstep (by simp [step, hlink])
      | thenExpect parent hlt cb => exact absurd hstep (by simp [step, hlink])
  | chain n =>
      cases hlink : T.link n with
      | promise op => exact absurd hstep (by simp [step, hlink])
      | then_ parent hlt cb =>
          simp only [step, hlink, setHandler_eq_some] at hstep
          obtain ⟨hnone, rfl⟩ := hstep
          exact .attach ⟨hlt, hlink⟩ (by simp [Handler.user]) hnone
      | thenExpect parent hlt cb =>
          simp only [step, hlink, setHandler_eq_some] at hstep
          obtain ⟨hnone, rfl⟩ := hstep
          exact .attach ⟨hlt, hlink⟩ (by simp [Handler.user]) hnone
  | terminate n =>
      by_cases hterm : T.terminates n = true
      · simp only [step, hterm, if_true, setHandler_eq_some] at hstep
        obtain ⟨hnone, rfl⟩ := hstep
        exact .attach (h := .finally_ .user) hterm (by simp [Handler.user]) hnone
      · exact absurd hstep (by simp [step, hterm])
  | produce n =>
      obtain ⟨op, hop, hmap⟩ := Option.bind_eq_some_iff.1 hstep
      obtain ⟨shared, hshared, rfl⟩ := Option.map_eq_some_iff.1 hmap
      exact .produce hop hshared
  | handle n =>
      by_cases hset : (s.handler n).isSome = true
      · simp only [step, hset, if_true] at hstep
        obtain ⟨shared, hshared, rfl⟩ := Option.map_eq_some_iff.1 hstep
        exact .handle (Option.isSome_iff_ne_none.1 hset) hshared
      · exact absurd hstep (by simp [step, hset])
  | run i =>
      obtain ⟨t, ht, hperform⟩ := Option.bind_eq_some_iff.1 hstep
      cases heff : t.effect with
      | operate dst op =>
          simp only [heff, perform, operate_eq_some] at hperform
          obtain ⟨hnone, rfl⟩ := hperform
          exact .operate ht heff hnone
      | follow m dst htypes =>
          simp only [heff, perform, setHandler_eq_some] at hperform
          obtain ⟨hnone, rfl⟩ := hperform
          exact .follow ht heff hnone
      | terminate =>
          simp only [heff, perform] at hperform
          obtain rfl := Option.some.inj hperform
          exact .terminate ht heff

/-! ## The invariant -/

/-- What a task does has been done. -/
def Performed (s : Chain T) : Effect ε T.types T.futures → Prop
  | .operate dst op => s.op dst = some op
  | .follow m dst htypes => s.handler m = some (.finally_ (.follow dst htypes))
  | .terminate => True

structure Inv (s : Chain T) : Prop where
  /-- Every operation brings the reference outcome. -/
  running : ∀ n op, s.op n = some op → Shared.Inv op (s.shared n) ∧ op.stored = T.eval n
  waiting : ∀ n, s.op n = none → (s.shared n).producer = .start ∧ ∀ op, Shared.Inv op (s.shared n)
  fits : ∀ n h, s.handler n = some h → h.Fits
  bare : ∀ n, s.handler n = none → (s.shared n).handler = .start
  unthrown : ∀ n, (s.shared n).handler ≠ .threw
  sound : ∀ t ∈ s.tasks ++ s.history, t.Sound
  /-- Each call of a handler has pushed one task. -/
  pushed : ∀ n,
    (s.tasks ++ s.history).countP (·.src = n) = (s.shared n).invocations.length
  performed : ∀ t ∈ s.history, s.Performed t.effect
  /-- Operations are begun by resolving a promise or by a task, -/
  begun : ∀ n op, s.op n = some op →
    (∃ op', T.link n = .promise op') ∨ ∃ t ∈ s.history, ∃ op', t.effect = .operate n op'
  /-- and a future is followed by a task. -/
  followed : ∀ m dst htypes, s.handler m = some (.finally_ (.follow dst htypes)) →
    ∃ t ∈ s.history, t.effect = .follow m dst htypes

theorem inv_init : (machine T).init.Inv where
  running n op h := absurd h (by simp [machine])
  waiting n _ := ⟨rfl, fun op => Shared.inv_init op⟩
  fits n h hset := absurd hset (by simp [machine])
  bare n _ := rfl
  unthrown n := by simp [machine]
  sound t ht := absurd ht (by simp [machine])
  pushed n := rfl
  performed t ht := absurd ht (by simp [machine])
  begun n op h := absurd h (by simp [machine])
  followed m dst htypes h := absurd h (by simp [machine])

/-- Whatever operation there is or will be, the storage of `n` keeps its invariant. -/
theorem Inv.shared_inv {s : Chain T} (h : s.Inv) (n : Fin N) : ∃ op, Shared.Inv op (s.shared n) := by
  cases hop : s.op n with
  | none => exact ⟨.finish (T.eval n), (h.waiting n hop).2 _⟩
  | some op => exact ⟨op, (h.running n op hop).1⟩

/-- A storage has pushed at most one task: one still waiting in an executor and one run cannot both
    be its own. -/
theorem Inv.src_ne {s : Chain T} (h : s.Inv) {i : ℕ} {t t' : Task ε T.types T.futures}
    (ht : s.tasks[i]? = some t) (ht' : t' ∈ s.history) : t'.src ≠ t.src := by
  intro heq
  obtain ⟨op, hinv⟩ := h.shared_inv t.src
  have hle := hinv.length_invocations
  rw [← h.pushed, List.countP_append] at hle
  have htasks : 0 < s.tasks.countP (·.src = t.src) :=
    List.countP_pos_iff.2 ⟨t, List.mem_of_getElem? ht, by simp⟩
  have hhistory : 0 < s.history.countP (·.src = t.src) :=
    List.countP_pos_iff.2 ⟨t', ht', by simp [heq]⟩
  omega

/-! ## Every step keeps the invariant -/

/-- Operations that have begun are not forgotten when one begins on another storage. -/
theorem Performed.operated {s : Chain T} {e : Effect ε T.types T.futures} (h : s.Performed e)
    {n : Fin N} {op : Operation ε (T.types n)} (hnone : s.op n = none)
    (tasks history : List (Task ε T.types T.futures)) :
    Performed { s with op := Function.update s.op n (some op), tasks, history } e := by
  cases e with
  | operate dst op' =>
      have hdone : s.op dst = some op' := h
      have hne : dst ≠ n := by
        rintro rfl
        exact absurd (hnone.symm.trans hdone) (by simp)
      exact (Function.update_of_ne hne _ _).trans hdone
  | follow m dst htypes => exact h
  | terminate => trivial

/-- Nor are handlers. -/
theorem Performed.installed {s : Chain T} {e : Effect ε T.types T.futures} (h : s.Performed e)
    {n : Fin N} {new : Handler ε T.types T.futures n} (hnone : s.handler n = none)
    (tasks history : List (Task ε T.types T.futures)) :
    Performed { s with handler := Function.update s.handler n (some new), tasks, history } e := by
  cases e with
  | operate dst op => exact h
  | follow m dst htypes =>
      have hdone : s.handler m = some (.finally_ (.follow dst htypes)) := h
      have hne : m ≠ n := by
        rintro rfl
        exact absurd (hnone.symm.trans hdone) (by simp)
      exact (Function.update_of_ne hne _ _).trans hdone
  | terminate => trivial

/-- An operation is begun. -/
theorem Inv.operated {s : Chain T} (h : s.Inv) {n : Fin N} {op : Operation ε (T.types n)}
    (hnone : s.op n = none) (hstored : op.stored = T.eval n)
    {tasks history : List (Task ε T.types T.futures)}
    (hperm : (tasks ++ history).Perm (s.tasks ++ s.history))
    (hkept : ∀ t ∈ s.history, t ∈ history)
    (hnew : ∀ t ∈ history, t ∈ s.history ∨ t.effect = .operate n op)
    (hcause : (∃ op', T.link n = .promise op') ∨ ∃ t ∈ history, ∃ op', t.effect = .operate n op') :
    ({ s with op := Function.update s.op n (some op), tasks, history } : Chain T).Inv where
  running := by
    refine (Function.forall_update_iff s.op (fun m op => ∀ op', op = some op' →
      Shared.Inv op' (s.shared m) ∧ op'.stored = T.eval m)).2 ⟨?_, fun m _ => h.running m⟩
    intro op' hop
    obtain rfl := Option.some.inj hop
    exact ⟨(h.waiting n hnone).2 op, hstored⟩
  waiting := by
    refine (Function.forall_update_iff s.op (fun m op => op = none →
      (s.shared m).producer = .start ∧ ∀ op', Shared.Inv op' (s.shared m))).2
        ⟨fun hop => absurd hop (by simp), fun m _ => h.waiting m⟩
  fits := h.fits
  bare := h.bare
  unthrown := h.unthrown
  sound t ht := h.sound t (hperm.mem_iff.1 ht)
  pushed m := (hperm.countP_eq _).trans (h.pushed m)
  performed t ht := by
    rcases hnew t ht with hold | heff
    · exact (h.performed t hold).operated hnone tasks history
    · rw [heff]
      exact Function.update_self _ _ _
  begun m op' hop := by
    dsimp only at hop
    by_cases hm : m = n
    · subst hm
      exact hcause
    · rw [Function.update_of_ne hm] at hop
      rcases h.begun m op' hop with hpromise | ⟨t, ht, heff⟩
      · exact Or.inl hpromise
      · exact Or.inr ⟨t, hkept t ht, heff⟩
  followed m dst htypes hset := by
    obtain ⟨t, ht, heff⟩ := h.followed m dst htypes hset
    exact ⟨t, hkept t ht, heff⟩

/-- A handler is installed. -/
theorem Inv.installed {s : Chain T} (h : s.Inv) {n : Fin N} {new : Handler ε T.types T.futures n}
    (hnone : s.handler n = none) (hfits : new.Fits)
    {tasks history : List (Task ε T.types T.futures)}
    (hperm : (tasks ++ history).Perm (s.tasks ++ s.history))
    (hkept : ∀ t ∈ s.history, t ∈ history)
    (hnew : ∀ t ∈ history, t ∈ s.history ∨ ∃ dst htypes, t.effect = .follow n dst htypes ∧
      new = .finally_ (.follow dst htypes))
    (hcause : ∀ dst htypes, new = .finally_ (.follow dst htypes) →
      ∃ t ∈ history, t.effect = .follow n dst htypes) :
    ({ s with handler := Function.update s.handler n (some new), tasks, history } : Chain T).Inv where
  running := h.running
  waiting := h.waiting
  fits := by
    refine (Function.forall_update_iff s.handler (fun _ handler => ∀ h', handler = some h' →
      h'.Fits)).2 ⟨?_, fun m _ => h.fits m⟩
    intro h' hset
    obtain rfl := Option.some.inj hset
    exact hfits
  bare := by
    refine (Function.forall_update_iff s.handler (fun m handler => handler = none →
      (s.shared m).handler = .start)).2 ⟨fun hset => absurd hset (by simp), fun m _ => h.bare m⟩
  unthrown := h.unthrown
  sound t ht := h.sound t (hperm.mem_iff.1 ht)
  pushed m := (hperm.countP_eq _).trans (h.pushed m)
  performed t ht := by
    rcases hnew t ht with hold | ⟨dst, htypes, heff, rfl⟩
    · exact (h.performed t hold).installed hnone tasks history
    · rw [heff]
      exact Function.update_self _ _ _
  begun m op hop := by
    rcases h.begun m op hop with hpromise | ⟨t, ht, heff⟩
    · exact Or.inl hpromise
    · exact Or.inr ⟨t, hkept t ht, heff⟩
  followed m dst htypes hset := by
    dsimp only at hset
    by_cases hm : m = n
    · subst hm
      rw [Function.update_self] at hset
      exact hcause dst htypes (Option.some.inj hset)
    · rw [Function.update_of_ne hm] at hset
      obtain ⟨t, ht, heff⟩ := h.followed m dst htypes hset
      exact ⟨t, hkept t ht, heff⟩

/-- A thread at work on a storage takes a step; if it calls the handler, that one pushes a task. -/
theorem Inv.moved {s : Chain T} (h : s.Inv) {n : Fin N} {shared : Shared ε (T.types n)}
    (hrunning : ∀ op, s.op n = some op → Shared.Inv op shared)
    (hwaiting : s.op n = none → shared.producer = .start ∧ ∀ op, Shared.Inv op shared)
    (hbare : s.handler n = none → shared.handler = .start) (hthrew : shared.handler ≠ .threw)
    (hcalls : shared.invocations = (s.shared n).invocations ∨
      ∃ i, shared.invocations = (s.shared n).invocations ++ [i]) :
    (s.moved n shared).Inv := by
  -- The tasks pushed: as many as there are new calls, all of them as they should be.
  have hpushed : ∃ new : List (Task ε T.types T.futures), (s.moved n shared).tasks = s.tasks ++ new ∧
      (∀ t ∈ new, t.Sound ∧ t.src = n) ∧
      shared.invocations.length = (s.shared n).invocations.length + new.length := by
    rcases hcalls with heq | ⟨i, heq⟩
    · exact ⟨[], by simp [Chain.moved, heq], by simp, by simp [heq]⟩
    · have hne : shared.invocations ≠ [] := by simp [heq]
      cases hop : s.op n with
      | none =>
          obtain ⟨hstart, hall⟩ := hwaiting hop
          have hret := ((hall (.finish (T.eval n))).called hne).1
          exact absurd (hstart.symm.trans hret) (by simp)
      | some op =>
          have hinv := hrunning op hop
          have hproper := hinv.proper i (by simp [heq])
          have hslots : i.outcome.slots = some (T.eval n) := by
            rw [hproper.produced.slots, (h.running n op hop).2]
          cases hset : s.handler n with
          | none => exact absurd ((hbare hset).symm.trans (hinv.called hne).2) (by simp)
          | some handler =>
              obtain ⟨t, hcall, hsound, hsrc⟩ := (h.fits n handler hset).call hslots
              refine ⟨[t], ?_, by simp [hsound, hsrc], by simp [heq]⟩
              simp [Chain.moved, heq, hset, hcall]
  obtain ⟨new, htasks, hnew, hlength⟩ := hpushed
  refine ⟨?_, ?_, h.fits, ?_, ?_, ?_, ?_, h.performed, h.begun, h.followed⟩
  · refine (Function.forall_update_iff s.shared (fun m shared => ∀ op, s.op m = some op →
      Shared.Inv op shared ∧ op.stored = T.eval m)).2 ⟨?_, fun m _ => h.running m⟩
    exact fun op hop => ⟨hrunning op hop, (h.running n op hop).2⟩
  · exact (Function.forall_update_iff s.shared (fun m shared => s.op m = none →
      shared.producer = .start ∧ ∀ op, Shared.Inv op shared)).2 ⟨hwaiting, fun m _ => h.waiting m⟩
  · exact (Function.forall_update_iff s.shared (fun m shared => s.handler m = none →
      shared.handler = .start)).2 ⟨hbare, fun m _ => h.bare m⟩
  · exact (Function.forall_update_iff s.shared (fun _ shared => shared.handler ≠ .threw)).2
      ⟨hthrew, fun m _ => h.unthrown m⟩
  · intro t ht
    have ht : t ∈ s.tasks ++ new ++ s.history := htasks ▸ ht
    rcases List.mem_append.1 ht with ht | ht
    · rcases List.mem_append.1 ht with ht | ht
      · exact h.sound t (List.mem_append_left _ ht)
      · exact (hnew t ht).1
    · exact h.sound t (List.mem_append_right _ ht)
  · intro m
    have hold := h.pushed m
    show ((s.moved n shared).tasks ++ s.history).countP _ = _
    rw [htasks]
    rw [List.countP_append] at hold
    rw [List.countP_append, List.countP_append]
    by_cases hm : m = n
    · subst hm
      have hall : new.countP (·.src = m) = new.length :=
        List.countP_eq_length.2 (fun t ht => by simp [(hnew t ht).2])
      rw [hall]
      simp only [Chain.moved, Function.update_self]
      omega
    · have hnone : new.countP (·.src = m) = 0 :=
        List.countP_eq_zero.2 (fun t ht => by simp [(hnew t ht).2, Ne.symm hm])
      rw [hnone]
      simp only [Chain.moved, Function.update_of_ne hm]
      omega

theorem inv_step {s s' : Chain T} {e : Event N} (hstep : s.step e = some s') (h : s.Inv) :
    s'.Inv := by
  cases moves_of_step hstep with
  | @resolve n op hlink hnone =>
      refine h.operated hnone ?_ (List.Perm.refl _) (fun _ ht => ht) (fun _ ht => Or.inl ht)
        (Or.inl ⟨op, hlink⟩)
      rw [T.eval_eq, Tree.delivery, hlink]
      rfl
  | @attach _ m new hfits huser hnone =>
      refine h.installed hnone hfits (List.Perm.refl _) (fun _ ht => ht) (fun _ ht => Or.inl ht) ?_
      rintro dst htypes rfl
      exact absurd rfl (huser dst)
  | @produce n op shared hop hshared =>
      obtain ⟨hsame, hcalls⟩ := Shared.produce_cases hshared
      refine h.moved ?_ ?_ ?_ ?_ hcalls
      · intro op' hop'
        obtain rfl := Option.some.inj (hop.symm.trans hop')
        exact Shared.inv_produce (h.running n op hop).1 hshared
      · intro hnone
        exact absurd (hop.symm.trans hnone) (by simp)
      · intro hset
        exact hsame.trans (h.bare n hset)
      · rw [hsame]
        exact h.unthrown n
  | @handle n shared hset hshared =>
      obtain ⟨hsame, hthrew, hcalls⟩ := Shared.handle_cases hshared
      refine h.moved ?_ ?_ ?_ hthrew hcalls
      · intro op hop
        exact Shared.inv_handle (h.running n op hop).1 hshared
      · intro hnone
        obtain ⟨hstart, hall⟩ := h.waiting n hnone
        exact ⟨hsame.trans hstart, fun op => Shared.inv_handle (hall op) hshared⟩
      · intro hno
        exact absurd hno hset
  | @operate i t dst op ht heff hnone =>
      have hsound := h.sound t (List.mem_append_left _ (List.mem_of_getElem? ht))
      refine h.operated hnone (hsound.operate heff).1 (List.perm_eraseIdx_append ht _)
        (fun _ hold => List.mem_append_left _ hold) ?_ (Or.inr ⟨t, by simp, op, heff⟩)
      intro t' ht'
      rcases List.mem_append.1 ht' with hold | hlast
      · exact Or.inl hold
      · obtain rfl := List.mem_singleton.1 hlast
        exact Or.inr heff
  | @follow i t m dst htypes ht heff hnone =>
      have hsound := h.sound t (List.mem_append_left _ (List.mem_of_getElem? ht))
      have hfits : Handler.Fits
          (.finally_ (.follow dst htypes) : Handler ε T.types T.futures m) :=
        (hsound.follow heff).1
      refine h.installed hnone hfits (List.perm_eraseIdx_append ht _)
        (fun _ hold => List.mem_append_left _ hold) ?_ ?_
      · intro t' ht'
        rcases List.mem_append.1 ht' with hold | hlast
        · exact Or.inl hold
        · obtain rfl := List.mem_singleton.1 hlast
          exact Or.inr ⟨dst, htypes, heff, rfl⟩
      · intro dst' htypes' heq
        cases heq
        exact ⟨t, by simp, heff⟩
  | @terminate i t ht heff =>
      have hperm := List.perm_eraseIdx_append ht s.history
      refine ⟨h.running, h.waiting, h.fits, h.bare, h.unthrown, ?_, ?_, ?_, ?_, ?_⟩
      · intro t' ht'
        exact h.sound t' (hperm.mem_iff.1 ht')
      · intro n
        exact (hperm.countP_eq _).trans (h.pushed n)
      · intro t' ht'
        rcases List.mem_append.1 ht' with hold | hlast
        · exact h.performed t' hold
        · obtain rfl := List.mem_singleton.1 hlast
          rw [heff]
          trivial
      · intro n op hop
        rcases h.begun n op hop with hpromise | ⟨t', ht', heff'⟩
        · exact Or.inl hpromise
        · exact Or.inr ⟨t', List.mem_append_left _ ht', heff'⟩
      · intro m dst htypes hset
        obtain ⟨t', ht', heff'⟩ := h.followed m dst htypes hset
        exact ⟨t', List.mem_append_left _ ht', heff'⟩

theorem inv_of_reachable {s : Chain T} (h : (machine T).Reachable s) : s.Inv :=
  h.invariant inv_init inv_step

/-! ## No operation is refused -/

/-- Every task in an executor can be run: the storage it operates on was not operated on yet, and
    the future it follows has no handler yet. -/
theorem Inv.run_enabled {s : Chain T} (h : s.Inv) {i : ℕ} (hi : i < s.tasks.length) :
    (s.step (.run i)).isSome = true := by
  have ht : s.tasks[i]? = some s.tasks[i] := List.getElem?_eq_getElem hi
  have hsound := h.sound _ (List.mem_append_left _ (List.mem_of_getElem? ht))
  simp only [step, ht, Option.bind_some]
  cases heff : s.tasks[i].effect with
  | operate dst op =>
      have hnone : s.op dst = none := by
        by_contra hne
        obtain ⟨op', hop⟩ := Option.ne_none_iff_exists'.1 hne
        have hstarter := (hsound.operate heff).2
        rcases h.begun dst op' hop with ⟨op'', hlink⟩ | ⟨t', ht', op'', heff'⟩
        · rw [Tree.Starter, Tree.delivery, hlink] at hstarter
          exact absurd hstarter (by simp [Link.parent?])
        · have hstarter' := ((h.sound t' (List.mem_append_right _ ht')).operate heff').2
          exact h.src_ne ht ht' (hstarter'.unique hstarter)
      simp [perform, operate, hnone]
  | follow m dst htypes =>
      have hnone : s.handler m = none := by
        by_contra hne
        obtain ⟨handler, hset⟩ := Option.ne_none_iff_exists'.1 hne
        obtain ⟨⟨hmem, -⟩, hparent⟩ := hsound.follow heff
        have huser := (h.fits m handler hset).user_eq.symm.trans (T.user_captured dst m hmem)
        obtain ⟨htypes', rfl⟩ : ∃ htypes', handler = .finally_ (.follow dst htypes') := by
          cases handler with
          | then_ dst' cb => exact absurd huser (by simp [Handler.user])
          | thenExpect dst' cb => exact absurd huser (by simp [Handler.user])
          | finally_ cb =>
              cases cb with
              | user => exact absurd huser (by simp [Handler.user])
              | follow dst' htypes' =>
                  obtain rfl : dst' = dst := by simpa [Handler.user] using huser
                  exact ⟨htypes', rfl⟩
        obtain ⟨t', ht', heff'⟩ := h.followed m dst htypes' hset
        have hparent' := ((h.sound t' (List.mem_append_right _ ht')).follow heff').2
        exact h.src_ne ht ht' (Option.some.inj (hparent'.symm.trans hparent))
      simp [perform, setHandler, hnone]
  | terminate => rfl

/-! ## Nothing is left unresolved -/

/-- Every promise was resolved, every handler attached, all these calls have returned, and the
    executors are empty. -/
structure Settled (s : Chain T) : Prop where
  resolved : ∀ n op, T.link n = .promise op → (s.op n).isSome = true
  chained : ∀ n m, (T.link n).parent? = some m → (s.handler m).isSome = true
  terminated : ∀ n, T.terminates n = true → (s.handler n).isSome = true
  returned : ∀ n, s.step (.produce n) = none ∧ s.step (.handle n) = none
  executors : s.tasks = []

/-- The task pushed by the handler of a future that has its outcome was run. -/
theorem Inv.ran {s : Chain T} (h : s.Inv) (hs : s.Settled) {n : Fin N}
    {op : Operation ε (T.types n)} (hop : s.op n = some op) (hset : (s.handler n).isSome = true) :
    ∃ t ∈ s.history, t.src = n := by
  obtain ⟨hproduce, hhandle⟩ := hs.returned n
  simp only [step, hop, Option.bind_some, Option.map_eq_none_iff] at hproduce
  simp only [step, hset, if_true, Option.map_eq_none_iff] at hhandle
  have hret : (s.shared n).handler = .returned :=
    (Shared.handle_eq_none hhandle).resolve_right (h.unthrown n)
  have hlength := h.pushed n
  rcases (h.running n op hop).1.returned (Shared.produce_eq_none hproduce) with ⟨-, hone⟩ | ⟨hne, -⟩
  · rw [hone, hs.executors, List.nil_append] at hlength
    obtain ⟨t, ht, hsrc⟩ := List.countP_pos_iff.1 (by omega : 0 < s.history.countP (·.src = n))
    exact ⟨t, ht, by simpa using hsrc⟩
  · exact absurd hret hne

theorem parent_lt {n m : Fin N} (h : (T.link n).parent? = some m) : m < n := by
  cases hlink : T.link n with
  | promise op => exact absurd h (by simp [hlink, Link.parent?])
  | then_ parent hlt cb =>
      obtain rfl : parent = m := by simpa [hlink, Link.parent?] using h
      exact hlt
  | thenExpect parent hlt cb =>
      obtain rfl : parent = m := by simpa [hlink, Link.parent?] using h
      exact hlt

/-- By induction on the future: those it depends on are resolved, so the tasks of their handlers
    were run. -/
theorem Inv.resolved {s : Chain T} (h : s.Inv) (hs : s.Settled) (n : Fin N) :
    (s.op n).isSome = true := by
  induction n using WellFoundedLT.induction with
  | ind n ih =>
      cases hparent : (T.link n).parent? with
      | none =>
          cases hlink : T.link n with
          | promise op => exact hs.resolved n op hlink
          | then_ parent hlt cb => exact absurd hparent (by simp [hlink, Link.parent?])
          | thenExpect parent hlt cb => exact absurd hparent (by simp [hlink, Link.parent?])
      | some m =>
          have huser := T.user_chained n m hparent
          obtain ⟨op, hop⟩ := Option.isSome_iff_exists.1 (ih m (parent_lt hparent))
          obtain ⟨t, ht, rfl⟩ := h.ran hs hop (hs.chained n m hparent)
          have hdone := h.performed t ht
          rcases (h.sound t (List.mem_append_right _ ht)).chained with ⟨dst, hdst, heff⟩ |
            ⟨dst, -, hmem, -⟩ | ⟨hterm, -⟩
          · obtain rfl : n = dst := by
              simpa using huser.symm.trans (T.user_chained dst _ hdst)
            rw [heff] at hdone
            cases hdel : T.delivery n with
            | operate op' =>
                rw [hdel] at hdone
                exact Option.isSome_iff_exists.2 ⟨op', hdone⟩
            | follow m' hmem htypes =>
                -- The callback has returned `m'`, which is resolved too, and its handler is `n`'s.
                rw [hdel] at hdone
                have hdone : s.handler m' = some (.finally_ (.follow n htypes)) := hdone
                have huser' := T.user_captured n m' hmem
                obtain ⟨op', hop'⟩ := Option.isSome_iff_exists.1 (ih m' (T.futures_lt n m' hmem))
                obtain ⟨t', ht', rfl⟩ := h.ran hs hop' (by simp [hdone])
                have hdone' := h.performed t' ht'
                rcases (h.sound t' (List.mem_append_right _ ht')).chained with ⟨dst', hdst', -⟩ |
                  ⟨dst', op'', hmem', -, -, heff', -⟩ | ⟨hterm, -⟩
                · exact absurd (huser'.symm.trans (T.user_chained dst' _ hdst')) (by simp)
                · obtain rfl : n = dst' := by
                    simpa using huser'.symm.trans (T.user_captured dst' _ hmem')
                  rw [heff'] at hdone'
                  exact Option.isSome_iff_exists.2 ⟨op'', hdone'⟩
                · exact absurd (huser'.symm.trans (T.user_terminated _ hterm)) (by simp)
          · exact absurd (huser.symm.trans (T.user_captured dst _ hmem)) (by simp)
          · exact absurd (huser.symm.trans (T.user_terminated _ hterm)) (by simp)

/-- A terminating callback was run, with the outcome of its future. -/
theorem Inv.terminated {s : Chain T} (h : s.Inv) (hs : s.Settled) {n : Fin N}
    (hterm : T.terminates n = true) : .finally_ n .user (T.eval n) ∈ s.history := by
  have huser := T.user_terminated n hterm
  obtain ⟨op, hop⟩ := Option.isSome_iff_exists.1 (h.resolved hs n)
  obtain ⟨t, ht, rfl⟩ := h.ran hs hop (hs.terminated n hterm)
  rcases (h.sound t (List.mem_append_right _ ht)).chained with ⟨dst, hdst, -⟩ | ⟨dst, -, hmem, -⟩ |
    ⟨-, heq⟩
  · exact absurd (huser.symm.trans (T.user_chained dst _ hdst)) (by simp)
  · exact absurd (huser.symm.trans (T.user_captured dst _ hmem)) (by simp)
  · exact heq ▸ ht

/-! ## Callbacks run at most once -/

end Chain

/-- The task runs the chaining callback behind the future `n`. -/
def Task.calls (n : Fin N) : Task ε T.types T.futures → Bool
  | .then_ _ dst _ _ => dst == n
  | .thenExpect _ dst _ _ => dst == n
  | .fail _ _ _ => false
  | .finally_ _ _ _ => false

/-- The task runs the terminating callback on the future `n`. -/
def Task.terminates (n : Fin N) : Task ε T.types T.futures → Bool
  | .finally_ src .user _ => src == n
  | _ => false

theorem Task.Sound.parent_of_calls {n : Fin N} {t : Task ε T.types T.futures} (h : t.Sound)
    (hcalls : t.calls n = true) : (T.link n).parent? = some t.src := by
  cases t with
  | then_ src dst cb v =>
      obtain rfl : dst = n := by simpa [Task.calls] using hcalls
      obtain ⟨⟨hlt, hlink⟩, -⟩ := h
      rw [hlink]
      rfl
  | thenExpect src dst cb f =>
      obtain rfl : dst = n := by simpa [Task.calls] using hcalls
      obtain ⟨⟨hlt, hlink⟩, -⟩ := h
      rw [hlink]
      rfl
  | fail src dst e => exact absurd hcalls (by simp [Task.calls])
  | finally_ src cb f => exact absurd hcalls (by simp [Task.calls])

theorem Task.src_of_terminates {n : Fin N} {t : Task ε T.types T.futures}
    (hterm : t.terminates n = true) : t.src = n := by
  cases t with
  | then_ src dst cb v => exact absurd hterm (by simp [Task.terminates])
  | thenExpect src dst cb f => exact absurd hterm (by simp [Task.terminates])
  | fail src dst e => exact absurd hterm (by simp [Task.terminates])
  | finally_ src cb f =>
      cases cb with
      | user => simpa [Task.terminates, Task.src] using hterm
      | follow dst htypes => exact absurd hterm (by simp [Task.terminates])

namespace Chain

/-- The tasks of one future are counted by the calls of its handler. -/
theorem Inv.countP_le {s : Chain T} (h : s.Inv) {m : Fin N} {p : Task ε T.types T.futures → Bool}
    (hp : ∀ t ∈ s.history, p t = true → t.src = m) : s.history.countP p ≤ 1 := by
  obtain ⟨op, hinv⟩ := h.shared_inv m
  have hle := hinv.length_invocations
  rw [← h.pushed, List.countP_append] at hle
  have hmono : s.history.countP p ≤ s.history.countP (·.src = m) :=
    List.countP_mono_left (fun t ht hpt => by simp [hp t ht hpt])
  omega

theorem Inv.calls_le {s : Chain T} (h : s.Inv) (n : Fin N) :
    s.history.countP (·.calls n) ≤ 1 := by
  cases hparent : (T.link n).parent? with
  | none =>
      have hzero : s.history.countP (·.calls n) = 0 := by
        refine List.countP_eq_zero.2 (fun t ht hcalls => ?_)
        have hsome := (h.sound t (List.mem_append_right _ ht)).parent_of_calls hcalls
        exact absurd (hparent.symm.trans hsome) (by simp)
      omega
  | some m =>
      refine h.countP_le (m := m) (fun t ht hcalls => ?_)
      have hsome := (h.sound t (List.mem_append_right _ ht)).parent_of_calls hcalls
      exact (Option.some.inj (hparent.symm.trans hsome)).symm

/-! ## All of it -/

/-- **Chains compute their reference meaning whatever the timing.** In every state that any order of
    resolving, attaching and running can reach: a future's operation and what its handler is called
    with are its reference outcome; a task that was run had the callback and the arguments of the
    reference evaluation; each callback has run at most once; no task in an executor is refused;
    and once everything was resolved and attached and the executors are empty, every future has
    its outcome and every terminating callback was run. -/
theorem chains_compute_reference {s : Chain T} (h : (machine T).Reachable s) :
    (∀ n op, s.op n = some op → op.stored = T.eval n) ∧
    (∀ n, ∀ i ∈ (s.shared n).invocations, i.outcome.slots = some (T.eval n)) ∧
    (∀ t ∈ s.history, t.Sound) ∧
    (∀ n, s.history.countP (·.calls n) ≤ 1 ∧ s.history.countP (·.terminates n) ≤ 1) ∧
    (∀ i < s.tasks.length, (s.step (.run i)).isSome = true) ∧
    (s.Settled → ∀ n, (∃ op, s.op n = some op ∧ (s.shared n).producer = .returned) ∧
      (T.terminates n = true → .finally_ n .user (T.eval n) ∈ s.history)) ∧
    (∀ s', (machine T).Reachable s' → ∀ n op op', s.op n = some op → s'.op n = some op' →
      op.stored = op'.stored) := by
  have hinv := inv_of_reachable h
  refine ⟨fun n op hop => (hinv.running n op hop).2, ?_,
    fun t ht => hinv.sound t (List.mem_append_right _ ht), ?_, fun i hi => hinv.run_enabled hi, ?_,
    ?_⟩
  · intro n i hi
    cases hop : s.op n with
    | none =>
        obtain ⟨hstart, hall⟩ := hinv.waiting n hop
        have hcalled := ((hall (.finish (T.eval n))).called (List.ne_nil_of_mem hi)).1
        exact absurd (hstart.symm.trans hcalled) (by simp)
    | some op =>
        obtain ⟨hshared, hstored⟩ := hinv.running n op hop
        rw [(hshared.proper i hi).produced.slots, hstored]
  · intro n
    exact ⟨hinv.calls_le n, hinv.countP_le (fun t _ hterm => Task.src_of_terminates hterm)⟩
  · intro hs n
    obtain ⟨op, hop⟩ := Option.isSome_iff_exists.1 (hinv.resolved hs n)
    have hproduce := (hs.returned n).1
    simp only [step, hop, Option.bind_some, Option.map_eq_none_iff] at hproduce
    exact ⟨⟨op, hop, Shared.produce_eq_none hproduce⟩, hinv.terminated hs⟩
  · intro s' h' n op op' hop hop'
    rw [(hinv.running n op hop).2, ((inv_of_reachable h').running n op' hop').2]

/-- `f0.then(cb)` and `finally` on its result, where `f0` is a `Future<int, void>` and `cb` returns
    the `Future<int>` it has captured. -/
def capturingTypes : Fin 3 → List (Option Type)
  | 0 => [some ℕ, none]
  | 1 => [some ℕ]
  | 2 => [some ℕ]

def capturingFutures : Fin 3 → List (Fin 3)
  | 0 => []
  | 1 => []
  | 2 => [1]

def capturingLink : ∀ n, Link String capturingTypes (capturingFutures n) n
  | 0 => .promise (.fullfill (12, ()))
  | 1 => .promise (.fail "lost")
  | 2 => .then_ 0 (by decide) (fun _ => .future 1 (List.mem_singleton.2 rfl) rfl)

def capturing : Tree String 3 where
  types := capturingTypes
  futures := capturingFutures
  futures_lt := by decide
  link := capturingLink
  terminates n := n == 2
  user
    | 0 => some (.chained 2)
    | 1 => some (.captured 2)
    | 2 => some .terminated
  user_chained := by decide
  user_captured := by decide
  user_terminated := by decide

/-- The handler of `f0` is attached before it is resolved, that of the captured future after: the
    callback of `finally` gets the error of the captured future. -/
theorem chains_compute_reference_captured :
    ∃ s, (machine capturing).Reachable s ∧ s.Settled ∧ s.history.length = 3 ∧
      .finally_ 2 .user (capturing.eval 2) ∈ s.history := by
  obtain ⟨s, hrun, hsettled, hlength⟩ :
      ∃ s, (machine capturing).Reachable s ∧ s.Settled ∧ s.history.length = 3 := by
    have hrun : (machine capturing).Reachable _ :=
      Machine.reachable_of_run
        [.chain 2, .handle 0, .handle 0, .resolve 0, .produce 0, .produce 0,
          .resolve 1, .produce 1, .produce 1, .produce 1, .run 0, .handle 1, .handle 1, .handle 1,
          .terminate 2, .handle 2, .handle 2, .run 0, .produce 2, .produce 2, .run 0] rfl
    refine ⟨_, hrun, ⟨?_, ?_, ?_, ?_, rfl⟩, rfl⟩
    · exact fun | 0, _, _ => rfl | 1, _, _ => rfl | 2, _, _ => rfl
    · exact fun | _, 0, _ => rfl | _, 1, _ => rfl | _, 2, _ => rfl
    · exact fun | 0, _ => rfl | 1, _ => rfl | 2, _ => rfl
    · exact fun | 0 => ⟨rfl, rfl⟩ | 1 => ⟨rfl, rfl⟩ | 2 => ⟨rfl, rfl⟩
  have hall := (chains_compute_reference hrun).2.2.2.2.2.1 hsettled
  exact ⟨s, hrun, hsettled, hlength, (hall 2).2 rfl⟩

end Chain

end Future

end EasyGrpc
