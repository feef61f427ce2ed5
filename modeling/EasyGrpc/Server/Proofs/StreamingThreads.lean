import EasyGrpc.Server.StreamingThreads
import EasyGrpc.Server.Proofs.ServerStreaming

set_option autoImplicit false

/-! # When a server-streaming handler is touched after its deletion

Every batch in flight, every completion being handled and the end of the call are counted against
the flags of the handler, wherever the two threads are. Then a handler is deleted with no batch
outstanding and with the completion thread outside; the producer is outside too, unless it still
holds `mtx_` when the completion of the last batch is taken. -/

namespace EasyGrpc

variable {Rep : Type}

/-! ## Critical sections -/

namespace CriticalSection

variable [Serializer Rep]

/-- **A critical section does what the operation it is part of does**, as long as no other thread
    comes in between. -/
theorem startBatch_body (s : CriticalSection Rep) (h : ServerStreamingCallHandler) :
    (match s.body h with
      | (h', some b) => h'.startBatch b
      | (h', none) => h') = s.whole h := by
  cases s with
  | push val =>
      simp only [body, whole, ServerStreamingCallHandler.push, ServerStreamingCallHandler.flush,
        ServerStreamingCallHandler.flushBody]
      by_cases hbusy : h.batchInFlight
      · simp [hbusy]
      · cases hq : h.pendingOps <;> simp [hbusy]
  | finish =>
      simp only [body, whole, ServerStreamingCallHandler.finish]
      by_cases hbusy : h.batchInFlight
      · simp [hbusy]
      · simp [hbusy, ServerStreamingCallHandler.sendEnd]
  | exec =>
      simp only [body, whole, ServerStreamingCallHandler.exec, ServerStreamingCallHandler.flush,
        ServerStreamingCallHandler.flushBody]
      cases hq : h.pendingOps with
      | nil =>
          by_cases hfin : h.finished
          · simp [hfin, ServerStreamingCallHandler.sendEnd]
          · simp [hfin]
      | cons op rest => simp

/-- What `push` does under `mtx_`. -/
theorem body_push (val : Rep) (h : ServerStreamingCallHandler) :
    (h.batchInFlight = true ∧ (push val).body h
        = ({ h with pendingOps := h.pendingOps ++ [serialize val] }, none)) ∨
      (h.batchInFlight = false ∧ ∃ op rest, (push val).body h
        = ({ h with batchInFlight := true, pendingOps := rest }, some (.write op))) := by
  by_cases hbusy : h.batchInFlight
  · refine Or.inl ⟨hbusy, ?_⟩
    simp [body, ServerStreamingCallHandler.flushBody, hbusy]
  · refine Or.inr ⟨by simpa using hbusy, ?_⟩
    cases hq : h.pendingOps with
    | nil =>
        exact ⟨serialize val, [], by simp [body, ServerStreamingCallHandler.flushBody, hbusy, hq]⟩
    | cons op rest =>
        exact ⟨op, rest ++ [serialize val],
          by simp [body, ServerStreamingCallHandler.flushBody, hbusy, hq]⟩

/-- What `exec` does under `mtx_`: the next reply, the end, or nothing is to be started. -/
theorem body_exec {R : Type} [Serializer R] (h : ServerStreamingCallHandler) :
    (∃ op rest, (exec : CriticalSection R).body h
        = ({ h with batchInFlight := true, pendingOps := rest }, some (.write op))) ∨
      (h.finished = true ∧ (exec : CriticalSection R).body h
        = ({ h with batchInFlight := false }, some .sendEnd)) ∨
      (exec : CriticalSection R).body h = ({ h with batchInFlight := false }, none) := by
  cases hq : h.pendingOps with
  | cons op rest =>
      exact Or.inl ⟨op, rest, by simp [body, ServerStreamingCallHandler.flushBody, hq]⟩
  | nil =>
      by_cases hfin : h.finished
      · exact Or.inr (Or.inl ⟨hfin, by simp [body, hq, hfin]⟩)
      · exact Or.inr (Or.inr (by simp [body, hq, hfin]))

end CriticalSection

namespace StreamingThreads

open CriticalSection StreamingServerBatch

/-! ## What a position counts for -/

/-- The thread owns `mtx_`. -/
def inside : Option (Position Rep) → Bool
  | none => false
  | some (.waiting _) => false
  | some _ => true

/-- The section whose changes the thread has still to make. -/
def section? : Option (Position Rep) → Option (CriticalSection Rep)
  | some (.waiting s) => some s
  | some (.holding s) => some s
  | _ => none

/-- A completion is being handled, or a batch is about to be started, for which `batch_in_flight_`
    is set. -/
def gateWeight : Option (Position Rep) → ℕ
  | some (.waiting .exec) => 1
  | some (.holding .exec) => 1
  | some (.starting b) => (isMetadata b).toNat + (isWrite b).toNat
  | _ => 0

/-- The last batch is about to be started. -/
def lastWeight : Option (Position Rep) → ℕ
  | some (.starting b) => (isSendEnd b).toNat + (isFail b).toNat
  | _ => 0

/-- What both threads count for. -/
def total (w : Option (Position Rep) → ℕ) (position : Thread → Option (Position Rep)) : ℕ :=
  w (position .producer) + w (position .worker)

theorem total_update (w : Option (Position Rep) → ℕ) (position : Thread → Option (Position Rep))
    (t : Thread) (p : Option (Position Rep)) :
    total w (Function.update position t p) + w (position t) = total w position + w p := by
  cases t with
  | producer =>
      simp only [total, Function.update_self,
        Function.update_of_ne (show Thread.worker ≠ .producer by decide)]
      omega
  | worker =>
      simp only [total, Function.update_self,
        Function.update_of_ne (show Thread.producer ≠ .worker by decide)]
      omega

/-- The flag of its tag tells the last batch from the others. -/
theorem weights_of_flag {b : StreamingServerBatch}
    (h : (BatchSpec.flags b).getLsbD 0 = true) :
    (isMetadata b).toNat + (isWrite b).toNat = 0 ∧ (isSendEnd b).toNat + (isFail b).toNat = 1 := by
  cases b with
  | metadata => cases h
  | write m => simp [BatchSpec.flags] at h
  | sendEnd => exact ⟨rfl, rfl⟩
  | fail => exact ⟨rfl, rfl⟩

theorem weights_of_no_flag {b : StreamingServerBatch}
    (h : (BatchSpec.flags b).getLsbD 0 = false) :
    (isMetadata b).toNat + (isWrite b).toNat = 1 ∧ (isSendEnd b).toNat + (isFail b).toNat = 0 := by
  cases b with
  | metadata => exact ⟨rfl, rfl⟩
  | write m => exact ⟨rfl, rfl⟩
  | sendEnd => cases h
  | fail => cases h

/-! ## The invariant -/

/-- What is counted against the flags of the handler. -/
structure Counts (handler : ServerStreamingCallHandler)
    (position : Thread → Option (Position Rep)) (killing deleted : Bool) : Prop where
  /-- `batch_in_flight_` is set for one batch in flight, one completion being handled, or one batch
      about to be started. -/
  gate : handler.call.pending isMetadata + handler.call.pending isWrite
    + total gateWeight position = handler.batchInFlight.toNat
  /-- The last batch comes once, when the stream has completed and no other batch is in flight. -/
  last : handler.call.pending isSendEnd + handler.call.pending isFail
    + total lastWeight position + killing.toNat + deleted.toNat
      ≤ (handler.finished && !handler.batchInFlight).toNat

structure Inv (c : StreamingThreads Rep) : Prop where
  /-- `mtx_` belongs to the thread inside. -/
  owner : ∀ t, inside (c.position t) = true ↔ c.mtx = some t
  /-- Each thread runs its own sections. -/
  sections : ∀ t s, section? (c.position t) = some s → s.thread = t
  counts : Counts c.handler c.position c.killing c.deleted
  finishing : section? (c.position .producer) = some .finish → c.ended = true
  ended : c.handler.finished = true → c.ended = true
  /-- A call of the producer that has not got to its changes was made before the end. -/
  unfinished : (section? (c.position .producer)).isSome = true → c.handler.finished = false
  /-- The completion thread deletes the handler from outside. -/
  resting : c.killing = true ∨ c.deleted = true → c.position .worker = none

variable [Serializer Rep]

/-! ## The steps, with what each requires -/

/-- One constructor for each step that `step` can take. -/
inductive Moves (c : StreamingThreads Rep) : Event Rep → StreamingThreads Rep → Prop
  | push {val : Rep} (hout : c.position .producer = none) (hopen : c.ended = false) :
      Moves c (.push val) { c with
        position := Function.update c.position .producer (some (.waiting (.push val))) }
  | finish (hout : c.position .producer = none) (hopen : c.ended = false) :
      Moves c .finish { c with
        ended := true
        position := Function.update c.position .producer (some (.waiting .finish)) }
  | take {i : ℕ} {b : StreamingServerBatch} (hout : c.position .worker = none)
      (hkill : c.killing = false) (hb : c.handler.call.outstanding[i]? = some b)
      (hgate : (isMetadata b).toNat + (isWrite b).toNat = 1)
      (hlast : (isSendEnd b).toNat + (isFail b).toNat = 0) :
      Moves c (.complete i) { c with
        handler := { c.handler with call := c.handler.call.completeAt i }
        position := Function.update c.position .worker (some (.waiting .exec)) }
  | last {i : ℕ} {b : StreamingServerBatch} (hout : c.position .worker = none)
      (hkill : c.killing = false) (hb : c.handler.call.outstanding[i]? = some b)
      (hgate : (isMetadata b).toNat + (isWrite b).toNat = 0)
      (hlast : (isSendEnd b).toNat + (isFail b).toNat = 1) :
      Moves c (.complete i) { c with
        handler := { c.handler with call := c.handler.call.completeAt i }, killing := true }
  | delete (hkill : c.killing = true) :
      Moves c .delete { c with killing := false, deleted := true }
  | acquire {t : Thread} {s : CriticalSection Rep} (hpos : c.position t = some (.waiting s))
      (hfree : c.mtx = none) : Moves c (.advance t) { c with
        mtx := some t, position := Function.update c.position t (some (.holding s)) }
  | act {t : Thread} {s : CriticalSection Rep} (hpos : c.position t = some (.holding s)) :
      Moves c (.advance t) { c with
        handler := (s.body c.handler).1
        position := Function.update c.position t (some (match (s.body c.handler).2 with
          | some b => .starting b
          | none => .leaving)) }
  | start {t : Thread} {b : StreamingServerBatch} (hpos : c.position t = some (.starting b)) :
      Moves c (.advance t) { c with
        handler := c.handler.startBatch b
        position := Function.update c.position t (some .leaving) }
  | release {t : Thread} (hpos : c.position t = some .leaving) : Moves c (.advance t) { c with
      mtx := none, position := Function.update c.position t none }

omit [Serializer Rep] in
/-- What is refused while a thread is inside, and for as long as `b` holds. -/
theorem not_refused {α : Type} {p : Option (Position Rep)} {b : Bool} {x : Option α} {y : α}
    (h : (if p.isSome || b then none else x) = some y) : p = none ∧ b = false ∧ x = some y := by
  obtain ⟨hno, hsome⟩ := Option.ite_none_left_eq_some.1 h
  simp only [Bool.or_eq_true, not_or, Bool.not_eq_true, Option.isSome_eq_false_iff,
    Option.isNone_iff_eq_none] at hno
  exact ⟨hno.1, hno.2, hsome⟩

/-- **What one step of the two threads can do.** -/
theorem moves_of_step {c c' : StreamingThreads Rep} {e : Event Rep} (hstep : c.step e = some c') :
    Moves c e c' := by
  cases e with
  | push val =>
      obtain ⟨hpos, hended, hsome⟩ := not_refused hstep
      obtain rfl := Option.some.inj hsome
      exact .push hpos hended
  | finish =>
      obtain ⟨hpos, hended, hsome⟩ := not_refused hstep
      obtain rfl := Option.some.inj hsome
      exact .finish hpos hended
  | complete i =>
      obtain ⟨hpos, hkill, hsome⟩ := not_refused hstep
      cases hb : c.handler.call.outstanding[i]? with
      | none => exact absurd hsome (by simp [hb])
      | some b =>
          rw [hb] at hsome
          dsimp only at hsome
          by_cases hflag : (BatchSpec.flags b).getLsbD 0 = true
          · rw [if_pos hflag] at hsome
            obtain rfl := Option.some.inj hsome
            obtain ⟨hgate, hlast⟩ := weights_of_flag hflag
            exact .last hpos hkill hb hgate hlast
          · rw [if_neg hflag] at hsome
            obtain rfl := Option.some.inj hsome
            obtain ⟨hgate, hlast⟩ := weights_of_no_flag (by simpa using hflag)
            exact .take hpos hkill hb hgate hlast
  | delete =>
      obtain ⟨hkill, hsome⟩ := Option.ite_none_right_eq_some.1 hstep
      obtain rfl := Option.some.inj hsome
      exact .delete hkill
  | advance t =>
      simp only [step, advance] at hstep
      split at hstep
      · exact absurd hstep (by simp)
      · next s hpos =>
          obtain ⟨hfree, hsome⟩ := Option.ite_none_left_eq_some.1 hstep
          obtain rfl := Option.some.inj hsome
          exact .acquire hpos (by simpa using hfree)
      · next s hpos =>
          obtain rfl := Option.some.inj hstep
          exact .act hpos
      · next b hpos =>
          obtain rfl := Option.some.inj hstep
          exact .start hpos
      · next hpos =>
          obtain rfl := Option.some.inj hstep
          exact .release hpos

/-! ## Every step keeps the invariant -/

section Position

variable {position : Thread → Option (Position Rep)} {mtx : Option Thread} {t : Thread}

omit [Serializer Rep] in
/-- A step that does not change whether its thread is inside keeps the owner of `mtx_`. -/
theorem owner_update (h : ∀ t, inside (position t) = true ↔ mtx = some t)
    {p : Option (Position Rep)} (hsame : inside p = inside (position t)) :
    ∀ u, inside (Function.update position t p u) = true ↔ mtx = some u := by
  intro u
  by_cases hu : u = t
  · rw [hu, Function.update_self, hsame]
    exact h t
  · rw [Function.update_of_ne hu]
    exact h u

omit [Serializer Rep] in
theorem sections_update (h : ∀ u s, section? (position u) = some s → s.thread = u)
    {p : Option (Position Rep)} (hp : ∀ s, section? p = some s → s.thread = t) :
    ∀ u s, section? (Function.update position t p u) = some s → s.thread = u := by
  intro u s
  by_cases hu : u = t
  · rw [hu, Function.update_self]
    exact hp s
  · rw [Function.update_of_ne hu]
    exact h u s

omit [Serializer Rep] in
/-- A step of one thread leaves another thread outside. -/
theorem update_of_idle {u : Thread} (hidle : position u = none) (hne : position t ≠ none)
    {p : Option (Position Rep)} : Function.update position t p u = none := by
  have hu : u ≠ t := by
    rintro rfl
    exact hne hidle
  rw [Function.update_of_ne hu]
  exact hidle

end Position

theorem owner_step {c c' : StreamingThreads Rep} {e : Event Rep} (hmove : Moves c e c')
    (h : c.Inv) (t : Thread) : inside (c'.position t) = true ↔ c'.mtx = some t := by
  revert t
  cases hmove with
  | push hout hopen => exact owner_update h.owner (by rw [hout]; rfl)
  | finish hout hopen => exact owner_update h.owner (by rw [hout]; rfl)
  | take hout hkill hb hgate hlast => exact owner_update h.owner (by rw [hout]; rfl)
  | last hout hkill hb hgate hlast => exact h.owner
  | delete hkill => exact h.owner
  | @acquire t s hpos hfree =>
      intro u
      by_cases hu : u = t
      · simp [hu, inside]
      · have hout := h.owner u
        rw [hfree] at hout
        simp only [Function.update_of_ne hu, hout, Option.some.injEq]
        simp [Ne.symm hu]
  | @act t s hpos =>
      refine owner_update h.owner ?_
      rw [hpos]
      split <;> rfl
  | start hpos => exact owner_update h.owner (by rw [hpos]; rfl)
  | @release t hpos =>
      intro u
      by_cases hu : u = t
      · simp [hu, inside]
      · have hmine : c.mtx = some t := (h.owner t).1 (by rw [hpos]; rfl)
        have hout := h.owner u
        rw [hmine, Option.some.injEq] at hout
        simp only [Function.update_of_ne hu, hout]
        simp [Ne.symm hu]

theorem sections_step {c c' : StreamingThreads Rep} {e : Event Rep} (hmove : Moves c e c')
    (h : c.Inv) (t : Thread) (s : CriticalSection Rep) (hpos : section? (c'.position t) = some s) :
    s.thread = t := by
  revert t s
  cases hmove with
  | push hout hopen => exact sections_update h.sections (by intro s hs; cases hs; rfl)
  | finish hout hopen => exact sections_update h.sections (by intro s hs; cases hs; rfl)
  | take hout hkill hb hgate hlast =>
      exact sections_update h.sections (by intro s hs; cases hs; rfl)
  | last hout hkill hb hgate hlast => exact h.sections
  | delete hkill => exact h.sections
  | @acquire t s hpos hfree =>
      refine sections_update h.sections ?_
      intro s' hs
      exact h.sections t s' (by rw [hpos]; exact hs)
  | act hpos =>
      refine sections_update h.sections ?_
      intro s' hs
      split at hs <;> cases hs
  | start hpos => exact sections_update h.sections (by intro s hs; cases hs)
  | release hpos => exact sections_update h.sections (by intro s hs; cases hs)

section Counts

variable {h h' : ServerStreamingCallHandler} {position : Thread → Option (Position Rep)}
  {killing deleted : Bool} {t : Thread} {p : Option (Position Rep)}

omit [Serializer Rep] in
/-- A thread moves and sets the flags of the handler: what it counts for changes with them. -/
theorem Counts.move (hc : Counts h position killing deleted) (hcall : h'.call = h.call)
    (hgate : h.batchInFlight.toNat + gateWeight p
      = h'.batchInFlight.toNat + gateWeight (position t))
    (hlast : (h.finished && !h.batchInFlight).toNat + lastWeight p
      ≤ (h'.finished && !h'.batchInFlight).toNat + lastWeight (position t)) :
    Counts h' (Function.update position t p) killing deleted := by
  have hG := total_update gateWeight position t p
  have hL := total_update lastWeight position t p
  obtain ⟨h1, h2⟩ := hc
  constructor
  · rw [hcall]
    omega
  · rw [hcall]
    omega

omit [Serializer Rep] in
/-- The batch a thread was about to start is started. -/
theorem Counts.start (hc : Counts h position killing deleted) {b : StreamingServerBatch}
    (hpos : position t = some (.starting b)) :
    Counts (h.startBatch b) (Function.update position t (some .leaving)) killing deleted := by
  have hG := total_update gateWeight position t (some .leaving)
  have hL := total_update lastWeight position t (some .leaving)
  rw [hpos] at hG hL
  simp only [gateWeight, lastWeight] at hG hL
  obtain ⟨h1, h2⟩ := hc
  constructor <;>
    simp only [ServerStreamingCallHandler.startBatch, Call.pending_startBatch] <;> omega

omit [Serializer Rep] in
/-- A completion is taken: it is being handled instead of being in flight. -/
theorem Counts.take (hc : Counts h position killing deleted) {i : ℕ} {b : StreamingServerBatch}
    (hb : h.call.outstanding[i]? = some b) (hout : position .worker = none)
    (hgate : (isMetadata b).toNat + (isWrite b).toNat = 1)
    (hlast : (isSendEnd b).toNat + (isFail b).toNat = 0) :
    Counts { h with call := h.call.completeAt i }
      (Function.update position .worker (some (.waiting .exec))) killing deleted := by
  have hG := total_update gateWeight position .worker (some (.waiting .exec))
  have hL := total_update lastWeight position .worker (some (.waiting .exec))
  rw [hout] at hG hL
  simp only [gateWeight, lastWeight] at hG hL
  obtain ⟨hM, hW, hE, hF⟩ := StreamingServer.pending_done hb
  obtain ⟨h1, h2⟩ := hc
  constructor <;> dsimp only <;> omega

omit [Serializer Rep] in
/-- The completion of the last batch is taken: the handler is about to be deleted. -/
theorem Counts.kill (hc : Counts h position false deleted) {i : ℕ} {b : StreamingServerBatch}
    (hb : h.call.outstanding[i]? = some b)
    (hgate : (isMetadata b).toNat + (isWrite b).toNat = 0)
    (hlast : (isSendEnd b).toNat + (isFail b).toNat = 1) :
    Counts { h with call := h.call.completeAt i } position true deleted := by
  obtain ⟨hM, hW, hE, hF⟩ := StreamingServer.pending_done hb
  obtain ⟨h1, h2⟩ := hc
  constructor <;> simp only [Bool.toNat_true, Bool.toNat_false] at * <;> omega

omit [Serializer Rep] in
theorem Counts.delete (hc : Counts h position true deleted) : Counts h position false true := by
  obtain ⟨h1, h2⟩ := hc
  constructor <;> simp only [Bool.toNat_true, Bool.toNat_false] at * <;> omega

/-- The changes a thread makes under `mtx_`, with the batch it is to start counted already. A `push`
    or `finish` comes before the end of the stream; an `exec` handles a batch that was in flight. -/
theorem Counts.act (hc : Counts h position killing deleted) {s : CriticalSection Rep}
    (hpos : position t = some (.holding s)) (hopen : s.thread = .producer → h.finished = false) :
    Counts (s.body h).1 (Function.update position t (some (match (s.body h).2 with
      | some b => .starting b
      | none => .leaving))) killing deleted := by
  cases s with
  | push val =>
      have hopen := hopen rfl
      rcases body_push val h with ⟨hbusy, hbody⟩ | ⟨hidle, op, rest, hbody⟩
      · rw [hbody]
        exact hc.move rfl (by rw [hpos]; rfl) (by rw [hpos]; simp [lastWeight])
      · rw [hbody]
        refine hc.move rfl ?_ ?_
        · rw [hpos, hidle]
          rfl
        · rw [hpos, hopen]
          exact Nat.le_refl 0
  | finish =>
      have hopen := hopen rfl
      by_cases hbusy : h.batchInFlight
      · simp only [body, hbusy, Bool.not_true, Bool.false_eq_true, if_false]
        refine hc.move rfl ?_ ?_
        · rw [hpos, hbusy]
          rfl
        · rw [hpos, hopen]
          exact Nat.le_refl 0
      · simp only [body, hbusy, Bool.not_false, if_true]
        refine hc.move rfl ?_ ?_
        · rw [hpos]
          simp [gateWeight, isMetadata, isWrite, hbusy]
        · rw [hpos, hopen]
          exact Nat.le_refl 1
  | exec =>
      have hmine : gateWeight (position t) ≤ total gateWeight position := by
        cases t <;> simp [total]
      have hbusy : h.batchInFlight = true := by
        have hgate := hc.gate
        rw [hpos] at hmine
        simp only [gateWeight] at hmine
        exact Bool.toNat_eq_one.1 (by have := Bool.toNat_le h.batchInFlight; omega)
      rcases body_exec (R := Rep) h with ⟨op, rest, hbody⟩ | ⟨hfin, hbody⟩ | hbody
      · rw [hbody]
        refine hc.move rfl ?_ ?_
        · rw [hpos, hbusy]
          rfl
        · rw [hpos, hbusy]
          simp [lastWeight, isSendEnd, isFail]
      · rw [hbody]
        refine hc.move rfl ?_ ?_
        · rw [hpos, hbusy]
          rfl
        · rw [hpos, hbusy, hfin]
          exact Nat.le_refl 1
      · rw [hbody]
        refine hc.move rfl ?_ ?_
        · rw [hpos, hbusy]
          rfl
        · rw [hpos, hbusy]
          simp [lastWeight]

end Counts

theorem counts_step {c c' : StreamingThreads Rep} {e : Event Rep} (hmove : Moves c e c')
    (h : c.Inv) : Counts c'.handler c'.position c'.killing c'.deleted := by
  have hc := h.counts
  cases hmove with
  | push hout hopen => exact hc.move rfl (by rw [hout]; rfl) (by rw [hout]; simp [lastWeight])
  | finish hout hopen => exact hc.move rfl (by rw [hout]; rfl) (by rw [hout]; simp [lastWeight])
  | take hout hkill hb hgate hlast => exact hc.take hb hout hgate hlast
  | last hout hkill hb hgate hlast =>
      rw [hkill] at hc
      exact hc.kill hb hgate hlast
  | delete hkill =>
      rw [hkill] at hc
      exact hc.delete
  | @acquire t s hpos hfree =>
      refine hc.move rfl ?_ (by rw [hpos]; simp [lastWeight])
      rw [hpos]
      cases s <;> rfl
  | @act t s hpos =>
      refine hc.act hpos ?_
      intro hs
      have ht := h.sections t s (by rw [hpos]; rfl)
      rw [hs] at ht
      exact h.unfinished (by rw [ht, hpos]; rfl)
  | start hpos => exact hc.start hpos
  | release hpos => exact hc.move rfl (by rw [hpos]; rfl) (by rw [hpos]; simp [lastWeight])

/-- Only `finish` ends the stream. -/
theorem finished_body (s : CriticalSection Rep) (h : ServerStreamingCallHandler) :
    (s.body h).1.finished = true → h.finished = true ∨ s = .finish := by
  cases s with
  | push val =>
      rcases body_push val h with ⟨-, hbody⟩ | ⟨-, op, rest, hbody⟩
      · rw [hbody]
        exact Or.inl
      · rw [hbody]
        exact Or.inl
  | finish => exact fun _ => Or.inr rfl
  | exec =>
      rcases body_exec (R := Rep) h with ⟨op, rest, hbody⟩ | ⟨-, hbody⟩ | hbody
      · rw [hbody]
        exact Or.inl
      · rw [hbody]
        exact Or.inl
      · rw [hbody]
        exact Or.inl

/-- A call the producer has still to get to the changes of is one it has just made, or was waiting
    before. -/
theorem section_producer {c c' : StreamingThreads Rep} {e : Event Rep} (hmove : Moves c e c')
    {s : CriticalSection Rep} (hpos' : section? (c'.position .producer) = some s) :
    (c.ended = false ∧ c'.handler = c.handler ∧ (s = .finish → c'.ended = true)) ∨
      (section? (c.position .producer) = some s) := by
  cases hmove with
  | push hout hopen =>
      obtain rfl := Option.some.inj hpos'
      exact Or.inl ⟨hopen, rfl, nofun⟩
  | finish hout hopen => exact Or.inl ⟨hopen, rfl, fun _ => rfl⟩
  | take hout hkill hb hgate hlast => exact Or.inr hpos'
  | last hout hkill hb hgate hlast => exact Or.inr hpos'
  | delete hkill => exact Or.inr hpos'
  | @acquire t _ hpos hfree =>
      cases t with
      | producer =>
          rw [hpos]
          exact Or.inr hpos'
      | worker => exact Or.inr hpos'
  | @act t _ hpos =>
      cases t with
      | producer =>
          simp only [Function.update_self] at hpos'
          split at hpos' <;> cases hpos'
      | worker => exact Or.inr hpos'
  | @start t _ hpos =>
      cases t with
      | producer => cases hpos'
      | worker => exact Or.inr hpos'
  | @release t hpos =>
      cases t with
      | producer => cases hpos'
      | worker => exact Or.inr hpos'

theorem finishing_step {c c' : StreamingThreads Rep} {e : Event Rep} (hmove : Moves c e c')
    (h : c.Inv) (hpos' : section? (c'.position .producer) = some .finish) : c'.ended = true := by
  rcases section_producer hmove hpos' with ⟨-, -, hended⟩ | hpos
  · exact hended rfl
  · have hended := h.finishing hpos
    cases hmove with
    | finish hout hopen => rfl
    | _ => exact hended

theorem ended_step {c c' : StreamingThreads Rep} {e : Event Rep} (hmove : Moves c e c')
    (h : c.Inv) (hfin : c'.handler.finished = true) : c'.ended = true := by
  cases hmove with
  | finish hout hopen => rfl
  | @act t s hpos =>
      rcases finished_body s c.handler hfin with hfin₀ | rfl
      · exact h.ended hfin₀
      · obtain rfl : Thread.producer = t := h.sections t .finish (by rw [hpos]; rfl)
        exact h.finishing (by rw [hpos]; rfl)
  | _ => exact h.ended hfin

theorem unfinished_step {c c' : StreamingThreads Rep} {e : Event Rep} (hmove : Moves c e c')
    (h : c.Inv) (hpos' : (section? (c'.position .producer)).isSome = true) :
    c'.handler.finished = false := by
  obtain ⟨s', hpos'⟩ := Option.isSome_iff_exists.1 hpos'
  rcases section_producer hmove hpos' with ⟨hopen, hsame, -⟩ | hpos₀
  · by_contra hfin
    rw [hsame, Bool.not_eq_false] at hfin
    rw [h.ended hfin] at hopen
    cases hopen
  · have hopen := h.unfinished (by rw [hpos₀]; rfl)
    cases hmove with
    | @act t s hpos =>
        by_contra hfin
        rcases finished_body s c.handler (by simpa using hfin) with hfin₀ | rfl
        · rw [hopen] at hfin₀
          cases hfin₀
        · -- It was the producer that ended the stream, so it is past its changes.
          obtain rfl : Thread.producer = t := h.sections t .finish (by rw [hpos]; rfl)
          simp only [Function.update_self] at hpos'
          split at hpos' <;> cases hpos'
    | _ => exact hopen

omit [Serializer Rep] in
/-- Once the handler is about to be deleted, no batch is outstanding. -/
theorem Inv.outstanding_of_dying {c : StreamingThreads Rep} (h : c.Inv)
    (hdying : c.killing = true ∨ c.deleted = true) :
    c.handler.finished = true ∧ c.handler.call.outstanding = [] := by
  obtain ⟨hgate, hlast⟩ := h.counts
  have hone : 1 ≤ c.killing.toNat + c.deleted.toNat := by
    rcases hdying with hkill | hdel
    · rw [hkill, Bool.toNat_true]
      omega
    · rw [hdel, Bool.toNat_true]
      omega
  have hroom : (c.handler.finished && !c.handler.batchInFlight) = true := by
    have hle := Bool.toNat_le (c.handler.finished && !c.handler.batchInFlight)
    exact Bool.toNat_eq_one.1 (by omega)
  have hboth := hroom
  rw [Bool.and_eq_true, Bool.not_eq_true'] at hboth
  rw [hboth.2, Bool.toNat_false] at hgate
  rw [hroom, Bool.toNat_true] at hlast
  have hlen := StreamingServer.length_outstanding c.handler.call
  exact ⟨hboth.1, List.length_eq_zero_iff.1 (by omega)⟩

theorem resting_step {c c' : StreamingThreads Rep} {e : Event Rep} (hmove : Moves c e c')
    (h : c.Inv) (hdying : c'.killing = true ∨ c'.deleted = true) : c'.position .worker = none := by
  cases hmove with
  | push hout hopen => exact h.resting hdying
  | finish hout hopen => exact h.resting hdying
  | take hout hkill hb hgate hlast => simp [(h.outstanding_of_dying hdying).2] at hb
  | last hout hkill hb hgate hlast => exact hout
  | delete hkill => exact h.resting (Or.inl hkill)
  | acquire hpos hfree => exact update_of_idle (h.resting hdying) (by simp [hpos])
  | act hpos => exact update_of_idle (h.resting hdying) (by simp [hpos])
  | start hpos => exact update_of_idle (h.resting hdying) (by simp [hpos])
  | release hpos => exact update_of_idle (h.resting hdying) (by simp [hpos])

theorem inv_step {c c' : StreamingThreads Rep} {e : Event Rep}
    (hstep : (machine Rep).step c e = some c') (h : c.Inv) : c'.Inv := by
  have hmove := moves_of_step hstep
  exact ⟨owner_step hmove h, sections_step hmove h, counts_step hmove h, finishing_step hmove h,
    ended_step hmove h, unfinished_step hmove h, resting_step hmove h⟩

theorem inv_init : ((machine Rep).init).Inv := by
  refine ⟨?_, ?_, ⟨rfl, Nat.le_refl 0⟩, ?_, ?_, ?_, fun _ => rfl⟩
  · intro t
    constructor
    · intro hno
      cases hno
    · intro hno
      cases hno
  · intro t s hno
    cases hno
  · intro hno
    cases hno
  · intro hno
    cases hno
  · intro hno
    cases hno

/-- The invariant holds in every reachable state, for every interleaving of the two threads. -/
theorem inv_of_reachable {c : StreamingThreads Rep} (h : (machine Rep).Reachable c) : c.Inv :=
  h.invariant inv_init inv_step

/-! ## The deletion -/

/-- The completion of the last batch is taken while the producer still holds `mtx_`. -/
def endsWhileLocked (c : StreamingThreads Rep) : Event Rep → Bool
  | .complete i => (c.handler.call.outstanding[i]?.any (fun b => (BatchSpec.flags b).getLsbD 0)) &&
      c.mtx == some .producer
  | _ => false

omit [Serializer Rep] in
/-- When the stream has completed and `mtx_` is not the producer's, the producer has returned from
    all its calls. -/
theorem Inv.producer_out {c : StreamingThreads Rep} (h : c.Inv) (hfin : c.handler.finished = true)
    (hmtx : c.mtx ≠ some .producer) : c.position .producer = none := by
  cases hpos : c.position .producer with
  | none => rfl
  | some p =>
      have howner := h.owner .producer
      have hopen := h.unfinished
      rw [hpos] at howner hopen
      cases p with
      | waiting s =>
          rw [hopen rfl] at hfin
          cases hfin
      | holding s => exact absurd (howner.1 rfl) hmtx
      | starting b => exact absurd (howner.1 rfl) hmtx
      | leaving => exact absurd (howner.1 rfl) hmtx

/-- As long as no completion of the last batch is taken while the producer holds `mtx_`, the
    producer is out of a handler that is about to be deleted. -/
theorem producer_out_of_guard {c : StreamingThreads Rep}
    (h : ((machine Rep).guard (fun c e => !c.endsWhileLocked e)).Reachable c)
    (hdying : c.killing = true ∨ c.deleted = true) : c.position .producer = none := by
  refine Machine.Reachable.guard_invariant
    (P := fun c => c.killing = true ∨ c.deleted = true → c.position .producer = none) ?_ ?_ h hdying
  · intro _
    rfl
  · intro c c' e hreach hstep hguard ih hdying'
    have hinv := inv_of_reachable hreach
    have hmove := moves_of_step hstep
    have hended : c.killing = true ∨ c.deleted = true → c.ended = true :=
      fun hdying => hinv.ended (hinv.outstanding_of_dying hdying).1
    cases hmove with
    | push hnone hopen =>
        rw [hended hdying'] at hopen
        cases hopen
    | finish hnone hopen =>
        rw [hended hdying'] at hopen
        cases hopen
    | take hnone hkill hb hgate hlast => exact ih hdying'
    | @last i b hnone hkill hb hgate hlast =>
        have hinv' := inv_step hstep hinv
        refine hinv.producer_out (hinv'.outstanding_of_dying hdying').1 ?_
        have hflag : (BatchSpec.flags b).getLsbD 0 = true := by
          by_contra hno
          rw [(weights_of_no_flag (by simpa using hno)).1] at hgate
          cases hgate
        simpa only [endsWhileLocked, hb, Option.any_some, hflag, Bool.true_and, Bool.not_eq_true',
          beq_eq_false_iff_ne] using hguard
    | delete hkill => exact ih (Or.inl hkill)
    | acquire hpos hfree => exact update_of_idle (ih hdying') (by simp [hpos])
    | act hpos => exact update_of_idle (ih hdying') (by simp [hpos])
    | start hpos => exact update_of_idle (ih hdying') (by simp [hpos])
    | release hpos => exact update_of_idle (ih hdying') (by simp [hpos])

/-- A deleted handler that the producer is out of is not touched again. -/
theorem Inv.no_step {c : StreamingThreads Rep} (h : c.Inv) (hdel : c.deleted = true)
    (hout : c.position .producer = none) (e : Event Rep) : (machine Rep).step c e = none := by
  obtain ⟨hfin, hnil⟩ := h.outstanding_of_dying (Or.inr hdel)
  have hidle : ∀ t, c.position t = none := by
    intro t
    cases t with
    | producer => exact hout
    | worker => exact h.resting (Or.inr hdel)
  have hended := h.ended hfin
  by_contra hsome
  obtain ⟨c', hstep⟩ := Option.ne_none_iff_exists'.1 hsome
  cases moves_of_step hstep with
  | push hnone hopen =>
      rw [hended] at hopen
      cases hopen
  | finish hnone hopen =>
      rw [hended] at hopen
      cases hopen
  | take hnone hkill hb hgate hlast => simp [hnil] at hb
  | last hnone hkill hb hgate hlast => simp [hnil] at hb
  | delete hkill =>
      have hlast := h.counts.last
      have hle := Bool.toNat_le (c.handler.finished && !c.handler.batchInFlight)
      rw [hkill, hdel, Bool.toNat_true] at hlast
      omega
  | acquire hpos hfree => simp [hidle] at hpos
  | act hpos => simp [hidle] at hpos
  | start hpos => simp [hidle] at hpos
  | release hpos => simp [hidle] at hpos

/-- A thread that holds `mtx_` can go on. -/
theorem advance_of_inside {c : StreamingThreads Rep} {t : Thread}
    (h : inside (c.position t) = true) : ∃ c', (machine Rep).step c (.advance t) = some c' := by
  show ∃ c', c.advance t = some c'
  unfold advance
  cases hpos : c.position t with
  | none =>
      rw [hpos] at h
      cases h
  | some p =>
      cases p with
      | waiting s =>
          rw [hpos] at h
          cases h
      | holding s => exact ⟨_, rfl⟩
      | starting b => exact ⟨_, rfl⟩
      | leaving => exact ⟨_, rfl⟩

/-- **A handler is not touched after it was deleted**, in every run in which no completion of the
    last batch is taken while the producer still holds `mtx_`. From a step that breaks the condition
    the completion thread can delete the handler with the producer inside, whose next step touches
    it. -/
theorem deleted_untouched :
    (∀ c : StreamingThreads Rep,
      ((machine Rep).guard (fun c e => !c.endsWhileLocked e)).Reachable c → c.deleted = true →
        ∀ e, (machine Rep).step c e = none) ∧
    ∀ (c c' : StreamingThreads Rep) (e : Event Rep), (machine Rep).Reachable c →
      (machine Rep).step c e = some c' → c.endsWhileLocked e = true →
        ∃ c₁ c₂, (machine Rep).step c' .delete = some c₁ ∧ c₁.deleted = true ∧
          (machine Rep).step c₁ (.advance .producer) = some c₂ := by
  constructor
  · intro c h hdel e
    exact (inv_of_reachable h.of_guard).no_step hdel (producer_out_of_guard h (Or.inr hdel)) e
  · intro c c' e hreach hstep hearly
    have hinv := inv_of_reachable hreach
    cases moves_of_step hstep with
    | @take i b hout hkill hb hgate hlast =>
        have hflag : (BatchSpec.flags b).getLsbD 0 = true := by
          simp only [endsWhileLocked, hb, Option.any_some, Bool.and_eq_true] at hearly
          exact hearly.1
        rw [(weights_of_flag hflag).1] at hgate
        cases hgate
    | last hout hkill hb hgate hlast =>
        have hmtx : c.mtx = some .producer := by
          simp only [endsWhileLocked, Bool.and_eq_true, beq_iff_eq] at hearly
          exact hearly.2
        have hinside := (hinv.owner .producer).2 hmtx
        obtain ⟨c₂, hadvance⟩ := advance_of_inside (c := { c with
          handler := { c.handler with call := c.handler.call.completeAt _ }
          killing := false, deleted := true }) hinside
        exact ⟨_, c₂, rfl, rfl, hadvance⟩
    | _ => cases hearly

/-- A stream of one reply that completes while the reply is in flight: the last batch is started by
    `exec`, and the handler is deleted after both threads have left. -/
theorem deleted_untouched_one_reply :
    ∃ c : StreamingThreads Buffer, c.deleted = true ∧ ∀ e, (machine Buffer).step c e = none := by
  have hrun : ((machine Buffer).guard (fun c e => !c.endsWhileLocked e)).Reachable _ :=
    Machine.reachable_of_run
      [.push [7], .advance .producer, .complete 0, .advance .producer, .advance .producer,
        .advance .worker, .advance .worker, .advance .worker, .finish, .advance .worker,
        .advance .producer, .advance .producer, .advance .producer, .complete 0,
        .advance .worker, .advance .worker, .advance .worker, .advance .worker, .complete 0,
        .delete] rfl
  exact ⟨_, rfl, deleted_untouched.1 _ hrun rfl⟩

/-- The stream completes when no batch is in flight. `finish` starts the last batch, and before it
    has unlocked `mtx_` the completion thread takes the completion and deletes the handler. -/
theorem unlock_after_delete :
    ¬ ∀ c : StreamingThreads Buffer, (machine Buffer).Reachable c → c.deleted = true →
      ∀ e, (machine Buffer).step c e = none := by
  intro hall
  have hrun : (machine Buffer).Reachable _ :=
    Machine.reachable_of_run
      [.complete 0, .advance .worker, .advance .worker, .advance .worker, .finish,
        .advance .producer, .advance .producer, .advance .producer, .complete 0, .delete] rfl
  have hnone := hall _ hrun rfl (.advance .producer)
  cases hnone

end StreamingThreads

end EasyGrpc
