import Mathlib.Data.List.Induction
import EasyGrpc.Library.Machine
import EasyGrpc.Core.Error

set_option autoImplicit false

/-! # Stream promises and the streams users hand in

Two views of a stream, one for each side of it.

`StreamPromise` is a `Basic_stream_promise` owned by a session or handler (`rep_`, `reader_prom_`,
…): it records the operations applied to its storage, and apart from them those applied while
`storage_` was null, on which the source's `assert(storage_)` fails.

`Source` is a stream the *user* produces and a session or handler consumes through `for_each` and
`finally`: values pushed before the consumer attaches are handed over when it does. That a stream
behaves like this under every interleaving of its threads is proved of `Stream_storage` in
`Stream/Proofs/Source.lean`; here it is the interface. -/

namespace EasyGrpc

variable {α : Type}

/-- How a stream ends: `complete()`, or an error (`set_exception`, or a dropped promise). -/
inductive StreamEnd where
  | complete
  | failed (e : Exception)
deriving DecidableEq, Repr

namespace StreamEnd

def isComplete : StreamEnd → Bool | .complete => true | .failed _ => false
def isFailed : StreamEnd → Bool | .complete => false | .failed _ => true

/-- The error a stream was terminated with. -/
def error? : StreamEnd → Option Exception
  | .complete => none
  | .failed e => some e

end StreamEnd

/-! ## Promises -/

/-- An operation on a stream promise. -/
inductive StreamOp (α : Type) where
  | push (v : α)
  | finish (t : StreamEnd)
deriving DecidableEq, Repr

namespace StreamOp

def value? : StreamOp α → Option α
  | .push v => some v
  | .finish _ => none

def end? : StreamOp α → Option StreamEnd
  | .push _ => none
  | .finish t => some t

end StreamOp

/-- `Basic_stream_promise`. -/
structure StreamPromise (α : Type) where
  /-- `storage_` is not null. -/
  storage : Bool := false
  /-- The operations applied to the storage, in order. -/
  log : List (StreamOp α) := []
  /-- The operations applied to a null `storage_`. -/
  faults : List (StreamOp α) := []

namespace StreamPromise

/-- `get_future`: allocates the storage. -/
def getFuture (p : StreamPromise α) : StreamPromise α := { p with storage := true }

def push (p : StreamPromise α) (v : α) : StreamPromise α :=
  if p.storage then { p with log := p.log ++ [.push v] }
  else { p with faults := p.faults ++ [.push v] }

/-- `complete` and `set_exception`: both end the stream and reset `storage_`. -/
def finish (p : StreamPromise α) (t : StreamEnd) : StreamPromise α :=
  if p.storage then { p with storage := false, log := p.log ++ [.finish t] }
  else { p with faults := p.faults ++ [.finish t] }

def complete (p : StreamPromise α) : StreamPromise α := p.finish .complete

/-- `push`, `complete` or `set_exception`. -/
def apply (p : StreamPromise α) : StreamOp α → StreamPromise α
  | .push v => p.push v
  | .finish t => p.finish t

/-- The values pushed into the stream. -/
def values (p : StreamPromise α) : List α := p.log.filterMap StreamOp.value?

/-- The terminal operations that reached the stream. -/
def ends (p : StreamPromise α) : List StreamEnd := p.log.filterMap StreamOp.end?

/-- Every terminal operation attempted, on a live storage or on a null one. -/
def terminations (p : StreamPromise α) : List StreamEnd :=
  p.ends ++ p.faults.filterMap StreamOp.end?

@[simp] theorem values_push {p : StreamPromise α} (h : p.storage = true) (v : α) :
    (p.push v).values = p.values ++ [v] := by
  simp [push, h, values, StreamOp.value?]

@[simp] theorem ends_push (p : StreamPromise α) (v : α) : (p.push v).ends = p.ends := by
  unfold push
  split <;> simp [ends, StreamOp.end?]

@[simp] theorem storage_push (p : StreamPromise α) (v : α) : (p.push v).storage = p.storage := by
  unfold push
  split <;> rfl

@[simp] theorem faults_push {p : StreamPromise α} (h : p.storage = true) (v : α) :
    (p.push v).faults = p.faults := by
  simp [push, h]

@[simp] theorem values_finish (p : StreamPromise α) (t : StreamEnd) :
    (p.finish t).values = p.values := by
  unfold finish
  split <;> simp [values, StreamOp.value?]

@[simp] theorem ends_finish {p : StreamPromise α} (h : p.storage = true) (t : StreamEnd) :
    (p.finish t).ends = p.ends ++ [t] := by
  simp [finish, h, ends, StreamOp.end?]

@[simp] theorem storage_finish {p : StreamPromise α} (t : StreamEnd) :
    (p.finish t).storage = false := by
  unfold finish
  split
  · rfl
  · next h => simpa using h

@[simp] theorem faults_finish {p : StreamPromise α} (h : p.storage = true) (t : StreamEnd) :
    (p.finish t).faults = p.faults := by
  simp [finish, h]

@[simp] theorem terminations_push (p : StreamPromise α) (v : α) :
    (p.push v).terminations = p.terminations := by
  unfold push
  split <;> simp [terminations, ends, StreamOp.end?]

theorem length_terminations_finish (p : StreamPromise α) (t : StreamEnd) :
    (p.finish t).terminations.length = p.terminations.length + 1 := by
  unfold finish
  split
  · simp [terminations, ends, StreamOp.end?]
    omega
  · simp [terminations, ends, StreamOp.end?]
    omega

/-- No operation came before the storage or after the end, and the storage is there until the
    end. -/
structure Sound (p : StreamPromise α) : Prop where
  faults_nil : p.faults = []
  storage_iff : p.storage = true ↔ p.ends = []
  log_eq : p.log = p.values.map .push ++ p.ends.map .finish

/-- A promise whose future was just taken. -/
theorem Sound.fresh : ({} : StreamPromise α).getFuture.Sound :=
  ⟨rfl, ⟨fun _ => rfl, fun _ => rfl⟩, rfl⟩

theorem Sound.terminations_eq {p : StreamPromise α} (h : p.Sound) : p.terminations = p.ends := by
  simp [terminations, h.faults_nil]

theorem Sound.storage_of_none {p : StreamPromise α} (h : p.Sound)
    (hnone : p.terminations.length = 0) : p.storage = true := by
  rw [h.terminations_eq] at hnone
  exact h.storage_iff.2 (List.length_eq_zero_iff.1 hnone)

theorem Sound.push {p : StreamPromise α} (h : p.Sound) (hs : p.storage = true) (v : α) :
    (p.push v).Sound := by
  have hends := h.storage_iff.1 hs
  refine ⟨?_, ?_, ?_⟩
  · rw [faults_push hs]
    exact h.faults_nil
  · rw [storage_push, ends_push]
    exact h.storage_iff
  · have hlog := h.log_eq
    rw [hends] at hlog
    rw [values_push hs, ends_push, hends]
    simp [StreamPromise.push, hs, hlog]

theorem Sound.finish {p : StreamPromise α} (h : p.Sound) (hs : p.storage = true) (t : StreamEnd) :
    (p.finish t).Sound := by
  refine ⟨?_, ?_, ?_⟩
  · rw [faults_finish hs]
    exact h.faults_nil
  · rw [storage_finish, ends_finish hs]
    simp
  · rw [values_finish, ends_finish hs]
    simp [StreamPromise.finish, hs, h.log_eq]

end StreamPromise

/-! ## Streams produced by the user -/

/-- A user's stream with everything pushed into it so far. Until the consumer attaches, the values
    stay in the stream's buffer; afterwards each is handed over as it is pushed. -/
structure Source (α : Type) where
  attached : Bool
  pushed : List α := []
  terminal : Option StreamEnd := none

namespace Source

/-- The producer pushes a value; impossible once it has ended the stream. -/
def push (s : Source α) (v : α) : Option (Source α) :=
  if s.terminal.isSome then none else some { s with pushed := s.pushed ++ [v] }

/-- The producer ends the stream, once. -/
def finish (s : Source α) (t : StreamEnd) : Option (Source α) :=
  if s.terminal.isSome then none else some { s with terminal := some t }

/-- The consumer attaches with `for_each`, once. -/
def attach (s : Source α) : Option (Source α) :=
  if s.attached then none else some { s with attached := true }

inductive Event (α : Type) where
  | push (v : α)
  | finish (t : StreamEnd)
  | attach

def step (s : Source α) : Event α → Option (Source α)
  | .push v => s.push v
  | .finish t => s.finish t
  | .attach => s.attach

/-- A stream on its own, before anything was pushed. -/
def machine (α : Type) : Machine (Source α) (Event α) where
  init := { attached := false }
  step := step

/-- What attaching hands over: the values pushed so far, in order, then the end of the stream. -/
def drain {σ : Type} (s : Source α) (onValue : σ → α → σ) (onEnd : σ → StreamEnd → σ) (h : σ) : σ :=
  let h := s.pushed.foldl onValue h
  match s.terminal with
  | none => h
  | some t => onEnd h t

/-- Draining is what the same pushes and the same end do to a stream attached while still empty. -/
theorem drain_induction {σ : Type} {P : Source α → σ → Prop} {onValue : σ → α → σ}
    {onEnd : σ → StreamEnd → σ} {h : σ} (h0 : P { attached := true } h)
    (hpush : ∀ src h v, src.attached = true → src.terminal = none → P src h →
      P { src with pushed := src.pushed ++ [v] } (onValue h v))
    (hend : ∀ src h t, src.attached = true → src.terminal = none → P src h →
      P { src with terminal := some t } (onEnd h t)) (s : Source α) :
    P { s with attached := true } (s.drain onValue onEnd h) := by
  have hvalues : ∀ vs : List α, P { attached := true, pushed := vs } (vs.foldl onValue h) := by
    intro vs
    induction vs using List.reverseRecOn with
    | nil => exact h0
    | append_singleton vs v ih =>
        rw [List.foldl_append]
        exact hpush _ _ v rfl rfl ih
  unfold drain
  cases hterm : s.terminal with
  | none => exact hvalues s.pushed
  | some t => exact hend _ _ t rfl rfl (hvalues s.pushed)

theorem push_eq_some {s s' : Source α} {v : α} :
    s.push v = some s' ↔ s.terminal = none ∧ s' = { s with pushed := s.pushed ++ [v] } := by
  unfold push
  cases s.terminal <;> simp [eq_comm]

theorem finish_eq_some {s s' : Source α} {t : StreamEnd} :
    s.finish t = some s' ↔ s.terminal = none ∧ s' = { s with terminal := some t } := by
  unfold finish
  cases s.terminal <;> simp [eq_comm]

theorem attach_eq_some {s s' : Source α} :
    s.attach = some s' ↔ s.attached = false ∧ s' = { s with attached := true } := by
  unfold attach
  cases s.attached <;> simp [eq_comm]

end Source

end EasyGrpc
