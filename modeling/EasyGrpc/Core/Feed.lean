import EasyGrpc.Library.Outbox
import EasyGrpc.Core.Call
import EasyGrpc.Core.StreamPromise

set_option autoImplicit false

/-! # A user's stream feeding an outbox

The sending side of a server handler is an `Outbox` fed by the reply stream of the user's handler,
from the moment `perform` attaches to it. `Feeds` says how far the two are in step; each operation
of either keeps it. -/

namespace EasyGrpc

variable {α : Type} [Serializer α]

/-- The outbox holds what was pushed into the stream and knows whether the stream has completed,
    both only once it is attached. A failed stream leaves the outbox open. -/
structure Feeds (src : Source α) (o : Outbox Buffer) : Prop where
  outbox : o.WF
  history : o.history = if src.attached then src.pushed.map serialize else []
  ended : o.ended = (src.attached && src.terminal.any StreamEnd.isComplete)

namespace Feeds

variable {src : Source α} {o : Outbox Buffer}

theorem not_ended (h : Feeds src o) (hopen : src.attached = false ∨ src.terminal = none) :
    o.ended = false := by
  rw [h.ended]
  rcases hopen with hopen | hopen <;> simp [hopen]

/-- An announced end is the normal end of an attached stream, everything of which was sent. -/
theorem closed (h : Feeds src o) (hclosed : o.closes ≠ 0) :
    src.attached = true ∧ src.terminal = some .complete ∧ o.sent = src.pushed.map serialize := by
  have hended := h.outbox.closed_ended hclosed
  rw [h.ended, Bool.and_eq_true] at hended
  obtain ⟨hatt, hcomplete⟩ := hended
  refine ⟨hatt, ?_, ?_⟩
  · cases hterm : src.terminal with
    | none => simp [hterm] at hcomplete
    | some t =>
        cases t with
        | complete => rfl
        | failed e => simp [hterm, StreamEnd.isComplete] at hcomplete
  · have hhistory := h.history
    rw [Outbox.history, h.outbox.closed_queue hclosed, List.append_nil, hatt, if_pos rfl] at hhistory
    exact hhistory

/-- Nothing is sent before the stream is attached. -/
theorem attached_of_sent (h : Feeds src o) {i : ℕ} {m : Buffer} (hm : o.sent[i]? = some m) :
    src.attached = true := by
  cases hatt : src.attached with
  | true => rfl
  | false =>
      have hhistory := h.history
      simp only [hatt, Bool.false_eq_true, if_false] at hhistory
      rw [(List.append_eq_nil_iff.1 hhistory).1] at hm
      cases hm

/-! ## The operations -/

theorem push (h : Feeds src o) (hopen : src.terminal = none) (hatt : src.attached = true) (v : α) :
    Feeds { src with pushed := src.pushed ++ [v] } (o.push (serialize v)) := by
  refine ⟨h.outbox.push (h.not_ended (Or.inr hopen)) _, ?_, ?_⟩
  · rw [Outbox.history_push, h.history]
    simp [hatt]
  · rw [Outbox.ended_push]
    exact h.ended

theorem complete (h : Feeds src o) (hopen : src.terminal = none) (hatt : src.attached = true) :
    Feeds { src with terminal := some .complete } o.finish := by
  refine ⟨h.outbox.finish (h.not_ended (Or.inr hopen)), ?_, ?_⟩
  · rw [Outbox.history_finish]
    exact h.history
  · rw [Outbox.ended_finish]
    simp [hatt, StreamEnd.isComplete]

theorem fail (h : Feeds src o) (hopen : src.terminal = none) (e : Exception) :
    Feeds { src with terminal := some (.failed e) } o := by
  refine ⟨h.outbox, h.history, ?_⟩
  rw [h.not_ended (Or.inr hopen)]
  simp [StreamEnd.isComplete]

/-- What happens to a stream that is not attached is not seen. -/
theorem unattached (h : Feeds src o) (hatt : src.attached = false) {src' : Source α}
    (hatt' : src'.attached = false) : Feeds src' o := by
  refine ⟨h.outbox, ?_, ?_⟩
  · simpa [hatt, hatt'] using h.history
  · simpa [hatt, hatt'] using h.ended

/-- Attaching to an empty stream. -/
theorem attach (h : Feeds src o) (hatt : src.attached = false) :
    Feeds ({ attached := true } : Source α) o := by
  refine ⟨h.outbox, ?_, ?_⟩
  · simpa [hatt] using h.history
  · simpa [hatt] using h.ended

/-- A transfer that carries no message is started. -/
theorem block (h : Feeds src o) (hopen : src.attached = false ∨ src.terminal = none) :
    Feeds src { o with busy := true } := by
  have hnone := h.outbox.closes_of_open (h.not_ended hopen)
  refine ⟨⟨?_, h.outbox.closes_le, ?_, h.outbox.closed_ended⟩, h.history, h.ended⟩
  · intro hidle
    cases hidle
  · intro hne
    exact absurd hnone hne

theorem release (h : Feeds src o) (hbusy : o.busy = true) (final : Bool) :
    Feeds src (o.release final) := by
  refine ⟨h.outbox.release hbusy final, ?_, ?_⟩
  · rw [Outbox.history_release]
    exact h.history
  · rw [Outbox.ended_release]
    exact h.ended

end Feeds

end EasyGrpc
