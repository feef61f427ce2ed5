import Mathlib.Data.List.Basic

set_option autoImplicit false

/-! # Gated outboxes

An `Outbox` feeds a transport that takes one transfer at a time: messages are queued, the gate
(`busy`) is closed while a transfer is in flight, and when nothing is queued any more the end of the
stream is announced by a `close`. The producer (`push`, `finish`) and the transport (`release`) run
on different threads; each operation is one critical section.

`Outbox.WF` is what holds between operations, `Outbox.Settled` says that an ended, idle outbox has
announced its end. The second is *not* preserved by a `release` that does not look at the end of
the stream (`final = false`) unless something is queued: that is the one way such an outbox can
stall. -/

variable {β : Type*}

structure Outbox (β : Type*) where
  /-- A transfer is in flight; nothing may be handed over. -/
  busy : Bool
  queue : List β
  /-- The producer has ended its stream. -/
  ended : Bool
  /-- Everything handed to the transport, oldest first. -/
  sent : List β
  /-- How often the end of the stream was announced. -/
  closes : ℕ

namespace Outbox

/-! ## Operations -/

/-- Hand over the oldest queued message, if the gate is open. -/
def flush (o : Outbox β) : Outbox β :=
  if o.busy then o
  else match o.queue with
    | [] => o
    | m :: q => { o with busy := true, queue := q, sent := o.sent ++ [m] }

def close (o : Outbox β) : Outbox β := { o with closes := o.closes + 1 }

/-- The producer pushes a message. -/
def push (o : Outbox β) (m : β) : Outbox β :=
  { o with queue := o.queue ++ [m] }.flush

/-- The producer ends its stream. -/
def finish (o : Outbox β) : Outbox β :=
  if o.busy then { o with ended := true } else { o with ended := true }.close

/-- The transfer in flight is done. With nothing queued the end of the stream is announced, provided
    this kind of transfer looks at it (`final`). -/
def release (o : Outbox β) (final : Bool) : Outbox β :=
  if o.queue.isEmpty then
    if final && o.ended then { o with busy := false }.close else { o with busy := false }
  else { o with busy := false }.flush

/-! ## What the operations do to the end of the stream -/

@[simp] theorem ended_flush (o : Outbox β) : o.flush.ended = o.ended := by
  unfold flush
  split
  · rfl
  · split <;> rfl

@[simp] theorem ended_push (o : Outbox β) (m : β) : (o.push m).ended = o.ended := by
  rw [push, ended_flush]

@[simp] theorem ended_finish (o : Outbox β) : o.finish.ended = true := by
  unfold finish
  split <;> rfl

@[simp] theorem ended_release (o : Outbox β) (final : Bool) :
    (o.release final).ended = o.ended := by
  unfold release
  split
  · split <;> rfl
  · rw [ended_flush]

/-! ## Well-formedness -/

/-- What holds of an outbox between two operations. -/
structure WF (o : Outbox β) : Prop where
  idle_queue : o.busy = false → o.queue = []
  closes_le : o.closes ≤ 1
  closed_idle : o.closes ≠ 0 → o.busy = false
  closed_ended : o.closes ≠ 0 → o.ended = true

theorem WF.closed_queue {o : Outbox β} (h : o.WF) (hc : o.closes ≠ 0) : o.queue = [] :=
  h.idle_queue (h.closed_idle hc)

theorem WF.closes_of_open {o : Outbox β} (h : o.WF) (hopen : o.ended = false) : o.closes = 0 := by
  by_contra hc
  rw [h.closed_ended hc] at hopen
  cases hopen

theorem WF.closes_of_busy {o : Outbox β} (h : o.WF) (hbusy : o.busy = true) : o.closes = 0 := by
  by_contra hc
  rw [h.closed_idle hc] at hbusy
  cases hbusy

theorem push_of_busy {o : Outbox β} (h : o.busy = true) (m : β) :
    o.push m = { o with queue := o.queue ++ [m] } := by
  simp [push, flush, h]

/-- An idle outbox hands a pushed message over at once. -/
theorem WF.push_of_idle {o : Outbox β} (hwf : o.WF) (h : o.busy = false) (m : β) :
    o.push m = { o with busy := true, sent := o.sent ++ [m] } := by
  simp [push, flush, h, hwf.idle_queue h]

theorem queue_foldl_push_of_busy {o : Outbox β} (h : o.busy = true) (ms : List β) :
    (ms.foldl push o).queue = o.queue ++ ms := by
  induction ms generalizing o with
  | nil => simp
  | cons m ms ih =>
      rw [List.foldl_cons, push_of_busy h, ih (o := { o with queue := o.queue ++ [m] }) h]
      simp

/-- Of several messages an idle outbox hands over the first and queues the others. -/
theorem WF.queue_foldl_push {o : Outbox β} (hwf : o.WF) (hq : o.queue = []) (ms : List β) :
    (ms.foldl Outbox.push o).queue = if o.busy then ms else ms.tail := by
  by_cases hbusy : o.busy
  · rw [queue_foldl_push_of_busy hbusy, hq, if_pos hbusy, List.nil_append]
  · cases ms with
    | nil => simp [hq]
    | cons m ms =>
        rw [List.foldl_cons, hwf.push_of_idle (by simpa using hbusy),
          queue_foldl_push_of_busy (o := { o with busy := true, sent := o.sent ++ [m] }) rfl, hq,
          if_neg hbusy]
        rfl

theorem WF.push {o : Outbox β} (h : o.WF) (hopen : o.ended = false) (m : β) : (o.push m).WF := by
  have hc := h.closes_of_open hopen
  cases hbusy : o.busy with
  | true =>
      rw [push_of_busy hbusy]
      exact ⟨fun hi => by simp [hbusy] at hi, h.closes_le, fun hne => absurd hc hne,
        fun hne => absurd hc hne⟩
  | false =>
      rw [h.push_of_idle hbusy]
      exact ⟨fun hi => by simp at hi, h.closes_le, fun hne => absurd hc hne,
        fun hne => absurd hc hne⟩

theorem WF.finish {o : Outbox β} (h : o.WF) (hopen : o.ended = false) : o.finish.WF := by
  have hc := h.closes_of_open hopen
  unfold Outbox.finish
  split
  · next hbusy => exact ⟨h.idle_queue, h.closes_le, fun hne => absurd hc hne, fun _ => rfl⟩
  · next hbusy =>
      have hidle : o.busy = false := by simpa using hbusy
      exact ⟨h.idle_queue, by simp [close, hc], fun _ => hidle, fun _ => rfl⟩

theorem WF.release {o : Outbox β} (h : o.WF) (hbusy : o.busy = true) (final : Bool) :
    (o.release final).WF := by
  have hc := h.closes_of_busy hbusy
  unfold Outbox.release
  split
  · next hq =>
      have hnil : o.queue = [] := by simpa using hq
      split
      · next hend =>
          rw [Bool.and_eq_true] at hend
          exact ⟨fun _ => hnil, by simp [close, hc], fun _ => rfl, fun _ => hend.2⟩
      · exact ⟨fun _ => hnil, h.closes_le, fun hne => absurd hc hne, fun hne => absurd hc hne⟩
  · next hq =>
      cases hqueue : o.queue with
      | nil => simp [hqueue] at hq
      | cons m q =>
          simp only [flush, Bool.false_eq_true, if_false]
          exact ⟨fun hi => by simp at hi, h.closes_le, fun hne => absurd hc hne,
            fun hne => absurd hc hne⟩

/-! ## Nothing is lost, duplicated or reordered

What was handed over followed by what is queued is always what was pushed. -/

/-- Everything pushed so far, oldest first. -/
def history (o : Outbox β) : List β := o.sent ++ o.queue

theorem history_flush (o : Outbox β) : o.flush.history = o.history := by
  unfold flush history
  split
  · rfl
  · split
    · next h => simp [h]
    · next h => simp [h]

theorem history_push (o : Outbox β) (m : β) : (o.push m).history = o.history ++ [m] := by
  rw [push, history_flush]
  simp [history]

theorem history_finish (o : Outbox β) : o.finish.history = o.history := by
  unfold finish
  split <;> rfl

theorem history_release (o : Outbox β) (final : Bool) : (o.release final).history = o.history := by
  unfold release
  split
  · split <;> rfl
  · rw [history_flush]; rfl

/-! ## Messages stay sent -/

theorem sent_flush (o : Outbox β) : o.sent <+: o.flush.sent := by
  unfold flush
  split
  · exact List.prefix_rfl
  · split
    · exact List.prefix_rfl
    · exact List.prefix_append _ _

theorem sent_push (o : Outbox β) (m : β) : o.sent <+: (o.push m).sent :=
  sent_flush { o with queue := o.queue ++ [m] }

theorem sent_finish (o : Outbox β) : o.finish.sent = o.sent := by
  unfold finish
  split <;> rfl

theorem sent_release (o : Outbox β) (final : Bool) : o.sent <+: (o.release final).sent := by
  unfold release
  split
  · split <;> exact List.prefix_rfl
  · exact sent_flush { o with busy := false }

/-! ## Stalls -/

/-- An ended, idle outbox has announced its end. -/
def Settled (o : Outbox β) : Prop := o.ended = true → o.busy = false → o.closes ≠ 0

theorem Settled.of_open {o : Outbox β} (hopen : o.ended = false) : o.Settled :=
  fun hend => by simp [hopen] at hend

theorem Settled.push {o : Outbox β} (hopen : o.ended = false) (m : β) : (o.push m).Settled := by
  apply Settled.of_open
  rw [ended_push, hopen]

theorem Settled.finish (o : Outbox β) : o.finish.Settled := by
  unfold Outbox.finish
  split
  · next hbusy => intro _ hidle; simp [hbusy] at hidle
  · intro _ _; simp [close]

/-- A completed transfer leaves the outbox settled if it looks at the end of the stream, if the
    stream has not ended, or if something is queued. -/
theorem Settled.release (o : Outbox β) {final : Bool}
    (h : final = true ∨ o.ended = false ∨ o.queue ≠ []) : (o.release final).Settled := by
  unfold Outbox.release
  split
  · next hq =>
      have hnil : o.queue = [] := by simpa using hq
      split
      · intro _ _; simp [close]
      · next hend =>
          intro hended _
          rcases h with rfl | h | h
          · exact absurd hended (by simpa using hend)
          · exact absurd hended (by simp [h])
          · exact absurd hnil h
  · next hq =>
      cases hqueue : o.queue with
      | nil => simp [hqueue] at hq
      | cons m q => intro _ hidle; simp [flush] at hidle

/-- The one way to stall: an idle release of an outbox with nothing queued does not look at the end
    of its stream. -/
theorem release_of_nil {o : Outbox β} (hq : o.queue = []) :
    o.release false = { o with busy := false } := by
  simp [release, hq]

end Outbox
