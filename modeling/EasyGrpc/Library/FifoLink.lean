import EasyGrpc.Library.Machine

set_option autoImplicit false

/-! # One-way FIFO links

The abstract purpose of one direction of a streaming call: a producer pushes values and ends its
stream, the consumer is given the values one by one in the order pushed, and is told that the stream
is complete once it has them all. `FifoLink.machine` is that specification; its two laws
(`FifoLink.delivered_prefix`, `FifoLink.completed_all`) are what an implementation inherits from a
`Simulation` into it.

`Carries` is the bookkeeping an implementation has to keep to get there: values travel encoded, each
has been handed to the transport or is still queued, and what was delivered decodes the oldest part
of what was handed over. -/

variable {α β : Type*}

structure FifoLink (α : Type*) where
  pushed : List α
  ended : Bool
  delivered : List α
  completed : Bool

namespace FifoLink

inductive Event (α : Type*) where
  | push (v : α)
  | finish
  | deliver
  | complete

/-- Nothing is pushed after the end, the oldest undelivered value is delivered next, and completion
    comes once, after the end and after the last value. -/
def step (l : FifoLink α) : Event α → Option (FifoLink α)
  | .push v => if l.ended then none else some { l with pushed := l.pushed ++ [v] }
  | .finish => if l.ended then none else some { l with ended := true }
  | .deliver =>
      if l.completed then none
      else (l.pushed[l.delivered.length]?).map
        (fun v => { l with delivered := l.delivered ++ [v] })
  | .complete =>
      if l.ended && !l.completed && l.delivered.length == l.pushed.length then
        some { l with completed := true }
      else none

def machine (α : Type*) : Machine (FifoLink α) (Event α) where
  init := ⟨[], false, [], false⟩
  step := step

end FifoLink

/-- Appending the next element of the longer list extends a prefix. -/
theorem List.IsPrefix.concat_getElem? {l L : List α} {x : α} (h : l <+: L)
    (hx : L[l.length]? = some x) : l ++ [x] <+: L := by
  obtain ⟨t, rfl⟩ := h
  cases t with
  | nil => simp at hx
  | cons y t =>
      simp only [List.getElem?_append_right (Nat.le_refl _), Nat.sub_self,
        List.getElem?_cons_zero, Option.some.injEq] at hx
      exact ⟨t, by simp [hx]⟩

/-- A prefix with nothing left after it is the whole list. -/
theorem List.IsPrefix.eq_of_getElem?_none {l L : List α} (h : l <+: L)
    (hx : L[l.length]? = none) : l = L :=
  h.eq_of_length_le (List.getElem?_eq_none_iff.1 hx)

namespace FifoLink

/-! ## The two laws -/

/-- The link invariant: order is kept, and completion means that everything arrived. -/
structure Inv (l : FifoLink α) : Prop where
  delivered_prefix : l.delivered <+: l.pushed
  completed_ended : l.completed = true → l.ended = true
  completed_all : l.completed = true → l.delivered = l.pushed

theorem inv_step {l l' : FifoLink α} {e : Event α} (hstep : (machine α).step l e = some l')
    (h : l.Inv) : l'.Inv := by
  -- `push` is refused once the stream has ended, so a completed link never grows.
  cases e with
  | push v =>
      obtain ⟨hopen, hsome⟩ := Option.ite_none_left_eq_some.1 hstep
      obtain rfl := Option.some.inj hsome
      have hopen' : ¬ l.completed = true := fun hc => hopen (h.completed_ended hc)
      exact ⟨h.delivered_prefix.trans (List.prefix_append _ _),
        fun hc => absurd hc hopen', fun hc => absurd hc hopen'⟩
  | finish =>
      obtain ⟨-, hsome⟩ := Option.ite_none_left_eq_some.1 hstep
      obtain rfl := Option.some.inj hsome
      exact ⟨h.delivered_prefix, fun _ => rfl, h.completed_all⟩
  | deliver =>
      obtain ⟨hopen, hsome⟩ := Option.ite_none_left_eq_some.1 hstep
      obtain ⟨v, hv, rfl⟩ := Option.map_eq_some_iff.1 hsome
      exact ⟨h.delivered_prefix.concat_getElem? hv, fun hc => absurd hc hopen,
        fun hc => absurd hc hopen⟩
  | complete =>
      obtain ⟨hc, hsome⟩ := Option.ite_none_right_eq_some.1 hstep
      obtain rfl := Option.some.inj hsome
      simp only [Bool.and_eq_true, beq_iff_eq] at hc
      exact ⟨h.delivered_prefix, fun _ => hc.1.1, fun _ => h.delivered_prefix.eq_of_length hc.2⟩

theorem inv_init : (machine α).init.Inv :=
  ⟨List.prefix_rfl, fun hc => absurd hc (by simp [machine]), fun _ => rfl⟩

theorem inv_of_reachable {l : FifoLink α} (h : (machine α).Reachable l) : l.Inv :=
  h.invariant inv_init inv_step

end FifoLink

/-! ## Values in encoded transit -/

/-- `pushed`, encoded, is `sent` followed by `queue`; `delivered` decodes the oldest part of
    `sent`. -/
structure Carries (encode : α → β) (decode : β → α) (pushed : List α) (sent queue : List β)
    (delivered : List α) : Prop where
  history : sent ++ queue = pushed.map encode
  delivered_sent : delivered <+: sent.map decode

namespace Carries

variable {encode : α → β} {decode : β → α} {pushed delivered : List α} {sent queue : List β}

/-- Decoding what was sent gives an initial part of what was pushed. -/
theorem sent_prefix (h : Carries encode decode pushed sent queue delivered)
    (hdec : ∀ v, decode (encode v) = v) : sent.map decode <+: pushed := by
  have hmap : (sent ++ queue).map decode = pushed := by
    rw [h.history, List.map_map]
    simp [Function.comp_def, hdec]
  rw [← hmap, List.map_append]
  exact List.prefix_append _ _

/-- The oldest undelivered message decodes to the oldest undelivered value. -/
theorem next (h : Carries encode decode pushed sent queue delivered)
    (hdec : ∀ v, decode (encode v) = v) {m : β} (hm : sent[delivered.length]? = some m) :
    pushed[delivered.length]? = some (decode m) := by
  have hs : (sent.map decode)[delivered.length]? = some (decode m) := by simp [hm]
  obtain ⟨hlt, -⟩ := List.getElem?_eq_some_iff.1 hs
  obtain ⟨t, ht⟩ := h.sent_prefix hdec
  rw [← ht, List.getElem?_append_left hlt, hs]

/-- With nothing queued and nothing undelivered, everything pushed was delivered. -/
theorem all (h : Carries encode decode pushed sent queue delivered)
    (hdec : ∀ v, decode (encode v) = v) (hq : queue = [])
    (hnone : sent[delivered.length]? = none) : delivered = pushed := by
  have hd : delivered = sent.map decode :=
    h.delivered_sent.eq_of_getElem?_none (by simpa using hnone)
  have hhist := h.history
  rw [hq, List.append_nil] at hhist
  rw [hd, hhist, List.map_map]
  simp [Function.comp_def, hdec]

end Carries
