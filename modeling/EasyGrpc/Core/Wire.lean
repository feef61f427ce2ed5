import EasyGrpc.Library.FifoLink
import EasyGrpc.Core.Call

set_option autoImplicit false

/-! # What gRPC core delivers between two calls

The two sides of an RPC each see the other only through the receive operations of their batches.
What is assumed of gRPC core, with no cancellation: messages are first in, first out in each
direction; a read yields the next message, or a null buffer once the peer has closed its direction
and all its messages were yielded; the final status is the one the server sent. Nothing is assumed
about the order in which batches complete. -/

namespace EasyGrpc

/-- What a side can receive from its peer. -/
structure Peer where
  /-- The messages handed to `GRPC_OP_SEND_MESSAGE`. -/
  sent : List Buffer
  /-- How many of them were yielded. -/
  pos : ℕ
  /-- The peer has started its last operation in this direction. -/
  closed : Bool
  /-- The final status, if the peer is a server that has sent it. -/
  status : Option (StatusCode × String)

namespace Peer

variable {κ : Type} [BatchSpec κ]

/-- A client's call as its server sees it. -/
def ofClient (call : Call κ) (pos : ℕ) : Peer := ⟨call.sent, pos, call.closed, none⟩

/-- A server's call as its client sees it. -/
def ofServer (call : Call κ) (pos : ℕ) : Peer :=
  ⟨call.sent, pos, !call.statuses.isEmpty, call.statuses.head?⟩

/-- What a `GRPC_OP_RECV_MESSAGE` yields; `none` while it cannot complete. -/
def read (p : Peer) : Option (Option Buffer) :=
  match p.sent[p.pos]? with
  | some m => some (some m)
  | none => if p.closed then some none else none

/-- What a batch with the operations `ops` brings when it completes; `none` while it cannot. The
    error text of a failed call is made up by gRPC core. -/
def receive (p : Peer) (ops : List Op) (errorString : Option CString) : Option Received :=
  (if ops.any Op.isRecvMessage then p.read else some none).bind (fun message =>
    if ops.any Op.isRecvStatus then
      p.status.map (fun s => { message, status := s.1, statusDetails := s.2, errorString })
    else some { message })

/-- How many messages were yielded after a batch has brought `r`. -/
def posAfter (p : Peer) (r : Received) : ℕ := p.pos + r.message.isSome.toNat

theorem posAfter_message {p : Peer} {r : Received} {m : Buffer} (h : r.message = some m) :
    p.posAfter r = p.pos + 1 := by
  rw [posAfter, h]
  rfl

theorem posAfter_null {p : Peer} {r : Received} (h : r.message = none) : p.posAfter r = p.pos := by
  rw [posAfter, h]
  rfl

theorem read_message {p : Peer} {m : Buffer} (h : p.read = some (some m)) :
    p.sent[p.pos]? = some m := by
  unfold read at h
  split at h
  · next hm => rw [hm]; exact Option.some.inj h
  · split at h <;> cases h

/-- A null read means that the peer has closed and that nothing it sent is left. -/
theorem read_null {p : Peer} (h : p.read = some none) :
    p.sent[p.pos]? = none ∧ p.closed = true := by
  unfold read at h
  split at h
  · cases h
  · next hn =>
      split at h
      · next hc => exact ⟨hn, hc⟩
      · cases h

theorem receive_read {p : Peer} {ops : List Op} {err : Option CString} {r : Received}
    (h : p.receive ops err = some r) (hops : ops.any Op.isRecvMessage = true) :
    p.read = some r.message := by
  unfold receive at h
  simp only [hops, if_true] at h
  obtain ⟨message, hread, h⟩ := Option.bind_eq_some_iff.1 h
  split at h
  · obtain ⟨s, -, rfl⟩ := Option.map_eq_some_iff.1 h
    exact hread
  · obtain rfl := Option.some.inj h
    exact hread

theorem receive_status {p : Peer} {ops : List Op} {err : Option CString} {r : Received}
    (h : p.receive ops err = some r) (hops : ops.any Op.isRecvStatus = true) :
    p.status = some (r.status, r.statusDetails) := by
  unfold receive at h
  simp only [hops, if_true] at h
  obtain ⟨message, -, h⟩ := Option.bind_eq_some_iff.1 h
  obtain ⟨s, hs, rfl⟩ := Option.map_eq_some_iff.1 h
  exact hs

theorem receive_errorString {p : Peer} {ops : List Op} {err : Option CString} {r : Received}
    (h : p.receive ops err = some r) (hops : ops.any Op.isRecvStatus = true) :
    r.errorString = err := by
  unfold receive at h
  simp only [hops, if_true] at h
  obtain ⟨message, -, h⟩ := Option.bind_eq_some_iff.1 h
  obtain ⟨s, -, rfl⟩ := Option.map_eq_some_iff.1 h
  rfl

/-- A batch without a read brings no message. -/
theorem receive_no_read {p : Peer} {ops : List Op} {err : Option CString} {r : Received}
    (h : p.receive ops err = some r) (hops : ops.any Op.isRecvMessage = false) :
    r.message = none := by
  unfold receive at h
  simp only [hops, Bool.false_eq_true, if_false, Option.bind_some] at h
  split at h
  · obtain ⟨s, -, rfl⟩ := Option.map_eq_some_iff.1 h
    rfl
  · obtain rfl := Option.some.inj h
    rfl

/-- A read that comes without the status is all its batch waits for. -/
theorem read_of_receive_eq_none {p : Peer} {ops : List Op} {err : Option CString}
    (h : p.receive ops err = none) (hread : ops.any Op.isRecvMessage = true)
    (hstatus : ops.any Op.isRecvStatus = false) : p.read = none := by
  cases hmsg : p.read with
  | none => rfl
  | some m => simp [receive, hread, hstatus, hmsg] at h

/-- A read that cannot complete has read everything, and the peer has not closed. -/
theorem unread_of_read_eq_none {p : Peer} (hread : p.read = none) :
    p.sent[p.pos]? = none ∧ p.closed = false := by
  unfold read at hread
  split at hread
  · cases hread
  · next hnone =>
      split at hread
      · cases hread
      · next hopen => exact ⟨hnone, by simpa using hopen⟩

/-- A step that completes no read yields nothing: `done i r` is the completion of the `i`-th
    outstanding batch of `call`, bringing `r`, and every other step leaves the position alone. -/
theorem pos_of_no_read {ε : Type} {p : Peer} {call : Call κ} {done : ℕ → Received → ε} {e : ε}
    {pos' : ℕ} (huser : (∀ i r, e ≠ done i r) → pos' = p.pos)
    (hdone : ∀ i r, e = done i r → ∃ b err, call.outstanding[i]? = some b ∧
      p.receive (BatchSpec.ops b) err = some r ∧ pos' = p.posAfter r)
    (hother : ∀ i r b, e = done i r → call.outstanding[i]? = some b →
      (BatchSpec.ops b).any Op.isRecvMessage = false) : pos' = p.pos := by
  by_cases hcase : ∀ i r, e ≠ done i r
  · exact huser hcase
  · push Not at hcase
    obtain ⟨i, r, he⟩ := hcase
    obtain ⟨b, err, hb, hr, hpos⟩ := hdone i r he
    rw [hpos]
    exact posAfter_null (receive_no_read hr (hother i r b he hb))

end Peer

/-! ## Deliveries -/

/-- The stream `values` decodes the oldest part of what the peer has sent, and, while the object
    that feeds it exists, exactly what was yielded. -/
structure Delivered {α : Type} (decode : Buffer → α) (p : Peer) (values : List α)
    (deleted : Bool) : Prop where
  values_sent : values <+: p.sent.map decode
  pos_eq : deleted = false → p.pos = values.length

namespace Delivered

variable {α : Type} {decode : Buffer → α} {p q : Peer} {values : List α} {deleted : Bool}

/-- The peer sends more; nothing is yielded to an object that still exists. -/
theorem more (h : Delivered decode p values deleted) (hsent : p.sent <+: q.sent)
    {deleted' : Bool} (hpos : deleted' = false → deleted = false ∧ q.pos = p.pos) :
    Delivered decode q values deleted' := by
  refine ⟨h.values_sent.trans (hsent.map decode), ?_⟩
  intro hlive
  obtain ⟨hlive', heq⟩ := hpos hlive
  rw [heq]
  exact h.pos_eq hlive'

/-- The next message is yielded and handed on. -/
theorem next (h : Delivered decode p values false) {m : Buffer} (hread : p.read = some (some m))
    (hsent : q.sent = p.sent) (hpos : q.pos = p.pos + 1) :
    Delivered decode q (values ++ [decode m]) false := by
  have hm := Peer.read_message hread
  rw [h.pos_eq rfl] at hm
  refine ⟨?_, ?_⟩
  · rw [hsent]
    exact h.values_sent.concat_getElem? (by simp [hm])
  · intro _
    rw [hpos, h.pos_eq rfl]
    simp

/-- After a null read the stream holds everything the peer has sent. -/
theorem all (h : Delivered decode p values false) (hread : p.read = some none) :
    p.closed = true ∧ p.sent[values.length]? = none := by
  obtain ⟨hnone, hclosed⟩ := Peer.read_null hread
  rw [h.pos_eq rfl] at hnone
  exact ⟨hclosed, hnone⟩

end Delivered

end EasyGrpc
