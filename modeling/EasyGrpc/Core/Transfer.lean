import EasyGrpc.Library.FifoLink
import EasyGrpc.Core.StreamPromise
import EasyGrpc.Core.Wire

set_option autoImplicit false

/-! # One direction of a call

A user writes to a stream on one side, and a session or handler writes what it reads off the wire to
a stream promise on the other. `streamLink` sees the two as a `FifoLink`; each lemma is one kind of
step of it, so that a composed call only has to say which of its own steps is of which kind. -/

namespace EasyGrpc

variable {α : Type}

/-- A completed read hands the message it has brought to the promise; a null payload ends it. -/
theorem Delivered.reads [Serializer α] {p q : Peer} {prom prom' : StreamPromise α} {r : Received}
    (h : Delivered deserialize p prom.values false) (hstorage : prom.storage = true)
    (hwire : p.read = some r.message) (hsent : q.sent = p.sent) (hpos : q.pos = p.posAfter r)
    (hread : (∃ data, r.message = some data ∧ prom' = prom.push (deserialize data)) ∨
      (r.message = none ∧ prom' = prom.complete)) :
    Delivered deserialize q prom'.values false := by
  rcases hread with ⟨data, hmsg, hprom⟩ | ⟨hmsg, hprom⟩
  · rw [hmsg] at hwire
    rw [hprom, StreamPromise.values_push hstorage]
    exact h.next hwire hsent (hpos.trans (Peer.posAfter_message hmsg))
  · rw [hprom, StreamPromise.complete, StreamPromise.values_finish]
    exact h.more (hsent ▸ List.prefix_rfl) (fun _ => ⟨rfl, hpos.trans (Peer.posAfter_null hmsg)⟩)

/-- The values on their way from `src` to `prom`. -/
def streamLink (src : Source α) (prom : StreamPromise α) : FifoLink α where
  pushed := src.pushed
  ended := src.terminal.isSome
  delivered := prom.values
  completed := !prom.ends.isEmpty

/-- Of the source, the link sees what was pushed and whether it has ended. -/
theorem streamLink_congr {src src' : Source α} (prom : StreamPromise α)
    (hpushed : src'.pushed = src.pushed) (hterm : src'.terminal = src.terminal) :
    streamLink src' prom = streamLink src prom := by
  simp only [streamLink, hpushed, hterm]

theorem streamLink_push {src src' : Source α} {v : α} (hpush : src.push v = some src')
    (prom : StreamPromise α) :
    (FifoLink.machine α).run (streamLink src prom) [.push v] = some (streamLink src' prom) := by
  obtain ⟨hopen, rfl⟩ := Source.push_eq_some.1 hpush
  simp [Machine.run, FifoLink.machine, FifoLink.step, streamLink, hopen]

theorem streamLink_finish {src src' : Source α} {t : StreamEnd} (hfin : src.finish t = some src')
    (prom : StreamPromise α) :
    (FifoLink.machine α).run (streamLink src prom) [.finish] = some (streamLink src' prom) := by
  obtain ⟨hopen, rfl⟩ := Source.finish_eq_some.1 hfin
  simp [Machine.run, FifoLink.machine, FifoLink.step, streamLink, hopen]

/-- A message read off the wire is the oldest value not yet handed over. -/
theorem streamLink_deliver [Serializer α] {src : Source α} {prom : StreamPromise α} {p : Peer}
    {queue : List Buffer} {data : Buffer} {deleted : Bool} (hsound : prom.Sound)
    (hstorage : prom.storage = true) (hdel : Delivered deserialize p prom.values deleted)
    (hlive : deleted = false)
    (hcarries : Carries serialize deserialize src.pushed p.sent queue prom.values)
    (hread : p.read = some (some data)) :
    (FifoLink.machine α).run (streamLink src prom) [.deliver]
      = some (streamLink src (prom.push (deserialize data))) := by
  have hends := hsound.storage_iff.1 hstorage
  have hm : p.sent[prom.values.length]? = some data := by
    rw [← hdel.pos_eq hlive]
    exact Peer.read_message hread
  have hnext := hcarries.next Serializer.deserialize_serialize hm
  simp [Machine.run, FifoLink.machine, FifoLink.step, streamLink, hends, hnext,
    StreamPromise.values_push hstorage]

/-- The promise is ended once everything was handed over. -/
theorem streamLink_complete {src : Source α} {prom : StreamPromise α} (hsound : prom.Sound)
    (hstorage : prom.storage = true) (hended : src.terminal.isSome = true)
    (hall : prom.values = src.pushed) (t : StreamEnd) :
    (FifoLink.machine α).run (streamLink src prom) [.complete]
      = some (streamLink src (prom.finish t)) := by
  have hends := hsound.storage_iff.1 hstorage
  simp [Machine.run, FifoLink.machine, FifoLink.step, streamLink, hends, hended, hall,
    StreamPromise.ends_finish hstorage]

/-- A completed link has delivered everything. -/
theorem streamLink_all {src : Source α} {prom : StreamPromise α}
    (h : (streamLink src prom).Inv) {t : StreamEnd} (hmem : t ∈ prom.ends) :
    prom.values = src.pushed := by
  apply h.completed_all
  simp [streamLink, List.ne_nil_of_mem hmem]

end EasyGrpc
