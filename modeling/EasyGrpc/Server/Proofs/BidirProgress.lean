import EasyGrpc.Server.Proofs.BidirStreaming

set_option autoImplicit false

/-! # Progress of the server's bidirectional handler

A completed reply stream is announced to the client (`server_never_stuck`), unless the handshake
completes after the stream has completed with nothing queued: the handshake block of `exec` does not
look at `finished_`, as its send block does. -/

namespace EasyGrpc

variable {Req Rep : Type}

namespace BidirServer

open BidirStreamingCallHandler BidirServerBatch

variable [Serializer Req] [Serializer Rep]

/-- The handshake is done, the reply stream has completed, nothing is being sent, and yet the status
    was never sent. -/
def EndStalled (c : BidirServer Req Rep) : Prop :=
  c.handler.obj.call.starts isHandshake = 1 ∧ c.handler.obj.call.pending isHandshake = 0 ∧
    c.handler.obj.call.pending isSend = 0 ∧ c.handler.obj.call.pending isServerEnd = 0 ∧
    c.handler.obj.finished = true ∧ c.handler.obj.call.starts isServerEnd = 0

/-- The handshake completes when the reply stream has already completed with nothing queued. -/
def handshakeAfterEnd (c : BidirServer Req Rep) : Event Rep → Bool
  | .complete i _ =>
      c.handler.obj.call.outstanding[i]? == some .handshake &&
        c.handler.obj.finished && c.handler.obj.pendingOps.isEmpty
  | _ => false

omit [Serializer Req] in
theorem settled_push {h : BidirStreamingCallHandler Req} (hopen : h.toOutbox.ended = false)
    (rep : Rep) : (h.push rep).toOutbox.Settled := by
  rw [toOutbox_push]
  exact .push hopen _

omit [Serializer Req] in
theorem settled_onRepliesEnd {h : BidirStreamingCallHandler Req} (hset : h.toOutbox.Settled)
    (t : StreamEnd) : (h.onRepliesEnd t).toOutbox.Settled := by
  cases t with
  | complete =>
      rw [onRepliesEnd, toOutbox_finish]
      exact .finish _
  | failed e =>
      rw [onRepliesEnd, BidirStreamingCallHandler.fail, toOutbox_startBatch _ rfl rfl]
      exact hset

/-- Without a handshake that comes too late, a completed reply stream that is not being sent has
    been announced. -/
theorem settled_of_guard {c : BidirServer Req Rep}
    (h : ((machine Req Rep).guard (fun c e => !c.handshakeAfterEnd e)).Reachable c) :
    c.handler.obj.toOutbox.Settled := by
  refine Machine.Reachable.guard_invariant (P := fun c => c.handler.obj.toOutbox.Settled)
    (fun hend => by cases hend) ?_ h
  intro c c' e hreach hstep hguard hset
  have hinv := inv_of_reachable hreach
  cases moves_of_step hstep with
  | @push rep hopen =>
      have hfin := hinv.feeds.not_ended (Or.inr hopen)
      simp only [Live.update_of_live (hinv.live_of_open (Or.inr hopen))]
      split
      · exact settled_push hfin rep
      · exact hset
  | @finish t hopen =>
      simp only [Live.update_of_live (hinv.live_of_open (Or.inr hopen))]
      split
      · exact settled_onRepliesEnd hset t
      · exact hset
  | attach hatt =>
      have hfin := hinv.feeds.not_ended (Or.inl hatt)
      simp only [Live.update_of_live (hinv.live_of_open (Or.inl hatt))]
      -- The stream is drained as if each value had been pushed after it was attached.
      refine (Source.drain_induction
        (P := fun (src : Source Rep) (obj : BidirStreamingCallHandler Req) =>
          (src.terminal = none → obj.toOutbox.ended = false) ∧ obj.toOutbox.Settled)
        ?_ ?_ ?_ c.replies).2
      · exact ⟨fun _ => hfin, hset⟩
      · intro src obj rep _ hopen ih
        refine ⟨fun _ => ?_, settled_push (ih.1 hopen) rep⟩
        rw [toOutbox_push, Outbox.ended_push]
        exact ih.1 hopen
      · intro src obj t _ hopen ih
        refine ⟨?_, settled_onRepliesEnd ih.2 t⟩
        intro hno
        cases hno
  | startHandshake hatt hnone =>
      simp only [Live.update]
      split
      · exact hset
      · exact toOutbox_startBatch c.handler.obj (b := .handshake) rfl rfl ▸ hset
  | @complete i r handler hwork =>
      obtain ⟨b, hb, ⟨-, rfl⟩ | ⟨-, rfl⟩⟩ := complete_cases hwork
      · exact hset
      · show (c.handler.obj.handled i r b).obj.toOutbox.Settled
        rw [toOutbox_handled]
        cases b with
        | handshake =>
            refine .release _ (Or.inr ?_)
            -- The guard: the stream is open, or something is queued.
            simp only [handshakeAfterEnd, hb, beq_self_eq_true, Bool.true_and, Bool.not_eq_true',
              Bool.and_eq_false_iff] at hguard
            rcases hguard with hopen | hq
            · exact Or.inl hopen
            · refine Or.inr (fun hnil => ?_)
              have hnil' : c.handler.obj.pendingOps = [] := hnil
              simp [hnil'] at hq
        | send m => exact .release _ (Or.inl rfl)
        | recv => exact hset
        | serverEnd => exact hset
        | fail => exact hset

/-- **The handler never gets stuck**, as long as no handshake completes after the reply stream has
    completed with nothing queued. -/
theorem server_never_stuck {c : BidirServer Req Rep}
    (h : ((machine Req Rep).guard (fun c e => !c.handshakeAfterEnd e)).Reachable c) :
    ¬ c.EndStalled := by
  have hinv := inv_of_reachable h.of_guard
  rintro ⟨hstarted, hH, hS, -, hfin, hnone⟩
  have hlive : c.handler.deleted = false := by
    cases hdel : c.handler.deleted with
    | false => rfl
    | true => exact absurd hnone (hinv.counts.deleted_end (by simp [hdel]))
  have hside := hinv.counts.sendSide_live (by simp [hlive])
  have hidle : c.handler.obj.toOutbox.busy = false := by
    cases hready : c.handler.obj.readyToSend with
    | true => simp [toOutbox, hready]
    | false => simp only [hready, Bool.toNat_false] at hside; omega
  exact settled_of_guard h hfin hidle hnone

/-- Such a handshake leaves the handler stuck at once, in whatever state it comes. -/
theorem handshakeAfterEnd_stalls {c c' : BidirServer Req Rep} {e : Event Rep}
    (hreach : (machine Req Rep).Reachable c) (hstep : (machine Req Rep).step c e = some c')
    (hlate : c.handshakeAfterEnd e = true) : c'.EndStalled := by
  have hinv := inv_of_reachable hreach
  have hinv' := inv_step hstep hinv
  cases e with
  | push rep => cases hlate
  | finish t => cases hlate
  | attach => cases hlate
  | startHandshake => cases hlate
  | complete i r =>
      simp only [handshakeAfterEnd, Bool.and_eq_true, beq_iff_eq] at hlate
      obtain ⟨⟨hb, hfin⟩, hq⟩ := hlate
      have hnil : c.handler.obj.pendingOps = [] := by simpa using hq
      -- With the handshake in flight the gate is closed: no end was sent.
      have hpos := Call.pending_pos hb (p := isHandshake) rfl
      have hbusy := hinv.counts.busy (by omega)
      have hnone : c.handler.obj.call.starts isServerEnd = 0 := hinv.feeds.outbox.closes_of_busy hbusy
      have hlive : c.handler.deleted = false := by
        cases hdel : c.handler.deleted with
        | false => rfl
        | true => exact absurd hnone (hinv.counts.deleted_end (by simp [hdel]))
      obtain ⟨handler, hwork, rfl⟩ := Option.map_eq_some_iff.1 hstep
      obtain ⟨b, hb', ⟨hdel, -⟩ | ⟨-, rfl⟩⟩ := complete_cases hwork
      · rw [hlive] at hdel
        cases hdel
      · obtain rfl : b = .handshake := Option.some.inj (hb'.symm.trans hb)
        have hbox : (c.handler.obj.handled i r .handshake).obj.toOutbox
            = { c.handler.obj.toOutbox with busy := false } :=
          (toOutbox_handled c.handler.obj i r .handshake).trans (Outbox.release_of_nil hnil)
        have hends : (c.handler.obj.handled i r .handshake).obj.call.starts isServerEnd = 0 :=
          (congrArg Outbox.closes hbox).trans hnone
        have hready : (c.handler.obj.handled i r .handshake).obj.readyToSend = true := by
          simpa [toOutbox] using congrArg Outbox.busy hbox
        have hshaken : (c.handler.obj.handled i r .handshake).obj.call.starts isHandshake
            = c.handler.obj.call.starts isHandshake := by
          simp [handled, openGate, done, hnil, startBatch, Call.starts_startBatch, isHandshake]
        have hside := hinv'.counts.sendSide_le
        have hone := hinv'.counts.handshake_le
        have hend := hinv'.counts.serverEnd_le
        have hside₀ := hinv.counts.sendSide_le
        simp only [hready, hshaken, hends, Bool.toNat_true] at hside hone hend
        dsimp only [EndStalled]
        rw [hshaken]
        exact ⟨by omega, by omega, by omega, by omega, (congrArg Outbox.ended hbox).trans hfin,
          hends⟩

/-- The user's handler completes its reply stream at once, without any reply. -/
theorem server_stuck_without_replies :
    ¬ ∀ c : BidirServer Buffer Buffer, (machine Buffer Buffer).Reachable c → ¬ c.EndStalled := by
  intro hall
  have hrun : (machine Buffer Buffer).Reachable _ :=
    Machine.reachable_of_run
      [.finish .complete, .attach, .startHandshake, .complete 0 {}] rfl
  exact hall _ hrun ⟨rfl, rfl, rfl, rfl, rfl, rfl⟩

/-- A handler that replies once and completes before it is attached meets the condition. -/
theorem server_never_stuck_one_reply :
    ∃ c : BidirServer Buffer Buffer,
      ((machine Buffer Buffer).guard (fun c e => !c.handshakeAfterEnd e)).Reachable c ∧
      c.handler.deleted = true ∧ ¬ c.EndStalled :=
  have hrun : ((machine Buffer Buffer).guard (fun c e => !c.handshakeAfterEnd e)).Reachable _ :=
    Machine.reachable_of_run
      [.push [7], .finish .complete, .attach, .startHandshake, .complete 0 {}, .complete 0 {},
        .complete 1 {}] rfl
  ⟨_, hrun, rfl, server_never_stuck hrun⟩

end BidirServer

end EasyGrpc
