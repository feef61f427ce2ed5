import EasyGrpc.Client.Proofs.BidirProgress
import EasyGrpc.Client.Proofs.ServerStreaming

set_option autoImplicit false

/-! # Starting a call whose replies are a stream

`start_server_streaming_call` and `start_bidir_streaming_call` call `get_future()`, which allocates
the storage of the reply stream, after the first batch was started. If the completion thread
overtakes them with a reply or with the end of the call, it finds no storage; a whole
server-streaming call may even be over, its session deleted, before `get_future()` is called.
Nothing else can go wrong (`future_before_replies`). -/

namespace EasyGrpc

variable {Req Rep : Type} [Serializer Req] [Serializer Rep]

/-! ## Bidirectional calls -/

namespace BidirClient

open BidirStreamingCallSession BidirClientBatch

/-- A reply is handled before `get_future` has run. -/
def earlyReply (c : BidirClient Req Rep) : Event Req → Bool
  | .complete i r =>
      !c.returned && c.session.obj.call.outstanding[i]? == some .read && r.message.isSome
  | _ => false

/-- Every operation on the reply stream found its storage, which is there from `get_future` until
    the session is deleted; before that the caller has nothing to push into. -/
structure FutureFirst (c : BidirClient Req Rep) : Prop where
  faults : c.session.obj.rep.faults = []
  late : c.lateFuture = false
  unreturned : c.returned = false → c.requests.terminal = none
  storage : c.returned = true → c.session.deleted = false → c.session.obj.rep.storage = true

omit [Serializer Req] [Serializer Rep] in
/-- An operation of the caller on its request stream. -/
theorem FutureFirst.send {c : BidirClient Req Rep} (h : c.FutureFirst) (hret : c.returned = true)
    {requests : Source Req} {f : BidirStreamingCallSession Rep → BidirStreamingCallSession Rep}
    (hf : ∀ s, SendStep s (f s)) :
    FutureFirst { c with requests, session := c.session.update f } := by
  have hrep : (c.session.update f).obj.rep = c.session.obj.rep :=
    Live.update_obj
      (P := fun (s : BidirStreamingCallSession Rep) => s.rep = c.session.obj.rep) rfl (hf _).rep
  refine ⟨?_, h.late, ?_, ?_⟩
  · rw [hrep]
    exact h.faults
  · intro hno
    rw [hret] at hno
    cases hno
  · intro _ hlive
    rw [Live.deleted_update] at hlive
    rw [hrep]
    exact h.storage hret hlive

theorem futureFirst_step {c c' : BidirClient Req Rep} {e : Event Req} (hinv : c.Inv)
    (hstep : c.step e = some c') (hguard : c.earlyReply e = false) (h : c.FutureFirst) :
    c'.FutureFirst := by
  cases moves_of_step hstep with
  | @push req hret hopen => exact h.send hret (fun s => .onRequest s req)
  | @finish t hret hopen => exact h.send hret (fun s => .onRequestsEnd s t)
  | getFuture hret =>
      have hlive := hinv.live_of_open (h.unreturned hret)
      rw [Live.update_of_live hlive]
      refine ⟨h.faults, hlive, ?_, fun _ _ => rfl⟩
      intro hno
      cases hno
  | @complete i r session hwork =>
      rcases rep_complete hwork with ⟨hrep, hdel, -, -⟩ | ⟨hlive, hlive', hb, hread⟩ |
        ⟨hlive, hdel', hb, ⟨t, -, hrep⟩, -⟩
      · refine ⟨?_, h.late, h.unreturned, ?_⟩
        · rw [hrep]
          exact h.faults
        · intro hret hlive
          rw [hrep]
          exact h.storage hret (hdel.symm.trans hlive)
      · rcases hread with ⟨data, hmsg, hrep, -⟩ | ⟨-, hrep, -⟩
        · have hret : c.returned = true := by
            simpa [earlyReply, hb, hmsg] using hguard
          have hstorage := h.storage hret hlive
          refine ⟨?_, h.late, h.unreturned, ?_⟩
          · rw [hrep, StreamPromise.faults_push hstorage]
            exact h.faults
          · intro _ _
            rw [hrep, StreamPromise.storage_push]
            exact hstorage
        · refine ⟨?_, h.late, h.unreturned, ?_⟩
          · rw [hrep]
            exact h.faults
          · intro hret _
            rw [hrep]
            exact h.storage hret hlive
      · -- The status is asked for only after the request stream has ended, so after `get_future`.
        have hret : c.returned = true := by
          cases hret : c.returned with
          | true => rfl
          | false =>
              have hpos := Call.pending_pos hb (p := isStatus) rfl
              have hle := hinv.counts.status_le
              have hclose := (hinv.counts.status_started (by omega)).2
              have hended := hinv.outbox.closed_ended (by simp [toOutbox, hclose])
              have hsome : c.session.obj.finishedSending = true := hended
              rw [hinv.ended, h.unreturned hret] at hsome
              cases hsome
        have hstorage := h.storage hret hlive
        refine ⟨?_, h.late, h.unreturned, ?_⟩
        · rw [hrep, StreamPromise.faults_finish hstorage]
          exact h.faults
        · intro _ hlive'
          rw [hdel'] at hlive'
          cases hlive'

theorem futureFirst_of_guard {c : BidirClient Req Rep}
    (h : ((machine Req Rep).guard (fun c e => !c.earlyReply e)).Reachable c) : c.FutureFirst := by
  refine Machine.Reachable.guard_invariant (P := FutureFirst) ?_ ?_ h
  · refine ⟨rfl, rfl, fun _ => rfl, ?_⟩
    intro hno
    cases hno
  · intro c c' e hreach hstep hguard ih
    exact futureFirst_step (inv_of_reachable hreach) hstep (by simpa using hguard) ih

/-- Before `get_future` there is no storage. -/
theorem storage_of_unreturned {c : BidirClient Req Rep} (h : (machine Req Rep).Reachable c)
    (hret : c.returned = false) : c.session.obj.rep.storage = false := by
  induction h with
  | init => rfl
  | @step c c' e hs hnext ih =>
      cases moves_of_step hnext with
      | push hyes hopen =>
          rw [show c.returned = false from hret] at hyes
          cases hyes
      | finish hyes hopen =>
          rw [show c.returned = false from hret] at hyes
          cases hyes
      | getFuture hno => cases hret
      | complete hwork =>
          have hnone := ih hret
          rcases rep_complete hwork with ⟨hrep, -⟩ | ⟨-, -, -, ⟨data, -, hrep, -⟩ | ⟨-, hrep, -⟩⟩ |
            ⟨-, -, -, ⟨t, -, hrep⟩, -⟩
          · rwa [hrep]
          · rwa [hrep, StreamPromise.storage_push]
          · rwa [hrep]
          · rw [hrep, StreamPromise.storage_finish]

/-- An early reply always finds no storage. -/
theorem earlyReply_faults {c c' : BidirClient Req Rep} {e : Event Req}
    (h : (machine Req Rep).Reachable c) (hstep : c.step e = some c')
    (hearly : c.earlyReply e = true) : c'.session.obj.rep.faults ≠ [] := by
  cases e with
  | push req => cases hearly
  | finish t => cases hearly
  | getFuture => cases hearly
  | complete i r =>
      simp only [earlyReply, Bool.and_eq_true, beq_iff_eq, Bool.not_eq_true'] at hearly
      obtain ⟨⟨hret, hb⟩, hmsg⟩ := hearly
      have hnone := storage_of_unreturned h hret
      have hinv := inv_of_reachable h
      obtain ⟨session, hwork, rfl⟩ := Option.map_eq_some_iff.1 hstep
      rcases rep_complete hwork with ⟨-, -, -, hdead | hne⟩ |
        ⟨-, -, -, ⟨data, -, hrep, -⟩ | ⟨hno, -⟩⟩ | ⟨-, -, hb', -⟩
      · -- A deleted session has no read outstanding.
        have hstatus := hinv.counts.deleted_status (by simp [hdead])
        have hrecv := (hinv.counts.status_started hstatus).1
        have hside := hinv.counts.readSide_le
        have hpos := Call.pending_pos hb (p := isRead) rfl
        omega
      · exact absurd hb hne.1
      · simp [hrep, StreamPromise.push, hnone]
      · rw [hno] at hmsg
        cases hmsg
      · rw [hb] at hb'
        cases hb'

end BidirClient

/-! ## Server-streaming calls -/

namespace StreamingClient

open StreamingCallSession

/-- A reply or the end of the call is handled before `get_future` has run. -/
def earlyReply (c : StreamingClient Rep) : Event → Bool
  | .complete _ r => !c.returned && (c.session.obj.finishing || r.message.isSome)
  | .getFuture => false

structure FutureFirst (c : StreamingClient Rep) : Prop where
  faults : c.session.obj.replyStreamPromise.faults = []
  late : c.lateFuture = false
  unreturned : c.returned = false → c.session.deleted = false
  storage : c.returned = true → c.session.deleted = false →
    c.session.obj.replyStreamPromise.storage = true

theorem futureFirst_step {req : Req} {c c' : StreamingClient Rep} {e : Event} (hinv : Inv req c)
    (hstep : c.step e = some c') (hguard : c.earlyReply e = false) (h : c.FutureFirst) :
    c'.FutureFirst := by
  rcases step_cases hinv hstep with ⟨-, hret, rfl⟩ | ⟨r, rfl, hlive, rfl⟩
  · have hlive := h.unreturned hret
    rw [Live.update_of_live hlive]
    refine ⟨h.faults, hlive, ?_, fun _ _ => rfl⟩
    intro hno
    cases hno
  · cases hfin : c.session.obj.finishing with
    | true =>
        have hret : c.returned = true := by simpa [earlyReply, hfin] using hguard
        have hstorage := h.storage hret hlive
        rw [handled_status hfin]
        refine ⟨?_, h.late, ?_, ?_⟩
        · exact (StreamPromise.faults_finish hstorage _).trans h.faults
        · intro hno
          rw [hret] at hno
          cases hno
        · intro _ hno
          cases hno
    | false =>
        cases hmsg : r.message with
        | some data =>
            have hret : c.returned = true := by simpa [earlyReply, hfin, hmsg] using hguard
            have hstorage := h.storage hret hlive
            rw [handled_reply hfin hmsg]
            refine ⟨?_, h.late, fun _ => rfl, ?_⟩
            · exact (StreamPromise.faults_push hstorage _).trans h.faults
            · intro _ _
              exact (StreamPromise.storage_push _ _).trans hstorage
        | none =>
            rw [handled_end hfin hmsg]
            exact ⟨h.faults, h.late, fun _ => rfl, fun hret _ => h.storage hret hlive⟩

theorem futureFirst_of_guard {req : Req} {c : StreamingClient Rep}
    (h : ((machine Rep req).guard (fun c e => !c.earlyReply e)).Reachable c) : c.FutureFirst := by
  refine Machine.Reachable.guard_invariant (P := FutureFirst) ?_ ?_ h
  · refine ⟨rfl, rfl, fun _ => rfl, ?_⟩
    intro hno
    cases hno
  · intro c c' e hreach hstep hguard ih
    exact futureFirst_step (inv_of_reachable hreach) hstep (by simpa using hguard) ih

/-- Before `get_future` there is no storage. -/
theorem storage_of_unreturned {req : Req} {c : StreamingClient Rep}
    (h : (machine Rep req).Reachable c) (hret : c.returned = false) :
    c.session.obj.replyStreamPromise.storage = false := by
  induction h with
  | init => rfl
  | step hs hnext ih =>
      rcases step_cases (inv_of_reachable hs) hnext with ⟨-, -, rfl⟩ | ⟨r, -, -, rfl⟩
      · cases hret
      · have hnone := ih hret
        unfold handled
        split
        · exact StreamPromise.storage_finish _
        · split
          · exact (StreamPromise.storage_push _ _).trans hnone
          · exact hnone

/-- An early reply, or an early end, always finds no storage. -/
theorem earlyReply_faults {req : Req} {c c' : StreamingClient Rep} {e : Event}
    (h : (machine Rep req).Reachable c) (hstep : c.step e = some c')
    (hearly : c.earlyReply e = true) : c'.session.obj.replyStreamPromise.faults ≠ [] := by
  rcases step_cases (inv_of_reachable h) hstep with ⟨rfl, -⟩ | ⟨r, rfl, -, rfl⟩
  · cases hearly
  · simp only [earlyReply, Bool.and_eq_true, Bool.or_eq_true, Bool.not_eq_true'] at hearly
    obtain ⟨hret, hwhat⟩ := hearly
    have hnone := storage_of_unreturned h hret
    cases hfin : c.session.obj.finishing with
    | true => simp [handled_status hfin, afterStatus, StreamPromise.finish, hnone]
    | false =>
        cases hmsg : r.message with
        | some data => simp [handled_reply hfin hmsg, afterReply, StreamPromise.push, hnone]
        | none => simp [hfin, hmsg] at hwhat

end StreamingClient

/-! ## Both -/

/-- **The reply stream exists before anything is put into it, and `get_future` is called on a live
    session**, as long as no reply and no end of the call is handled before `get_future` has run. -/
theorem future_before_replies (req : Req) :
    (∀ c : BidirClient Req Rep,
      ((BidirClient.machine Req Rep).guard (fun c e => !c.earlyReply e)).Reachable c →
        c.session.obj.rep.faults = [] ∧ c.lateFuture = false) ∧
    (∀ c : StreamingClient Rep,
      ((StreamingClient.machine Rep req).guard (fun c e => !c.earlyReply e)).Reachable c →
        c.session.obj.replyStreamPromise.faults = [] ∧ c.lateFuture = false) := by
  refine ⟨?_, ?_⟩
  · intro c h
    exact ⟨(BidirClient.futureFirst_of_guard h).faults, (BidirClient.futureFirst_of_guard h).late⟩
  · intro c h
    exact ⟨(StreamingClient.futureFirst_of_guard h).faults,
      (StreamingClient.futureFirst_of_guard h).late⟩

/-- A bidirectional call whose first reply, and a server-streaming call the whole of which, overtake
    the thread that starts it. -/
theorem replies_overtake_future :
    (¬ ∀ c : BidirClient Buffer Buffer, (BidirClient.machine Buffer Buffer).Reachable c →
        c.session.obj.rep.faults = [] ∧ c.lateFuture = false) ∧
    (¬ ∀ c : StreamingClient Buffer, (StreamingClient.machine Buffer ([1] : Buffer)).Reachable c →
        c.session.obj.replyStreamPromise.faults = [] ∧ c.lateFuture = false) := by
  have hbidir : (BidirClient.machine Buffer Buffer).Reachable _ :=
    Machine.reachable_of_run [.complete 0 {}, .complete 0 { message := some [7] }] rfl
  have hserver : (StreamingClient.machine Buffer ([1] : Buffer)).Reachable _ :=
    Machine.reachable_of_run [.complete 0 {}, .complete 0 {}, .getFuture] rfl
  refine ⟨?_, ?_⟩
  · intro hall
    exact absurd (hall _ hbidir).1 (by decide)
  · intro hall
    exact absurd (hall _ hserver).2 (by decide)

/-- In both calls `get_future` comes right after the first completion, then one reply and the
    end. -/
theorem future_before_replies_one_reply :
    (∃ c : BidirClient Buffer Buffer,
      ((BidirClient.machine Buffer Buffer).guard (fun c e => !c.earlyReply e)).Reachable c ∧
      c.session.obj.rep.log = [.push [7], .finish .complete] ∧
      c.session.obj.rep.faults = [] ∧ c.lateFuture = false) ∧
    (∃ c : StreamingClient Buffer,
      ((StreamingClient.machine Buffer ([1] : Buffer)).guard (fun c e => !c.earlyReply e)).Reachable
        c ∧
      c.session.obj.replyStreamPromise.log = [.push [7], .finish .complete] ∧
      c.session.obj.replyStreamPromise.faults = [] ∧ c.lateFuture = false) := by
  have hboth := @future_before_replies Buffer Buffer _ _ [1]
  refine ⟨?_, ?_⟩
  · have hrun : ((BidirClient.machine Buffer Buffer).guard
        (fun c e => !c.earlyReply e)).Reachable _ :=
      Machine.reachable_of_run
        [.complete 0 {}, .getFuture, .complete 0 { message := some [7] }, .finish .complete,
          .complete 1 {}, .complete 0 {}, .complete 0 {}] rfl
    exact ⟨_, hrun, rfl, hboth.1 _ hrun⟩
  · have hrun : ((StreamingClient.machine Buffer ([1] : Buffer)).guard
        (fun c e => !c.earlyReply e)).Reachable _ :=
      Machine.reachable_of_run
        [.getFuture, .complete 0 { message := some [7] }, .complete 0 {}, .complete 0 {}] rfl
    exact ⟨_, hrun, rfl, hboth.2 _ hrun⟩

end EasyGrpc
