import EasyGrpc.Client.Proofs.SettleOnce
import EasyGrpc.Queue.Proofs.Dispatch

set_option autoImplicit false

/-! # The calls on a queue, and its destructor

Any number of unary, server-streaming and client-streaming calls share a queue. Each is settled
once, and a queue whose destructor has returned has left none of the first two kinds open. -/

namespace EasyGrpc

/-- A class whose objects settle once dies clean. -/
theorem Party.diesClean_of_settlesOnce {P : Party} {settled : P.Obj → ℕ}
    (h : SettlesOnce P.machine P.object settled) : P.DiesClean := by
  intro t ht hdel
  exact (h.settled_once ht hdel).2

/-! ## Calls -/

/-- What a program does with a client. -/
inductive ClientCall (Req : Type) where
  | unary (req : Req)
  | serverStreaming (req : Req)
  | clientStreaming

namespace ClientCall

variable {Req Rep : Type} [Serializer Req] [Serializer Rep]

def party (Req Rep : Type) [Serializer Req] [Serializer Rep] : ClientCall Req → Party
  | .unary req => UnaryClient.party Rep req
  | .serverStreaming req => StreamingClient.party Rep req
  | .clientStreaming => UploadClient.party Req Rep

/-- How often the caller's promise or reply stream was terminated. -/
def settled : (call : ClientCall Req) → (party Req Rep call).Obj → ℕ
  | .unary _ => fun s => (UnaryCallCompletion.rep s).length
  | .serverStreaming _ => fun s =>
      (StreamingCallSession.replyStreamPromise s).terminations.length
  | .clientStreaming => fun s => (ClientStreamingCallSession.rep s).length

theorem settlesOnce (call : ClientCall Req) :
    SettlesOnce (party Req Rep call).machine (party Req Rep call).object call.settled := by
  cases call with
  | unary req => exact UnaryClient.settlesOnce req
  | serverStreaming req => exact StreamingClient.settlesOnce req
  | clientStreaming => exact UploadClient.settlesOnce

/-- A unary or a server-streaming call that exists has a batch outstanding. -/
theorem outstanding_of_live {call : ClientCall Req} {t : (party Req Rep call).State}
    (hcall : call ≠ .clientStreaming) (ht : (party Req Rep call).machine.Reachable t)
    (hlive : (party Req Rep call).deleted t = false) :
    ((party Req Rep call).call t).outstanding ≠ [] := by
  cases call with
  | unary req =>
      rcases UnaryClient.cases_of_reachable ht with rfl | ⟨r, rfl⟩
      · exact List.cons_ne_nil _ _
      · cases hlive
  | serverStreaming req =>
      obtain ⟨b, hout, -⟩ := (StreamingClient.settling_of_reachable ht).inv.one hlive
      intro hnone
      cases hnone.symm.trans hout
  | clientStreaming => exact absurd rfl hcall

end ClientCall

namespace CompletionQueue

/-! ## The destructor -/

section Destructor

variable {ι : Type} {P : ι → Party}

/-- `worker_main` returns only from a queue that is shut down and empty. -/
theorem drained_of_joined {q : CompletionQueue P} (h : (machine P).Reachable q)
    (hjoined : q.joined = true) : q.inFlight = [] := by
  induction h with
  | init => rfl
  | @step q q' e hreach hstep ih =>
      obtain ⟨hdefined, hopen⟩ := defined_of_step hstep
      have hinv := inv_of_reachable hreach hdefined
      cases moves_of_step hinv hstep with
      | join _ hdrained => exact hdrained
      | exec =>
          rw [joined_executed] at hjoined
          cases hopen.symm.trans hjoined
      | _ => cases hopen.symm.trans hjoined

/-- What the completion thread does. -/
def Event.isWorker : Event P → Bool
  | .complete _ _ | .join => true
  | _ => false

/-- Once the queue is shut down, a turn of the completion thread takes one batch off the queue and
    puts none on it, and after the last one the thread returns. -/
theorem worker_step {q q' : CompletionQueue P} {e : Event P} (hinv : Inv q)
    (hstep : q.step e = some q') (hshut : q.shutDown = true) (hworker : e.isWorker = true) :
    q'.shutDown = true ∧
      q'.inFlight.length + (!q'.joined).toNat < q.inFlight.length + (!q.joined).toNat := by
  obtain ⟨-, hopen⟩ := defined_of_step hstep
  cases moves_of_step hinv hstep with
  | create => cases hworker
  | act => cases hworker
  | exec hb _ _ _ hnone =>
      obtain ⟨hlt, -⟩ := List.getElem?_eq_some_iff.1 hb
      simp only [shutDown_executed, inFlight_executed, joined_executed, hnone hshut,
        List.append_nil, List.length_eraseIdx_of_lt hlt]
      exact ⟨hshut, by omega⟩
  | dangle hb =>
      obtain ⟨hlt, -⟩ := List.getElem?_eq_some_iff.1 hb
      simp only [handedOut, List.length_eraseIdx_of_lt hlt]
      exact ⟨hshut, by omega⟩
  | shutdown => cases hworker
  | join => exact ⟨hshut, by simp [hopen]⟩

/-- `exec` on a class that starts nothing puts nothing on the queue. -/
theorem submitted_exec {P : Party} (hstill : P.ExecStartsNothing) {t t' : P.State} {k : ℕ}
    {r : Received} {flags : BitVec 4} (h : P.exec t k r flags = some t') (n : ℕ)
    (address : BitVec 64) : submitted n address (P.call t) (P.call t') = [] := by
  obtain ⟨b, -, h⟩ := Option.bind_eq_some_iff.1 h
  obtain ⟨-, rfl⟩ : _ ∧ P.setObject t _ = t' := by simpa using h
  have hsame := hstill (Live.completed (P.object t).obj k b r) flags
  have hbefore : (CompletionCallback.call (Live.completed (P.object t).obj k b r)).started
      = (CompletionCallback.call (P.object t).obj).started := by
    simp only [Live.completed, P.call_receive, P.call_setCall]
    rfl
  simp only [submitted, Party.call, P.object_setObject, hsame, hbefore, List.drop_length,
    List.map_nil]

/-- A queue that is shut down and not yet joined has something left for its thread to do. -/
theorem exists_worker_step (hclean : ∀ kind, (P kind).DiesClean)
    (hstill : ∀ kind, (P kind).ExecStartsNothing) {q : CompletionQueue P}
    (h : (machine P).Reachable q) (hshut : q.shutDown = true) (hopen : q.joined = false) :
    ∃ e : Event P, e.isWorker = true ∧ (q.step e).isSome = true := by
  have hdefined := defined_of_diesClean hclean h
  have hinv := inv_of_reachable h hdefined
  cases hflight : q.inFlight with
  | nil => exact ⟨.join, rfl, by simp [step, hdefined, hopen, hshut, hflight]⟩
  | cons b rest =>
      refine ⟨.complete 0 {}, rfl, ?_⟩
      have hb : q.inFlight[0]? = some b := by rw [hflight]; rfl
      obtain ⟨p, hp⟩ := hinv.party (List.mem_of_getElem? hb)
      obtain ⟨batch, hbatch, -⟩ := hinv.batch hb hp
      have hlive : (P p.kind).deleted p.state = false := by
        by_contra hdel
        have hnone := hclean p.kind p.state (party_reachable h (List.mem_of_getElem? hp))
          (by simpa using hdel)
        rw [hnone] at hbatch
        cases hbatch
      have hreturns := (P p.kind).exec_returns ((P p.kind).object p.state).obj (q.position 0 b) batch
      have hexec : ∃ t, (P p.kind).exec p.state (q.position 0 b) {} (BatchSpec.flags batch)
          = some t := by
        rw [Party.exec, hbatch]
        exact ⟨_, if_neg (Bool.eq_false_iff.1 hreturns)⟩
      obtain ⟨t, ht⟩ := hexec
      have hnone := submitted_exec (hstill p.kind) ht b.party p.address
      rw [exec_eq_step hbatch hlive] at ht
      have hturn := step_complete hdefined hopen 0 {}
      rw [workerMain_of_live hinv hb hp hlive ht (fun _ => hnone)] at hturn
      exact Option.isSome_iff_exists.2 ⟨_, hturn⟩

end Destructor

/-! ## Every call is settled once -/

variable {Req Rep : Type} [Serializer Req] [Serializer Rep]

/-- **Calls on one queue settle once.** Of any number of calls of the three kinds, in any order of
    events and with any reuse of addresses: none is ever handed another's completion; each is
    settled once its object is deleted and not before; and when the destructor of the queue has
    returned, no batch of any of them is outstanding, and every unary and every server-streaming
    call is settled. -/
theorem calls_settle_once {q : CompletionQueue (ClientCall.party Req Rep)}
    (h : (machine (ClientCall.party Req Rep)).Reachable q) :
    q.dangling = false ∧
    (∀ p ∈ q.parties, p.kind.settled ((ClientCall.party Req Rep p.kind).object p.state).obj
      = ((ClientCall.party Req Rep p.kind).deleted p.state).toNat) ∧
    (q.joined = true → ∀ p ∈ q.parties,
      ((ClientCall.party Req Rep p.kind).call p.state).outstanding = [] ∧
      (p.kind ≠ .clientStreaming →
        p.kind.settled ((ClientCall.party Req Rep p.kind).object p.state).obj = 1)) := by
  have hclean : ∀ call : ClientCall Req, (ClientCall.party Req Rep call).DiesClean :=
    fun call => Party.diesClean_of_settlesOnce call.settlesOnce
  have hdefined := defined_of_diesClean hclean h
  have hsettled : ∀ p ∈ q.parties,
      p.kind.settled ((ClientCall.party Req Rep p.kind).object p.state).obj
        = ((ClientCall.party Req Rep p.kind).deleted p.state).toNat := by
    intro p hp
    have hparty := party_reachable h hp
    cases hdel : (ClientCall.party Req Rep p.kind).deleted p.state with
    | true => exact (p.kind.settlesOnce.settled_once hparty hdel).1
    | false => exact p.kind.settlesOnce.not_before hparty hdel
  refine ⟨hdefined, hsettled, ?_⟩
  intro hjoined p hp
  obtain ⟨n, hn⟩ := List.getElem?_of_mem hp
  have hnone : ((ClientCall.party Req Rep p.kind).call p.state).outstanding = [] := by
    have htags := (inv_of_reachable h hdefined).tags hn
    rw [drained_of_joined h hjoined] at htags
    exact List.map_eq_nil_iff.1 htags.symm
  refine ⟨hnone, fun hcall => ?_⟩
  have hdel : (ClientCall.party Req Rep p.kind).deleted p.state = true := by
    by_contra hlive
    exact ClientCall.outstanding_of_live hcall (party_reachable h hp) (by simpa using hlive) hnone
  rw [hsettled p hp, hdel]
  rfl

/-- Two calls with their objects at one address, one after the other, and then the destructor. -/
theorem calls_settle_once_address_reused :
    ∃ q : CompletionQueue (ClientCall.party Buffer Buffer),
      (machine (ClientCall.party Buffer Buffer)).Reachable q ∧ q.joined = true ∧
      q.parties.map Resident.address = [16, 16] ∧
      ∀ p ∈ q.parties, ((ClientCall.party Buffer Buffer p.kind).call p.state).outstanding = [] := by
  have hrun : (machine (ClientCall.party Buffer Buffer)).Reachable _ :=
    Machine.reachable_of_run
      [.create (.unary [1]) 16, .complete 0 { message := some [7] }, .create (.unary [2]) 16,
        .shutdown, .complete 0 { message := some [8] }, .join] rfl
  exact ⟨_, hrun, rfl, rfl, fun p hp => ((calls_settle_once hrun).2.2 rfl p hp).1⟩

end CompletionQueue

end EasyGrpc
