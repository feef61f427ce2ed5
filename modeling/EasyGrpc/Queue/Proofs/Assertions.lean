import EasyGrpc.Queue.Proofs.Classes
import EasyGrpc.Queue.Proofs.HandlerOrder
import EasyGrpc.Queue.Proofs.SessionOrder

set_option autoImplicit false

/-! # Which batches may be started

The sessions and handlers assert that `grpc_call_start_batch` has taken their batches. Five of the
eight classes start every batch when it may be, in every run, and the other three do in exactly the
runs without certain steps. -/

namespace EasyGrpc

namespace CallbackClass

variable {Req Rep : Type}

/-- Objects of the class start no batch out of order. -/
def startsInOrder : CallbackClass Req Rep → Bool
  | .call _ | .unaryHandler _ | .clientStreamingHandler => true
  | .bidirCall | .serverStreamingHandler | .bidirHandler => false

variable [Serializer Req] [Serializer Rep]

/-- The step starts no batch out of order. -/
def inTurn : (k : CallbackClass Req Rep) → k.party.State → k.party.Event → Bool
  | .call _ => fun _ _ => true
  | .bidirCall => BidirClient.statusOnce
  | .unaryHandler _ => fun _ _ => true
  | .serverStreamingHandler => StreamingServer.nothingBehindStatus
  | .clientStreamingHandler => fun _ _ => true
  | .bidirHandler => BidirServer.statusInTurn

theorem inTurn_of_startsInOrder {k : CallbackClass Req Rep} (hk : k.startsInOrder = true)
    (t : k.party.State) (e : k.party.Event) : k.inTurn t e = true := by
  cases k with
  | call c => rfl
  | unaryHandler method => rfl
  | clientStreamingHandler => rfl
  | bidirCall => cases hk
  | serverStreamingHandler => cases hk
  | bidirHandler => cases hk

/-! ## One step -/

theorem orderly_init (k : CallbackClass Req Rep) : (k.party.call k.party.machine.init).Orderly := by
  cases k with
  | call c =>
      cases c with
      | unary req =>
          exact UnaryClient.orderly_of_reachable (c := (UnaryClient.machine Rep req).init) .init
      | serverStreaming req =>
          exact StreamingClient.orderly_of_reachable
            (c := (StreamingClient.startedMachine Rep req).init) .init
      | clientStreaming =>
          exact UploadClient.orderly_of_reachable
            (c := (UploadClient.startedMachine Req Rep).init) .init
  | bidirCall =>
      show (({} : Call BidirClientBatch).startBatch .handshake).Orderly
      refine Call.Orderly.new.startFirst rfl ?_ ?_ <;>
        simp [kindsOf_singleton, BatchSpec.ops, Op.kind]
  | unaryHandler method => exact .new
  | serverStreamingHandler => exact .new
  | clientStreamingHandler => exact .new
  | bidirHandler => exact .new

theorem orderly_keep (k : CallbackClass Req Rep) {t t' : k.party.State} {e : k.party.Event}
    (ht : k.party.machine.Reachable t) (hstep : k.party.machine.step t e = some t')
    (hturn : k.inTurn t e = true) (h : (k.party.call t).Orderly) : (k.party.call t').Orderly := by
  cases k with
  | call c =>
      cases c with
      | unary req => exact UnaryClient.orderly_of_reachable (ht.step hstep)
      | serverStreaming req => exact StreamingClient.orderly_of_reachable (ht.step hstep)
      | clientStreaming => exact UploadClient.orderly_of_reachable (ht.step hstep)
  | bidirCall => exact BidirClient.call_orderly_step ht hstep hturn h
  | unaryHandler method => exact (UnaryServer.orderly_of_reachable (ht.step hstep)).1
  | serverStreamingHandler => exact StreamingServer.call_orderly_step ht hstep hturn h
  | clientStreamingHandler => exact (UploadServer.orderly_of_reachable (ht.step hstep)).1
  | bidirHandler => exact BidirServer.call_orderly_step ht hstep hturn h

theorem not_ordered_of_turn (k : CallbackClass Req Rep) {t t' : k.party.State}
    {e : k.party.Event} (ht : k.party.machine.Reachable t)
    (hstep : k.party.machine.step t e = some t') (hturn : k.inTurn t e = false) :
    ¬ (k.party.call t').Ordered := by
  cases k with
  | call c => cases hturn
  | bidirCall => exact BidirClient.not_ordered_of_twice ht hstep hturn
  | unaryHandler method => cases hturn
  | serverStreamingHandler => exact StreamingServer.not_ordered_of_behind hstep hturn
  | clientStreamingHandler => cases hturn
  | bidirHandler => exact BidirServer.not_ordered_of_early ht hstep hturn

/-! ## Whole runs -/

/-- **Which runs start a batch out of order.** After any run of an object of any class, whatever
    the completions bring, each of its batches was started when it might be, exactly if every step
    was in turn: a bidirectional call's close has not completed behind the request for the status,
    and of a reply stream that failed neither was the status sent before the metadata nor a reply
    behind the status. -/
theorem batches_in_order_iff (k : CallbackClass Req Rep) {es : List k.party.Event}
    {t : k.party.State} (hrun : k.party.machine.run k.party.machine.init es = some t) :
    (k.party.call t).Orderly ↔
      (k.party.machine.guard k.inTurn).run k.party.machine.init es ≠ none :=
  Party.orderly_iff k.orderly_init (fun ht hstep hturn h => k.orderly_keep ht hstep hturn h)
    (fun ht hstep hturn => k.not_ordered_of_turn ht hstep hturn) hrun

/-- A reply is queued behind the metadata when the replies fail. -/
theorem batches_in_order_iff_failed_reply :
    ∃ t, (StreamingServer.machine Buffer Buffer).run (StreamingServer.machine Buffer Buffer).init
        [.perform [], .attach, .push [7], .finish (.failed .other), .complete 0 {}] = some t ∧
      ¬ t.handler.obj.call.Orderly := by
  refine ⟨_, rfl, fun horderly => ?_⟩
  have hrun : (StreamingServer.machine Buffer Buffer).run
      (StreamingServer.machine Buffer Buffer).init
      [.perform [], .attach, .push [7], .finish (.failed .other), .complete 0 {}] = some _ := rfl
  exact (batches_in_order_iff (.serverStreamingHandler : CallbackClass Buffer Buffer) hrun).1
    horderly rfl

/-! ## Runs with a batch out of order -/

/-- The step is taken by an object that exists, or starts no turn of `worker_main`. -/
def onLive (k : CallbackClass Req Rep) (t : k.party.State) (e : k.party.Event) : Bool :=
  !(k.party.completes e && k.party.deleted t)

theorem exists_out_of_turn {k : CallbackClass Req Rep} (hk : k.startsInOrder = false) :
    ∃ t, (k.party.machine.guard k.onLive).Reachable t ∧ ¬ (k.party.call t).Orderly := by
  have hbreak : ∀ {t t' : k.party.State} {e : k.party.Event} (es : List k.party.Event),
      (k.party.machine.guard k.onLive).run k.party.machine.init es = some t →
      (k.party.machine.guard k.onLive).step t e = some t' → k.inTurn t e = false →
      ∃ t, (k.party.machine.guard k.onLive).Reachable t ∧ ¬ (k.party.call t).Orderly := by
    intro t t' e es hrun hstep hturn
    have hreach := Machine.reachable_of_run es hrun
    refine ⟨t', hreach.step hstep, fun horderly => ?_⟩
    exact k.not_ordered_of_turn hreach.of_guard (Machine.guard_step.1 hstep).2 hturn
      horderly.ordered
  cases k with
  | call c => cases hk
  | bidirCall =>
      exact hbreak (e := .complete 0 {})
        [.getFuture, .complete 0 {}, .finish .complete, .complete 0 {}] rfl rfl rfl
  | unaryHandler method => cases hk
  | serverStreamingHandler =>
      exact hbreak (e := .complete 0 {})
        [.perform [], .attach, .push (deserialize []), .finish (.failed .other)] rfl rfl rfl
  | clientStreamingHandler => cases hk
  | bidirHandler =>
      exact hbreak (e := .attach) [.finish (.failed .other)] rfl rfl rfl

/-- **On which queues no batch is out of order.** Whatever the classes of the objects on a queue, each
    of them has started every batch when it might be, in any run with any number of them, exactly
    if none is a bidirectional call or the handler of a method that replies with a stream. -/
theorem queue_in_order_iff {ι : Type} (kinds : ι → CallbackClass Req Rep) :
    (∀ q, (CompletionQueue.machine fun i => (kinds i).party).Reachable q →
      ∀ p ∈ q.parties, ((kinds p.kind).party.call p.state).Orderly) ↔
      ∀ i, (kinds i).startsInOrder = true := by
  constructor
  · intro hall i
    by_contra hno
    obtain ⟨t, ht, hbad⟩ := exists_out_of_turn (k := kinds i) (by simpa using hno)
    obtain ⟨q, hq, -⟩ := @CompletionQueue.exists_alone_of_live _ (fun i => (kinds i).party) i t ht
    exact hbad (hall q hq.reachable ⟨i, 0, t⟩ (by rw [hq.parties]; exact List.mem_singleton_self _))
  · intro hkinds q hq p hp
    have hparty := CompletionQueue.party_reachable hq hp
    refine hparty.invariant
      (P := fun t => (kinds p.kind).party.machine.Reachable t ∧
        ((kinds p.kind).party.call t).Orderly) ⟨.init, (kinds p.kind).orderly_init⟩ ?_ |>.2
    rintro t t' e hstep ⟨ht, h⟩
    exact ⟨ht.step hstep, (kinds p.kind).orderly_keep ht hstep
      (inTurn_of_startsInOrder (hkinds p.kind) t e) h⟩

end CallbackClass

end EasyGrpc
