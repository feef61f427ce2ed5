import EasyGrpc.Queue.Proofs.Settling
import EasyGrpc.Rpc.Proofs.Service

set_option autoImplicit false

/-! # Which classes can be on a queue

Of the eight classes that start batches, four have one batch outstanding that is started last and
completes last. The other four start the batch that deletes them while others are outstanding, and
gRPC core does not say which completes first. -/

namespace EasyGrpc

/-- The classes of the sessions and the handlers. -/
inductive CallbackClass (Req Rep : Type) where
  /-- `Unary_call_completion`, `Streaming_call_session` or `Client_streaming_call_session`. -/
  | call (call : ClientCall Req)
  /-- `Bidir_streaming_call_session`. -/
  | bidirCall
  /-- `Unary_call_handler`. -/
  | unaryHandler (method : UnaryMethod Req Rep)
  /-- `Server_streaming_call_handler`. -/
  | serverStreamingHandler
  /-- `Client_streaming_call_handler`. -/
  | clientStreamingHandler
  /-- `Bidir_streaming_call_handler`. -/
  | bidirHandler

namespace CallbackClass

variable {Req Rep : Type}

/-- What deletes an object of the class completes after everything else. -/
def endsLast : CallbackClass Req Rep → Bool
  | .call _ | .unaryHandler _ => true
  | .bidirCall | .serverStreamingHandler | .clientStreamingHandler | .bidirHandler => false

variable [Serializer Req] [Serializer Rep]

def party : CallbackClass Req Rep → Party
  | .call c => ClientCall.party Req Rep c
  | .bidirCall => BidirClient.party Req Rep
  | .unaryHandler method => UnaryServer.party method
  | .serverStreamingHandler => StreamingServer.party Req Rep
  | .clientStreamingHandler => UploadServer.party Req Rep
  | .bidirHandler => BidirServer.party Req Rep

/-! ## Runs that delete an object too early -/

/-- The server's end is read while the close is outstanding, and the status it asks for completes
    first. -/
theorem bidirCall_not_diesClean : ¬ (BidirClient.party Req Rep).DiesClean := by
  intro hclean
  have hrun : (BidirClient.machine Req Rep).Reachable _ :=
    Machine.reachable_of_run
      [.getFuture, .complete 0 {}, .finish .complete, .complete 0 {}, .complete 1 {}] rfl
  cases hclean _ hrun rfl

/-- The reply stream fails while the metadata is in flight, and the status completes first. -/
theorem serverStreamingHandler_not_diesClean : ¬ (StreamingServer.party Req Rep).DiesClean := by
  intro hclean
  have hrun : (StreamingServer.machine Req Rep).Reachable _ :=
    Machine.reachable_of_run
      [.perform [], .attach, .finish (.failed .other), .complete 1 {}] rfl
  cases hclean _ hrun rfl

/-- The reply comes while a request is being read, and is sent first. -/
theorem clientStreamingHandler_not_diesClean : ¬ (UploadServer.party Req Rep).DiesClean := by
  intro hclean
  have hrun : (UploadServer.machine Req Rep).Reachable _ :=
    Machine.reachable_of_run
      [.startReading, .attach, .reply (.error .other), .complete 1 {}] rfl
  cases hclean _ hrun rfl

/-- The replies end while a request is being read, and the status completes first. -/
theorem bidirHandler_not_diesClean : ¬ (BidirServer.party Req Rep).DiesClean := by
  intro hclean
  have hrun : (BidirServer.machine Req Rep).Reachable _ :=
    Machine.reachable_of_run
      [.attach, .startHandshake, .complete 0 {}, .finish .complete, .complete 1 {}] rfl
  cases hclean _ hrun rfl

/-! ## The classes -/

theorem diesClean_iff (k : CallbackClass Req Rep) : k.party.DiesClean ↔ k.endsLast = true := by
  cases k with
  | call c => exact iff_of_true (Party.diesClean_of_settlesOnce c.settlesOnce) rfl
  | bidirCall => exact iff_of_false bidirCall_not_diesClean Bool.false_ne_true
  | unaryHandler method => exact iff_of_true (UnaryServer.diesClean method) rfl
  | serverStreamingHandler =>
      exact iff_of_false serverStreamingHandler_not_diesClean Bool.false_ne_true
  | clientStreamingHandler =>
      exact iff_of_false clientStreamingHandler_not_diesClean Bool.false_ne_true
  | bidirHandler => exact iff_of_false bidirHandler_not_diesClean Bool.false_ne_true

/-- **Which mixes of calls a queue is safe for.** Whatever the classes of the objects on a queue,
    `worker_main` never calls `exec` on freed memory, in any run with any number of them, exactly
    if none of them is bidirectional or the handler of a streaming method. -/
theorem queue_safe_iff {ι : Type} (kinds : ι → CallbackClass Req Rep) :
    (∀ q, (CompletionQueue.machine fun i => (kinds i).party).Reachable q → q.dangling = false) ↔
      ∀ i, (kinds i).endsLast = true := by
  rw [CompletionQueue.never_dangling_iff]
  exact forall_congr' fun i => (kinds i).diesClean_iff

end CallbackClass

end EasyGrpc
