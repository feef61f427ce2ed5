import EasyGrpc.Queue.Multiplexing
import EasyGrpc.Client.Unary
import EasyGrpc.Client.ServerStreaming
import EasyGrpc.Client.ClientStreaming
import EasyGrpc.Client.BidirStreaming
import EasyGrpc.Server.Unary
import EasyGrpc.Server.ServerStreaming
import EasyGrpc.Server.ClientStreaming
import EasyGrpc.Server.BidirStreaming

set_option autoImplicit false

/-! # The parties of a completion queue

The four sessions and the four handlers, each with the side of the call its machine is about. -/

namespace EasyGrpc

variable {Req Rep : Type}

/-- What runs on an object and starts batches leaves it where it is. -/
theorem Live.starts_update {σ κ : Type} [BatchSpec κ] [CompletionCallback σ κ] (o : Live σ)
    {f : σ → σ}
    (hf : (CompletionCallback.call o.obj).Starts (CompletionCallback.call (f o.obj))) :
    (o.update f).deleted = o.deleted ∧
      (CompletionCallback.call o.obj).Starts (CompletionCallback.call (o.update f).obj) :=
  ⟨o.deleted_update f, Live.update_obj
    (P := fun s => (CompletionCallback.call o.obj).Starts (CompletionCallback.call s)) (.refl _) hf⟩

/-! ## Sessions -/

namespace UnaryClient

/-- A unary call. -/
def party (Rep : Type) [Serializer Req] [Serializer Rep] (req : Req) : Party where
  State := Live (UnaryCallCompletion Rep)
  Event := Event
  Obj := UnaryCallCompletion Rep
  Batch := UnaryClientBatch
  machine := machine Rep req
  object c := c
  setObject _ o := o
  complete := .complete
  completes _ := true
  completes_complete _ _ := rfl
  eq_complete {e} _ := by
    obtain ⟨i, r⟩ := e
    exact ⟨i, r, rfl⟩
  step_complete c i r := by
    show c.workerMain i r = (c.workerMain i r).map id
    simp
  object_setObject _ _ := rfl
  step_other _ hother := by cases hother
  exec_starts o _ := .refl o.call
  exec_returns _ _ _ := rfl
  call_setCall _ _ := rfl
  call_receive _ _ _ := rfl
  init_live := rfl
  init_starts := .startBatch _ _

end UnaryClient

namespace StreamingClient

open StreamingCallSession

variable [Serializer Req] [Serializer Rep]

def completes : Event → Bool
  | .complete _ _ => true
  | .getFuture => false

theorem exec_starts (s : StreamingCallSession Rep) (flags : BitVec 4) :
    s.call.Starts (s.exec flags).2.call := by
  simp only [exec]
  split
  · cases s.recvBuffer with
    | some data => exact .startBatch _ _
    | none => exact .startBatch _ _
  · exact .refl _

theorem other_step {req : Req} {c c' : StreamingClient Rep} {e : Event}
    (hstep : (startedMachine Rep req).step c e = some c') (hother : completes e = false) :
    c'.session.deleted = c.session.deleted ∧ c.session.obj.call.Starts c'.session.obj.call := by
  cases e with
  | complete i r => cases hother
  | getFuture =>
      simp only [startedMachine, step] at hstep
      split at hstep
      · cases hstep
      · obtain rfl := Option.some.inj hstep
        exact c.session.starts_update (.refl _)

/-- A server-streaming call whose caller has its future. -/
def party (Rep : Type) [Serializer Rep] (req : Req) : Party where
  State := StreamingClient Rep
  Event := Event
  Obj := StreamingCallSession Rep
  Batch := StreamingClientBatch
  machine := startedMachine Rep req
  object := session
  setObject c session := { c with session }
  complete := .complete
  completes := completes
  completes_complete _ _ := rfl
  eq_complete {e} h := by
    cases e with
    | complete i r => exact ⟨i, r, rfl⟩
    | getFuture => cases h
  step_complete _ _ _ := rfl
  object_setObject _ _ := rfl
  step_other := other_step
  exec_starts := exec_starts
  exec_returns _ _ _ := rfl
  call_setCall _ _ := rfl
  call_receive _ b _ := by cases b <;> rfl
  init_live := rfl
  init_starts := .startBatch _ _

end StreamingClient

namespace UploadClient

open ClientStreamingCallSession

def completes : Event Req → Bool
  | .complete _ _ => true
  | _ => false

theorem flush_starts (s : ClientStreamingCallSession Rep) : s.call.Starts s.flush.call := by
  unfold flush
  split
  · exact .refl _
  · cases s.pendingOps with
    | nil => exact .refl _
    | cons op rest => exact .startBatch _ _

theorem onRequestsEnd_starts (s : ClientStreamingCallSession Rep) (t : StreamEnd) :
    s.call.Starts (s.onRequestsEnd t).call := by
  simp only [onRequestsEnd]
  split
  · exact .startBatch _ _
  · exact .refl _

variable [Serializer Req] [Serializer Rep]

theorem exec_starts (s : ClientStreamingCallSession Rep) (flags : BitVec 4) :
    s.call.Starts (s.exec flags).2.call := by
  simp only [exec]
  split
  · exact flush_starts { s with batchInFlight := false }
  · split
    · split
      · exact .refl _
      · exact .startBatch _ _
    · exact .refl _

theorem other_step {c c' : UploadClient Req Rep} {e : Event Req}
    (hstep : (startedMachine Req Rep).step c e = some c') (hother : completes e = false) :
    c'.session.deleted = c.session.deleted ∧ c.session.obj.call.Starts c'.session.obj.call := by
  cases e with
  | complete i r => cases hother
  | construct =>
      simp only [startedMachine, step, construct] at hstep
      cases hat : c.construction with
      | batchStarted =>
          simp only [hat, Option.some.injEq] at hstep
          subst hstep
          exact c.session.starts_update (.refl _)
      | flagSet =>
          simp only [hat, Option.some.injEq] at hstep
          subst hstep
          exact ⟨rfl, .refl _⟩
      | listening =>
          simp only [hat, Option.some.injEq] at hstep
          subst hstep
          exact ⟨rfl, .refl _⟩
      | returned => simp [hat] at hstep
  | push req =>
      simp only [startedMachine, step] at hstep
      split at hstep
      · obtain ⟨requests, -, rfl⟩ := Option.map_eq_some_iff.1 hstep
        exact c.session.starts_update (flush_starts _)
      · cases hstep
  | finish t =>
      simp only [startedMachine, step] at hstep
      split at hstep
      · obtain ⟨requests, -, rfl⟩ := Option.map_eq_some_iff.1 hstep
        exact c.session.starts_update (onRequestsEnd_starts _ t)
      · cases hstep

/-- A client-streaming call whose construction is over. -/
def party (Req Rep : Type) [Serializer Req] [Serializer Rep] : Party where
  State := UploadClient Req Rep
  Event := Event Req
  Obj := ClientStreamingCallSession Rep
  Batch := UploadClientBatch
  machine := startedMachine Req Rep
  object := session
  setObject c session := { c with session }
  complete := .complete
  completes := completes
  completes_complete _ _ := rfl
  eq_complete {e} h := by
    cases e with
    | complete i r => exact ⟨i, r, rfl⟩
    | _ => cases h
  step_complete _ _ _ := rfl
  object_setObject _ _ := rfl
  step_other := other_step
  exec_starts := exec_starts
  exec_returns _ _ _ := rfl
  call_setCall _ _ := rfl
  call_receive _ b _ := by cases b <;> rfl
  init_live := rfl
  init_starts := .startBatch _ _

end UploadClient

namespace BidirClient

open BidirStreamingCallSession

def completes : Event Req → Bool
  | .complete _ _ => true
  | _ => false

theorem flush_starts (s : BidirStreamingCallSession Rep) : s.call.Starts s.flush.call := by
  unfold flush
  split
  · exact .refl _
  · cases s.pendingOps with
    | nil => exact .refl _
    | cons op rest => exact .startBatch _ _

theorem onRequestsEnd_starts (s : BidirStreamingCallSession Rep) (t : StreamEnd) :
    s.call.Starts (s.onRequestsEnd t).call := by
  by_cases ht : t = .complete
  · simp only [onRequestsEnd, if_pos ht]
    split
    · exact .startBatch _ _
    · exact .refl _
  · simp only [onRequestsEnd, if_neg ht]
    split
    · exact (Call.Starts.cancel _).trans (.startBatch _ _)
    · exact .cancel _

variable [Serializer Req] [Serializer Rep]

theorem exec_starts (s : BidirStreamingCallSession Rep) (flags : BitVec 4) :
    s.call.Starts (s.exec flags).2.call := by
  simp only [exec]
  split
  · exact .refl _
  · split
    · refine Call.Starts.trans ?_ (.startBatch _ _)
      split
      · exact flush_starts { s with canSend := true }
      · exact .refl _
    · split
      · split
        · exact .startBatch _ _
        · exact .refl _
      · split
        · split
          · exact flush_starts { s with canSend := true }
          · split
            · exact .startBatch _ _
            · exact .refl _
        · cases s.recvBuffer with
          | some data => exact .startBatch _ _
          | none =>
              simp only
              split
              · exact .startBatch _ _
              · exact .refl _

theorem other_step {c c' : BidirClient Req Rep} {e : Event Req}
    (hstep : (machine Req Rep).step c e = some c') (hother : completes e = false) :
    c'.session.deleted = c.session.deleted ∧ c.session.obj.call.Starts c'.session.obj.call := by
  cases e with
  | complete i r => cases hother
  | getFuture =>
      simp only [machine, step] at hstep
      split at hstep
      · cases hstep
      · obtain rfl := Option.some.inj hstep
        exact c.session.starts_update (.refl _)
  | push req =>
      simp only [machine, step] at hstep
      split at hstep
      · obtain ⟨requests, -, rfl⟩ := Option.map_eq_some_iff.1 hstep
        exact c.session.starts_update (flush_starts _)
      · cases hstep
  | finish t =>
      simp only [machine, step] at hstep
      split at hstep
      · obtain ⟨requests, -, rfl⟩ := Option.map_eq_some_iff.1 hstep
        exact c.session.starts_update (onRequestsEnd_starts _ t)
      · cases hstep

/-- A bidirectional call. -/
def party (Req Rep : Type) [Serializer Req] [Serializer Rep] : Party where
  State := BidirClient Req Rep
  Event := Event Req
  Obj := BidirStreamingCallSession Rep
  Batch := BidirClientBatch
  machine := machine Req Rep
  object := session
  setObject c session := { c with session }
  complete := .complete
  completes := completes
  completes_complete _ _ := rfl
  eq_complete {e} h := by
    cases e with
    | complete i r => exact ⟨i, r, rfl⟩
    | _ => cases h
  step_complete _ _ _ := rfl
  object_setObject _ _ := rfl
  step_other := other_step
  exec_starts := exec_starts
  exec_returns _ _ b := (aborts_flags _ b).trans (by cases b <;> rfl)
  call_setCall _ _ := rfl
  call_receive _ b _ := by cases b <;> rfl
  init_live := rfl
  init_starts := .startBatch _ _

end BidirClient

/-! ## Handlers -/

namespace UnaryServer

variable [Serializer Req] [Serializer Rep]

def completes : Event Rep → Bool
  | .complete _ _ => true
  | _ => false

theorem finish_starts (h : UnaryCallHandler) (rep : Except Exception Rep) :
    h.call.Starts (h.finish rep).call := by
  cases rep with
  | ok v => exact .startBatch _ _
  | error e => exact .startBatch _ _

theorem perform_starts (h : UnaryCallHandler) (method : UnaryMethod Req Rep) (payload : Buffer) :
    h.call.Starts (h.perform method payload).call := by
  unfold UnaryCallHandler.perform
  cases method.invoke (deserialize payload) with
  | some rep => exact finish_starts h rep
  | none => exact .refl _

theorem other_step {method : UnaryMethod Req Rep} {c c' : UnaryServer Rep} {e : Event Rep}
    (hstep : (machine method).step c e = some c') (hother : completes e = false) :
    c'.handler.deleted = c.handler.deleted ∧ c.handler.obj.call.Starts c'.handler.obj.call := by
  cases e with
  | complete i r => cases hother
  | perform payload =>
      obtain ⟨-, hnext⟩ := Option.ite_none_left_eq_some.1 hstep
      obtain rfl := Option.some.inj hnext
      exact c.handler.starts_update (perform_starts _ method payload)
  | reply o =>
      obtain ⟨-, hnext⟩ := Option.ite_none_right_eq_some.1 hstep
      obtain rfl := Option.some.inj hnext
      exact c.handler.starts_update (finish_starts _ o)

/-- The handler of a unary call. -/
def party (method : UnaryMethod Req Rep) : Party where
  State := UnaryServer Rep
  Event := Event Rep
  Obj := UnaryCallHandler
  Batch := UnaryServerBatch
  machine := machine method
  object := handler
  setObject c handler := { c with handler }
  complete := .complete
  completes := completes
  completes_complete _ _ := rfl
  eq_complete {e} h := by
    cases e with
    | complete i r => exact ⟨i, r, rfl⟩
    | _ => cases h
  step_complete _ _ _ := rfl
  object_setObject _ _ := rfl
  step_other := other_step
  exec_starts h _ := .refl h.call
  exec_returns _ _ _ := rfl
  call_setCall _ _ := rfl
  call_receive _ _ _ := rfl
  init_live := rfl
  init_starts := .refl _

end UnaryServer

namespace StreamingServer

open ServerStreamingCallHandler

def completes : Event Rep → Bool
  | .complete _ _ => true
  | _ => false

theorem flush_starts (h : ServerStreamingCallHandler) : h.call.Starts h.flush.call := by
  unfold flush
  split
  · exact .refl _
  · cases h.pendingOps with
    | nil => exact .refl _
    | cons op rest => exact .startBatch _ _

theorem onRepliesEnd_starts (h : ServerStreamingCallHandler) (t : StreamEnd) :
    h.call.Starts (h.onRepliesEnd t).call := by
  cases t with
  | complete =>
      simp only [onRepliesEnd, finish]
      split
      · exact .startBatch _ _
      · exact .refl _
  | failed e => exact .startBatch _ _

theorem exec_starts (h : ServerStreamingCallHandler) (flags : BitVec 4) :
    h.call.Starts (h.exec flags).2.call := by
  unfold exec
  split
  · exact .refl _
  · simp only
    split
    · exact flush_starts { h with batchInFlight := false }
    · split
      · exact .startBatch _ _
      · exact .refl _

variable [Serializer Req] [Serializer Rep]

theorem push_starts (h : ServerStreamingCallHandler) (val : Rep) : h.call.Starts (h.push val).call :=
  flush_starts { h with pendingOps := h.pendingOps ++ [serialize val] }

theorem drain_starts (h : ServerStreamingCallHandler) (replies : Source Rep) :
    h.call.Starts (replies.drain ServerStreamingCallHandler.push onRepliesEnd h).call :=
  Source.drain_induction (P := fun _ (g : ServerStreamingCallHandler) => h.call.Starts g.call) (.refl _)
    (fun _ _ v _ _ ih => ih.trans (push_starts _ v))
    (fun _ _ t _ _ ih => ih.trans (onRepliesEnd_starts _ t)) replies

theorem other_step {c c' : StreamingServer Req Rep} {e : Event Rep}
    (hstep : (machine Req Rep).step c e = some c') (hother : completes e = false) :
    c'.handler.deleted = c.handler.deleted ∧ c.handler.obj.call.Starts c'.handler.obj.call := by
  cases e with
  | complete i r => cases hother
  | push rep =>
      obtain ⟨replies, -, rfl⟩ := Option.map_eq_some_iff.1 hstep
      cases replies.attached with
      | true => exact c.handler.starts_update (f := (·.push rep)) (push_starts _ rep)
      | false => exact ⟨rfl, .refl _⟩
  | finish t =>
      obtain ⟨replies, -, rfl⟩ := Option.map_eq_some_iff.1 hstep
      cases replies.attached with
      | true => exact c.handler.starts_update (f := (·.onRepliesEnd t)) (onRepliesEnd_starts _ t)
      | false => exact ⟨rfl, .refl _⟩
  | perform payload =>
      simp only [machine, step] at hstep
      split at hstep
      · cases hstep
      · obtain rfl := Option.some.inj hstep
        exact c.handler.starts_update (.startBatch _ _)
  | attach =>
      simp only [machine, step] at hstep
      split at hstep
      · obtain ⟨replies, -, rfl⟩ := Option.map_eq_some_iff.1 hstep
        exact c.handler.starts_update (drain_starts _ replies)
      · cases hstep
  | throws e =>
      simp only [machine, step] at hstep
      split at hstep
      · obtain rfl := Option.some.inj hstep
        exact c.handler.starts_update (.startBatch _ _)
      · cases hstep

/-- The handler of a server-streaming call. -/
def party (Req Rep : Type) [Serializer Req] [Serializer Rep] : Party where
  State := StreamingServer Req Rep
  Event := Event Rep
  Obj := ServerStreamingCallHandler
  Batch := StreamingServerBatch
  machine := machine Req Rep
  object := handler
  setObject c handler := { c with handler }
  complete := .complete
  completes := completes
  completes_complete _ _ := rfl
  eq_complete {e} h := by
    cases e with
    | complete i r => exact ⟨i, r, rfl⟩
    | _ => cases h
  step_complete _ _ _ := rfl
  object_setObject _ _ := rfl
  step_other := other_step
  exec_starts := exec_starts
  exec_returns _ _ _ := rfl
  call_setCall _ _ := rfl
  call_receive _ _ _ := rfl
  init_live := rfl
  init_starts := .refl _

end StreamingServer

namespace UploadServer

open ClientStreamingCallHandler

variable [Serializer Rep]

def completes : Event Rep → Bool
  | .complete _ _ => true
  | _ => false

theorem finish_starts (h : ClientStreamingCallHandler Req) (rep : Except Exception Rep) :
    h.call.Starts (h.finish rep).call := by
  cases rep with
  | ok v => exact .startBatch _ _
  | error e => exact .startBatch _ _

variable [Serializer Req]

theorem exec_starts (h : ClientStreamingCallHandler Req) (flags : BitVec 4) :
    h.call.Starts (h.exec flags).2.call := by
  simp only [exec]
  split
  · cases h.payload with
    | some rawData => exact .startBatch _ _
    | none => exact .refl _
  · exact .refl _

theorem other_step {c c' : UploadServer Req Rep} {e : Event Rep}
    (hstep : (machine Req Rep).step c e = some c') (hother : completes e = false) :
    c'.handler.deleted = c.handler.deleted ∧ c.handler.obj.call.Starts c'.handler.obj.call := by
  cases e with
  | complete i r => cases hother
  | reply o =>
      simp only [machine, step] at hstep
      split at hstep
      · cases hstep
      · obtain rfl := Option.some.inj hstep
        cases c.attached with
        | true => exact c.handler.starts_update (f := (·.finish o)) (finish_starts _ o)
        | false => exact ⟨rfl, .refl _⟩
  | startReading =>
      simp only [machine, step] at hstep
      split at hstep
      · cases hstep
      · obtain rfl := Option.some.inj hstep
        exact c.handler.starts_update (.startBatch _ _)
  | attach =>
      simp only [machine, step] at hstep
      split at hstep
      · obtain rfl := Option.some.inj hstep
        cases c.reply with
        | some o => exact c.handler.starts_update (f := (·.finish o)) (finish_starts _ o)
        | none => exact ⟨rfl, .refl _⟩
      · cases hstep

/-- The handler of a client-streaming call. -/
def party (Req Rep : Type) [Serializer Req] [Serializer Rep] : Party where
  State := UploadServer Req Rep
  Event := Event Rep
  Obj := ClientStreamingCallHandler Req
  Batch := UploadServerBatch
  machine := machine Req Rep
  object := handler
  setObject c handler := { c with handler }
  complete := .complete
  completes := completes
  completes_complete _ _ := rfl
  eq_complete {e} h := by
    cases e with
    | complete i r => exact ⟨i, r, rfl⟩
    | _ => cases h
  step_complete _ _ _ := rfl
  object_setObject _ _ := rfl
  step_other := other_step
  exec_starts := exec_starts
  exec_returns _ _ _ := rfl
  call_setCall _ _ := rfl
  call_receive o b _ := by cases b <;> rfl
  init_live := rfl
  init_starts := .refl _

end UploadServer

namespace BidirServer

open BidirStreamingCallHandler

def completes : Event Rep → Bool
  | .complete _ _ => true
  | _ => false

theorem flush_starts (h : BidirStreamingCallHandler Req) : h.call.Starts h.flush.call := by
  unfold flush
  split
  · exact .refl _
  · cases h.pendingOps with
    | nil => exact .refl _
    | cons op rest => exact .startBatch _ _

theorem onRepliesEnd_starts (h : BidirStreamingCallHandler Req) (t : StreamEnd) :
    h.call.Starts (h.onRepliesEnd t).call := by
  cases t with
  | complete =>
      simp only [onRepliesEnd, finish]
      split
      · exact .startBatch _ _
      · exact .refl _
  | failed e => exact .startBatch _ _

variable [Serializer Rep]

theorem push_starts (h : BidirStreamingCallHandler Req) (val : Rep) : h.call.Starts (h.push val).call :=
  flush_starts { h with pendingOps := h.pendingOps ++ [serialize val] }

theorem drain_starts (h : BidirStreamingCallHandler Req) (replies : Source Rep) :
    h.call.Starts (replies.drain BidirStreamingCallHandler.push onRepliesEnd h).call :=
  Source.drain_induction (P := fun _ (g : BidirStreamingCallHandler Req) => h.call.Starts g.call) (.refl _)
    (fun _ _ v _ _ ih => ih.trans (push_starts _ v))
    (fun _ _ t _ _ ih => ih.trans (onRepliesEnd_starts _ t)) replies

variable [Serializer Req]

/-- Each of the three blocks of `exec` starts batches. -/
theorem exec_starts (h : BidirStreamingCallHandler Req) (flags : BitVec 4) :
    h.call.Starts (h.exec flags).2.call := by
  simp only [exec]
  generalize hfirst : (if flags.getLsbD 3 then _ else h : BidirStreamingCallHandler Req) = h₁
  generalize hsecond : (if flags.getLsbD 1 then _ else h₁ : BidirStreamingCallHandler Req) = h₂
  have h01 : h.call.Starts h₁.call := by
    rw [← hfirst]
    split
    · refine Call.Starts.trans ?_ (.startBatch _ _)
      split
      · exact flush_starts { h with readyToSend := true }
      · exact .refl _
    · exact .refl _
  have h12 : h₁.call.Starts h₂.call := by
    rw [← hsecond]
    split
    · split
      · exact flush_starts { h₁ with readyToSend := true }
      · split
        · exact .startBatch _ _
        · exact .refl _
    · exact .refl _
  refine (h01.trans h12).trans ?_
  split
  · cases h₂.payload with
    | some rawData => exact .startBatch _ _
    | none => exact .refl _
  · exact .refl _

theorem other_step {c c' : BidirServer Req Rep} {e : Event Rep}
    (hstep : (machine Req Rep).step c e = some c') (hother : completes e = false) :
    c'.handler.deleted = c.handler.deleted ∧ c.handler.obj.call.Starts c'.handler.obj.call := by
  cases e with
  | complete i r => cases hother
  | push rep =>
      obtain ⟨replies, -, rfl⟩ := Option.map_eq_some_iff.1 hstep
      cases replies.attached with
      | true => exact c.handler.starts_update (f := (·.push rep)) (push_starts _ rep)
      | false => exact ⟨rfl, .refl _⟩
  | finish t =>
      obtain ⟨replies, -, rfl⟩ := Option.map_eq_some_iff.1 hstep
      cases replies.attached with
      | true => exact c.handler.starts_update (f := (·.onRepliesEnd t)) (onRepliesEnd_starts _ t)
      | false => exact ⟨rfl, .refl _⟩
  | attach =>
      obtain ⟨replies, -, rfl⟩ := Option.map_eq_some_iff.1 hstep
      exact c.handler.starts_update (drain_starts _ replies)
  | startHandshake =>
      simp only [machine, step] at hstep
      split at hstep
      · obtain rfl := Option.some.inj hstep
        exact c.handler.starts_update (.startBatch _ _)
      · cases hstep

/-- The handler of a bidirectional call. -/
def party (Req Rep : Type) [Serializer Req] [Serializer Rep] : Party where
  State := BidirServer Req Rep
  Event := Event Rep
  Obj := BidirStreamingCallHandler Req
  Batch := BidirServerBatch
  machine := machine Req Rep
  object := handler
  setObject c handler := { c with handler }
  complete := .complete
  completes := completes
  completes_complete _ _ := rfl
  eq_complete {e} h := by
    cases e with
    | complete i r => exact ⟨i, r, rfl⟩
    | _ => cases h
  step_complete _ _ _ := rfl
  object_setObject _ _ := rfl
  step_other := other_step
  exec_starts := exec_starts
  exec_returns _ _ _ := rfl
  call_setCall _ _ := rfl
  call_receive _ b _ := by cases b <;> rfl
  init_live := rfl
  init_starts := .refl _

end BidirServer

end EasyGrpc
