import EasyGrpc.Rpc.Messages
import EasyGrpc.Client.Proofs.FinalError
import EasyGrpc.Server.Proofs.ServerStreaming
import EasyGrpc.Server.Proofs.ClientStreaming
import EasyGrpc.Server.Proofs.BidirStreaming

set_option autoImplicit false

/-! # Malformed messages

What becomes of a buffer is the same at all eight places (`Passes`): unless the call has failed
anyway, user code is given what `deserialize` makes of it, and no call is failed on account of it.
Since `deserialize` of a protobuf message does not look at the result of the parse, a malformed
message is passed on like any other. -/

namespace EasyGrpc

/-! ## What arrives in a step -/

section

variable {σ κ : Type} [BatchSpec κ] [CompletionCallback σ κ] {o : Live σ} {i : ℕ} {b : κ}

theorem Live.incoming_eq (hlive : o.deleted = false)
    (hb : (CompletionCallback.call o.obj).outstanding[i]? = some b)
    (hread : (BatchSpec.ops b).any Op.isRecvMessage = true) (r : Received) :
    o.incoming i r = r.message.map (fun data =>
      ⟨data, !(BatchSpec.ops b).any Op.isRecvStatus || decide (r.status = .ok)⟩) := by
  rw [Live.incoming, hlive, hb, if_neg Bool.false_ne_true, Option.bind_some, if_pos hread]

/-- A batch without a read, or of a deleted object, brings no message. -/
theorem Live.incoming_none (r : Received)
    (h : o.deleted = true ∨ ∀ b, (CompletionCallback.call o.obj).outstanding[i]? = some b →
      (BatchSpec.ops b).any Op.isRecvMessage = false) : o.incoming i r = none := by
  unfold Live.incoming
  rcases h with hdel | hno
  · rw [if_pos hdel]
  · split
    · rfl
    · cases hb : (CompletionCallback.call o.obj).outstanding[i]? with
      | none => rfl
      | some b => rw [Option.bind_some, hno b hb, if_neg Bool.false_ne_true]

theorem Live.incoming_of_unread (hb : (CompletionCallback.call o.obj).outstanding[i]? = some b)
    (hno : (BatchSpec.ops b).any Op.isRecvMessage = false) (r : Received) :
    o.incoming i r = none := by
  refine Live.incoming_none r (.inr ?_)
  intro b' hb'
  obtain rfl : b = b' := Option.some.inj (hb.symm.trans hb')
  exact hno

end

/-! ## What a receiver makes of it -/

namespace Receiver

variable {σ ε T : Type}

/-- What becomes of the buffer that arrives in a step from `c` to `c'`. -/
inductive Passes [Serializer T] (R : Receiver σ ε T) (c c' : σ) : Option Incoming → Prop
  | nothing (hsame : R.messages c' = R.messages c) : Passes R c c' none
  /-- User code is given a message. -/
  | given {m : Incoming} (hok : m.accepted = true)
      (hgiven : R.messages c' = R.messages c ++ [deserialize m.data]) : Passes R c c' (some m)
  /-- There is nobody to give it to. -/
  | lost {m : Incoming} (hok : m.accepted = true) (hsame : R.messages c' = R.messages c)
      (hfailures : R.failures c' = R.failures c) : Passes R c c' (some m)
  /-- The call has failed, whatever the message. -/
  | refused {m : Incoming} (hno : m.accepted = false) (hsame : R.messages c' = R.messages c)
      (hfailed : R.failures c < R.failures c') : Passes R c c' (some m)

/-- Every step of a receiver. -/
structure PassesOn [Serializer T] (R : Receiver σ ε T) : Prop where
  init : R.messages R.machine.init = []
  step : ∀ {c c' : σ} {e : ε}, R.machine.Reachable c → R.machine.step c e = some c' →
    R.Passes c c' (R.incoming c e)

theorem Passes.account [Serializer T] {R : Receiver σ ε T} {c c' : σ} {e : ε}
    (h : R.Passes c c' (R.incoming c e)) :
    R.messages c' = R.messages c ++ (R.arrivals c e c').flatMap Arrival.given := by
  unfold arrivals
  generalize R.incoming c e = arrived at h
  cases h with
  | nothing hsame => simp [hsame]
  | given hok hgiven => simp [hgiven]
  | lost hok hsame hfailures => simp [hsame]
  | refused hno hsame hfailed => simp [hsame]

/-- In every run, the buffers that have arrived were treated as they should exactly if each of them
    that came with a call in order was a valid encoding. -/
def GuardedIffValid [MessageLite T] (R : Receiver σ ε T) : Prop :=
  ∀ s, R.watched.Reachable s →
    ((∀ a ∈ s.record, a.Guarded) ↔
      ∀ a ∈ s.record, a.accepted = true → MessageLite.Valid T a.data) ∧
    R.messages s.state = s.record.flatMap Arrival.given

theorem Passes.guarded_iff [MessageLite T] {R : Receiver σ ε T} {c c' : σ} {e : ε}
    (h : R.Passes c c' (R.incoming c e)) : ∀ a ∈ R.arrivals c e c',
      (a.Guarded ↔ (a.accepted = true → MessageLite.Valid T a.data)) := by
  intro a ha
  obtain ⟨m, hm, rfl⟩ := List.mem_map.1 ha
  rw [Option.mem_toList] at hm
  rw [hm] at h
  constructor
  · intro hguarded hok
    cases h with
    | given _ hgiven =>
        refine hguarded.parsed ?_
        simp [hgiven]
    | lost _ hsame hfailures =>
        by_contra hmalformed
        have hfailed := hguarded.failed hmalformed
        simp [hfailures] at hfailed
    | refused hno => cases hno.symm.trans hok
  · intro hvalid
    cases h with
    | given hok => exact ⟨fun _ => hvalid hok, fun hno => absurd (hvalid hok) hno⟩
    | lost hok => exact ⟨fun _ => hvalid hok, fun hno => absurd (hvalid hok) hno⟩
    | refused hno hsame hfailed =>
        refine ⟨?_, fun _ => decide_eq_true hfailed⟩
        intro hgiven
        simp [hsame] at hgiven

theorem PassesOn.guardedIffValid [MessageLite T] {R : Receiver σ ε T} (h : R.PassesOn) :
    R.GuardedIffValid := by
  intro s hs
  refine ⟨forall₂_congr ?_, ?_⟩
  · exact hs.forall_record (fun hreach hstep => (h.step hreach hstep).guarded_iff)
  · exact hs.account h.init (fun hreach hstep => (h.step hreach hstep).account)

end Receiver

open Receiver

variable {T U : Type}

/-! ## Promises of a reply, and streams -/

section

variable {σ ε : Type} [Serializer T] {R : Receiver σ ε T} {c c' : σ}

/-- A reply resolves the promise with what was deserialized, if the status is OK. -/
theorem passes_resolution (rep : σ → List (Resolution T))
    (hmessages : ∀ c, R.messages c = (rep c).filterMap Resolution.value?)
    (hfailures : ∀ c, R.failures c = ((rep c).filterMap Resolution.error?).length) {r : Received}
    (hrep : rep c' = rep c ++ [UploadClient.resolution T r]) :
    R.Passes c c' (r.message.map (fun data => ⟨data, decide (r.status = .ok)⟩)) := by
  have hmessages' := hmessages c'
  have hfailures' := hfailures c'
  rw [hrep, List.filterMap_append, ← hmessages] at hmessages'
  rw [hrep, List.filterMap_append, List.length_append, ← hfailures] at hfailures'
  by_cases hok : r.status = .ok
  · cases hmsg : r.message with
    | none =>
        refine .nothing ?_
        simpa [UploadClient.resolution, hok, hmsg, Resolution.ofBuffer, Resolution.value?,
          List.filterMap_cons] using hmessages'
    | some data =>
        refine .given (by simp [hok]) ?_
        simpa [UploadClient.resolution, hok, hmsg, Resolution.ofBuffer, Resolution.value?]
          using hmessages'
  · have hsame : R.messages c' = R.messages c := by
      simpa [UploadClient.resolution, hok, Resolution.value?, List.filterMap_cons] using hmessages'
    cases hmsg : r.message with
    | none => exact .nothing hsame
    | some data =>
        refine .refused (by simp [hok]) hsame ?_
        simp [hfailures', UploadClient.resolution, hok, Resolution.error?]

/-- A value pushed into a stream reaches it if the stream has its storage. -/
theorem passes_push (prom : σ → StreamPromise T) (hmessages : ∀ c, R.messages c = (prom c).values)
    {data : Buffer} (hpush : prom c' = (prom c).push (deserialize data))
    (hfailures : R.failures c' = R.failures c) : R.Passes c c' (some { data }) := by
  by_cases hstorage : (prom c).storage = true
  · refine .given rfl ?_
    rw [hmessages, hmessages, hpush, StreamPromise.values_push hstorage]
  · refine .lost rfl ?_ hfailures
    rw [hmessages, hmessages, hpush]
    simp [StreamPromise.push, hstorage, StreamPromise.values]

end

/-! ## The client's four sessions -/

section

variable [Serializer T] [Serializer U]

theorem unaryReplies_passesOn (req : U) : (unaryReplies T req).PassesOn where
  init := rfl
  step {c c' e} hreach hstep := by
    obtain ⟨i, r⟩ := e
    rcases UnaryClient.cases_of_reachable hreach with rfl | ⟨q, rfl⟩
    · obtain ⟨rfl, rfl⟩ := UnaryClient.complete_cases hstep
      exact passes_resolution (fun c => c.obj.rep) (fun _ => rfl) (fun _ => rfl) rfl
    · cases (UnaryClient.workerMain_resolved req q r i).symm.trans hstep

theorem streamingReplies_passesOn (req : U) : (streamingReplies T req).PassesOn where
  init := rfl
  step {c c' e} hreach hstep := by
    have hinv := StreamingClient.inv_of_reachable hreach
    rcases StreamingClient.step_cases hinv hstep with ⟨rfl, -, rfl⟩ | ⟨r, rfl, hlive, rfl⟩
    · refine .nothing ?_
      exact Live.update_obj (P := fun s : StreamingCallSession T =>
        s.replyStreamPromise.values = c.session.obj.replyStreamPromise.values) rfl rfl
    · obtain ⟨b, hout, hfinal⟩ := hinv.one hlive
      have hb : (CompletionCallback.call c.session.obj).outstanding[0]? = some b := by
        show c.session.obj.call.outstanding[0]? = some b
        rw [hout]
        rfl
      show (streamingReplies T req).Passes c _ (c.session.incoming 0 r)
      cases hfin : c.session.obj.finishing with
      | true =>
          -- The final batch reads no message.
          have hnone : c.session.incoming 0 r = none := by
            refine Live.incoming_of_unread hb ?_ r
            rw [hfin] at hfinal
            cases b with
            | final => rfl
            | _ => cases hfinal
          rw [hnone, StreamingCallSession.handled_status hfin]
          exact .nothing (StreamPromise.values_finish _ _)
      | false =>
          have hincoming : c.session.incoming 0 r = r.message.map (fun data => { data }) := by
            rw [hfin] at hfinal
            cases b with
            | first m => exact Live.incoming_eq hlive hb rfl r
            | read => exact Live.incoming_eq hlive hb rfl r
            | final => cases hfinal
          rw [hincoming]
          cases hmsg : r.message with
          | some data =>
              rw [StreamingCallSession.handled_reply hfin hmsg]
              refine passes_push (fun c => c.session.obj.replyStreamPromise) (fun _ => rfl) rfl ?_
              exact congrArg (fun ends => (ends.filterMap StreamEnd.error?).length)
                (StreamPromise.ends_push _ _)
          | none =>
              rw [StreamingCallSession.handled_end hfin hmsg]
              exact .nothing rfl

/-- Only the last batch of a session touches the reply, and only it brings a message. -/
theorem uploadReplies_complete {c c' : UploadClient U T} {i : ℕ} {r : Received} (hinv : c.Inv)
    (hstep : c.step (.complete i r) = some c') :
    (uploadReplies T U).Passes c c' (c.session.incoming i r) := by
  rcases UploadClient.rep_step hinv hstep with ⟨hrep, -, hother⟩ |
    ⟨j, q, he, hlive, -, hb, hrep⟩
  · obtain ⟨b, hb, hend⟩ := hother i r rfl
    have hnone : c.session.incoming i r = none := by
      refine Live.incoming_of_unread hb ?_ r
      cases b <;> first | rfl | cases hend
    rw [hnone]
    exact .nothing (congrArg (List.filterMap Resolution.value?) hrep)
  · obtain ⟨rfl, rfl⟩ : i = j ∧ r = q := by simpa using he
    rw [Live.incoming_eq hlive hb rfl]
    refine passes_resolution (fun c => c.session.obj.rep) (fun _ => rfl) (fun _ => rfl) ?_
    show c'.session.obj.rep = c.session.obj.rep ++ _
    rw [hrep, (hinv.counts.last_live hlive).2]
    rfl

theorem uploadReplies_passesOn : (uploadReplies T U).PassesOn where
  init := rfl
  step {c c' e} hreach hstep := by
    have hnext : c.step e = some c' := hstep
    let P : ClientStreamingCallSession T → Prop := fun s =>
      s.rep.filterMap Resolution.value? = c.session.obj.rep.filterMap Resolution.value?
    cases UploadClient.moves_of_step hnext with
    | setFlag hfirst => exact .nothing (Live.update_obj (P := P) rfl rfl)
    | listen hset => exact .nothing rfl
    | leave hlistening => exact .nothing rfl
    | push hret hopen =>
        exact .nothing (Live.update_obj (P := P) rfl (congrArg _ (UploadClient.rep_flush _)))
    | finish hret hopen =>
        exact .nothing
          (Live.update_obj (P := P) rfl (congrArg _ (UploadClient.rep_onRequestsEnd _ _)))
    | @complete i r session hwork =>
        rcases UploadClient.inv_or_stalled hreach with rfl | ⟨-, hinv⟩ | hstalled
        · -- Only the handshake is outstanding yet.
          cases i with
          | zero =>
              obtain rfl := Option.some.inj hwork
              exact .nothing rfl
          | succ i => cases hwork
        · exact uploadReplies_complete hinv hnext
        · obtain ⟨b, hb, -⟩ := Live.workerMain_eq_some hwork
          have hb' : c.session.obj.call.outstanding[i]? = some b := hb
          rw [List.isEmpty_iff.1 hstalled.quiet] at hb'
          cases hb'

theorem bidirReplies_passesOn : (bidirReplies T U).PassesOn where
  init := rfl
  step {c c' e} hreach hstep := by
    have hnext : c.step e = some c' := hstep
    let P : BidirStreamingCallSession T → Prop := fun s => s.rep.values = c.session.obj.rep.values
    cases BidirClient.moves_of_step hnext with
    | @push req hret hopen =>
        have hsend := BidirStreamingCallSession.SendStep.onRequest c.session.obj req
        exact .nothing (Live.update_obj (P := P) rfl (congrArg _ hsend.rep))
    | @finish t hret hopen =>
        have hsend := BidirStreamingCallSession.SendStep.onRequestsEnd c.session.obj t
        exact .nothing (Live.update_obj (P := P) rfl (congrArg _ hsend.rep))
    | getFuture hret => exact .nothing (Live.update_obj (P := P) rfl rfl)
    | @complete i r session hwork =>
        show (bidirReplies T U).Passes c _ (c.session.incoming i r)
        rcases BidirClient.rep_complete hwork with ⟨hrep, -, -, hother⟩ |
          ⟨hlive, -, hb, hread⟩ | ⟨hlive, -, hb, ⟨t, -, hrep⟩, -⟩
        · have hnone : c.session.incoming i r = none := by
            refine Live.incoming_none r (hother.imp_right ?_)
            rintro ⟨hread, -⟩ b hb
            cases b with
            | read => exact absurd hb hread
            | _ => rfl
          rw [hnone]
          exact .nothing (congrArg StreamPromise.values hrep)
        · rw [Live.incoming_eq hlive hb rfl]
          rcases hread with ⟨data, hmsg, hrep, -⟩ | ⟨hmsg, hrep, -⟩
          · rw [hmsg]
            refine passes_push (fun c => c.session.obj.rep) (fun _ => rfl) hrep ?_
            have hends : session.obj.rep.ends = c.session.obj.rep.ends := by
              rw [hrep]
              exact StreamPromise.ends_push _ _
            exact congrArg (fun ends => (ends.filterMap StreamEnd.error?).length) hends
          · rw [hmsg]
            exact .nothing (congrArg StreamPromise.values hrep)
        · have hnone : c.session.incoming i r = none := Live.incoming_of_unread hb rfl r
          rw [hnone]
          refine .nothing ?_
          show session.obj.rep.values = c.session.obj.rep.values
          rw [hrep]
          exact StreamPromise.values_finish _ _

end

/-! ## The server's four handlers -/

section

variable [Serializer T] [Serializer U]

/-- `perform` runs once. -/
theorem UnaryServing.req_of_unperformed {method : UnaryMethod T U} {c : UnaryServing T U}
    (h : (machine method).Reachable c) : c.server.performed = false → c.req = none := by
  induction h with
  | init => exact fun _ => rfl
  | @step c c' e hs hstep ih =>
      obtain ⟨server, hserver, rfl⟩ := Option.map_eq_some_iff.1 hstep
      cases e with
      | perform payload =>
          obtain ⟨-, hserver⟩ := Option.ite_none_left_eq_some.1 hserver
          cases hserver
          intro hno
          cases hno
      | reply o =>
          obtain ⟨-, hserver⟩ := Option.ite_none_right_eq_some.1 hserver
          cases hserver
          exact ih
      | complete i r =>
          obtain ⟨handler, -, rfl⟩ := Option.map_eq_some_iff.1 hserver
          exact ih

/-- `req` is what the user's handler is called with. -/
theorem UnaryServing.invoked_with_req {method : UnaryMethod T U} {c c' : UnaryServing T U}
    {payload : Buffer} (hstep : c.step method (.perform payload) = some c') :
    ∃ req, c'.req = some req ∧ c'.server.outcome = method.invoke req := by
  obtain ⟨server, hserver, rfl⟩ := Option.map_eq_some_iff.1 hstep
  obtain ⟨-, hserver⟩ := Option.ite_none_left_eq_some.1 hserver
  cases hserver
  exact ⟨_, rfl, rfl⟩

theorem unaryRequests_passesOn (method : UnaryMethod T U) : (unaryRequests method).PassesOn where
  init := rfl
  step {c c' e} hreach hstep := by
    obtain ⟨server, hserver, rfl⟩ := Option.map_eq_some_iff.1 hstep
    cases e with
    | perform payload =>
        obtain ⟨hfirst, -⟩ := Option.ite_none_left_eq_some.1 hserver
        have hnone := UnaryServing.req_of_unperformed hreach (by simpa using hfirst)
        refine .given rfl ?_
        show [deserialize payload] = c.req.toList ++ [deserialize payload]
        rw [hnone]
        rfl
    | reply o => exact .nothing rfl
    | complete i r => exact .nothing rfl

theorem streamingRequests_passesOn : (streamingRequests T U).PassesOn where
  init := rfl
  step {c c' e} hreach hstep := by
    have hnext : c.step e = some c' := hstep
    cases StreamingServer.moves_of_step hnext with
    | @perform payload hreq =>
        have hnone : c.req = none := by simpa using hreq
        refine .given rfl ?_
        show [deserialize payload] = c.req.toList ++ [deserialize payload]
        rw [hnone]
        rfl
    | _ => exact .nothing rfl

/-- A request that is read reaches the stream, and no status is sent. -/
theorem passes_request {σ ε : Type} {R : Receiver σ ε T} {c c' : σ} (prom : σ → StreamPromise T)
    (hmessages : ∀ c, R.messages c = (prom c).values) {r : Received}
    (hstorage : (prom c).storage = true)
    (hread : (∃ data, r.message = some data ∧ prom c' = (prom c).push (deserialize data)) ∨
      (r.message = none ∧ prom c' = (prom c).complete)) :
    R.Passes c c' (r.message.map (fun data => { data })) := by
  rcases hread with ⟨data, hmsg, hpush⟩ | ⟨hmsg, hcomplete⟩
  · rw [hmsg]
    refine .given rfl ?_
    rw [hmessages, hmessages, hpush, StreamPromise.values_push hstorage]
  · rw [hmsg]
    refine .nothing ?_
    rw [hmessages, hmessages, hcomplete]
    exact StreamPromise.values_finish _ _

theorem uploadRequests_passesOn : (uploadRequests T U).PassesOn where
  init := rfl
  step {c c' e} hreach hstep := by
    have hnext : c.step e = some c' := hstep
    rcases UploadServer.reader_step hnext with ⟨hsame, -, hother⟩ |
      ⟨i, r, b, rfl, hlive, -, hb, hread, hcase⟩
    · have hnone : (uploadRequests T U).incoming c e = none := by
        cases e with
        | complete i r =>
            refine Live.incoming_none r ((hother i r rfl).imp_right ?_)
            rintro ⟨b, hb, hno⟩ b' hb'
            obtain rfl : b = b' := Option.some.inj (hb.symm.trans hb')
            cases b <;> first | rfl | cases hno
        | _ => rfl
      rw [hnone]
      exact .nothing (congrArg StreamPromise.values hsame)
    · have hincoming : c.handler.incoming i r = r.message.map (fun data => { data }) := by
        cases b with
        | first => exact Live.incoming_eq hlive hb rfl r
        | recv => exact Live.incoming_eq hlive hb rfl r
        | _ => cases hread
      show (uploadRequests T U).Passes c c' (c.handler.incoming i r)
      rw [hincoming]
      exact passes_request (fun c => c.handler.obj.readerProm) (fun _ => rfl)
        ((UploadServer.inv_of_reachable hreach).reader_open hb hread) hcase

theorem bidirRequests_passesOn : (bidirRequests T U).PassesOn where
  init := rfl
  step {c c' e} hreach hstep := by
    have hnext : c.step e = some c' := hstep
    rcases BidirServer.reader_step hnext with ⟨hsame, -, hother⟩ |
      ⟨i, r, rfl, hlive, -, hb, hcase⟩
    · have hnone : (bidirRequests T U).incoming c e = none := by
        cases e with
        | complete i r =>
            refine Live.incoming_none r ((hother i r rfl).imp_right ?_)
            intro hne b hb
            cases b with
            | recv => exact absurd hb hne
            | _ => rfl
        | _ => rfl
      rw [hnone]
      exact .nothing (congrArg StreamPromise.values hsame)
    · show (bidirRequests T U).Passes c c' (c.handler.incoming i r)
      rw [Live.incoming_eq hlive hb rfl]
      exact passes_request (fun c => c.handler.obj.readerProm) (fun _ => rfl)
        ((BidirServer.inv_of_reachable hreach).reader_open hb) hcase

end

/-! ## All eight -/

/-- **A malformed message reaches user code**, wherever it arrives: in every run of each of the four
    sessions and the four handlers, messages are guarded exactly if every buffer that arrives, but
    for a reply with a status that is not OK, is a valid encoding. -/
theorem messages_guarded_iff_valid [MessageLite T] [Serializer U] (req : U)
    (method : UnaryMethod T U) :
    (unaryReplies T req).GuardedIffValid ∧ (streamingReplies T req).GuardedIffValid ∧
    (uploadReplies T U).GuardedIffValid ∧ (bidirReplies T U).GuardedIffValid ∧
    (unaryRequests method).GuardedIffValid ∧ (streamingRequests T U).GuardedIffValid ∧
    (uploadRequests T U).GuardedIffValid ∧ (bidirRequests T U).GuardedIffValid :=
  ⟨(unaryReplies_passesOn req).guardedIffValid, (streamingReplies_passesOn req).guardedIffValid,
    uploadReplies_passesOn.guardedIffValid, bidirReplies_passesOn.guardedIffValid,
    (unaryRequests_passesOn method).guardedIffValid, streamingRequests_passesOn.guardedIffValid,
    uploadRequests_passesOn.guardedIffValid, bidirRequests_passesOn.guardedIffValid⟩

/-- A message with the one field `bool value = 1`. -/
structure Flag where
  value : Bool := false
deriving DecidableEq, Repr

/-- The fields of an encoding, one after the other; the last one counts. Neither unknown fields nor
    varints of more than one byte are read. -/
def Flag.parseFields : Flag → Buffer → Flag × Bool
  | msg, [] => (msg, true)
  | msg, [_] => (msg, false)
  | msg, tag :: v :: rest =>
      if tag = 8 ∧ v < 128 then parseFields ⟨decide (v ≠ 0)⟩ rest else (msg, false)

instance : MessageLite Flag where
  serializeWithCachedSizesToArray msg := if msg.value then [8, 1] else []
  parseFromArray := Flag.parseFields {}
  Valid b := (Flag.parseFields {} b).2 = true
  parse_iff _ := Iff.rfl
  parse_serialize := by
    rintro ⟨_ | _⟩ <;> decide

instance : DecidablePred (MessageLite.Valid Flag) :=
  fun b => inferInstanceAs (Decidable ((Flag.parseFields {} b).2 = true))

/-- A server streams the value true in order, and ends the call. -/
theorem messages_guarded_iff_valid_flag :
    ∃ s, (streamingReplies Flag ([1] : Buffer)).watched.Reachable s ∧
      s.state.session.obj.replyStreamPromise.log = [.push ⟨true⟩, .finish .complete] ∧
      ∀ a ∈ s.record, a.Guarded := by
  have hrun : (streamingReplies Flag ([1] : Buffer)).watched.Reachable _ :=
    Machine.reachable_of_run
      [.getFuture, .complete 0 { message := some [8, 1] }, .complete 0 {}, .complete 0 {}] rfl
  have hiff := (messages_guarded_iff_valid ([1] : Buffer)
    (.sync fun _ : Flag => .ok ([2] : Buffer))).2.1 _ hrun
  have hvalid : MessageLite.Valid Flag [8, 1] := by decide
  refine ⟨_, hrun, rfl, hiff.1.2 ?_⟩
  intro a ha _
  obtain rfl := List.mem_singleton.1 ha
  exact hvalid

/-- A unary call is answered with the encoding of the value true, followed by the first byte of
    another field: the caller's future gets the value. -/
theorem truncated_reply_given :
    ∃ s, (unaryReplies Flag ([1] : Buffer)).watched.run
        (unaryReplies Flag ([1] : Buffer)).watched.init
        [.complete 0 { message := some [8, 1, 8] }] = some s ∧
      s.state.obj.rep = [.value ⟨true⟩] ∧ ¬ MessageLite.Valid Flag [8, 1, 8] ∧
      ¬ ∀ a ∈ s.record, a.Guarded := by
  have hmalformed : ¬ MessageLite.Valid Flag [8, 1, 8] := by decide
  refine ⟨_, rfl, rfl, hmalformed, ?_⟩
  intro hall
  exact hmalformed ((hall _ (List.mem_singleton.2 rfl)).parsed (by decide))

end EasyGrpc
