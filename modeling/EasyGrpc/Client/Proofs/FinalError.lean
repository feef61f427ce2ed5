import EasyGrpc.Client.Proofs.SettleOnce
import EasyGrpc.Client.Proofs.StartCall

set_option autoImplicit false

/-! # What the caller learns about a call that failed

Each of the four sessions turns a final status other than `GRPC_STATUS_OK` into an `Rpc_error` of
its own making. Three of them take the text from `status_details_`, through a C string, so it ends
where a NUL stands; the bidirectional session takes it from `error_string_`, a text of gRPC core
about itself, which may also be null. -/

namespace EasyGrpc

variable {Req Rep : Type}

/-- The error a final status stands for: it has the code and the details text. -/
def Exception.IsFinalError (e : Exception) (r : Received) : Prop :=
  ∃ what, e = .rpcError ⟨r.status, what⟩ ∧ what.text = r.statusDetails

/-- The error that is made from `status_details_`. -/
def detailsError (r : Received) : Exception := .rpcError ⟨r.status, .ofText r.statusDetails⟩

/-- Only a NUL keeps details from being the text of an error. -/
theorem isFinalError_detailsError (r : Received) :
    (detailsError r).IsFinalError r ↔ '\x00' ∉ r.statusDetails.toList := by
  rw [← CString.text_ofText]
  constructor
  · rintro ⟨what, heq, htext⟩
    obtain rfl : CString.ofText r.statusDetails = what := by simpa [detailsError] using heq
    exact htext
  · exact fun htext => ⟨_, rfl, htext⟩

/-- The completion of the `i`-th outstanding batch writes `status_` and `status_details_` of a
    session that still exists. -/
def BringsStatus {σ κ : Type} [BatchSpec κ] [CompletionCallback σ κ] (o : Live σ) (i : ℕ) : Prop :=
  o.deleted = false ∧ ∃ b, (CompletionCallback.call o.obj).outstanding[i]? = some b ∧
    Op.recvStatusOnClient ∈ BatchSpec.ops b

/-- **Reporting the final status.** In every run of `M`, a completion that brings a status other
    than `GRPC_STATUS_OK` is handled and leaves the reply settled once, with the error of that
    status, exactly where `holds` is true of the state before it and of what it brings. -/
def ReportsError {τ ε σ κ : Type} [BatchSpec κ] [CompletionCallback σ κ] (M : Machine τ ε)
    (session : τ → Live σ) (complete : ℕ → Received → ε) (settled : σ → List (Option Exception))
    (holds : τ → Received → Prop) : Prop :=
  ∀ c i r, M.Reachable c → BringsStatus (session c) i → r.status ≠ .ok →
    ((∃ c' e, M.step c (complete i r) = some c' ∧ settled (session c').obj = [some e] ∧
      e.IsFinalError r) ↔ holds c r)

/-- How a reply is settled by a final status decides whether the status is reported. -/
theorem ReportsError.of_settled {τ ε σ κ : Type} [BatchSpec κ] [CompletionCallback σ κ]
    {M : Machine τ ε} {session : τ → Live σ} {complete : ℕ → Received → ε}
    {settled : σ → List (Option Exception)} {holds : τ → Received → Prop}
    {errors : τ → Received → List (Option Exception)}
    (hsettled : ∀ {c i r}, M.Reachable c → BringsStatus (session c) i → r.status ≠ .ok →
      ∃ c', M.step c (complete i r) = some c' ∧ settled (session c').obj = errors c r)
    (hholds : ∀ c r, (∃ e, errors c r = [some e] ∧ e.IsFinalError r) ↔ holds c r) :
    ReportsError M session complete settled holds := by
  intro c i r hreach hbrings hr
  obtain ⟨c', hstep, herrors⟩ := hsettled hreach hbrings hr
  rw [← hholds]
  constructor
  · rintro ⟨c'', e, hstep', he, hfinal⟩
    obtain rfl : c' = c'' := Option.some.inj (hstep.symm.trans hstep')
    exact ⟨e, herrors ▸ he, hfinal⟩
  · rintro ⟨e, he, hfinal⟩
    exact ⟨c', e, hstep, herrors.trans he, hfinal⟩

/-! ## The promises of a single reply -/

def UnaryCallCompletion.settled (s : UnaryCallCompletion Rep) : List (Option Exception) :=
  s.rep.map Resolution.error?

def ClientStreamingCallSession.settled (s : ClientStreamingCallSession Rep) :
    List (Option Exception) :=
  s.rep.map Resolution.error?

theorem UploadClient.error_resolution (Rep : Type) [Serializer Rep] {r : Received}
    (hr : r.status ≠ .ok) :
    (UploadClient.resolution Rep r).error? = some (detailsError r) := by
  simp [UploadClient.resolution, hr, Resolution.error?, detailsError]

/-- Where the reply is settled with the error of the details. -/
theorem reported_details {τ : Type} (_ : τ) (r : Received) :
    (∃ e, [some (detailsError r)] = [some e] ∧ e.IsFinalError r) ↔
      '\x00' ∉ r.statusDetails.toList := by
  simp [isFinalError_detailsError]

theorem UnaryClient.settled_status [Serializer Req] [Serializer Rep] {req : Req}
    {c : Live (UnaryCallCompletion Rep)} {i : ℕ} {r : Received}
    (hreach : (machine Rep req).Reachable c) (hbrings : BringsStatus c i) (hr : r.status ≠ .ok) :
    ∃ c', (machine Rep req).step c (.complete i r) = some c' ∧
      c'.obj.settled = [some (detailsError r)] := by
  obtain ⟨-, b, hb, -⟩ := hbrings
  have hwork : (c.workerMain i r).isSome = true := Live.isSome_workerMain hb rfl
  obtain ⟨c', hstep⟩ := Option.isSome_iff_exists.1 hwork
  refine ⟨c', hstep, ?_⟩
  rcases UnaryClient.cases_of_reachable hreach with rfl | ⟨q, rfl⟩
  · obtain ⟨-, rfl⟩ := UnaryClient.complete_cases hstep
    have herror := UploadClient.error_resolution Rep hr
    simp [UnaryCallCompletion.settled, UnaryClient.resolved, herror]
  · exact absurd ((UnaryClient.workerMain_resolved req q r i).symm.trans hstep) (by simp)

namespace UploadClient

variable [Serializer Req] [Serializer Rep]

/-- A call is either as its constructor means it to be, or it was stalled by its handshake. -/
theorem inv_or_stalled {c : UploadClient Req Rep} (h : (machine Req Rep).Reachable c) :
    c = (machine Req Rep).init ∨ c.construction ≠ .batchStarted ∧ c.Inv ∨ c.Stalled := by
  induction h with
  | init => exact Or.inl rfl
  | @step c c' e _ hnext ih =>
      rcases ih with rfl | ⟨hset, hinv⟩ | hstalled
      · cases e with
        | construct =>
            obtain rfl := Option.some.inj hnext
            exact Or.inr (Or.inl ⟨by simp, inv_flagSet rfl rfl rfl⟩)
        | push req => exact absurd hnext (by simp [machine, step])
        | finish t => exact absurd hnext (by simp [machine, step])
        | complete i r => exact Or.inr (Or.inr (stalled_of_early_handshake rfl hnext))
      · exact Or.inr (Or.inl ⟨(construction_step hnext hset).1, inv_step hnext hset hinv⟩)
      · exact Or.inr (Or.inr (hstalled.step hnext))

theorem settled_status {c : UploadClient Req Rep} {i : ℕ} {r : Received}
    (hreach : (machine Req Rep).Reachable c) (hbrings : BringsStatus c.session i)
    (hr : r.status ≠ .ok) : ∃ c', (machine Req Rep).step c (.complete i r) = some c' ∧
      c'.session.obj.settled = [some (detailsError r)] := by
  obtain ⟨-, b, hb, hmem⟩ := hbrings
  have hb' : c.session.obj.call.outstanding[i]? = some b := hb
  have hwork : (c.session.workerMain i r).isSome = true := Live.isSome_workerMain hb rfl
  obtain ⟨session, hwork⟩ := Option.isSome_iff_exists.1 hwork
  have hnext : c.step (.complete i r) = some { c with session } := by
    rw [step, hwork, Option.map_some]
  refine ⟨_, hnext, ?_⟩
  rcases inv_or_stalled hreach with rfl | ⟨-, hinv⟩ | hstalled
  · -- Only the handshake is outstanding yet.
    obtain ⟨hlt, rfl⟩ := List.getElem?_eq_some_iff.1 hb'
    obtain rfl : i = 0 := Nat.lt_one_iff.1 hlt
    exact absurd hmem (show Op.recvStatusOnClient ∉ BatchSpec.ops UploadClientBatch.handshake by decide)
  · rcases rep_step hinv hnext with ⟨-, -, hother⟩ | ⟨j, q, he, -, -, -, hrep⟩
    · obtain ⟨b', hb'', hend⟩ := hother i r rfl
      obtain rfl : b = b' := Option.some.inj (hb'.symm.trans hb'')
      cases b with
      | handshake => exact absurd hmem (by decide)
      | write m => exact absurd hmem (by simp [BatchSpec.ops])
      | sendEnd => exact absurd hend (by decide)
    · obtain ⟨rfl, rfl⟩ : i = j ∧ r = q := by simpa using he
      simp only [ClientStreamingCallSession.settled]
      rw [hrep, List.map_singleton, error_resolution Rep hr]
  · rw [List.isEmpty_iff.1 hstalled.quiet] at hb'
    exact absurd hb' (by simp)

end UploadClient

/-! ## The reply streams -/

/-- A reply stream of a session that exists: nothing has ended it, and its storage is there once the
    caller has its future. -/
structure ReplyOpen (p : StreamPromise Rep) (returned : Bool) : Prop where
  ends : p.ends = []
  storage : p.storage = returned

theorem ReplyOpen.push {p : StreamPromise Rep} {returned : Bool} (h : ReplyOpen p returned)
    (v : Rep) : ReplyOpen (p.push v) returned :=
  ⟨(StreamPromise.ends_push p v).trans h.ends, (StreamPromise.storage_push p v).trans h.storage⟩

theorem ReplyOpen.getFuture {p : StreamPromise Rep} {returned : Bool} (h : ReplyOpen p returned) :
    ReplyOpen p.getFuture true :=
  ⟨h.ends, rfl⟩

/-- The end reaches the caller exactly if the caller has the stream. -/
theorem ReplyOpen.ends_finish {p : StreamPromise Rep} {returned : Bool} (h : ReplyOpen p returned)
    (t : StreamEnd) : (p.finish t).ends = if returned then [t] else [] := by
  by_cases hret : returned = true
  · rw [StreamPromise.ends_finish (h.storage.trans hret), h.ends, if_pos hret]
    rfl
  · have hstorage : p.storage = false := by
      rw [h.storage]
      exact Bool.eq_false_iff.2 hret
    rw [if_neg hret]
    simpa [StreamPromise.finish, hstorage, StreamPromise.ends] using h.ends

def StreamingCallSession.settled (s : StreamingCallSession Rep) : List (Option Exception) :=
  s.replyStreamPromise.ends.map StreamEnd.error?

def BidirStreamingCallSession.settled (s : BidirStreamingCallSession Rep) :
    List (Option Exception) :=
  s.rep.ends.map StreamEnd.error?

namespace StreamingClient

open StreamingCallSession

variable [Serializer Req] [Serializer Rep]

theorem replyOpen_of_reachable {req : Req} {c : StreamingClient Rep}
    (h : (machine Rep req).Reachable c) :
    c.session.deleted = false → ReplyOpen c.session.obj.replyStreamPromise c.returned := by
  induction h with
  | init => exact fun _ => ⟨rfl, rfl⟩
  | @step c c' e hs hnext ih =>
      intro hlive'
      rcases step_cases (inv_of_reachable hs) hnext with ⟨-, hret, rfl⟩ | ⟨r, -, hlive, rfl⟩
      · have hlive : c.session.deleted = false := by simpa using hlive'
        rw [Live.update_of_live hlive]
        exact (ih hlive).getFuture
      · by_cases hfin : c.session.obj.finishing = true
        · rw [handled_status hfin] at hlive'
          exact absurd hlive' (by simp)
        · have hfin : c.session.obj.finishing = false := by simpa using hfin
          cases hmsg : r.message with
          | some data =>
              rw [handled_reply hfin hmsg]
              exact (ih hlive).push _
          | none =>
              rw [handled_end hfin hmsg]
              exact ih hlive

theorem settled_status {req : Req} {c : StreamingClient Rep} {i : ℕ} {r : Received}
    (hreach : (machine Rep req).Reachable c) (hbrings : BringsStatus c.session i)
    (hr : r.status ≠ .ok) : ∃ c', (machine Rep req).step c (.complete i r) = some c' ∧
      c'.session.obj.settled = if c.returned then [some (detailsError r)] else [] := by
  obtain ⟨hlive, b, hb, hmem⟩ := hbrings
  have hinv := inv_of_reachable hreach
  have hwork : (c.session.workerMain i r).isSome = true := Live.isSome_workerMain hb rfl
  obtain ⟨session, hwork⟩ := Option.isSome_iff_exists.1 hwork
  have hnext : c.step (.complete i r) = some { c with session } := by
    rw [step, hwork, Option.map_some]
  refine ⟨_, hnext, ?_⟩
  rcases step_cases hinv hnext with ⟨he, -⟩ | ⟨q, he, -, heq⟩
  · exact absurd he (by simp)
  obtain ⟨rfl, rfl⟩ : i = 0 ∧ r = q := by simpa using he
  obtain ⟨b', hout, hfinal⟩ := hinv.one hlive
  have hb' : c.session.obj.call.outstanding[0]? = some b := hb
  rw [hout] at hb'
  obtain rfl : b' = b := Option.some.inj hb'
  -- Of the batches of the session only the final one asks for the status.
  have hfin : c.session.obj.finishing = true := by
    rw [← hfinal]
    cases b' with
    | first m => exact absurd hmem (by simp [BatchSpec.ops])
    | read => exact absurd hmem (by decide)
    | final => rfl
  have hends := (replyOpen_of_reachable hreach hlive).ends_finish (finalEnd r.status r.statusDetails)
  rw [heq, handled_status hfin]
  show (StreamPromise.ends _).map _ = _
  rw [afterStatus, hends]
  by_cases hret : c.returned = true
  · simp [hret, finalEnd, hr, StreamEnd.error?, detailsError]
  · simp [hret]

end StreamingClient

namespace BidirClient

open BidirStreamingCallSession BidirClientBatch

variable [Serializer Req] [Serializer Rep]

/-- What is known of the reply stream while the session exists. -/
structure Replying (c : BidirClient Req Rep) : Prop where
  unreturned : c.returned = false → c.requests.terminal = none
  reply : c.session.deleted = false → ReplyOpen c.session.obj.rep c.returned

theorem replying_of_reachable {c : BidirClient Req Rep} (h : (machine Req Rep).Reachable c) :
    c.Replying := by
  induction h with
  | init => exact ⟨fun _ => rfl, fun _ => ⟨rfl, rfl⟩⟩
  | @step c c' e hs hnext ih =>
      have hinv := inv_of_reachable hs
      cases moves_of_step hnext with
      | @push req hret hopen =>
          have hlive := hinv.live_of_open hopen
          refine ⟨fun hno => absurd (hret.symm.trans hno) (by simp), fun _ => ?_⟩
          rw [Live.update_of_live hlive, (SendStep.onRequest _ req).rep]
          exact ih.reply hlive
      | @finish t hret hopen =>
          have hlive := hinv.live_of_open hopen
          refine ⟨fun hno => absurd (hret.symm.trans hno) (by simp), fun _ => ?_⟩
          rw [Live.update_of_live hlive, (SendStep.onRequestsEnd _ t).rep]
          exact ih.reply hlive
      | getFuture hret =>
          have hlive := hinv.live_of_open (ih.unreturned hret)
          refine ⟨fun hno => absurd hno (by simp), fun _ => ?_⟩
          rw [Live.update_of_live hlive]
          exact (ih.reply hlive).getFuture
      | @complete i r session hwork =>
          refine ⟨ih.unreturned, fun hlive' => ?_⟩
          rcases rep_complete hwork with ⟨hrep, hdel, -, -⟩ | ⟨hlive, -, -, hread⟩ |
            ⟨-, hdel', -⟩
          · rw [hrep]
            exact ih.reply (hdel.symm.trans hlive')
          · rcases hread with ⟨data, -, hrep, -⟩ | ⟨-, hrep, -⟩
            · rw [hrep]
              exact (ih.reply hlive).push _
            · rw [hrep]
              exact ih.reply hlive
          · exact absurd (hdel'.symm.trans hlive') (by simp)

/-- The status is asked for only after the request stream has ended, so after `get_future`. -/
theorem returned_of_status {c : BidirClient Req Rep} (h : (machine Req Rep).Reachable c) {i : ℕ}
    (hb : c.session.obj.call.outstanding[i]? = some .status) : c.returned = true := by
  by_contra hno
  have hopen := (replying_of_reachable h).unreturned (by simpa using hno)
  have hinv := inv_of_reachable h
  have hpos := Call.pending_pos hb (p := isStatus) rfl
  have hle := hinv.counts.status_le
  have hclose := (hinv.counts.status_started (by omega)).2
  have hended : c.session.obj.finishedSending = true :=
    hinv.outbox.closed_ended (by simp [toOutbox, hclose])
  rw [hinv.ended, hopen] at hended
  exact absurd hended (by simp)

omit [Serializer Req] in
theorem status_of_brings {o : Live (BidirStreamingCallSession Rep)} {i : ℕ}
    (hbrings : BringsStatus o i) : o.obj.call.outstanding[i]? = some .status := by
  obtain ⟨-, b, hb, hmem⟩ := hbrings
  have hb' : o.obj.call.outstanding[i]? = some b := hb
  rw [hb']
  cases b with
  | handshake => exact absurd hmem (by decide)
  | write m => exact absurd hmem (by simp [BatchSpec.ops])
  | close => exact absurd hmem (by decide)
  | read => exact absurd hmem (by decide)
  | status => rfl

/-- The session makes its error from `error_string_`. -/
theorem settled_status {c c' : BidirClient Req Rep} {i : ℕ} {r : Received}
    (hreach : (machine Req Rep).Reachable c) (hbrings : BringsStatus c.session i)
    (hr : r.status ≠ .ok) (hstep : (machine Req Rep).step c (.complete i r) = some c') :
    ∃ what, r.errorString = some what ∧
      c'.session.obj.settled = [some (.rpcError ⟨r.status, what⟩)] := by
  have hb := status_of_brings hbrings
  have hret := returned_of_status hreach hb
  obtain ⟨session, hwork, rfl⟩ := Option.map_eq_some_iff.1 hstep
  rcases rep_complete hwork with ⟨-, -, -, hdead | hne⟩ | ⟨-, -, hread, -⟩ |
    ⟨-, -, -, ⟨t, hend, hrep⟩, -⟩
  · exact absurd (hbrings.1.symm.trans hdead) (by simp)
  · exact absurd hb hne.2
  · exact absurd (hb.symm.trans hread) (by simp)
  · rw [finalEnd, if_neg hr, Option.map_eq_some_iff] at hend
    obtain ⟨what, herror, rfl⟩ := hend
    refine ⟨what, herror, ?_⟩
    have hends := ((replying_of_reachable hreach).reply hbrings.1).ends_finish
      (.failed (.rpcError ⟨r.status, what⟩))
    show (StreamPromise.ends session.obj.rep).map _ = _
    rw [hrep, hends, if_pos hret]
    rfl

/-- **A null `error_string_` ends the process**, and nothing else does. -/
theorem aborts_iff {c : BidirClient Req Rep} {i : ℕ} {r : Received}
    (hbrings : BringsStatus c.session i) (hr : r.status ≠ .ok) :
    (machine Req Rep).step c (.complete i r) = none ↔ r.errorString = none := by
  have hb := status_of_brings hbrings
  have hend : finalEnd r.status r.errorString = none ↔ r.errorString = none := by
    rw [finalEnd, if_neg hr, Option.map_eq_none_iff]
  have hstep : (machine Req Rep).step c (.complete i r) = none ↔
      c.session.workerMain i r = none := Option.map_eq_none_iff
  rw [hstep, ← hend]
  constructor
  · intro hnone
    by_contra hsome
    have hwork := isSome_complete hb (r := r) (fun _ => Option.isSome_iff_ne_none.2 hsome)
    rw [hnone] at hwork
    cases hwork
  · intro hnone
    have haborts := aborts_status c.session.obj i r
    rw [hnone, Option.isNone_none] at haborts
    rw [Live.workerMain_of_live hbrings.1 hb]
    exact if_pos haborts

theorem reportsError :
    ReportsError (machine Req Rep) session .complete BidirStreamingCallSession.settled
      (fun _ r => ∃ what, r.errorString = some what ∧ what.text = r.statusDetails) := by
  intro c i r hreach hbrings hr
  constructor
  · rintro ⟨c', e, hstep, he, hfinal⟩
    obtain ⟨what, herror, hsettled⟩ := settled_status hreach hbrings hr hstep
    obtain rfl : Exception.rpcError ⟨r.status, what⟩ = e := by
      simpa using hsettled.symm.trans he
    obtain ⟨what', heq, htext⟩ := hfinal
    obtain rfl : what = what' := by simpa using heq
    exact ⟨what, herror, htext⟩
  · rintro ⟨what, herror, htext⟩
    obtain ⟨c', hstep⟩ := Option.ne_none_iff_exists'.1
      (fun hnone => absurd ((aborts_iff hbrings hr).1 hnone) (by simp [herror]))
    obtain ⟨what', herror', hsettled⟩ := settled_status hreach hbrings hr hstep
    obtain rfl : what = what' := Option.some.inj (herror.symm.trans herror')
    exact ⟨c', _, hstep, hsettled, what, rfl, htext⟩

end BidirClient

/-! ## All four -/

variable [Serializer Req] [Serializer Rep]

/-- **The same status is the same error in every session.** A call that fails is reported with the
    code and the details of its final status: a unary and a client-streaming call exactly if the
    details contain no NUL, a server-streaming call exactly if the caller also has its stream
    already, and a bidirectional call exactly if `error_string_` is set and is the details. -/
theorem final_error_reported (req : Req) :
    ReportsError (UnaryClient.machine Rep req) id .complete UnaryCallCompletion.settled
      (fun _ r => '\x00' ∉ r.statusDetails.toList) ∧
    ReportsError (StreamingClient.machine Rep req) StreamingClient.session .complete
      StreamingCallSession.settled
      (fun c r => '\x00' ∉ r.statusDetails.toList ∧ c.returned = true) ∧
    ReportsError (UploadClient.machine Req Rep) UploadClient.session .complete
      ClientStreamingCallSession.settled (fun _ r => '\x00' ∉ r.statusDetails.toList) ∧
    ReportsError (BidirClient.machine Req Rep) BidirClient.session .complete
      BidirStreamingCallSession.settled
      (fun _ r => ∃ what, r.errorString = some what ∧ what.text = r.statusDetails) := by
  refine ⟨.of_settled UnaryClient.settled_status reported_details,
    .of_settled StreamingClient.settled_status ?_,
    .of_settled UploadClient.settled_status reported_details, BidirClient.reportsError⟩
  intro c r
  by_cases hret : c.returned = true
  · simpa [hret] using reported_details c r
  · simp [hret]

/-- A bidirectional call up to its last completion, -/
def failingCall : List (BidirClient.Event Buffer) :=
  [.complete 0 {}, .getFuture, .finish .complete, .complete 0 {}, .complete 0 {}]

theorem failingCall_brings : ∃ c, (BidirClient.machine Buffer Buffer).Reachable c ∧
    BringsStatus (BidirClient.session c) 0 := by
  have hrun : (BidirClient.machine Buffer Buffer).Reachable _ :=
    Machine.reachable_of_run failingCall rfl
  exact ⟨_, hrun, rfl, .status, rfl, by decide⟩

/-- which brings this status, -/
def unavailable (errorString : String) : Received :=
  { status := .unavailable
    statusDetails := "backend down"
    errorString := some (.ofText errorString) }

/-- so that the caller gets what gRPC core says about it. -/
theorem final_error_lost :
    ¬ ReportsError (BidirClient.machine Buffer Buffer) BidirClient.session .complete
      BidirStreamingCallSession.settled (fun _ _ => True) := by
  intro hall
  obtain ⟨c, hrun, hbrings⟩ := failingCall_brings
  have hr : (unavailable "Error received from peer").status ≠ .ok := by decide
  have hreport := (hall _ 0 _ hrun hbrings hr).2 trivial
  obtain ⟨what, herror, htext⟩ := (BidirClient.reportsError _ 0 _ hrun hbrings hr).1 hreport
  obtain rfl : CString.ofText "Error received from peer" = what := Option.some.inj herror
  exact absurd htext (by decide)

/-- Where `error_string_` repeats the details, it gets the error of the status. -/
theorem final_error_reported_repeated :
    ∃ c e, (BidirClient.machine Buffer Buffer).Reachable c ∧ c.session.obj.settled = [some e] ∧
      e.IsFinalError (unavailable "backend down") := by
  obtain ⟨c, hrun, hbrings⟩ := failingCall_brings
  have hreport := (final_error_reported ([1] : Buffer)).2.2.2 c 0 (unavailable "backend down")
    hrun hbrings (by decide)
  obtain ⟨c', e, hstep, hsettled, hfinal⟩ := hreport.2 ⟨.ofText "backend down", rfl, by decide⟩
  exact ⟨c', e, hrun.step hstep, hsettled, hfinal⟩

end EasyGrpc
