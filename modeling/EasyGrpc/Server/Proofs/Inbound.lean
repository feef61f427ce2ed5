import EasyGrpc.Server.Inbound
import EasyGrpc.Server.Proofs.ClientStreaming
import EasyGrpc.Server.Proofs.BidirStreaming

set_option autoImplicit false

/-! # Complete request streams and broken ones

A null payload says that the requests are complete only if the client has half-closed and everything
it sent was yielded. The handlers do not ask: `exec` ignores both the success flag and `cancelled_`,
so every null payload becomes `complete()`. -/

namespace EasyGrpc

variable {σ ε Req Rep : Type} [Serializer Req]

namespace BreakableCall

variable {S : ReadingServer σ ε Req}

/-! ## What the request stream says -/

/-- The request stream does not pass a broken call off as a complete one. -/
structure Truthful (S : ReadingServer σ ε Req) (c : BreakableCall σ) : Prop where
  /-- `complete()` only after the half-close and with every request delivered. -/
  complete_only : StreamEnd.complete ∈ (S.reader c.server).ends →
    c.wire.halfClosed = true ∧ (S.reader c.server).values = c.wire.sent.map deserialize
  /-- A call broken before the half-close ends with an error, if it ends. -/
  broken_fails : c.wire.broken = true → c.wire.halfClosed = false →
    ∀ t ∈ (S.reader c.server).ends, t.isFailed = true

/-- A read completes with a null payload although the requests are not complete. -/
def cutShort (S : ReadingServer σ ε Req) (c : BreakableCall σ) : Event ε → Bool
  | .server e => (S.received c.server e).any (fun r => r.message.isNone) && !c.wire.exhausted
  | _ => false

/-! ## The invariant -/

/-- The stream holds what was yielded, whatever has ended it. -/
structure Inv (S : ReadingServer σ ε Req) (c : BreakableCall σ) : Prop where
  reachable : S.machine.Reachable c.server
  sound : (S.reader c.server).Sound
  pos_le : c.wire.pos ≤ c.wire.sent.length
  values_eq : (S.reader c.server).values = (c.wire.sent.take c.wire.pos).map deserialize
  ends_eq : ∀ t ∈ (S.reader c.server).ends, t = .complete

theorem inv_init : Inv S (machine S).init where
  reachable := .init
  sound := by
    show (S.reader S.machine.init).Sound
    rw [S.init_reader]
    exact .fresh
  pos_le := Nat.le_refl 0
  values_eq := by
    show (S.reader S.machine.init).values = []
    rw [S.init_reader]
    rfl
  ends_eq := by
    show ∀ t ∈ (S.reader S.machine.init).ends, _
    rw [S.init_reader]
    nofun

/-- **What a step of the server can do.** -/
theorem server_cases {c c' : BreakableCall σ} {e : ε} (h : Inv S c)
    (hstep : step S c (.server e) = some c') :
    S.machine.Reachable c'.server ∧
    ((S.received c.server e = none ∧ S.reader c'.server = S.reader c.server ∧
        c'.wire = c.wire) ∨
      (∃ r data, S.received c.server e = some r ∧ r.message = some data ∧
        c.wire.sent[c.wire.pos]? = some data ∧ (S.reader c.server).storage = true ∧
        S.reader c'.server = (S.reader c.server).push (deserialize data) ∧
        c'.wire = { c.wire with pos := c.wire.pos + 1 }) ∨
      (∃ r, S.received c.server e = some r ∧ r.message = none ∧
        (c.wire.exhausted || c.wire.broken) = true ∧ (S.reader c.server).storage = true ∧
        S.reader c'.server = (S.reader c.server).complete ∧ c'.wire = c.wire)) := by
  simp only [step] at hstep
  cases hr : S.received c.server e with
  | none =>
      rw [hr] at hstep
      obtain ⟨server, hserver, rfl⟩ := Option.map_eq_some_iff.1 hstep
      have hreader := S.step_reader h.reachable hserver
      rw [hr] at hreader
      exact ⟨h.reachable.step hserver, Or.inl ⟨rfl, hreader, rfl⟩⟩
  | some r =>
      simp only [hr] at hstep
      split at hstep
      · next hyields =>
          obtain ⟨server, hserver, rfl⟩ := Option.map_eq_some_iff.1 hstep
          have hreader := S.step_reader h.reachable hserver
          rw [hr] at hreader
          obtain ⟨hstorage, hreader⟩ := hreader
          refine ⟨h.reachable.step hserver, ?_⟩
          cases hmsg : r.message with
          | some data =>
              rw [hmsg] at hyields hreader
              have hnext : c.wire.sent[c.wire.pos]? = some data := by
                simpa [Inbound.yields] using hyields
              exact Or.inr (Or.inl ⟨r, data, rfl, hmsg, hnext, hstorage, hreader,
                by simp [Inbound.advance]⟩)
          | none =>
              rw [hmsg] at hyields hreader
              exact Or.inr (Or.inr ⟨r, rfl, hmsg, hyields, hstorage, hreader,
                by simp [Inbound.advance]⟩)
      · cases hstep

theorem inv_server {c c' : BreakableCall σ} {e : ε} (h : Inv S c)
    (hstep : step S c (.server e) = some c') : Inv S c' := by
  obtain ⟨hreach, ⟨-, hreader, hwire⟩ | ⟨r, data, -, -, hnext, hstorage, hreader, hwire⟩ |
    ⟨r, -, -, -, hstorage, hreader, hwire⟩⟩ := server_cases h hstep
  · refine ⟨hreach, ?_, ?_, ?_, ?_⟩
    · rw [hreader]
      exact h.sound
    · rw [hwire]
      exact h.pos_le
    · rw [hreader, hwire]
      exact h.values_eq
    · rw [hreader]
      exact h.ends_eq
  · obtain ⟨hlt, hdata⟩ := List.getElem?_eq_some_iff.1 hnext
    refine ⟨hreach, ?_, ?_, ?_, ?_⟩
    · rw [hreader]
      exact h.sound.push hstorage _
    · rw [hwire]
      exact hlt
    · rw [hreader, hwire, StreamPromise.values_push hstorage, h.values_eq]
      simp only [List.take_add_one, hnext, Option.toList_some, List.map_append, List.map_cons,
        List.map_nil]
    · rw [hreader, StreamPromise.ends_push]
      exact h.ends_eq
  · refine ⟨hreach, ?_, ?_, ?_, ?_⟩
    · rw [hreader]
      exact h.sound.finish hstorage _
    · rw [hwire]
      exact h.pos_le
    · rw [hreader, hwire, StreamPromise.complete, StreamPromise.values_finish]
      exact h.values_eq
    · rw [hreader, StreamPromise.complete, StreamPromise.ends_finish hstorage]
      intro t ht
      rcases List.mem_append.1 ht with ht | ht
      · exact h.ends_eq t ht
      · exact List.mem_singleton.1 ht

theorem inv_step {c c' : BreakableCall σ} {e : Event ε} (h : Inv S c)
    (hstep : step S c e = some c') : Inv S c' := by
  cases e with
  | server e => exact inv_server h hstep
  | send m =>
      obtain ⟨-, hsome⟩ := Option.ite_none_left_eq_some.1 hstep
      obtain rfl := Option.some.inj hsome
      refine ⟨h.reachable, h.sound, ?_, ?_, h.ends_eq⟩
      · show c.wire.pos ≤ (c.wire.sent ++ [m]).length
        have hle := h.pos_le
        rw [List.length_append]
        omega
      · show _ = ((c.wire.sent ++ [m]).take c.wire.pos).map deserialize
        rw [List.take_append_of_le_length h.pos_le]
        exact h.values_eq
  | halfClose =>
      obtain ⟨-, hsome⟩ := Option.ite_none_left_eq_some.1 hstep
      obtain rfl := Option.some.inj hsome
      exact ⟨h.reachable, h.sound, h.pos_le, h.values_eq, h.ends_eq⟩
  | cut =>
      obtain rfl := Option.some.inj hstep
      exact ⟨h.reachable, h.sound, h.pos_le, h.values_eq, h.ends_eq⟩

theorem inv_of_reachable {c : BreakableCall σ} (h : (machine S).Reachable c) : Inv S c :=
  h.invariant inv_init (fun hstep hc => inv_step hc hstep)

/-! ## Runs in which no read is cut short -/

/-- A stream that has ended only at the end of the requests is truthful. -/
theorem Inv.truthful {c : BreakableCall σ} (h : Inv S c)
    (hends : (S.reader c.server).ends ≠ [] → c.wire.exhausted = true) : Truthful S c := by
  have hexhausted : (S.reader c.server).ends ≠ [] →
      c.wire.halfClosed = true ∧ c.wire.pos = c.wire.sent.length := by
    intro hne
    simpa [Inbound.exhausted] using hends hne
  refine ⟨?_, ?_⟩
  · intro hmem
    obtain ⟨hclosed, hpos⟩ := hexhausted (List.ne_nil_of_mem hmem)
    refine ⟨hclosed, ?_⟩
    rw [h.values_eq, hpos, List.take_length]
  · intro _ hopen t ht
    obtain ⟨hclosed, -⟩ := hexhausted (List.ne_nil_of_mem ht)
    rw [hopen] at hclosed
    cases hclosed

/-- One step that is not cut short: the stream still ends only at the end of the requests. -/
theorem ended_step {c c' : BreakableCall σ} {e : Event ε} (h : Inv S c)
    (hstep : step S c e = some c') (hwhole : cutShort S c e = false)
    (hends : (S.reader c.server).ends ≠ [] → c.wire.exhausted = true) :
    (S.reader c'.server).ends ≠ [] → c'.wire.exhausted = true := by
  -- Once the stream has ended, the client has half-closed and sends nothing more.
  have hopen (hallowed : ¬ (c.wire.halfClosed || c.wire.broken) = true) :
      (S.reader c.server).ends = [] := by
    by_contra hne
    have hexhausted := hends hne
    simp only [Bool.or_eq_true, not_or, Bool.not_eq_true] at hallowed
    simp [Inbound.exhausted, hallowed.1] at hexhausted
  cases e with
  | server e =>
      obtain ⟨-, ⟨-, hreader, hwire⟩ | ⟨r, data, -, -, hnext, hstorage, hreader, -⟩ |
        ⟨r, hr, hmsg, -, -, -, hwire⟩⟩ := server_cases h hstep
      · rw [hreader, hwire]
        exact hends
      · rw [hreader, StreamPromise.ends_push, h.sound.storage_iff.1 hstorage]
        exact fun hne => absurd rfl hne
      · intro _
        rw [hwire]
        simpa [cutShort, hr, hmsg] using hwhole
  | send m =>
      obtain ⟨hno, hsome⟩ := Option.ite_none_left_eq_some.1 hstep
      obtain rfl := Option.some.inj hsome
      exact fun hne => absurd (hopen hno) hne
  | halfClose =>
      obtain ⟨hno, hsome⟩ := Option.ite_none_left_eq_some.1 hstep
      obtain rfl := Option.some.inj hsome
      exact fun hne => absurd (hopen hno) hne
  | cut =>
      obtain rfl := Option.some.inj hstep
      exact hends

/-- In a run without a read cut short the request stream is truthful. -/
theorem truthful_of_guard {c : BreakableCall σ}
    (h : ((machine S).guard (fun c e => !cutShort S c e)).Reachable c) : Truthful S c := by
  refine (inv_of_reachable h.of_guard).truthful ?_
  refine h.guard_invariant (P := fun c : BreakableCall σ =>
    (S.reader c.server).ends ≠ [] → c.wire.exhausted = true) ?_ ?_
  · intro hne
    refine absurd ?_ hne
    show (S.reader S.machine.init).ends = []
    rw [S.init_reader]
    rfl
  · intro c c' e hreach hstep hguard hc
    exact ended_step (inv_of_reachable hreach) hstep (by simpa using hguard) hc

/-- A read cut short always becomes `complete()`. -/
theorem not_truthful_of_cutShort {c c' : BreakableCall σ} {e : Event ε}
    (h : (machine S).Reachable c) (hstep : (machine S).step c e = some c')
    (hcut : cutShort S c e = true) : c.wire.broken = true ∧ ¬ Truthful S c' := by
  have hinv := inv_of_reachable h
  cases e with
  | server e =>
      obtain ⟨hnull, hearly⟩ := (Bool.and_eq_true _ _).mp hcut
      have hnot : c.wire.exhausted = false := by simpa using hearly
      obtain ⟨-, ⟨hr, -⟩ | ⟨r, data, hr, hmsg, -⟩ |
        ⟨r, hr, hmsg, hyields, hstorage, hreader, hwire⟩⟩ := server_cases hinv hstep
      · simp [hr] at hnull
      · simp [hr, hmsg] at hnull
      · refine ⟨by simpa [hnot] using hyields, ?_⟩
        intro htruth
        have hmem : StreamEnd.complete ∈ (S.reader c'.server).ends := by
          rw [hreader, StreamPromise.complete, StreamPromise.ends_finish hstorage]
          simp
        obtain ⟨hclosed, hall⟩ := htruth.complete_only hmem
        -- Everything sent was yielded after all.
        rw [hreader, hwire, StreamPromise.complete, StreamPromise.values_finish, hinv.values_eq]
          at hall
        have hlen := congrArg List.length hall
        simp only [List.length_map, List.length_take] at hlen
        have hle := hinv.pos_le
        have hpos : c.wire.pos = c.wire.sent.length := by omega
        rw [hwire] at hclosed
        simp [Inbound.exhausted, hclosed, hpos] at hnot
  | send m => cases hcut
  | halfClose => cases hcut
  | cut => cases hcut

end BreakableCall

/-! ## The two handlers that read -/

variable [Serializer Rep]

/-- `Client_streaming_call_handler` as a server that reads. -/
def uploadReading (Req Rep : Type) [Serializer Req] [Serializer Rep] :
    ReadingServer (UploadServer Req Rep) (UploadServer.Event Rep) Req where
  machine := UploadServer.machine Req Rep
  reader c := c.handler.obj.readerProm
  received c e :=
    match e with
    | .complete i r =>
        if !c.handler.deleted &&
            c.handler.obj.call.outstanding[i]?.any UploadServerBatch.isRead then some r
        else none
    | _ => none
  init_reader := rfl
  step_reader {c c' e} hreach hstep := by
    rcases UploadServer.reader_step hstep with ⟨hsame, -, hother⟩ |
      ⟨i, r, b, rfl, hlive, -, hb, hread, hcase⟩
    · cases e with
      | complete i r =>
          rcases hother i r rfl with hdel | ⟨b, hb, hno⟩
          · simpa [hdel] using hsame
          · simpa [hb, hno] using hsame
      | reply o => exact hsame
      | startReading => exact hsame
      | attach => exact hsame
    · simp only [hlive, hb, Bool.not_false, Option.any_some, hread, Bool.and_self, if_true]
      refine ⟨(UploadServer.inv_of_reachable hreach).reader_open hb hread, ?_⟩
      rcases hcase with ⟨data, hmsg, hprom⟩ | ⟨hmsg, hprom⟩
      · rw [hmsg]
        exact hprom
      · rw [hmsg]
        exact hprom

/-- `Bidir_streaming_call_handler` as a server that reads. -/
def bidirReading (Req Rep : Type) [Serializer Req] [Serializer Rep] :
    ReadingServer (BidirServer Req Rep) (BidirServer.Event Rep) Req where
  machine := BidirServer.machine Req Rep
  reader c := c.handler.obj.readerProm
  received c e :=
    match e with
    | .complete i r =>
        if !c.handler.deleted && c.handler.obj.call.outstanding[i]? == some .recv then some r
        else none
    | _ => none
  init_reader := rfl
  step_reader {c c' e} hreach hstep := by
    rcases BidirServer.reader_step hstep with ⟨hsame, -, hother⟩ |
      ⟨i, r, rfl, hlive, -, hb, hcase⟩
    · cases e with
      | complete i r =>
          rcases hother i r rfl with hdel | hno
          · simpa [hdel] using hsame
          · simpa [hno] using hsame
      | push rep => exact hsame
      | finish t => exact hsame
      | attach => exact hsame
      | startHandshake => exact hsame
    · simp only [hlive, hb, Bool.not_false, BEq.rfl, Bool.and_self, if_true]
      refine ⟨(BidirServer.inv_of_reachable hreach).reader_open hb, ?_⟩
      rcases hcase with ⟨data, hmsg, hprom⟩ | ⟨hmsg, hprom⟩
      · rw [hmsg]
        exact hprom
      · rw [hmsg]
        exact hprom

/-! ## The guarantee, and where it ends -/

open BreakableCall

/-- The runs in which no read is cut short. -/
def wholeMachine (S : ReadingServer σ ε Req) : Machine (BreakableCall σ) (Event ε) :=
  (machine S).guard (fun c e => !cutShort S c e)

/-- **A broken request stream is not mistaken for a complete one**, by either handler, in the runs
    in which no read completes with a null payload before the client has half-closed and everything
    it sent was yielded. And a read that does is always passed off as the end of the requests. -/
theorem request_stream_truthful :
    (∀ c, (wholeMachine (uploadReading Req Rep)).Reachable c → Truthful (uploadReading Req Rep) c) ∧
    (∀ c, (wholeMachine (bidirReading Req Rep)).Reachable c → Truthful (bidirReading Req Rep) c) ∧
    (∀ c c' e, (machine (uploadReading Req Rep)).Reachable c →
      (machine (uploadReading Req Rep)).step c e = some c' →
      cutShort (uploadReading Req Rep) c e = true → ¬ Truthful (uploadReading Req Rep) c') ∧
    (∀ c c' e, (machine (bidirReading Req Rep)).Reachable c →
      (machine (bidirReading Req Rep)).step c e = some c' →
      cutShort (bidirReading Req Rep) c e = true → ¬ Truthful (bidirReading Req Rep) c') :=
  ⟨fun _ h => truthful_of_guard h, fun _ h => truthful_of_guard h,
    fun _ _ _ h hstep hcut => (not_truthful_of_cutShort h hstep hcut).2,
    fun _ _ _ h hstep hcut => (not_truthful_of_cutShort h hstep hcut).2⟩

/-- A whole upload of one request: the stream is complete because the client has half-closed. -/
theorem request_stream_truthful_one_request :
    ∃ c, (wholeMachine (uploadReading Buffer Buffer)).Reachable c ∧ c.wire.halfClosed = true ∧
      c.server.handler.obj.readerProm.log = [.push [1], .finish .complete] ∧
      Truthful (uploadReading Buffer Buffer) c :=
  have hrun : (wholeMachine (uploadReading Buffer Buffer)).Reachable _ :=
    Machine.reachable_of_run
      [.server .startReading, .send [1], .server (.complete 0 { message := some [1] }),
        .halfClose, .server (.complete 0 {})] rfl
  ⟨_, hrun, rfl, rfl, request_stream_truthful.1 _ hrun⟩

/-- The call is cancelled after one of two requests was received: both handlers report a complete
    stream. -/
theorem cancelled_upload_completes :
    (∃ c, (machine (uploadReading Buffer Buffer)).Reachable c ∧
      c.wire = { sent := [[1], [2]], pos := 1, broken := true } ∧
      c.server.handler.obj.readerProm.log = [.push [1], .finish .complete] ∧
      ¬ Truthful (uploadReading Buffer Buffer) c) ∧
    (∃ c, (machine (bidirReading Buffer Buffer)).Reachable c ∧
      c.wire = { sent := [[1], [2]], pos := 1, broken := true } ∧
      c.server.handler.obj.readerProm.log = [.push [1], .finish .complete] ∧
      ¬ Truthful (bidirReading Buffer Buffer) c) := by
  refine ⟨⟨_, Machine.reachable_of_run
    [.server .startReading, .send [1], .send [2], .server (.complete 0 { message := some [1] }),
      .cut, .server (.complete 0 { cancelled := true })] rfl, rfl, rfl, ?_⟩,
    ⟨_, Machine.reachable_of_run
      [.server .attach, .server .startHandshake, .server (.complete 0 {}), .send [1], .send [2],
        .server (.complete 0 { message := some [1] }), .cut,
        .server (.complete 0 { cancelled := true })] rfl, rfl, rfl, ?_⟩⟩
  · intro htruth
    cases (htruth.complete_only (by decide)).1
  · intro htruth
    cases (htruth.complete_only (by decide)).1

end EasyGrpc
