import EasyGrpc.Queue.Parties
import EasyGrpc.Queue.Proofs.Multiplexing

set_option autoImplicit false

/-! # When the worker only ever runs `exec` on the right object

Under the tags in flight `worker_main` finds the objects that have started the batches, until one
of them is deleted with a batch outstanding. Conversely a class with such a run makes
`worker_main` call `exec` on freed memory, or on whatever object was given the address since. -/

namespace EasyGrpc

namespace CompletionQueue

variable {ι : Type} {P : ι → Party}

/-! ## Completions find their object -/

/-- **Completions reach the batch they are about.** Each party is in a state its own machine
    reaches; what is in flight for it decodes, in order, to its object and the flags of its
    outstanding batches; and its object is at its address as long as it exists. -/
theorem completions_reach_their_party {q : CompletionQueue P} (h : (machine P).Reachable q)
    (hdefined : q.dangling = false) {n : ℕ} {p : Resident P} (hp : q.parties[n]? = some p) :
    (P p.kind).machine.Reachable p.state ∧
    (q.inFlight.filter (·.party == n)).map (fun b => (tagCallback b.tag, tagFlags b.tag))
      = ((P p.kind).call p.state).outstanding.map (fun b => (p.address, BatchSpec.flags b)) ∧
    (q.heap p.address = some n ↔ (P p.kind).deleted p.state = false) := by
  have hinv := inv_of_reachable h hdefined
  refine ⟨party_reachable h (List.mem_of_getElem? hp), ?_, hinv.placed hp⟩
  rw [hinv.tags hp, tagged, List.map_map]
  refine List.map_congr_left fun b _ => ?_
  obtain ⟨hflags, hcallback⟩ := worker_main_decodes (BatchSpec.flags b) (hinv.aligned hp)
  simp only [Function.comp_apply, hflags, hcallback]

/-- A unary and a bidirectional call on one queue: the read of the second is in flight under the
    address of its session. -/
theorem completions_reach_their_party_two_calls :
    ∃ q : CompletionQueue (fun bidir : Bool => cond bidir (BidirClient.party Buffer Buffer)
        (UnaryClient.party Buffer ([1] : Buffer))), ∃ p, q.parties[1]? = some p ∧
      (q.inFlight.filter (·.party == 1)).map (fun b => (tagCallback b.tag, tagFlags b.tag))
        = [(32, 0)] ∧
      q.heap p.address = some 1 := by
  have hrun : (machine fun bidir : Bool => cond bidir (BidirClient.party Buffer Buffer)
      (UnaryClient.party Buffer ([1] : Buffer))).Reachable _ :=
    Machine.reachable_of_run [.create false 16, .create true 32, .complete 1 {}] rfl
  obtain ⟨-, htags, hplaced⟩ := completions_reach_their_party hrun rfl (n := 1) rfl
  exact ⟨_, _, rfl, htags, hplaced.2 rfl⟩

/-! ## What the worker finds -/

theorem step_complete {q : CompletionQueue P} (hdefined : q.dangling = false)
    (hjoined : q.joined = false) (i : ℕ) (r : Received) :
    (machine P).step q (.complete i r) = q.workerMain i r := by
  simp [machine, step, hdefined, hjoined]

theorem step_create {q : CompletionQueue P} (hdefined : q.dangling = false)
    (hjoined : q.joined = false) (hshut : q.shutDown = false) (kind : ι) {address : BitVec 64}
    (haligned : Aligned address) (hfree : q.heap address = none) :
    (machine P).step q (.create kind address) = some (q.created kind address) := by
  have hcan : Aligned address ∧ q.heap address = none ∧ q.shutDown = false :=
    ⟨haligned, hfree, hshut⟩
  simp only [machine, step, created, hdefined, hjoined, Bool.or_self, Bool.false_eq_true, if_false,
    if_pos hcan]

theorem step_act {q : CompletionQueue P} (hdefined : q.dangling = false)
    (hjoined : q.joined = false) (hshut : q.shutDown = false) {n : ℕ} {p : Resident P}
    (hp : q.parties[n]? = some p) {e : (kind : ι) → (P kind).Event}
    (hother : (P p.kind).completes (e p.kind) = false) {t : (P p.kind).State}
    (hstep : (P p.kind).machine.step p.state (e p.kind) = some t) :
    (machine P).step q (.act n e) = some (q.moved n p t) := by
  simp [machine, step, hdefined, hjoined, hp, hother, hstep, advance_of_submitted, hshut]

theorem workerMain_of_live {q : CompletionQueue P} (hinv : Inv q) {i : ℕ} {r : Received}
    {b : InFlight} {p : Resident P} {t : (P p.kind).State} (hb : q.inFlight[i]? = some b)
    (hp : q.parties[b.party]? = some p) (hlive : (P p.kind).deleted p.state = false)
    (hstep : (P p.kind).machine.step p.state ((P p.kind).complete (q.position i b) r) = some t)
    (hnone : q.shutDown = true →
      submitted b.party p.address ((P p.kind).call p.state) ((P p.kind).call t) = []) :
    q.workerMain i r = some (q.executed i b.party p t) := by
  obtain ⟨batch, hbatch, hcallback, hflags⟩ := hinv.batch hb hp
  rw [← exec_eq_step hbatch hlive] at hstep
  have hadvance : (q.handedOut i).advance b.party p t = some ((q.handedOut i).moved b.party p t) :=
    advance_of_submitted (q := q.handedOut i) hnone
  simp only [workerMain, hb, Option.bind_some, hcallback, hflags, (hinv.placed hp).2 hlive, if_true,
    hp, hstep]
  exact congrArg (Option.map _) hadvance

theorem workerMain_of_deleted {q : CompletionQueue P} (hinv : Inv q) {i : ℕ} {b : InFlight}
    {p : Resident P} (hb : q.inFlight[i]? = some b) (hp : q.parties[b.party]? = some p)
    (hdel : (P p.kind).deleted p.state = true) (r : Received) :
    q.workerMain i r = some { q.handedOut i with dangling := true } := by
  obtain ⟨-, -, hcallback, -⟩ := hinv.batch hb hp
  have hgone : q.heap p.address ≠ some b.party := by
    rw [ne_eq, hinv.placed hp, hdel]
    decide
  simp only [workerMain, hb, Option.bind_some, hcallback, if_neg hgone]
  rfl

/-! ## A party that has the queue to itself -/

/-- The only party on a queue. -/
structure Alone (q : CompletionQueue P) (kind : ι) (t : (P kind).State) : Prop where
  reachable : (machine P).Reachable q
  parties : q.parties = [⟨kind, 0, t⟩]
  shutDown : q.shutDown = false
  joined : q.joined = false

namespace Alone

variable {q : CompletionQueue P} {kind : ι} {t : (P kind).State}

theorem getElem_parties (h : q.Alone kind t) : q.parties[0]? = some ⟨kind, 0, t⟩ := by
  rw [h.parties]
  rfl

/-- Everything in flight is the party's. -/
theorem inFlight_eq (h : q.Alone kind t) (hdefined : q.dangling = false) :
    q.inFlight = tagged 0 0 ((P kind).call t).outstanding := by
  have hinv := inv_of_reachable h.reachable hdefined
  have hall : q.inFlight.filter (·.party == 0) = q.inFlight := by
    refine List.filter_eq_self.2 fun b hb => ?_
    have hlt := hinv.known b hb
    rw [h.parties, List.length_singleton, Nat.lt_one_iff] at hlt
    simp [hlt]
  rw [← hall]
  exact hinv.tags h.getElem_parties

/-- So its `k`-th outstanding batch is the `k`-th in flight. -/
theorem batch (h : q.Alone kind t) (hdefined : q.dangling = false) {k : ℕ} {b : (P kind).Batch}
    (hb : ((P kind).call t).outstanding[k]? = some b) :
    ∃ x, q.inFlight[k]? = some x ∧ x.party = 0 ∧ q.position k x = k := by
  have hflight := h.inFlight_eq hdefined
  obtain ⟨hlt, -⟩ := List.getElem?_eq_some_iff.1 hb
  refine ⟨⟨0, completionTag 0 (BatchSpec.flags b)⟩, ?_, rfl, ?_⟩
  · rw [hflight, tagged, List.getElem?_map, hb]
    rfl
  · have hall : (q.inFlight.take k).countP (·.party == 0) = (q.inFlight.take k).length := by
      refine List.countP_eq_length.2 fun x hx => ?_
      have hmem := List.mem_of_mem_take hx
      rw [hflight] at hmem
      obtain ⟨c, -, rfl⟩ := List.mem_map.1 hmem
      rfl
    have hlen : q.inFlight.length = ((P kind).call t).outstanding.length := by
      rw [hflight, tagged, List.length_map]
    have htake : (q.inFlight.take k).length = k := by
      rw [List.length_take]
      omega
    exact hall.trans htake

end Alone

/-- A party on its own on a queue can do what its machine can do, but for the completions of a
    deleted object. -/
theorem exists_alone_of_live {kind : ι} {t : (P kind).State}
    (h : ((P kind).machine.guard fun t e => !((P kind).completes e && (P kind).deleted t)).Reachable
      t) : ∃ q : CompletionQueue P, q.Alone kind t ∧ q.dangling = false := by
  induction h with
  | init =>
      have haligned : Aligned 0 := by simp [Aligned]
      have hcreate := step_create (q := ({} : CompletionQueue P)) rfl rfl rfl kind haligned rfl
      exact ⟨_, ⟨.step .init hcreate, rfl, rfl, rfl⟩, rfl⟩
  | @step t t' e _ hstep ih =>
      obtain ⟨hguard, hstep⟩ := Machine.guard_step.1 hstep
      obtain ⟨q, hq, hdefined⟩ := ih
      have hinv := inv_of_reachable hq.reachable hdefined
      have hp := hq.getElem_parties
      cases hcomplete : (P kind).completes e with
      | false =>
          classical
          let es : (j : ι) → (P j).Event :=
            Function.update (fun j => (P j).complete 0 {}) kind e
          have hes : es kind = e := by simp [es]
          have hact := step_act hdefined hq.joined hq.shutDown hp (e := es) (by rwa [hes])
            (t := t') (by rwa [hes])
          exact ⟨_, ⟨hq.reachable.step hact, by simp [moved, hq.parties], hq.shutDown, hq.joined⟩,
            hdefined⟩
      | true =>
          have hlive : (P kind).deleted t = false := by simpa [hcomplete] using hguard
          obtain ⟨k, r, rfl⟩ := (P kind).eq_complete hcomplete
          have hwork := hstep
          rw [(P kind).step_complete, Option.map_eq_some_iff] at hwork
          obtain ⟨o, hwork, -⟩ := hwork
          obtain ⟨b, hb, -⟩ := Live.workerMain_eq_some hwork
          obtain ⟨x, hx, hparty, hpos⟩ := hq.batch hdefined hb
          rw [← hparty] at hp
          have hturn := step_complete hdefined hq.joined k r
          rw [workerMain_of_live hinv hx hp hlive (by rw [hpos]; exact hstep)
            (by simp [hq.shutDown])] at hturn
          refine ⟨_, ⟨hq.reachable.step hturn, by simp [hparty, hq.parties], by simp [hq.shutDown],
            by simp [hq.joined]⟩, ?_⟩
          rwa [dangling_executed]

/-- Where `worker_main` never finds the object gone, that is everything its machine can do. -/
theorem exists_alone (hnever : ∀ q, (machine P).Reachable q → q.dangling = false) {kind : ι}
    {t : (P kind).State} (h : (P kind).machine.Reachable t) :
    ∃ q : CompletionQueue P, q.Alone kind t := by
  have hlive : ((P kind).machine.guard
      fun t e => !((P kind).completes e && (P kind).deleted t)).Reachable t := by
    induction h with
    | init => exact .init
    | @step t t' e _ hstep ih =>
        refine ih.step (Machine.guard_step.2 ⟨?_, hstep⟩)
        by_contra hgone
        simp only [Bool.not_eq_true', Bool.not_eq_false, Bool.and_eq_true] at hgone
        obtain ⟨hcomplete, hdel⟩ := hgone
        obtain ⟨q, hq, hdefined⟩ := exists_alone_of_live ih
        have hinv := inv_of_reachable hq.reachable hdefined
        have hp := hq.getElem_parties
        obtain ⟨k, r, rfl⟩ := (P kind).eq_complete hcomplete
        rw [(P kind).step_complete, Option.map_eq_some_iff] at hstep
        obtain ⟨o, hwork, -⟩ := hstep
        obtain ⟨b, hb, -⟩ := Live.workerMain_eq_some hwork
        obtain ⟨x, hx, hparty, -⟩ := hq.batch hdefined hb
        rw [← hparty] at hp
        have hturn := step_complete hdefined hq.joined k r
        rw [workerMain_of_deleted hinv hx hp hdel r] at hturn
        cases hnever _ (hq.reachable.step hturn)
  obtain ⟨q, hq, -⟩ := exists_alone_of_live hlive
  exact ⟨q, hq⟩

/-! ## Classes that die clean -/

/-- Objects that die clean are not there to be dispatched to once they are deleted. -/
theorem defined_of_diesClean (hclean : ∀ kind, (P kind).DiesClean) {q : CompletionQueue P}
    (h : (machine P).Reachable q) : q.dangling = false := by
  induction h with
  | init => rfl
  | step hreach hstep ih =>
      have hinv := inv_of_reachable hreach ih
      cases moves_of_step hinv hstep with
      | create => exact ih
      | act => exact ih
      | exec => rwa [dangling_executed]
      | shutdown => exact ih
      | join => exact ih
      | @dangle _ _ b p hb hp hdel =>
          obtain ⟨batch, hbatch, -⟩ := hinv.batch hb hp
          rw [hclean p.kind p.state (party_reachable hreach (List.mem_of_getElem? hp)) hdel]
            at hbatch
          cases hbatch

/-! ## What happens to the parties of such a queue -/

section Clean

variable {q q' : CompletionQueue P} (hclean : ∀ kind, (P kind).DiesClean)
  (h : (machine P).Reachable q)

include hclean h

theorem create_eq_some {kind : ι} {address : BitVec 64}
    (hstep : q.step (.create kind address) = some q') : q' = q.created kind address := by
  cases moves_of_step (inv_of_reachable h (defined_of_diesClean hclean h)) hstep
  rfl

theorem act_eq_some {n : ℕ} {e : (kind : ι) → (P kind).Event} (hstep : q.step (.act n e) = some q') :
    ∃ p t, q.parties[n]? = some p ∧ (P p.kind).machine.step p.state (e p.kind) = some t ∧
      q' = q.moved n p t := by
  cases moves_of_step (inv_of_reachable h (defined_of_diesClean hclean h)) hstep with
  | act hp _ hparty _ => exact ⟨_, _, hp, hparty, rfl⟩

theorem complete_eq_some {i : ℕ} {r : Received} (hstep : q.step (.complete i r) = some q') :
    ∃ b p t, q.inFlight[i]? = some b ∧ q.parties[b.party]? = some p ∧
      (P p.kind).deleted p.state = false ∧
      (P p.kind).machine.step p.state ((P p.kind).complete (q.position i b) r) = some t ∧
      q' = q.executed i b.party p t := by
  have hdefined' := defined_of_diesClean hclean (reachable_step h hstep)
  cases moves_of_step (inv_of_reachable h (defined_of_diesClean hclean h)) hstep with
  | exec hb hp hlive hparty _ => exact ⟨_, _, _, hb, hp, hlive, hparty, rfl⟩
  | dangle => cases hdefined'

/-- The completion of any outstanding batch can be handed out, with whatever it has brought that
    does not end the process. -/
theorem exists_complete (hshut : q.shutDown = false) (hjoined : q.joined = false) {n : ℕ}
    {p : Resident P} (hp : q.parties[n]? = some p) {k : ℕ} {batch : (P p.kind).Batch}
    (hbatch : ((P p.kind).call p.state).outstanding[k]? = some batch) :
    ∃ i b, q.inFlight[i]? = some b ∧ b.party = n ∧ q.position i b = k ∧
      ∀ r, CompletionCallback.aborts (Live.completed ((P p.kind).object p.state).obj k batch r)
        (BatchSpec.flags batch) = false → (q.step (.complete i r)).isSome = true := by
  have hdefined := defined_of_diesClean hclean h
  have hinv := inv_of_reachable h hdefined
  obtain ⟨i, b, hi, rfl, rfl⟩ := hinv.exists_inFlight hp hbatch
  refine ⟨i, b, hi, rfl, rfl, fun r hreturns => ?_⟩
  have hlive : (P p.kind).deleted p.state = false := by
    by_contra hdel
    rw [hclean p.kind p.state (party_reachable h (List.mem_of_getElem? hp)) (by simpa using hdel)]
      at hbatch
    cases hbatch
  have hwork := Live.isSome_workerMain (o := (P p.kind).object p.state) hbatch hreturns
  obtain ⟨o, ho⟩ := Option.isSome_iff_exists.1 hwork
  have hparty : (P p.kind).machine.step p.state ((P p.kind).complete (q.position i b) r)
      = some ((P p.kind).setObject p.state o) := by
    rw [(P p.kind).step_complete, ho]
    rfl
  have hturn := step_complete hdefined hjoined i r
  rw [workerMain_of_live hinv hi hp hlive hparty (by simp [hshut])] at hturn
  exact Option.isSome_iff_exists.2 ⟨_, hturn⟩

end Clean

/-! ## The exact condition -/

/-- **The worker never runs on freed memory exactly where every class dies clean.** Then, and only
    then, no run of any number of parties, in any order and with any reuse of addresses, makes
    `worker_main` call `exec` where the object of the batch is no longer. -/
theorem never_dangling_iff :
    (∀ q, (machine P).Reachable q → q.dangling = false) ↔ ∀ kind, (P kind).DiesClean := by
  constructor
  · intro hnever kind t ht hdel
    obtain ⟨q, hq⟩ := exists_alone hnever ht
    have hdefined := hnever q hq.reachable
    by_contra hout
    obtain ⟨b, rest, hlist⟩ := List.exists_cons_of_ne_nil hout
    obtain ⟨x, hx, hparty, -⟩ := hq.batch hdefined (k := 0) (b := b) (by rw [hlist]; rfl)
    have hp := hq.getElem_parties
    rw [← hparty] at hp
    have hturn := step_complete hdefined hq.joined 0 {}
    rw [workerMain_of_deleted (inv_of_reachable hq.reachable hdefined) hx hp hdel] at hturn
    cases hnever _ (hq.reachable.step hturn)
  · exact fun hclean q hq => defined_of_diesClean hclean hq

end CompletionQueue

end EasyGrpc
