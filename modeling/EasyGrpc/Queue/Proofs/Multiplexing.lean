import EasyGrpc.Library.Lists
import EasyGrpc.Queue.Multiplexing

set_option autoImplicit false

/-! # Parties on one queue do not disturb each other

The tags in flight for a party are those of its outstanding batches, in order, and where its object
still exists `worker_main` finds it under them. So a turn of `worker_main` is a turn of the party
whose batch has completed, and the queue refines the family of its parties. -/

namespace EasyGrpc

/-! ## Tags -/

namespace CompletionQueue

/-- The batches `l` of the `n`-th party as they are in flight. -/
def tagged {κ : Type} [BatchSpec κ] (n : ℕ) (address : BitVec 64) (l : List κ) : List InFlight :=
  l.map (fun b => ⟨n, completionTag address (BatchSpec.flags b)⟩)

section Tags

variable {κ : Type} [BatchSpec κ] {n m : ℕ} {address : BitVec 64}

theorem tagged_starts {c c' : Call κ} (h : c.Starts c') :
    tagged n address c.outstanding ++ submitted n address c c'
      = tagged n address c'.outstanding := by
  obtain ⟨new, hstarted, hout⟩ := h
  simp [tagged, submitted, hstarted, hout]

theorem party_submitted {c c' : Call κ} {b : InFlight} (h : b ∈ submitted n address c c') :
    b.party = n := by
  obtain ⟨batch, -, rfl⟩ := List.mem_map.1 h
  rfl

theorem filter_submitted_self (c c' : Call κ) :
    (submitted n address c c').filter (·.party == n) = submitted n address c c' :=
  List.filter_eq_self.2 fun b hb => by simp [party_submitted hb]

theorem filter_submitted_ne (hne : n ≠ m) (c c' : Call κ) :
    (submitted n address c c').filter (·.party == m) = [] :=
  List.filter_eq_nil_iff.2 fun b hb => by simp [party_submitted hb, hne]

end Tags

/-! ## The invariant -/

variable {ι : Type} {P : ι → Party}

/-- What holds of a queue on which everything is where its tag says. -/
structure Inv (q : CompletionQueue P) : Prop where
  aligned : ∀ {n : ℕ} {p : Resident P}, q.parties[n]? = some p → Aligned p.address
  /-- In flight for a party are the batches of its call that are outstanding. -/
  tags : ∀ {n : ℕ} {p : Resident P}, q.parties[n]? = some p → q.inFlight.filter (·.party == n)
    = tagged n p.address ((P p.kind).call p.state).outstanding
  /-- Its object is at its address until it is deleted. -/
  placed : ∀ {n : ℕ} {p : Resident P}, q.parties[n]? = some p →
    (q.heap p.address = some n ↔ (P p.kind).deleted p.state = false)
  /-- Nothing else is anywhere. -/
  owned : ∀ {a} {n : ℕ}, q.heap a = some n → ∃ p : Resident P, q.parties[n]? = some p ∧ p.address = a
  known : ∀ b ∈ q.inFlight, b.party < q.parties.length

theorem inv_init : Inv ({} : CompletionQueue P) where
  aligned h := by cases h
  tags h := by cases h
  placed h := by cases h
  owned h := by cases h
  known _ h := by cases h

/-- What is in flight belongs to a party. -/
theorem Inv.party {q : CompletionQueue P} (h : Inv q) {b : InFlight} (hb : b ∈ q.inFlight) :
    ∃ p, q.parties[b.party]? = some p :=
  ⟨_, List.getElem?_eq_getElem (h.known b hb)⟩

/-- The `i`-th batch in flight is the `k`-th outstanding batch of its party. -/
theorem Inv.batch {q : CompletionQueue P} (h : Inv q) {i : ℕ} {b : InFlight}
    (hb : q.inFlight[i]? = some b) {p : Resident P} (hp : q.parties[b.party]? = some p) :
    ∃ batch, ((P p.kind).call p.state).outstanding[q.position i b]? = some batch ∧
      tagCallback b.tag = p.address ∧ tagFlags b.tag = BatchSpec.flags batch := by
  have hpos := List.getElem?_filter_countP (p := (·.party == b.party)) (by simp) q.inFlight i hb
  rw [h.tags hp, tagged, List.getElem?_map, Option.map_eq_some_iff] at hpos
  obtain ⟨batch, hbatch, heq⟩ := hpos
  have htag : completionTag p.address (BatchSpec.flags batch) = b.tag := congrArg InFlight.tag heq
  obtain ⟨hflags, hcallback⟩ := worker_main_decodes (BatchSpec.flags batch) (h.aligned hp)
  rw [htag] at hflags hcallback
  exact ⟨batch, hbatch, hcallback, hflags⟩

/-- The `k`-th outstanding batch of a party is in flight. -/
theorem Inv.exists_inFlight {q : CompletionQueue P} (h : Inv q) {n : ℕ} {p : Resident P}
    (hp : q.parties[n]? = some p) {k : ℕ} {batch : (P p.kind).Batch}
    (hbatch : ((P p.kind).call p.state).outstanding[k]? = some batch) :
    ∃ i b, q.inFlight[i]? = some b ∧ b.party = n ∧ q.position i b = k := by
  have htag : (q.inFlight.filter (·.party == n))[k]?
      = some ⟨n, completionTag p.address (BatchSpec.flags batch)⟩ := by
    rw [h.tags hp, tagged, List.getElem?_map, hbatch]
    rfl
  obtain ⟨i, hi, hcount⟩ := List.exists_of_getElem?_filter q.inFlight k htag
  exact ⟨i, _, hi, rfl, hcount⟩

/-! ## What a step does -/

/-- The queue after the `n`-th party has gone to the state `t`. -/
def moved (q : CompletionQueue P) (n : ℕ) (p : Resident P) (t : (P p.kind).State) :
    CompletionQueue P :=
  { q with
    parties := q.parties.set n { p with state := t }
    inFlight := q.inFlight
      ++ submitted n p.address ((P p.kind).call p.state) ((P p.kind).call t) }

theorem advance_eq_some {q q' : CompletionQueue P} {n : ℕ} {p : Resident P}
    {t : (P p.kind).State} (h : q.advance n p t = some q') : q' = q.moved n p t := by
  unfold advance at h
  simp only at h
  split at h
  · cases h
  · exact (Option.some.inj h).symm

/-- A queue that was shut down takes no more batches. -/
theorem submitted_of_advance {q q' : CompletionQueue P} {n : ℕ} {p : Resident P}
    {t : (P p.kind).State} (h : q.advance n p t = some q') (hshut : q.shutDown = true) :
    submitted n p.address ((P p.kind).call p.state) ((P p.kind).call t) = [] := by
  unfold advance at h
  simp only at h
  split at h
  · cases h
  · next hnone => simpa [hshut] using hnone

theorem advance_of_submitted {q : CompletionQueue P} {n : ℕ} {p : Resident P}
    {t : (P p.kind).State} (h : q.shutDown = true →
      submitted n p.address ((P p.kind).call p.state) ((P p.kind).call t) = []) :
    q.advance n p t = some (q.moved n p t) := by
  cases hshut : q.shutDown with
  | true => simp [advance, moved, h hshut]
  | false => simp [advance, moved, hshut]

/-- The queue after the `i`-th batch in flight was handed out. -/
def handedOut (q : CompletionQueue P) (i : ℕ) : CompletionQueue P :=
  { q with inFlight := q.inFlight.eraseIdx i }

/-- The queue after `exec` has taken the `n`-th party to `t`. -/
def executed (q : CompletionQueue P) (i n : ℕ) (p : Resident P) (t : (P p.kind).State) :
    CompletionQueue P :=
  let q := (q.handedOut i).moved n p t
  if (P p.kind).deleted t then q.free p.address else q

section Executed

variable (q : CompletionQueue P) (i n : ℕ) (p : Resident P) (t : (P p.kind).State)

@[simp] theorem parties_executed :
    (q.executed i n p t).parties = q.parties.set n { p with state := t } := by
  unfold executed
  cases (P p.kind).deleted t <;> rfl

@[simp] theorem inFlight_executed : (q.executed i n p t).inFlight = q.inFlight.eraseIdx i
    ++ submitted n p.address ((P p.kind).call p.state) ((P p.kind).call t) := by
  unfold executed
  cases (P p.kind).deleted t <;> rfl

@[simp] theorem shutDown_executed : (q.executed i n p t).shutDown = q.shutDown := by
  unfold executed
  cases (P p.kind).deleted t <;> rfl

@[simp] theorem joined_executed : (q.executed i n p t).joined = q.joined := by
  unfold executed
  cases (P p.kind).deleted t <;> rfl

@[simp] theorem dangling_executed : (q.executed i n p t).dangling = q.dangling := by
  unfold executed
  cases (P p.kind).deleted t <;> rfl

end Executed

/-- `exec` with the flags the batch was started with is a completion of the party's machine. -/
theorem exec_eq_step {P : Party} {t : P.State} {k : ℕ} {r : Received} {batch : P.Batch}
    (hbatch : (P.call t).outstanding[k]? = some batch) (hlive : P.deleted t = false) :
    P.exec t k r (BatchSpec.flags batch) = P.machine.step t (P.complete k r) := by
  have hout : (CompletionCallback.call (P.object t).obj).outstanding[k]? = some batch := hbatch
  have hobj : (P.object t).deleted = false := hlive
  rw [P.step_complete]
  simp only [Party.exec, Live.workerMain, Live.completed, hbatch, hout, hobj, Option.bind_some,
    Bool.false_eq_true, if_false]
  rw [apply_ite (Option.map (P.setObject t))]
  rfl

/-- What a turn of `worker_main` can do: where the object of the batch is still at its address, a
    completion of that party, and otherwise `exec` on whatever is there. -/
theorem workerMain_cases {q q' : CompletionQueue P} (hinv : Inv q) {i : ℕ} {r : Received}
    (h : q.workerMain i r = some q') :
    ∃ (b : InFlight) (p : Resident P), q.inFlight[i]? = some b ∧ q.parties[b.party]? = some p ∧
      (((P p.kind).deleted p.state = false ∧
          ∃ t, (P p.kind).machine.step p.state ((P p.kind).complete (q.position i b) r) = some t ∧
            (q.shutDown = true → submitted b.party p.address ((P p.kind).call p.state)
              ((P p.kind).call t) = []) ∧
            q' = q.executed i b.party p t) ∨
        ((P p.kind).deleted p.state = true ∧ q' = { q.handedOut i with dangling := true })) := by
  simp only [workerMain, Option.bind_eq_some_iff] at h
  obtain ⟨b, hb, h⟩ := h
  obtain ⟨p, hp⟩ := hinv.party (List.mem_of_getElem? hb)
  obtain ⟨batch, hbatch, hcallback, hflags⟩ := hinv.batch hb hp
  refine ⟨b, p, hb, hp, ?_⟩
  rw [hcallback, hflags] at h
  split at h
  · next hheap =>
      have hlive := (hinv.placed hp).1 hheap
      simp only [hp, Option.bind_some, exec_eq_step hbatch hlive, Option.bind_eq_some_iff,
        Option.map_eq_some_iff] at h
      obtain ⟨t, hstep, q₁, hadv, rfl⟩ := h
      refine Or.inl ⟨hlive, t, hstep, submitted_of_advance (q := q.handedOut i) hadv, ?_⟩
      rw [advance_eq_some hadv]
      rfl
  · next hheap =>
      refine Or.inr ⟨?_, (Option.some.inj h).symm⟩
      cases hdel : (P p.kind).deleted p.state with
      | true => rfl
      | false => exact absurd ((hinv.placed hp).2 hdel) hheap

/-- The queue after a party of the kind `kind` was created at `address`. -/
def created (q : CompletionQueue P) (kind : ι) (address : BitVec 64) : CompletionQueue P :=
  { q with
    parties := q.parties ++ [⟨kind, address, (P kind).machine.init⟩]
    heap := Function.update q.heap address (some q.parties.length)
    inFlight := q.inFlight
      ++ submitted q.parties.length address {} ((P kind).call (P kind).machine.init) }

/-- **What a step can do**, where everything is where its tag says. -/
inductive Moves (q : CompletionQueue P) : Event P → CompletionQueue P → Prop
  | create {kind : ι} {address : BitVec 64} (haligned : Aligned address)
      (hfree : q.heap address = none) (hopen : q.shutDown = false) :
      Moves q (.create kind address) (q.created kind address)
  | act {n : ℕ} {e : (kind : ι) → (P kind).Event} {p : Resident P} {t : (P p.kind).State}
      (hp : q.parties[n]? = some p) (hother : (P p.kind).completes (e p.kind) = false)
      (hstep : (P p.kind).machine.step p.state (e p.kind) = some t)
      (hnone : q.shutDown = true →
        submitted n p.address ((P p.kind).call p.state) ((P p.kind).call t) = []) :
      Moves q (.act n e) (q.moved n p t)
  | exec {i : ℕ} {r : Received} {b : InFlight} {p : Resident P} {t : (P p.kind).State}
      (hb : q.inFlight[i]? = some b) (hp : q.parties[b.party]? = some p)
      (hlive : (P p.kind).deleted p.state = false)
      (hstep : (P p.kind).machine.step p.state ((P p.kind).complete (q.position i b) r) = some t)
      (hnone : q.shutDown = true →
        submitted b.party p.address ((P p.kind).call p.state) ((P p.kind).call t) = []) :
      Moves q (.complete i r) (q.executed i b.party p t)
  | dangle {i : ℕ} {r : Received} {b : InFlight} {p : Resident P}
      (hb : q.inFlight[i]? = some b) (hp : q.parties[b.party]? = some p)
      (hdel : (P p.kind).deleted p.state = true) :
      Moves q (.complete i r) { q.handedOut i with dangling := true }
  | shutdown : Moves q .shutdown { q with shutDown := true }
  | join (hshut : q.shutDown = true) (hdrained : q.inFlight = []) :
      Moves q .join { q with joined := true }

theorem moves_of_step {q q' : CompletionQueue P} {e : Event P} (hinv : Inv q)
    (h : q.step e = some q') : Moves q e q' := by
  unfold step at h
  split at h
  · cases h
  cases e with
  | create kind address =>
      simp only at h
      split at h
      · next hnew =>
          obtain rfl := Option.some.inj h
          exact .create hnew.1 hnew.2.1 hnew.2.2
      · cases h
  | act n e =>
      simp only [Option.bind_eq_some_iff] at h
      obtain ⟨p, hp, h⟩ := h
      split at h
      · cases h
      · next hother =>
          obtain ⟨t, hstep, hadv⟩ := Option.bind_eq_some_iff.1 h
          rw [advance_eq_some hadv]
          exact .act hp (by simpa using hother) hstep (submitted_of_advance hadv)
  | complete i r =>
      obtain ⟨b, p, hb, hp, ⟨hlive, t, hstep, hnone, rfl⟩ | ⟨hdel, rfl⟩⟩ :=
        workerMain_cases hinv h
      · exact .exec hb hp hlive hstep hnone
      · exact .dangle hb hp hdel
  | shutdown =>
      simp only at h
      split at h
      · cases h
      · obtain rfl := Option.some.inj h
        exact .shutdown
  | join =>
      simp only at h
      split at h
      · next hdone =>
          obtain rfl := Option.some.inj h
          simp only [Bool.and_eq_true, List.isEmpty_iff] at hdone
          exact .join hdone.1 hdone.2
      · cases h

/-! ## The invariant is kept -/

/-- A completion takes one batch off the call, and `exec` starts others. -/
theorem exec_starts {P : Party} {t t' : P.State} {k : ℕ} {r : Received}
    (hlive : P.deleted t = false) (h : P.machine.step t (P.complete k r) = some t') :
    ((P.call t).completeAt k).Starts (P.call t') := by
  rw [P.step_complete, Option.map_eq_some_iff] at h
  obtain ⟨o, hwork, rfl⟩ := h
  obtain ⟨b, -, hcase⟩ := Live.workerMain_eq_some hwork
  rcases hcase with ⟨hdel, -⟩ | ⟨-, rfl⟩
  · rw [Party.deleted, hdel] at hlive
    cases hlive
  · have hstarts := P.exec_starts (Live.completed (P.object t).obj k b r) (BatchSpec.flags b)
    simp only [Live.completed, P.call_receive, P.call_setCall] at hstarts
    simp only [Party.call, P.object_setObject]
    exact hstarts

/-- The `n`-th party goes to `t`: `inFlight` is what is left in flight of the batches it has taken
    off its call, and `heap` differs from the heap before in the place of its object at most. -/
theorem Inv.move {q : CompletionQueue P} (h : Inv q) {n : ℕ} {p : Resident P}
    {t : (P p.kind).State} (hp : q.parties[n]? = some p) {inFlight : List InFlight}
    {c : Call (P p.kind).Batch} (hstarted : c.started = ((P p.kind).call p.state).started)
    (hstarts : c.Starts ((P p.kind).call t))
    (hself : inFlight.filter (·.party == n) = tagged n p.address c.outstanding)
    (hrest : ∀ m ≠ n, inFlight.filter (·.party == m) = q.inFlight.filter (·.party == m))
    (hsub : ∀ b ∈ inFlight, b ∈ q.inFlight)
    {heap : BitVec 64 → Option ℕ}
    (hplace : heap p.address = some n ↔ (P p.kind).deleted t = false)
    (hheap : ∀ a m, m ≠ n → (heap a = some m ↔ q.heap a = some m))
    (hown : ∀ a, heap a = some n → q.heap a = some n) :
    Inv { q with
      parties := q.parties.set n { p with state := t }
      inFlight := inFlight ++ submitted n p.address ((P p.kind).call p.state) ((P p.kind).call t)
      heap := heap } where
  aligned {m x} hx := by
    rcases List.getElem?_set_cases hx with ⟨-, rfl⟩ | ⟨-, hold⟩
    · show Aligned p.address
      exact h.aligned hp
    · exact h.aligned hold
  tags {m x} hx := by
    have hnew : submitted n p.address ((P p.kind).call p.state) ((P p.kind).call t)
        = submitted n p.address c ((P p.kind).call t) := by
      simp only [submitted, hstarted]
    simp only [List.filter_append, hnew]
    rcases List.getElem?_set_cases hx with ⟨rfl, rfl⟩ | ⟨hne, hold⟩
    · rw [hself, filter_submitted_self, tagged_starts hstarts]
    · rw [filter_submitted_ne (Ne.symm hne), List.append_nil, hrest m hne, h.tags hold]
  placed {m x} hx := by
    rcases List.getElem?_set_cases hx with ⟨rfl, rfl⟩ | ⟨hne, hold⟩
    · exact hplace
    · exact (hheap _ _ hne).trans (h.placed hold)
  owned {a m} ha := by
    by_cases hm : m = n
    · subst hm
      obtain ⟨x, hx, rfl⟩ := h.owned (hown a ha)
      obtain rfl : x = p := Option.some.inj (hx.symm.trans hp)
      exact ⟨{ x with state := t }, by simp [List.getElem?_set_self', hp], rfl⟩
    · obtain ⟨x, hx, rfl⟩ := h.owned ((hheap a m hm).1 ha)
      exact ⟨x, by rw [List.getElem?_set_ne (Ne.symm hm), hx], rfl⟩
  known b hb := by
    rw [List.length_set]
    rcases List.mem_append.1 hb with hold | hnew
    · exact h.known b (hsub b hold)
    · rw [party_submitted hnew]
      exact (List.getElem?_eq_some_iff.1 hp).1

theorem inv_moved {q : CompletionQueue P} (h : Inv q) {n : ℕ} {p : Resident P}
    {t : (P p.kind).State} (hp : q.parties[n]? = some p)
    (hstarts : ((P p.kind).call p.state).Starts ((P p.kind).call t))
    (hdel : (P p.kind).deleted t = (P p.kind).deleted p.state) : Inv (q.moved n p t) :=
  h.move hp rfl hstarts (h.tags hp) (fun _ _ => rfl) (fun _ hb => hb)
    (by rw [hdel]; exact h.placed hp) (fun _ _ _ => Iff.rfl) (fun _ ha => ha)

theorem inv_executed {q : CompletionQueue P} (h : Inv q) {i : ℕ} {r : Received} {b : InFlight}
    {p : Resident P} {t : (P p.kind).State} (hb : q.inFlight[i]? = some b)
    (hp : q.parties[b.party]? = some p) (hlive : (P p.kind).deleted p.state = false)
    (hstep : (P p.kind).machine.step p.state ((P p.kind).complete (q.position i b) r) = some t) :
    Inv (q.executed i b.party p t) := by
  have hstarts := exec_starts hlive hstep
  have hself : (q.inFlight.eraseIdx i).filter (·.party == b.party)
      = tagged b.party p.address
        (((P p.kind).call p.state).completeAt (q.position i b)).outstanding := by
    rw [List.filter_eraseIdx_of_pos (by simp) q.inFlight i hb, h.tags hp]
    simp only [tagged, Call.completeAt, position, List.eraseIdx_map]
  have hrest : ∀ m ≠ b.party, (q.inFlight.eraseIdx i).filter (·.party == m)
      = q.inFlight.filter (·.party == m) := by
    intro m hm
    exact List.filter_eraseIdx_of_neg (by simpa using Ne.symm hm) q.inFlight i hb
  have hsub : ∀ x ∈ q.inFlight.eraseIdx i, x ∈ q.inFlight := by
    intro x hx
    exact List.mem_of_mem_eraseIdx hx
  have hplaced := (h.placed hp).2 hlive
  have hsame : (((P p.kind).call p.state).completeAt (q.position i b)).started
      = ((P p.kind).call p.state).started := rfl
  unfold executed
  cases hdel : (P p.kind).deleted t with
  | false =>
      exact h.move hp hsame hstarts hself hrest hsub (by rw [hdel]; exact iff_of_true hplaced rfl)
        (fun _ _ _ => Iff.rfl) (fun _ ha => ha)
  | true =>
      refine h.move hp hsame hstarts hself hrest hsub ?_ ?_ ?_
      · simp [hdel]
      · intro a m hm
        by_cases ha : a = p.address
        · subst ha
          simp [hplaced, Ne.symm hm]
        · rw [Function.update_of_ne ha]
          exact Iff.rfl
      · intro a ha
        by_cases hne : a = p.address
        · subst hne
          exact hplaced
        · rwa [Function.update_of_ne hne] at ha

theorem inv_created {q : CompletionQueue P} (h : Inv q) (kind : ι) {address : BitVec 64}
    (haligned : Aligned address) (hfree : q.heap address = none) :
    Inv (q.created kind address) where
  aligned {m x} hx := by
    rcases List.getElem?_append_cases hx with ⟨-, rfl⟩ | ⟨-, hold⟩
    · exact haligned
    · exact h.aligned hold
  tags {m x} hx := by
    simp only [created, List.filter_append]
    rcases List.getElem?_append_cases hx with ⟨rfl, rfl⟩ | ⟨hlt, hold⟩
    · have hnone : q.inFlight.filter (·.party == q.parties.length) = [] :=
        List.filter_eq_nil_iff.2 fun b hb => by simpa using (h.known b hb).ne
      rw [hnone, filter_submitted_self]
      exact tagged_starts (P kind).init_starts
    · rw [filter_submitted_ne hlt.ne', List.append_nil, h.tags hold]
  placed {m x} hx := by
    rcases List.getElem?_append_cases hx with ⟨rfl, rfl⟩ | ⟨hlt, hold⟩
    · simp only [created, Function.update_self, true_iff]
      exact (P kind).init_live
    · by_cases ha : x.address = address
      · -- The address was free, so an older object there is deleted.
        have hdel : ¬(P x.kind).deleted x.state = false := by
          rw [← h.placed hold, ha, hfree]
          simp
        simp [created, ha, hlt.ne', hdel]
      · simp only [created, Function.update_of_ne ha]
        exact h.placed hold
  owned {a m} ha := by
    simp only [created] at ha ⊢
    by_cases hne : a = address
    · subst hne
      rw [Function.update_self, Option.some.injEq] at ha
      subst ha
      exact ⟨⟨kind, a, (P kind).machine.init⟩, by simp, rfl⟩
    · rw [Function.update_of_ne hne] at ha
      obtain ⟨x, hx, rfl⟩ := h.owned ha
      exact ⟨x, by rw [List.getElem?_append_left (List.getElem?_eq_some_iff.1 hx).1, hx], rfl⟩
  known b hb := by
    simp only [created, List.length_append, List.length_singleton]
    rcases List.mem_append.1 hb with hold | hnew
    · exact Nat.lt_succ_of_lt (h.known b hold)
    · rw [party_submitted hnew]
      exact Nat.lt_succ_self _

theorem inv_step {q q' : CompletionQueue P} {e : Event P} (h : Inv q) (hstep : q.step e = some q')
    (hdefined : q'.dangling = false) : Inv q' := by
  cases moves_of_step h hstep with
  | create haligned hfree _ => exact inv_created h _ haligned hfree
  | act hp hother hparty _ =>
      obtain ⟨hdel, hstarts⟩ := (P _).step_other hparty hother
      exact inv_moved h hp hstarts hdel
  | exec hb hp hlive hparty _ => exact inv_executed h hb hp hlive hparty
  | dangle hb hp hdel => cases hdefined
  | shutdown => exact { h with }
  | join hshut hdrained => exact { h with }

theorem defined_of_step {q q' : CompletionQueue P} {e : Event P} (h : q.step e = some q') :
    q.dangling = false ∧ q.joined = false := by
  unfold step at h
  split at h
  · cases h
  · next hgo => simpa using hgo

theorem reachable_step {q q' : CompletionQueue P} {e : Event P} (h : (machine P).Reachable q)
    (hstep : q.step e = some q') : (machine P).Reachable q' :=
  h.step (e := e) hstep

theorem inv_of_reachable {q : CompletionQueue P} (h : (machine P).Reachable q)
    (hdefined : q.dangling = false) : Inv q := by
  revert hdefined
  refine h.invariant (P := fun q => q.dangling = false → Inv q) (fun _ => inv_init) ?_
  intro q q' e hstep ih hdefined
  exact inv_step (ih (defined_of_step hstep).1) hstep hdefined

/-! ## The parties are on their own -/

/-- The parties of a queue, as members of a family. -/
def members (q : CompletionQueue P) : List (Σ kind, (P kind).State) :=
  q.parties.map (fun p => ⟨p.kind, p.state⟩)

/-- What the family of the parties does while the queue takes a step. -/
def familyEvents (q : CompletionQueue P) :
    Event P → List (Machine.FamilyEvent (fun kind => (P kind).Event))
  | .create kind _ => [.spawn kind]
  | .act n e => [.act n e]
  | .complete i r =>
      match q.inFlight[i]? with
      | some b =>
          if q.heap (tagCallback b.tag) = some b.party then
            [.act b.party (fun kind => (P kind).complete (q.position i b) r)]
          else []
      | none => []
  | .shutdown | .join => []

theorem family_act {q : CompletionQueue P} {n : ℕ} {p : Resident P} {t : (P p.kind).State}
    {e : (kind : ι) → (P kind).Event} (hp : q.parties[n]? = some p)
    (hstep : (P p.kind).machine.step p.state (e p.kind) = some t) :
    (Machine.family fun kind => (P kind).machine).run q.members [.act n e]
      = some ((q.parties.set n { p with state := t }).map (fun p => ⟨p.kind, p.state⟩)) := by
  simp [Machine.run, Machine.family, members, hp, hstep, List.map_set]

/-- A turn of `worker_main` for a party whose object still exists. -/
theorem familyEvents_exec {q : CompletionQueue P} (h : Inv q) {i : ℕ} {b : InFlight}
    {p : Resident P} (hb : q.inFlight[i]? = some b) (hp : q.parties[b.party]? = some p)
    (hlive : (P p.kind).deleted p.state = false) (r : Received) :
    q.familyEvents (.complete i r)
      = [.act b.party (fun kind => (P kind).complete (q.position i b) r)] := by
  obtain ⟨-, -, hcallback, -⟩ := h.batch hb hp
  simp only [familyEvents, hb, hcallback, (h.placed hp).2 hlive, if_true]

theorem familyEvents_dangle {q : CompletionQueue P} (h : Inv q) {i : ℕ} {b : InFlight}
    {p : Resident P} (hb : q.inFlight[i]? = some b) (hp : q.parties[b.party]? = some p)
    (hdel : (P p.kind).deleted p.state = true) (r : Received) :
    q.familyEvents (.complete i r) = [] := by
  obtain ⟨-, -, hcallback, -⟩ := h.batch hb hp
  have hgone : q.heap p.address ≠ some b.party := by
    rw [ne_eq, h.placed hp, hdel]
    decide
  simp only [familyEvents, hb, hcallback, if_neg hgone]

/-- **The queue refines the family of its parties.** Whatever order the events come in and whatever
    addresses the objects get, each party takes the steps of its own machine. -/
def toFamily (P : ι → Party) :
    Simulation (machine P) (Machine.family fun kind => (P kind).machine) where
  abs := members
  inv q := q.dangling = false → Inv q
  events := familyEvents
  inv_of_reachable h := inv_of_reachable h
  abs_init := rfl
  abs_step {q q' e} hinv hstep := by
    have h := hinv (defined_of_step hstep).1
    cases moves_of_step h hstep with
    | create => simp [familyEvents, Machine.run, Machine.family, members, created]
    | act hp _ hparty _ => exact family_act hp hparty
    | exec hb hp hlive hparty _ =>
        rw [familyEvents_exec h hb hp hlive, family_act hp hparty]
        simp only [members, parties_executed]
    | dangle hb hp hdel =>
        rw [familyEvents_dangle h hb hp hdel]
        rfl
    | shutdown => rfl
    | join => rfl

/-- Every party is in a state its own machine reaches. -/
theorem party_reachable {q : CompletionQueue P} (h : (machine P).Reachable q) {p : Resident P}
    (hp : p ∈ q.parties) : (P p.kind).machine.Reachable p.state :=
  ((toFamily P).reachable h).family_member (m := ⟨p.kind, p.state⟩)
    (List.mem_map.2 ⟨p, hp, rfl⟩)

end CompletionQueue

end EasyGrpc
