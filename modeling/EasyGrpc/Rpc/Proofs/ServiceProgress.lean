import Mathlib.Data.List.Perm.Subperm
import EasyGrpc.Rpc.Proofs.Service

set_option autoImplicit false

/-! # A service answers its calls

The two completion threads and the listener do not get in each other's way: what they do of their
own comes to an end, and then every call was accepted and has the answer of its handler, or waits
for its user. -/

namespace EasyGrpc

variable {Req Rep : Type} [Serializer Req] [Serializer Rep]

namespace UnaryService

variable {method : UnaryMethod Req Rep} {s s' : UnaryService method}

/-- A step of the two threads, as opposed to the users'. -/
def Event.isInternal : Event Req Rep → Bool
  | .accept .. | .clientDone .. | .serverDone .. => true
  | _ => false

/-- The batches in flight, and for each call that was not accepted yet its acceptance and the answer
    that comes of it. -/
def work (s : UnaryService method) : ℕ :=
  s.clients.inFlight.length + s.servers.inFlight.length
    + 2 * (s.clients.parties.length - s.accepted.length)

/-! ## Every step is progress -/

/-- There is a call for each acceptance. -/
theorem Inv.length_accepted_le (h : s.Inv) : s.accepted.length ≤ s.clients.parties.length := by
  have hsub : s.accepted ⊆ List.range s.clients.parties.length :=
    fun n hn => List.mem_range.2 (h.started n hn)
  simpa using (List.subperm_of_subset h.nodup hsub).length_le

/-- The completion of a batch takes it from the queue and starts nothing. -/
theorem length_executed {ι : Type} {P : ι → Party} (hstill : ∀ kind, (P kind).ExecStartsNothing)
    {q : CompletionQueue P} (hinv : CompletionQueue.Inv q) {i : ℕ} {b : InFlight} {p : Resident P}
    {t : (P p.kind).State} {r : Received} (hb : q.inFlight[i]? = some b)
    (hp : q.parties[b.party]? = some p) (hlive : (P p.kind).deleted p.state = false)
    (hstep : (P p.kind).machine.step p.state ((P p.kind).complete (q.position i b) r) = some t) :
    (q.executed i b.party p t).inFlight.length + 1 = q.inFlight.length := by
  obtain ⟨batch, hbatch, -⟩ := hinv.batch hb hp
  rw [← CompletionQueue.exec_eq_step hbatch hlive] at hstep
  have hnone := CompletionQueue.submitted_exec (hstill p.kind) hstep b.party p.address
  obtain ⟨hlt, -⟩ := List.getElem?_eq_some_iff.1 hb
  rw [CompletionQueue.inFlight_executed, hnone, List.append_nil, List.length_eraseIdx_of_lt hlt]
  omega

theorem work_clientDone (h : s.Inv) {i : ℕ} {err : Option CString}
    (hstep : s.step (.clientDone i err) = some s') : s'.work < s.work := by
  obtain ⟨b, hb, hstep⟩ := Option.bind_eq_some_iff.1 hstep
  obtain ⟨c, hc, hstep⟩ := Option.bind_eq_some_iff.1 hstep
  obtain ⟨batch, hbatch, hstep⟩ := Option.bind_eq_some_iff.1 hstep
  obtain ⟨r, hr, hstep⟩ := Option.bind_eq_some_iff.1 hstep
  obtain ⟨clients, hcomplete, rfl⟩ := Option.map_eq_some_iff.1 hstep
  have hinv := CompletionQueue.inv_of_reachable h.clients
    (CompletionQueue.defined_of_diesClean clients_clean h.clients)
  obtain ⟨b', p, t, hb', hp, hlive, hparty, rfl⟩ :=
    CompletionQueue.complete_eq_some clients_clean h.clients hcomplete
  have hlength := length_executed (fun _ _ _ => rfl) hinv hb' hp hlive hparty
  simp only [work, CompletionQueue.parties_executed, List.length_set]
  omega

theorem work_serverDone (h : s.Inv) {i : ℕ} {r : Received}
    (hstep : s.step (.serverDone i r) = some s') : s'.work < s.work := by
  obtain ⟨servers, hcomplete, rfl⟩ := Option.map_eq_some_iff.1 hstep
  have hinv := CompletionQueue.inv_of_reachable h.servers
    (CompletionQueue.defined_of_diesClean (servers_clean method) h.servers)
  obtain ⟨b, p, t, hb, hp, hlive, hparty, rfl⟩ :=
    CompletionQueue.complete_eq_some (servers_clean method) h.servers hcomplete
  have hlength := length_executed (fun _ _ _ => rfl) hinv hb hp hlive hparty
  simp only [work]
  omega

theorem work_accept (h : s.Inv) {n : ℕ} {address : BitVec 64}
    (hstep : s.step (.accept n address) = some s') : s'.work < s.work := by
  obtain ⟨-, x, payload, k, p, t, -, -, hp, -, hperformed, hinject⟩ := accept_eq_some h hstep
  obtain ⟨-, -, rfl⟩ := inject_eq_some hperformed hinject
  have hroom := hperformed.length_accepted_le
  have hanswer : t.handler.obj.call.started.length ≤ 1 := by
    have hset : (s.servers.moved k p t).parties[k]? = some { p with state := t } :=
      List.getElem?_set_self (List.getElem?_eq_some_iff.1 hp).1
    have hreach := CompletionQueue.party_reachable hperformed.servers (List.mem_of_getElem? hset)
    exact UnaryServer.length_started_le (UnaryServer.inv_of_reachable hreach)
  -- The handler has started at most its answer, and the new one nothing.
  have hflight : ((s.servers.moved k p t).created () address).inFlight.length
      ≤ s.servers.inFlight.length + 1 := by
    have hnone : (((UnaryServer.party method).call
        (UnaryServer.party method).machine.init).started).length = 0 := rfl
    have hsome : (((UnaryServer.party method).call t).started).length ≤ 1 := hanswer
    simp only [CompletionQueue.created, CompletionQueue.moved, CompletionQueue.submitted,
      List.length_append, List.length_map, List.length_drop, hnone]
    omega
  simp only [List.length_append, List.length_singleton] at hroom
  simp only [work, List.length_append, List.length_singleton]
  omega

/-! ## What is enabled -/

/-- The `k`-th outstanding batch of a call can complete whenever it could on its own. -/
theorem exists_clientDone (h : s.Inv) {n : ℕ} {p : Resident (fun req : Req => UnaryClient.party Rep req)}
    (hp : s.clients.parties[n]? = some p) {k : ℕ} {err : Option CString}
    (hstep : (s.alone n p.state).step method (.clientDone k err) ≠ none) :
    ∃ i, (s.step (.clientDone i err)).isSome = true := by
  obtain ⟨r', hr'⟩ := Option.ne_none_iff_exists'.1 hstep
  obtain ⟨batch, hbatch, hr'⟩ := Option.bind_eq_some_iff.1 hr'
  obtain ⟨r, hr, -⟩ := Option.bind_eq_some_iff.1 hr'
  obtain ⟨i, b, hb, rfl, rfl, hcan⟩ := CompletionQueue.exists_complete clients_clean h.clients
    h.clients_open.1 h.clients_open.2 hp hbatch
  obtain ⟨clients, hclients⟩ := Option.isSome_iff_exists.1 (hcan r rfl)
  have hdone : s.step (.clientDone i err) = some { s with
      clients
      toClient :=
        Function.update s.toClient b.party ((s.serverPeer b.party).posAfter r) } :=
    Option.bind_eq_some_iff.2 ⟨b, hb, Option.bind_eq_some_iff.2 ⟨_, client_eq hp,
      Option.bind_eq_some_iff.2 ⟨batch, hbatch, Option.bind_eq_some_iff.2 ⟨r, hr,
        Option.map_eq_some_iff.2 ⟨clients, hclients, rfl⟩⟩⟩⟩⟩
  exact ⟨i, Option.isSome_iff_exists.2 ⟨_, hdone⟩⟩

theorem exists_serverDone (h : s.Inv) {n : ℕ} (hn : n ∈ s.accepted) {k : ℕ} {r : Received}
    (hstep : (s.server n).step method (.complete k r) ≠ none) :
    ∃ i, (s.step (.serverDone i r)).isSome = true := by
  obtain ⟨_, hmove⟩ := Option.ne_none_iff_exists'.1 hstep
  obtain ⟨handler, hwork, -⟩ := Option.map_eq_some_iff.1 hmove
  obtain ⟨batch, hbatch, -⟩ := Live.workerMain_eq_some hwork
  obtain ⟨j, -, hhandler, -⟩ := h.exists_handler hn
  obtain ⟨p, hp, hstate⟩ := Option.map_eq_some_iff.1 hhandler
  rw [← hstate] at hbatch
  obtain ⟨i, b, -, -, -, hcan⟩ := CompletionQueue.exists_complete (servers_clean method) h.servers
    h.servers_open.1 h.servers_open.2 hp hbatch
  obtain ⟨servers, hservers⟩ := Option.isSome_iff_exists.1 (hcan r rfl)
  exact ⟨i, Option.isSome_iff_exists.2 ⟨_, Option.map_eq_some_iff.2 ⟨servers, hservers, rfl⟩⟩⟩

/-- While the method is listened for and there is room for another handler, a call can be
    accepted. -/
theorem exists_accept (h : s.Inv) (hlisten : s.pendingCall.isSome = true) {address : BitVec 64}
    (haligned : Aligned address) (hfree : s.servers.heap address = none) {n : ℕ}
    (hlt : n < s.clients.parties.length) (hn : n ∉ s.accepted) :
    (s.step (.accept n address)).isSome = true := by
  obtain ⟨k, hpending⟩ := Option.isSome_iff_exists.1 hlisten
  obtain ⟨-, hnew⟩ := h.pending k hpending
  obtain ⟨p, hp, hstate⟩ := Option.map_eq_some_iff.1 hnew
  obtain ⟨x, hx⟩ : ∃ x, s.clients.parties[n]? = some x := ⟨_, List.getElem?_eq_getElem hlt⟩
  have hsent := (UnaryRpc.wire_of_reachable (h.calls hx)).sent
  have hpayload : (s.alone n x.state).client.obj.call.sent.head? = some (serialize x.kind) := by
    rw [hsent]
    rfl
  have hdefined := CompletionQueue.defined_of_diesClean (servers_clean method) h.servers
  obtain ⟨t, ht⟩ : ∃ t, UnaryServer.step method p.state (.perform (serialize x.kind)) = some t := by
    rw [hstate]
    exact ⟨_, rfl⟩
  have hact : s.servers.step (.act k fun _ => .perform (serialize x.kind))
      = some (s.servers.moved k p t) :=
    CompletionQueue.step_act (e := fun _ => UnaryServer.Event.perform (serialize x.kind)) hdefined
      h.servers_open.2 h.servers_open.1 hp rfl ht
  have hcreate : (s.servers.moved k p t).step (.create () address)
      = some ((s.servers.moved k p t).created () address) :=
    CompletionQueue.step_create (q := s.servers.moved k p t) hdefined h.servers_open.2
      h.servers_open.1 () haligned hfree
  have hinject : inject { s with
      servers := s.servers.moved k p t, pendingCall := none, accepted := s.accepted ++ [n] } address
        = some _ :=
    Option.map_eq_some_iff.2 ⟨_, hcreate, rfl⟩
  rw [step, if_neg hn]
  exact Option.isSome_iff_exists.2 ⟨_, Option.bind_eq_some_iff.2 ⟨_, client_eq hx,
    Option.bind_eq_some_iff.2 ⟨_, hpayload, Option.bind_eq_some_iff.2 ⟨k, hpending,
      Option.bind_eq_some_iff.2 ⟨_, hact, hinject⟩⟩⟩⟩⟩

/-! ## At rest -/

/-- What there is when only the users can do something. -/
structure Rests (s : UnaryService method) : Prop where
  /-- Each call that was accepted has the answer of its handler, or waits for its user. -/
  answered : ∀ n ∈ s.accepted, ∃ req r, s.request n = some req ∧ s.rpc n = some r ∧
    UnaryRpc.Rests method req r
  /-- While the method is listened for, and there is memory for one more handler, that is every
      call. -/
  accepted : s.pendingCall.isSome = true → (∃ a, Aligned a ∧ s.servers.heap a = none) →
    ∀ n req, s.request n = some req → n ∈ s.accepted

theorem alone_atRest (h : s.Inv) (hrest : (machine method).AtRest Event.isInternal s) {n : ℕ}
    {x : Resident (fun req : Req => UnaryClient.party Rep req)}
    (hx : s.clients.parties[n]? = some x) (hn : n ∈ s.accepted) :
    (UnaryRpc.machine method x.kind).AtRest UnaryRpc.Event.isInternal (s.alone n x.state) := by
  intro e hinternal
  by_contra hsome
  cases e with
  | handlerReply => cases hinternal
  | accept =>
      obtain ⟨-, -, -, hperformed⟩ := h.exists_handler hn
      obtain ⟨r, hr⟩ := Option.ne_none_iff_exists'.1 hsome
      obtain ⟨payload, -, hr⟩ := Option.bind_eq_some_iff.1 hr
      obtain ⟨c, hc, -⟩ := Option.map_eq_some_iff.1 hr
      cases UnaryServer.moves_of_step hc with
      | perform hnot => cases hnot.symm.trans hperformed
  | clientDone k err =>
      obtain ⟨i, hdone⟩ := exists_clientDone h hx hsome
      rw [show s.step (.clientDone i err) = none from hrest (.clientDone i err) rfl] at hdone
      cases hdone
  | serverDone k r =>
      have hserver : (s.server n).step method (.complete k r) ≠ none := by
        intro hnone
        refine hsome ?_
        exact Option.map_eq_none_iff.2 hnone
      obtain ⟨i, hdone⟩ := exists_serverDone h hn hserver
      rw [show s.step (.serverDone i r) = none from hrest (.serverDone i r) rfl] at hdone
      cases hdone

theorem rests_of_atRest (h : (machine method).Reachable s)
    (hrest : (machine method).AtRest Event.isInternal s) : s.Rests := by
  have hinv := inv_of_reachable h
  constructor
  · intro n hn
    obtain ⟨x, hx⟩ : ∃ x, s.clients.parties[n]? = some x :=
      ⟨_, List.getElem?_eq_getElem (hinv.started n hn)⟩
    refine ⟨x.kind, s.alone n x.state, by rw [request, hx]; rfl, ?_, ?_⟩
    · rw [rpc, client_eq hx]
      rfl
    · exact UnaryRpc.rests_of_atRest (hinv.calls hx) (alone_atRest hinv hrest hx hn)
  · rintro hlisten ⟨a, haligned, hfree⟩ n req hreq
    obtain ⟨x, hx, -⟩ := Option.map_eq_some_iff.1 hreq
    by_contra hn
    have haccept := exists_accept hinv hlisten haligned hfree (List.getElem?_eq_some_iff.1 hx).1 hn
    rw [show s.step (.accept n a) = none from hrest (.accept n a) rfl] at haccept
    cases haccept

/-- The steps of the two threads come to an end. -/
theorem quiesces : (machine method).Quiesces Event.isInternal work := by
  constructor
  intro s s' e hs hinternal hstep
  have hinv := inv_of_reachable hs
  cases e with
  | start => cases hinternal
  | listen => cases hinternal
  | handlerReply => cases hinternal
  | accept => exact work_accept hinv hstep
  | clientDone => exact work_clientDone hinv hstep
  | serverDone => exact work_serverDone hinv hstep

end UnaryService

end EasyGrpc
