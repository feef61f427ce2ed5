import Mathlib.Data.List.Nodup
import EasyGrpc.Queue.Proofs.Settling
import EasyGrpc.Rpc.Service
import EasyGrpc.Rpc.Proofs.UnaryProgress

set_option autoImplicit false

/-! # The calls of a service do not see each other

However many calls share the two queues and the one listener, each of them is a unary RPC on its
own: the handler that performs it performs no other, and each completion on either side is one of
its own. What holds of a unary RPC therefore holds of every call of the service, and a service at
rest has answered every call whose handler has come to an outcome. -/

namespace EasyGrpc

variable {Req Rep : Type} [Serializer Req] [Serializer Rep]

/-! ## Handlers die clean -/

namespace UnaryServer

/-- Every batch of a handler sends a status. -/
theorem length_statuses (call : Call UnaryServerBatch) :
    call.statuses.length = call.started.length := by
  unfold Call.statuses Call.ops
  induction call.started with
  | nil => rfl
  | cons b l ih =>
      rw [List.flatMap_cons, List.filterMap_append, List.length_append, ih, List.length_cons,
        Nat.add_comm]
      cases b <;> rfl

omit [Serializer Req] in
theorem length_started_le {c : UnaryServer Rep} (h : c.Inv) :
    c.handler.obj.call.started.length ≤ 1 := by
  rw [← length_statuses, h.statuses]
  cases c.outcome with
  | none => exact Nat.zero_le 1
  | some o => cases o <;> exact Nat.le_refl 1

theorem inv_of_reachable {method : UnaryMethod Req Rep} {c : UnaryServer Rep}
    (h : (machine method).Reachable c) : c.Inv :=
  h.invariant (inv_init method) (fun hstep hc => (inv_step hc hstep).1)

/-- A handler is deleted when its one batch has completed. -/
theorem diesClean (method : UnaryMethod Req Rep) : (party method).DiesClean := by
  intro c h
  induction h with
  | init =>
      intro hdel
      cases hdel
  | @step c c' e hc hnext ih =>
      intro hdel
      cases moves_of_step hnext with
      | perform =>
          have hdel' : c.handler.deleted = true := by simpa [Party.deleted, party] using hdel
          simpa [Party.call, party, Live.update_of_deleted hdel'] using ih hdel'
      | reply =>
          have hdel' : c.handler.deleted = true := by simpa [Party.deleted, party] using hdel
          simpa [Party.call, party, Live.update_of_deleted hdel'] using ih hdel'
      | @complete i r handler hwork =>
          obtain ⟨b, hb, hcase⟩ := Live.workerMain_eq_some hwork
          rcases hcase with ⟨hdel', -⟩ | ⟨hlive, rfl⟩
          · cases (congrArg (·[i]?) (ih hdel')).symm.trans hb
          · have hlength := Call.length_completeAt (c := c.handler.obj.call) hb
            have hall := outstanding_of_live hc hlive
            have hle := length_started_le (inv_of_reachable hc)
            show (c.handler.obj.call.completeAt i).outstanding = []
            exact List.length_eq_zero_iff.1 (by omega)

end UnaryServer

namespace UnaryService

variable {method : UnaryMethod Req Rep} {s s' : UnaryService method}

theorem clients_clean (req : Req) : (UnaryClient.party Rep req).DiesClean :=
  Party.diesClean_of_settlesOnce (UnaryClient.settlesOnce req)

theorem servers_clean (method : UnaryMethod Req Rep) (_ : Unit) :
    (UnaryServer.party method).DiesClean :=
  UnaryServer.diesClean method

/-! ## Which handler performs a call -/

theorem client_eq {n : ℕ} {p : Resident (fun req : Req => UnaryClient.party Rep req)}
    (hp : s.clients.parties[n]? = some p) : s.client n = some p.state := by
  rw [client, hp]
  rfl

theorem handler_eq {k : ℕ} {p : Resident (fun _ : Unit => UnaryServer.party method)}
    (hp : s.servers.parties[k]? = some p) : s.handler k = some p.state := by
  rw [handler, hp]
  rfl

theorem server_of_accepted (hnodup : s.accepted.Nodup) {k n : ℕ} (hk : s.accepted[k]? = some n) :
    s.server n = (s.handler k).getD (UnaryServer.machine method).init := by
  obtain ⟨hlt, rfl⟩ := List.getElem?_eq_some_iff.1 hk
  have hidx : s.accepted.idxOf? s.accepted[k] = some k := by
    refine List.idxOf?_eq_some_iff.2 ⟨hlt, by simp, fun j hj hsame => ?_⟩
    exact hj.ne ((List.Nodup.getElem_inj_iff hnodup).1 (by simpa using hsame))
  rw [server, hidx]
  rfl

theorem server_of_new {n : ℕ} (hn : n ∉ s.accepted) :
    s.server n = (UnaryServer.machine method).init := by
  rw [server, List.idxOf?_eq_none_iff.2 hn]
  rfl

/-- The call `n` is on its own what the session `client` and its handler are. -/
def alone (s : UnaryService method) (n : ℕ) (client : Live (UnaryCallCompletion Rep)) :
    UnaryRpc Rep :=
  { client, server := s.server n, toClient := s.toClient n }

theorem alone_congr {n : ℕ} {req : Req} {client : Live (UnaryCallCompletion Rep)}
    {server : UnaryServer Rep} {pos : ℕ}
    (h : (UnaryRpc.machine method req).Reachable { client, server, toClient := pos })
    (hserver : s.server n = server) (hpos : s.toClient n = pos) :
    (UnaryRpc.machine method req).Reachable (s.alone n client) := by
  rwa [alone, hserver, hpos]

/-! ## The invariant -/

/-- A queue that takes batches and hands out their completions. -/
def IsOpen {ι : Type} {P : ι → Party} (q : CompletionQueue P) : Prop :=
  q.shutDown = false ∧ q.joined = false

structure Inv (s : UnaryService method) : Prop where
  clients : (CompletionQueue.machine _).Reachable s.clients
  servers : (CompletionQueue.machine _).Reachable s.servers
  clients_open : IsOpen s.clients
  servers_open : IsOpen s.servers
  /-- There is a handler for each call that was accepted, and the pending one. -/
  handlers : s.servers.parties.length = s.accepted.length + s.pendingCall.isSome.toNat
  pending : ∀ k, s.pendingCall = some k →
    k = s.accepted.length ∧ s.handler k = some (UnaryServer.machine method).init
  performed : ∀ k < s.accepted.length, ∃ c, s.handler k = some c ∧ c.performed = true
  nodup : s.accepted.Nodup
  started : ∀ n ∈ s.accepted, n < s.clients.parties.length
  unread : ∀ n, s.clients.parties.length ≤ n → s.toClient n = 0
  /-- Every call is a unary RPC on its own. -/
  calls : ∀ {n : ℕ} {p : Resident (fun req : Req => UnaryClient.party Rep req)},
    s.clients.parties[n]? = some p → (UnaryRpc.machine method p.kind).Reachable (s.alone n p.state)

theorem inv_init : (machine method).init.Inv where
  clients := .init
  servers := .init
  clients_open := ⟨rfl, rfl⟩
  servers_open := ⟨rfl, rfl⟩
  handlers := rfl
  pending _ hno := by cases hno
  performed _ hlt := by cases hlt
  nodup := List.nodup_nil
  started _ hno := by cases hno
  unread _ _ := rfl
  calls hno := by cases hno

/-! ## The clients' side -/

theorem inv_start (h : s.Inv) {req : Req} {address : BitVec 64}
    (hstep : s.step (.start req address) = some s') : s'.Inv := by
  obtain ⟨clients, hcreate, rfl⟩ := Option.map_eq_some_iff.1 hstep
  have hreach := CompletionQueue.reachable_step h.clients hcreate
  obtain rfl := CompletionQueue.create_eq_some clients_clean h.clients hcreate
  have hlength : (s.clients.created req address).parties.length
      = s.clients.parties.length + 1 := by simp [CompletionQueue.created]
  refine { h with
    clients := hreach, clients_open := h.clients_open, started := ?_, unread := ?_, calls := ?_ }
  · intro n hn
    rw [hlength]
    exact Nat.lt_succ_of_lt (h.started n hn)
  · intro n hn
    rw [hlength] at hn
    exact h.unread n (Nat.le_of_succ_le hn)
  · intro n p hp
    rcases List.getElem?_append_cases hp with ⟨rfl, rfl⟩ | ⟨-, hold⟩
    · -- The new call was not accepted, and nothing was read of its reply.
      have hnew : s.clients.parties.length ∉ s.accepted :=
        fun hmem => Nat.lt_irrefl _ (h.started _ hmem)
      have halone : s.alone s.clients.parties.length (UnaryClient.startUnaryCall Rep req true)
          = (UnaryRpc.machine method req).init := by
        rw [alone, server_of_new hnew, h.unread _ (Nat.le_refl _)]
        rfl
      exact halone ▸ .init
    · exact h.calls hold

theorem inv_clientDone (h : s.Inv) {i : ℕ} {err : Option CString}
    (hstep : s.step (.clientDone i err) = some s') : s'.Inv := by
  obtain ⟨b, hb, hstep⟩ := Option.bind_eq_some_iff.1 hstep
  obtain ⟨c, hc, hstep⟩ := Option.bind_eq_some_iff.1 hstep
  obtain ⟨batch, hbatch, hstep⟩ := Option.bind_eq_some_iff.1 hstep
  obtain ⟨r, hr, hstep⟩ := Option.bind_eq_some_iff.1 hstep
  obtain ⟨clients, hcomplete, rfl⟩ := Option.map_eq_some_iff.1 hstep
  have hreach := CompletionQueue.reachable_step h.clients hcomplete
  obtain ⟨b', p, t, hb', hp, -, hparty, rfl⟩ :=
    CompletionQueue.complete_eq_some clients_clean h.clients hcomplete
  obtain rfl : b' = b := Option.some.inj (hb'.symm.trans hb)
  obtain rfl := Option.some.inj ((client_eq hp).symm.trans hc)
  refine { h with
    clients := hreach
    clients_open := ⟨by simpa using h.clients_open.1, by simpa using h.clients_open.2⟩
    started := by simpa using h.started
    unread := ?_
    calls := ?_ }
  · intro n hn
    simp only [CompletionQueue.parties_executed, List.length_set] at hn
    have hlt := (List.getElem?_eq_some_iff.1 hp).1
    exact (Function.update_of_ne (by omega) _ _).trans (h.unread n hn)
  · intro n x hx
    simp only [CompletionQueue.parties_executed] at hx
    rcases List.getElem?_set_cases hx with ⟨rfl, rfl⟩ | ⟨hne, hold⟩
    · have hwork : Live.workerMain (p.state : Live (UnaryCallCompletion Rep))
          (s.clients.position i b') r = some t := hparty
      have hnext : (s.alone b'.party p.state).step method
          (.clientDone (s.clients.position i b') err)
            = some { s.alone b'.party t with toClient := (s.serverPeer b'.party).posAfter r } := by
        simp only [UnaryRpc.step, alone, hbatch, Option.bind_some]
        exact (congrArg (Option.bind · _) hr).trans (congrArg (Option.map _) hwork)
      have halone := UnaryRpc.reachable_step (h.calls hp) hnext
      exact alone_congr halone rfl (Function.update_self ..)
    · exact alone_congr (h.calls hold) rfl (Function.update_of_ne hne _ s.toClient)

/-! ## The server's side -/

theorem server_congr (hnodup : s.accepted.Nodup) (hnodup' : s'.accepted.Nodup) {n : ℕ}
    (hsame : ∀ k : ℕ, s'.accepted[k]? = some n ↔ s.accepted[k]? = some n)
    (hhandler : ∀ k : ℕ, s.accepted[k]? = some n → s'.handler k = s.handler k) :
    s'.server n = s.server n := by
  by_cases hn : n ∈ s.accepted
  · obtain ⟨k, hk⟩ := List.getElem?_of_mem hn
    rw [server_of_accepted hnodup hk, server_of_accepted hnodup' ((hsame k).2 hk), hhandler k hk]
  · have hn' : n ∉ s'.accepted := by
      intro hmem
      obtain ⟨k, hk⟩ := List.getElem?_of_mem hmem
      exact hn (List.mem_of_getElem? ((hsame k).1 hk))
    rw [server_of_new hn, server_of_new hn']

theorem inject_eq_some (h : s.Inv) {address : BitVec 64} (hstep : s.inject address = some s') :
    s.pendingCall = none ∧
      (CompletionQueue.machine _).Reachable (s.servers.created () address) ∧
      s' = { s with
        servers := s.servers.created () address, pendingCall := some s.servers.parties.length } := by
  obtain ⟨hnone, hstep⟩ := Option.ite_none_left_eq_some.1 hstep
  obtain ⟨servers, hcreate, rfl⟩ := Option.map_eq_some_iff.1 hstep
  have hreach := CompletionQueue.reachable_step h.servers hcreate
  obtain rfl := CompletionQueue.create_eq_some (servers_clean method) h.servers hcreate
  exact ⟨by simpa using hnone, hreach, rfl⟩

theorem inv_inject (h : s.Inv) {address : BitVec 64} (hstep : s.inject address = some s') :
    s'.Inv := by
  obtain ⟨hpending, hreach, rfl⟩ := inject_eq_some h hstep
  have hlength : s.servers.parties.length = s.accepted.length := by simpa [hpending] using h.handlers
  have hold : ∀ k < s.accepted.length,
      handler { s with
        servers := s.servers.created () address
        pendingCall := some s.servers.parties.length } k = s.handler k := by
    intro k hk
    simp only [handler, CompletionQueue.created]
    rw [List.getElem?_append_left (hlength ▸ hk)]
  refine { h with
    servers := hreach, servers_open := h.servers_open, handlers := ?_, pending := ?_,
    performed := ?_, calls := ?_ }
  · simp [CompletionQueue.created, hlength]
  · rintro k ⟨rfl⟩
    refine ⟨hlength, ?_⟩
    simp only [handler, CompletionQueue.created, List.getElem?_concat_length]
    rfl
  · intro k hk
    rw [hold k hk]
    exact h.performed k hk
  · intro n p hp
    refine alone_congr (h.calls hp) ?_ rfl
    refine server_congr h.nodup ?_ (fun _ => Iff.rfl) fun k hk => hold k ?_
    · exact h.nodup
    · exact (List.getElem?_eq_some_iff.1 hk).1

/-- Only the `k`-th handler has changed. -/
theorem handler_set (s s' : UnaryService method) {k : ℕ} {p : Resident (fun _ : Unit => UnaryServer.party method)}
    {t : UnaryServer Rep} (hp : s.servers.parties[k]? = some p)
    (hparties : s'.servers.parties = s.servers.parties.set k { p with state := t }) :
    s'.handler k = some t ∧ ∀ k' ≠ k, s'.handler k' = s.handler k' := by
  constructor
  · rw [handler, hparties, List.getElem?_set_self (List.getElem?_eq_some_iff.1 hp).1]
    rfl
  · intro k' hne
    rw [handler, hparties, List.getElem?_set_ne hne.symm]
    rfl

/-- A handler that was performed goes to `t` by something that happens to it. -/
theorem inv_moved (h : s.Inv) {servers : CompletionQueue (fun _ : Unit => UnaryServer.party method)}
    (hreach : (CompletionQueue.machine _).Reachable servers) (hopen : IsOpen servers) {k : ℕ}
    {p : Resident (fun _ : Unit => UnaryServer.party method)} {t : UnaryServer Rep}
    (hp : s.servers.parties[k]? = some p)
    (hparties : servers.parties = s.servers.parties.set k { p with state := t })
    {se : UnaryServer.Event Rep} (hstep : UnaryServer.step method p.state se = some t)
    (hinit : UnaryServer.step method (UnaryServer.machine method).init se = none)
    {e : UnaryRpc.Event Rep} (he : ∀ c : UnaryRpc Rep, c.step method e = c.stepServer method se) :
    Inv { s with servers } := by
  have hk : k < s.accepted.length := by
    -- The pending handler is a new one, to which nothing of the kind can happen.
    by_contra hnot
    have hlt := (List.getElem?_eq_some_iff.1 hp).1
    have hlength := h.handlers
    cases hpending : s.pendingCall with
    | none =>
        rw [hpending] at hlength
        exact hnot (hlt.trans_eq hlength)
    | some k' =>
        obtain ⟨rfl, hnew⟩ := h.pending k' hpending
        have hlast : k = s.accepted.length := by simp [hpending] at hlength; omega
        rw [← hlast, handler_eq hp] at hnew
        rw [Option.some.inj hnew, hinit] at hstep
        cases hstep
  obtain ⟨hset, hold⟩ := handler_set s { s with servers } hp hparties
  refine { h with
    servers := hreach, servers_open := hopen, handlers := ?_, pending := ?_, performed := ?_,
    calls := ?_ }
  · rw [hparties, List.length_set]
    exact h.handlers
  · intro k' hpending
    obtain ⟨rfl, hnew⟩ := h.pending k' hpending
    exact ⟨rfl, (hold _ hk.ne').trans hnew⟩
  · intro k' hk'
    by_cases hsame : k' = k
    · subst hsame
      obtain ⟨c, hc, hperformed⟩ := h.performed k' hk'
      obtain rfl := Option.some.inj ((handler_eq hp).symm.trans hc)
      exact ⟨t, hset, UnaryServer.performed_step hstep hperformed⟩
    · rw [hold k' hsame]
      exact h.performed k' hk'
  · intro n x hx
    have hcall := h.calls hx
    by_cases hn : s.accepted[k]? = some n
    · have hbefore : s.server n = p.state := by
        rw [server_of_accepted h.nodup hn, handler_eq hp]
        rfl
      have hafter : server { s with servers } n = t := by
        rw [server_of_accepted (s := { s with servers }) h.nodup hn, hset]
        rfl
      have hserver : (s.alone n x.state).server = p.state := hbefore
      have hnext : (s.alone n x.state).step method e
          = some { s.alone n x.state with server := t } := by
        rw [he, UnaryRpc.stepServer, hserver, hstep]
        rfl
      exact alone_congr (UnaryRpc.reachable_step hcall hnext) hafter rfl
    · refine alone_congr hcall ?_ rfl
      refine server_congr h.nodup ?_ (fun _ => Iff.rfl) fun k' hk' => hold k' ?_
      · exact h.nodup
      · rintro rfl
        exact hn hk'

theorem inv_listen (h : s.Inv) {address : BitVec 64} (hstep : s.step (.listen address) = some s') :
    s'.Inv := by
  obtain ⟨-, hinject⟩ := Option.ite_none_right_eq_some.1 hstep
  exact inv_inject h hinject

theorem inv_handlerReply (h : s.Inv) {k : ℕ} {o : Except Exception Rep}
    (hstep : s.step (.handlerReply k o) = some s') : s'.Inv := by
  obtain ⟨servers, hact, rfl⟩ := Option.map_eq_some_iff.1 hstep
  have hreach := CompletionQueue.reachable_step h.servers hact
  obtain ⟨p, t, hp, hparty, rfl⟩ :=
    CompletionQueue.act_eq_some (servers_clean method) h.servers hact
  have hserver : UnaryServer.step method p.state (.reply o) = some t := hparty
  exact inv_moved (e := .handlerReply o) h hreach h.servers_open hp rfl hserver rfl fun _ => rfl

theorem inv_serverDone (h : s.Inv) {i : ℕ} {r : Received}
    (hstep : s.step (.serverDone i r) = some s') : s'.Inv := by
  obtain ⟨servers, hcomplete, rfl⟩ := Option.map_eq_some_iff.1 hstep
  have hreach := CompletionQueue.reachable_step h.servers hcomplete
  obtain ⟨b, p, t, -, hp, -, hparty, rfl⟩ :=
    CompletionQueue.complete_eq_some (servers_clean method) h.servers hcomplete
  have hopen : IsOpen (s.servers.executed i b.party p t) :=
    ⟨by simpa using h.servers_open.1, by simpa using h.servers_open.2⟩
  have hserver : UnaryServer.step method p.state (.complete (s.servers.position i b) r) = some t :=
    hparty
  exact inv_moved (e := .serverDone (s.servers.position i b) r) h hreach hopen hp
    (CompletionQueue.parties_executed ..) hserver rfl fun _ => rfl

/-! ## Acceptance -/

/-- The pending handler has performed the `n`-th call. -/
theorem inv_performed (h : s.Inv) {n k : ℕ} (hn : n ∉ s.accepted)
    {x : Resident (fun req : Req => UnaryClient.party Rep req)}
    (hx : s.clients.parties[n]? = some x) {payload : Buffer}
    (hpayload : (x.state : Live (UnaryCallCompletion Rep)).obj.call.sent.head? = some payload)
    (hpending : s.pendingCall = some k)
    {p : Resident (fun _ : Unit => UnaryServer.party method)} {t : UnaryServer Rep}
    (hp : s.servers.parties[k]? = some p)
    (hreach : (CompletionQueue.machine _).Reachable (s.servers.moved k p t))
    (hparty : UnaryServer.step method p.state (.perform payload) = some t) :
    Inv { s with
      servers := s.servers.moved k p t, pendingCall := none, accepted := s.accepted ++ [n] } := by
  obtain ⟨rfl, hnew⟩ := h.pending k hpending
  have hinit : p.state = (UnaryServer.machine method).init :=
    Option.some.inj ((handler_eq hp).symm.trans hnew)
  obtain ⟨hset, hold⟩ := handler_set s { s with
    servers := s.servers.moved s.accepted.length p t, pendingCall := none,
    accepted := s.accepted ++ [n] } hp rfl
  have hnodup : (s.accepted ++ [n]).Nodup := List.nodup_append.2
    ⟨h.nodup, List.nodup_singleton n, by rintro a ha b hb rfl; simp_all⟩
  have hlast : (s.accepted ++ [n])[s.accepted.length]? = some n := List.getElem?_concat_length
  refine { h with
    servers := hreach, servers_open := h.servers_open, handlers := ?_, pending := ?_,
    performed := ?_, nodup := hnodup, started := ?_, calls := ?_ }
  · simpa [CompletionQueue.moved, hpending] using h.handlers
  · intro _ hno
    cases hno
  · intro k hk
    by_cases hsame : k = s.accepted.length
    · refine ⟨t, hsame ▸ hset, ?_⟩
      cases UnaryServer.moves_of_step hparty
      rfl
    · rw [hold k hsame]
      refine h.performed k ?_
      rw [List.length_append, List.length_singleton] at hk
      omega
  · intro m hm
    rcases List.mem_append.1 hm with hm | hm
    · exact h.started m hm
    · obtain rfl := List.mem_singleton.1 hm
      exact (List.getElem?_eq_some_iff.1 hx).1
  · intro m y hy
    by_cases hsame : m = n
    · subst hsame
      obtain rfl := Option.some.inj (hx.symm.trans hy)
      have hserver : (s.alone m x.state).server = p.state := (server_of_new hn).trans hinit.symm
      have hnext : (s.alone m x.state).step method .accept
          = some { s.alone m x.state with server := t } := by
        have hsent : (s.alone m x.state).client.obj.call.sent.head? = some payload := hpayload
        rw [UnaryRpc.step, hsent, Option.bind_some, UnaryRpc.stepServer, hserver, hparty]
        rfl
      refine alone_congr (UnaryRpc.reachable_step (h.calls hx) hnext) ?_ rfl
      rw [server_of_accepted hnodup hlast, hset]
      rfl
    · refine alone_congr (h.calls hy) (server_congr h.nodup hnodup ?_ ?_) rfl
      · intro k
        by_cases hk : k < s.accepted.length
        · rw [List.getElem?_append_left hk]
        · rw [List.getElem?_append_right (Nat.not_lt.1 hk),
            List.getElem?_eq_none (Nat.not_lt.1 hk)]
          cases k - s.accepted.length <;> simp [Ne.symm hsame]
      · intro k hk
        exact hold k (List.getElem?_eq_some_iff.1 hk).1.ne

/-- The `n`-th call was accepted: the pending handler has performed it, and a new one is pending. -/
theorem accept_eq_some (h : s.Inv) {n : ℕ} {address : BitVec 64}
    (hstep : s.step (.accept n address) = some s') : n ∉ s.accepted ∧
      ∃ (x : Resident (fun req : Req => UnaryClient.party Rep req)) (payload : Buffer) (k : ℕ)
        (p : Resident (fun _ : Unit => UnaryServer.party method)) (t : UnaryServer Rep),
        s.clients.parties[n]? = some x ∧ s.pendingCall = some k ∧
        s.servers.parties[k]? = some p ∧
        UnaryServer.step method p.state (.perform payload) = some t ∧
        Inv { s with
          servers := s.servers.moved k p t, pendingCall := none, accepted := s.accepted ++ [n] } ∧
        inject { s with
          servers := s.servers.moved k p t, pendingCall := none, accepted := s.accepted ++ [n] }
          address = some s' := by
  obtain ⟨hn, hstep⟩ := Option.ite_none_left_eq_some.1 hstep
  obtain ⟨c, hc, hstep⟩ := Option.bind_eq_some_iff.1 hstep
  obtain ⟨payload, hpayload, hstep⟩ := Option.bind_eq_some_iff.1 hstep
  obtain ⟨k, hpending, hstep⟩ := Option.bind_eq_some_iff.1 hstep
  obtain ⟨servers, hact, hinject⟩ := Option.bind_eq_some_iff.1 hstep
  obtain ⟨x, hx, rfl⟩ := Option.map_eq_some_iff.1 hc
  have hreach := CompletionQueue.reachable_step h.servers hact
  obtain ⟨p, t, hp, hparty, rfl⟩ :=
    CompletionQueue.act_eq_some (servers_clean method) h.servers hact
  exact ⟨hn, x, payload, k, p, t, hx, hpending, hp, hparty,
    inv_performed h hn hx hpayload hpending hp hreach hparty, hinject⟩

theorem inv_accept (h : s.Inv) {n : ℕ} {address : BitVec 64}
    (hstep : s.step (.accept n address) = some s') : s'.Inv := by
  obtain ⟨-, _, _, _, _, _, -, -, -, -, hperformed, hinject⟩ := accept_eq_some h hstep
  exact inv_inject hperformed hinject

/-! ## Every call on its own -/

theorem inv_step (h : s.Inv) {e : Event Req Rep} (hstep : s.step e = some s') : s'.Inv := by
  cases e with
  | start req address => exact inv_start h hstep
  | listen address => exact inv_listen h hstep
  | accept n address => exact inv_accept h hstep
  | handlerReply k o => exact inv_handlerReply h hstep
  | clientDone i err => exact inv_clientDone h hstep
  | serverDone i r => exact inv_serverDone h hstep

theorem inv_of_reachable (h : (machine method).Reachable s) : s.Inv :=
  h.invariant inv_init (fun hstep hs => inv_step hs hstep)

/-- What there is to say of the call `r` for `req`, the `n`-th of the service `s`. -/
structure IsCall (s : UnaryService method) (n : ℕ) (req : Req) (r : UnaryRpc Rep) : Prop where
  rpc : s.rpc n = some r
  reachable : (UnaryRpc.machine method req).Reachable r
  /-- A reply is the outcome of the one handler that has performed the call, and where the method
      has itself made something of the request, it is that. -/
  reply : ∀ reply ∈ r.client.obj.rep, ∃ k c o, s.accepted[k]? = some n ∧ s.handler k = some c ∧
    c.outcome = some o ∧ reply = UploadRpc.resolutionOf o ∧
      ∀ o', method.invoke req = some o' → o = o'

theorem Inv.exists_request (h : s.Inv) {n : ℕ} {req : Req} (hreq : s.request n = some req) :
    ∃ client, s.client n = some client ∧
      (UnaryRpc.machine method req).Reachable (s.alone n client) := by
  obtain ⟨p, hp, rfl⟩ := Option.map_eq_some_iff.1 hreq
  exact ⟨p.state, client_eq hp, h.calls hp⟩

/-- The handler of a call that was accepted. -/
theorem Inv.exists_handler (h : s.Inv) {n : ℕ} (hn : n ∈ s.accepted) :
    ∃ k : ℕ, s.accepted[k]? = some n ∧ s.handler k = some (s.server n) ∧
      (s.server n).performed = true := by
  obtain ⟨k, hk⟩ := List.getElem?_of_mem hn
  obtain ⟨c, hc, hperformed⟩ := h.performed k (List.getElem?_eq_some_iff.1 hk).1
  have hserver : s.server n = c := by rw [server_of_accepted h.nodup hk, hc, Option.getD_some]
  exact ⟨k, hk, hserver ▸ hc, hserver ▸ hperformed⟩

/-- **The calls of a service are unary RPCs.** In every reachable state of a service, whatever the
    order in which calls are started, accepted and completed and wherever their objects are, no call
    was performed twice, and each is in a state it could have reached on its own: what it has
    received is what its own handler has answered. -/
theorem calls_are_unary_rpcs (h : (machine method).Reachable s) :
    s.accepted.Nodup ∧ ∀ n req, s.request n = some req → ∃ r, s.IsCall n req r := by
  have hinv := inv_of_reachable h
  refine ⟨hinv.nodup, fun n req hreq => ?_⟩
  obtain ⟨client, hclient, hreach⟩ := hinv.exists_request hreq
  refine ⟨s.alone n client, by rw [rpc, hclient]; rfl, hreach, fun reply hreply => ?_⟩
  rcases (UnaryRpc.wire_of_reachable hreach).client with ⟨hwait, -⟩ | ⟨q, o, hdone, ho, hres⟩
  · rw [hwait] at hreply
    cases hreply
  · rw [hdone] at hreply
    obtain rfl := List.mem_singleton.1 hreply
    have ho' : (s.server n).outcome = some o := ho
    have hn : n ∈ s.accepted := by
      by_contra hnew
      rw [server_of_new hnew] at ho'
      cases ho'
    obtain ⟨k, hk, hhandler, hperformed⟩ := hinv.exists_handler hn
    refine ⟨k, s.server n, o, hk, hhandler, ho', hres, fun o' hinvoke => ?_⟩
    have hserver := (UnaryRpc.server_of_reachable hreach).2 o' hperformed hinvoke
    exact Option.some.inj (ho.symm.trans hserver)

/-- Two calls, of which the second is accepted first, and both have received their replies. -/
theorem calls_are_unary_rpcs_two :
    ∃ s : UnaryService (.sync fun req : Buffer => .ok (req ++ [9]) : UnaryMethod Buffer Buffer),
      s.accepted = [1, 0] ∧ s.request 0 = some [1] ∧ (∃ r, s.IsCall 0 [1] r) := by
  have hrun : (machine
      (.sync fun req : Buffer => .ok (req ++ [9]) : UnaryMethod Buffer Buffer)).Reachable _ :=
    Machine.reachable_of_run
      [.start [1] 16, .start [2] 32, .listen 64, .accept 1 80, .accept 0 96, .clientDone 0 none,
        .clientDone 0 none, .serverDone 1 {}, .serverDone 0 {}] rfl
  exact ⟨_, rfl, rfl, (calls_are_unary_rpcs hrun).2 0 [1] rfl⟩

end UnaryService

end EasyGrpc
