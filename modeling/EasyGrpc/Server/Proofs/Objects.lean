import EasyGrpc.Server.Objects
import EasyGrpc.Server.Proofs.Config

set_option autoImplicit false

/-! # Moving servers

Every `grpc_server` is shut down and destroyed once, with its own queue (`holdingsSimulation`):
`Server` objects own them exclusively. The features stay with the object they were passed to, so
they may go away before the `grpc_server` that uses them. -/

namespace EasyGrpc

/-- The calls that stop the `n`-th `grpc_server` with its own queue. -/
def stopCallsOf (n : ℕ) : List StopCall :=
  ServerObject.cleanup { impl := some n, shutdownQueue := some n }

namespace Servers

/-- No two objects hold one `grpc_server`, and those that no object holds were shut down and
    destroyed once, together with their queues. -/
structure StopsOnce (s : Servers) : Prop where
  distinct : ∀ {p q n : ℕ}, s.impl p = some n → s.impl q = some n → p = q
  once : s.destroyed.Nodup
  destroyed_iff : ∀ n, n ∈ s.destroyed ↔ n < s.created.length ∧ ∀ p, s.impl p ≠ some n
  shut_down : s.stopCalls = s.destroyed.flatMap stopCallsOf

/-- `f` is in the `features_` of the object `p`. -/
def owns (s : Servers) (p : ℕ) (f : FeatureRef) : Prop :=
  ∃ self, s.object p = some self ∧ f ∈ self.features

def owned (s : Servers) (f : FeatureRef) : Prop := ∃ p, s.owns p f

/-- The features of the `grpc_server`s that run are owned by objects. -/
def FeaturesOwned (s : Servers) : Prop :=
  ∀ {p n : ℕ}, s.impl p = some n → ∀ features, s.created[n]? = some features →
    ∀ f ∈ features, s.owned f

/-! ## Objects as owners -/

theorem cleanup_of_paired {self : ServerObject} (h : self.shutdownQueue = self.impl) :
    self.cleanup = self.impl.toList.flatMap stopCallsOf := by
  unfold ServerObject.cleanup
  rw [h]
  cases himpl : self.impl with
  | none => rfl
  | some n => simp [stopCallsOf, ServerObject.cleanup]

theorem destroyed_cleanup (self : ServerObject) :
    self.cleanup.filterMap destroyed? = self.impl.toList := by
  unfold ServerObject.cleanup
  cases self.impl <;> rfl

def holdings (s : Servers) : Holdings ℕ := ⟨s.impl, s.created.length, s.destroyed⟩

theorem impl_eq (s : Servers) : s.impl = Holdings.heldBy (·.impl) s.object :=
  rfl

theorem impl_of_object {s : Servers} {p : ℕ} {o : Option ServerObject} (h : s.object p = o) :
    s.impl p = o.bind (·.impl) :=
  Holdings.heldBy_of_eq _ h

theorem impl_moveMembers (s : Servers) (p rhs : ℕ) (self other : ServerObject) :
    (s.moveMembers p rhs self other).impl
      = Function.update (Function.update s.impl p other.impl) rhs none := by
  have hclear : ∀ o : Option ServerObject,
      (o.map (fun rhs => { rhs with impl := none, shutdownQueue := none })).bind (·.impl) = none := by
    intro o
    cases o <;> rfl
  rw [impl_eq, impl_eq, moveMembers, Holdings.heldBy_update, Holdings.heldBy_update, hclear]
  rfl

/-- One constructor for each step that `step` can take, with the objects it finds. -/
inductive Moves (s : Servers) : Event → Servers → Prop
  | construct {p : ℕ} (hp : s.object p = none) :
      Moves s (.construct p) { s with object := Function.update s.object p (some {}) }
  | start {p : ℕ} {core : Setup.Core} {cfg : Setup.Config} {server : Setup.Server}
      (hp : s.object p = none) (hstart : Setup.construct core cfg = .ok server) :
      Moves s (.start p core cfg) { s with
        object := Function.update s.object p (some {
          impl := some s.created.length
          defaultQueues := server.defaultQueues
          shutdownQueue := some s.created.length
          features := featureRefs s.created.length cfg.features })
        created := s.created ++ [featureRefs s.created.length cfg.features] }
  | startThrows {p : ℕ} {core : Setup.Core} {cfg : Setup.Config} {what : String}
      (hp : s.object p = none) (hstart : Setup.construct core cfg = .error (.threw what)) :
      Moves s (.start p core cfg) { s with
        created := s.created ++ [featureRefs s.created.length cfg.features]
        stopCalls := s.stopCalls ++ ServerObject.cleanup
          { impl := some s.created.length, shutdownQueue := some s.created.length } }
  | moveConstruct {p rhs : ℕ} {other : ServerObject} (hp : s.object p = none)
      (hrhs : s.object rhs = some other) :
      Moves s (.moveConstruct p rhs) (s.moveMembers p rhs {} other)
  | moveAssign {p rhs : ℕ} {self other : ServerObject} (hp : s.object p = some self)
      (hrhs : s.object rhs = some other) :
      Moves s (.moveAssign p rhs)
        ({ s with stopCalls := s.stopCalls ++ self.cleanup }.moveMembers p rhs self other)
  | destroy {p : ℕ} {self : ServerObject} (hp : s.object p = some self) :
      Moves s (.destroy p) { s with
        object := Function.update s.object p none
        stopCalls := s.stopCalls ++ self.cleanup }

theorem moves_of_step {s s' : Servers} {e : Event} (hstep : machine.step s e = some s') :
    Moves s e s' := by
  cases e with
  | construct p =>
      obtain ⟨hp, hs⟩ := Option.ite_none_right_eq_some.1 hstep
      cases hs
      exact .construct hp
  | start p core cfg =>
      obtain ⟨hp, hs⟩ := Option.ite_none_right_eq_some.1 hstep
      split at hs
      · next server hstart =>
          cases hs
          exact .start hp hstart
      · next what hstart =>
          cases hs
          exact .startThrows hp hstart
      · cases hs
  | moveConstruct p rhs =>
      obtain ⟨hp, hs⟩ := Option.ite_none_right_eq_some.1 hstep
      obtain ⟨other, hrhs, rfl⟩ := Option.map_eq_some_iff.1 hs
      exact .moveConstruct hp hrhs
  | moveAssign p rhs =>
      obtain ⟨self, hp, hs⟩ := Option.bind_eq_some_iff.1 hstep
      obtain ⟨other, hrhs, rfl⟩ := Option.map_eq_some_iff.1 hs
      exact .moveAssign hp hrhs
  | destroy p =>
      obtain ⟨self, hp, rfl⟩ := Option.map_eq_some_iff.1 hstep
      exact .destroy hp

def ownerEvents : Event → List (Ownership.Event ℕ)
  | .construct _ => []
  | .start p core cfg =>
      match Setup.construct core cfg with
      | .ok _ => [.acquire p]
      | .error _ => [.acquire p, .release p]
  | .moveConstruct p rhs => [.transfer rhs p]
  | .moveAssign p rhs => [.release p, .transfer rhs p]
  | .destroy p => [.release p]

/-- What `cleanup_` does to the servers destroyed. -/
theorem destroyed_of_cleanup (s : Servers) {s' : Servers} (self : ServerObject)
    (h : s'.stopCalls = s.stopCalls ++ self.cleanup) :
    s'.destroyed = s.destroyed ++ self.impl.toList := by
  rw [destroyed, h, List.filterMap_append, destroyed_cleanup]
  rfl

theorem holdings_step {s s' : Servers} {e : Event} (hstep : machine.step s e = some s') :
    (Ownership.machine ℕ).run s.holdings (ownerEvents e) = some s'.holdings := by
  cases moves_of_step hstep with
  | construct hp =>
      have hblank : (some ({} : ServerObject)).bind (·.impl) = none := rfl
      simp only [ownerEvents, Machine.run, holdings, impl_eq,
        Holdings.heldBy_update_none hp hblank]
      rfl
  | start hp hstart =>
      have hempty : s.impl _ = none := impl_of_object hp
      rw [ownerEvents, hstart, Ownership.run_acquire (s := s.holdings) hempty]
      simp only [holdings, Holdings.acquire, impl_eq, Holdings.heldBy_update, Option.bind_some,
        List.length_append, List.length_singleton]
      rfl
  | @startThrows p core cfg what hp hstart =>
      have hempty : s.impl _ = none := impl_of_object hp
      have hdestroyed : ({ s with
          created := s.created ++ [featureRefs s.created.length cfg.features]
          stopCalls := s.stopCalls ++ ServerObject.cleanup
            { impl := some s.created.length, shutdownQueue := some s.created.length } } :
          Servers).destroyed = s.destroyed ++ [s.created.length] :=
        destroyed_of_cleanup s
          { impl := some s.created.length, shutdownQueue := some s.created.length } rfl
      rw [ownerEvents, hstart, Ownership.run_acquire_release (s := s.holdings) hempty]
      simp only [holdings, hdestroyed, List.length_append, List.length_singleton]
      rfl
  | @moveConstruct p rhs other hp hrhs =>
      have hempty : s.impl p = none := impl_of_object hp
      have hfrom : s.impl rhs = other.impl := impl_of_object hrhs
      rw [ownerEvents, Ownership.run_transfer (s := s.holdings) hempty]
      simp only [holdings, Holdings.transfer, impl_moveMembers, hfrom]
      rfl
  | @moveAssign p rhs self other hp hrhs =>
      have hself : s.impl p = self.impl := impl_of_object hp
      have hfrom : s.impl rhs = other.impl := impl_of_object hrhs
      have hdestroyed : { s with stopCalls := s.stopCalls ++ self.cleanup }.destroyed
          = s.destroyed ++ self.impl.toList := destroyed_of_cleanup s self rfl
      -- An object that is assigned to itself ends up empty either way.
      have hheld : Function.update (Function.update s.impl p other.impl) rhs none
          = ((s.holdings.release p).transfer rhs p).held := by
        funext o
        rw [Holdings.held_transfer, Holdings.held_release, Holdings.held_release, ← hfrom]
        simp only [Function.update_apply, holdings]
        split_ifs <;> simp_all
      have hmoved := impl_moveMembers { s with stopCalls := s.stopCalls ++ self.cleanup } p rhs self
        other
      have hreleased : s.destroyed ++ (s.impl p).toList = s.destroyed ++ self.impl.toList := by
        rw [hself]
      rw [ownerEvents, Ownership.run_release_transfer]
      exact congrArg some (Holdings.ext (hmoved.trans hheld).symm rfl
        (hreleased.trans hdestroyed.symm))
  | @destroy p self hp =>
      have hself : s.impl p = self.impl := impl_of_object hp
      have hdestroyed : ({ s with
          object := Function.update s.object p none
          stopCalls := s.stopCalls ++ self.cleanup } : Servers).destroyed
            = s.destroyed ++ self.impl.toList := destroyed_of_cleanup s self rfl
      rw [ownerEvents, Ownership.run_release]
      simp only [holdings, Holdings.release, hself, hdestroyed]
      simp only [impl_eq, Holdings.heldBy_update, Option.bind_none]

/-- **`Server` objects own their `grpc_server`s**, whatever is moved where. -/
def holdingsSimulation : Simulation machine (Ownership.machine ℕ) where
  abs := holdings
  inv _ := True
  events _ := ownerEvents
  inv_of_reachable _ := trivial
  abs_init := rfl
  abs_step _ hstep := holdings_step hstep

theorem conserved_of_reachable {s : Servers} (h : machine.Reachable s) : s.holdings.Conserved :=
  Ownership.conserved_of_reachable (holdingsSimulation.reachable h)

/-! ## Each server is stopped with its own queue -/

/-- Servers and queues are never parted. -/
structure Paired (s : Servers) : Prop where
  queue : ∀ p, ∀ self ∈ s.object p, self.shutdownQueue = self.impl
  shut_down : s.stopCalls = s.destroyed.flatMap stopCallsOf

theorem Paired.cleanup {s s' : Servers} (h : s.Paired) {self : ServerObject}
    (hself : self.shutdownQueue = self.impl)
    (hcalls : s'.stopCalls = s.stopCalls ++ self.cleanup) :
    s'.stopCalls = s'.destroyed.flatMap stopCallsOf := by
  rw [destroyed_of_cleanup s self hcalls, List.flatMap_append, ← h.shut_down, hcalls,
    cleanup_of_paired hself]

theorem queue_moveMembers {s : Servers} {p rhs : ℕ} {self other : ServerObject}
    (h : ∀ q, ∀ x ∈ s.object q, x.shutdownQueue = x.impl)
    (hother : other.shutdownQueue = other.impl) :
    ∀ q, ∀ x ∈ (s.moveMembers p rhs self other).object q, x.shutdownQueue = x.impl := by
  refine (Function.forall_update_iff _ (fun _ (o : Option ServerObject) =>
    ∀ x ∈ o, x.shutdownQueue = x.impl)).2 ⟨?_, fun q _ => ?_⟩
  · intro x hx
    obtain ⟨_, _, rfl⟩ := Option.map_eq_some_iff.1 hx
    rfl
  · refine (Function.forall_update_iff s.object (fun _ o => ∀ x ∈ o, x.shutdownQueue = x.impl)).2
      ⟨?_, fun q _ => h q⟩ q
    intro x hx
    cases hx
    exact hother

theorem paired_step {s s' : Servers} {e : Event} (hstep : machine.step s e = some s')
    (h : s.Paired) : s'.Paired := by
  have hupdate (p : ℕ) (o : Option ServerObject) :=
    Function.forall_update_iff (a := p) (b := o) s.object
      (fun _ o => ∀ x ∈ o, x.shutdownQueue = x.impl)
  cases moves_of_step hstep with
  | construct hp => exact ⟨(hupdate _ _).2 ⟨by simp, fun q _ => h.queue q⟩, h.shut_down⟩
  | start hp hstart => exact ⟨(hupdate _ _).2 ⟨by simp, fun q _ => h.queue q⟩, h.shut_down⟩
  | startThrows hp hstart => exact ⟨h.queue, h.cleanup rfl rfl⟩
  | moveConstruct hp hrhs => exact ⟨queue_moveMembers h.queue (h.queue _ _ hrhs), h.shut_down⟩
  | moveAssign hp hrhs =>
      exact ⟨queue_moveMembers h.queue (h.queue _ _ hrhs), h.cleanup (h.queue _ _ hp) rfl⟩
  | destroy hp =>
      exact ⟨(hupdate _ _).2 ⟨by simp, fun q _ => h.queue q⟩, h.cleanup (h.queue _ _ hp) rfl⟩

theorem paired_of_reachable {s : Servers} (h : machine.Reachable s) : s.Paired :=
  h.invariant ⟨by simp [machine], rfl⟩ paired_step

/-- **Every `grpc_server` is stopped once, with its own queue**, in every reachable state. -/
theorem stopsOnce_of_reachable {s : Servers} (h : machine.Reachable s) : s.StopsOnce where
  distinct := (conserved_of_reachable h).distinct
  once := (conserved_of_reachable h).once
  destroyed_iff := (conserved_of_reachable h).released_iff
  shut_down := (paired_of_reachable h).shut_down

/-! ## Who owns the features -/

/-- Moves leave the features where they are. -/
theorem owned_moveMembers {s : Servers} {p rhs : ℕ} {self other : ServerObject} {f : FeatureRef}
    (hself : ∀ x, s.object p = some x → x.features = self.features) (h : s.owned f) :
    (s.moveMembers p rhs self other).owned f := by
  obtain ⟨q, x, hx, hf⟩ := h
  -- After the first update.
  obtain ⟨y, hy, hfy⟩ : ∃ y, Function.update s.object p (some { self with
      impl := other.impl, shutdownQueue := other.shutdownQueue }) q = some y ∧ f ∈ y.features := by
    by_cases hqp : q = p
    · subst hqp
      exact ⟨_, Function.update_self .., hself x hx ▸ hf⟩
    · exact ⟨x, by rw [Function.update_of_ne hqp, hx], hf⟩
  by_cases hqr : q = rhs
  · subst hqr
    refine ⟨q, { y with impl := none, shutdownQueue := none }, ?_, hfy⟩
    refine (Function.update_self ..).trans ?_
    rw [hy]
    rfl
  · exact ⟨q, y, (Function.update_of_ne hqr ..).trans hy, hfy⟩

/-- What is known of features and servers besides. -/
structure FeaturesKept (s : Servers) : Prop where
  owned : s.FeaturesOwned
  /-- A server's features carry its number. -/
  server : ∀ (n : ℕ) features, s.created[n]? = some features → ∀ f ∈ features, f.server = n

theorem owned_update_empty {s s' : Servers} {p : ℕ} {self : ServerObject} {f : FeatureRef}
    (hp : s.object p = none) (h : s'.object = Function.update s.object p (some self))
    (hf : s.owned f) : s'.owned f := by
  obtain ⟨q, x, hx, hfx⟩ := hf
  have hqp : q ≠ p := by
    rintro rfl
    rw [hp] at hx
    cases hx
  exact ⟨q, x, by rw [h, Function.update_of_ne hqp, hx], hfx⟩

theorem server_of_created {created : List (List FeatureRef)} {features : List Setup.Feature}
    (h : ∀ (n : ℕ) refs, created[n]? = some refs → ∀ f ∈ refs, f.server = n) (n : ℕ)
    (refs : List FeatureRef)
    (hn : (created ++ [featureRefs created.length features])[n]? = some refs) :
    ∀ f ∈ refs, f.server = n := by
  rcases Nat.lt_trichotomy n created.length with hlt | rfl | hgt
  · rw [List.getElem?_append_left hlt] at hn
    exact h n refs hn
  · rw [List.getElem?_concat_length] at hn
    cases hn
    intro f hf
    obtain ⟨index, -, rfl⟩ := List.mem_map.1 hf
    rfl
  · have hlength := (List.getElem?_eq_some_iff.1 hn).1
    rw [List.length_append, List.length_singleton] at hlength
    omega

/-- Nothing is created, and the servers that run ran before. -/
theorem FeaturesKept.of_created {s s' : Servers} (h : s.FeaturesKept)
    (hcreated : s'.created = s.created)
    (himpl : ∀ {q n : ℕ}, s'.impl q = some n → ∃ q', s.impl q' = some n)
    (howned : ∀ {q : ℕ} {f : FeatureRef}, s'.impl q = some f.server → s.owned f → s'.owned f) :
    s'.FeaturesKept := by
  refine ⟨?_, ?_⟩
  · intro q n hq features hn f hf
    rw [hcreated] at hn
    obtain ⟨q', hq'⟩ := himpl hq
    have hserver : f.server = n := h.server n features hn f hf
    exact howned (hserver ▸ hq) (h.owned hq' features hn f hf)
  · rw [hcreated]
    exact h.server

theorem impl_of_moveMembers {s : Servers} {p rhs : ℕ} {self other : ServerObject}
    (hrhs : s.object rhs = some other) {q n : ℕ}
    (hq : (s.moveMembers p rhs self other).impl q = some n) : ∃ q', s.impl q' = some n := by
  rw [impl_moveMembers, Function.update_apply, Function.update_apply] at hq
  obtain ⟨-, hq⟩ := Option.ite_none_left_eq_some.1 hq
  by_cases hqp : q = p
  · rw [if_pos hqp] at hq
    exact ⟨rhs, (impl_of_object hrhs).trans hq⟩
  · rw [if_neg hqp] at hq
    exact ⟨q, hq⟩

theorem featuresKept_step {s s' : Servers} {e : Event} (hreach : machine.Reachable s)
    (hstep : machine.step s e = some s') (hsafe : (!strands s e) = true) (h : s.FeaturesKept) :
    s'.FeaturesKept := by
  have hconserved := conserved_of_reachable hreach
  have hold : ∀ {q n : ℕ}, s.impl q = some n → n < s.created.length := hconserved.held_lt
  cases moves_of_step hstep with
  | construct hp =>
      have hsame := Holdings.heldBy_update_none hp
        (show (some ({} : ServerObject)).bind (·.impl) = none from rfl)
      refine h.of_created rfl (fun {q n} hq => ⟨q, (congrFun hsame q).symm.trans hq⟩)
        (fun _ hf => owned_update_empty hp rfl hf)
  | @start p core cfg server hp hstart =>
      refine ⟨?_, server_of_created h.server⟩
      intro q n hq features hn f hf
      rw [impl_eq, Holdings.heldBy_update, Function.update_apply] at hq
      by_cases hqp : q = p
      · rw [if_pos hqp] at hq
        cases hq
        rw [List.getElem?_concat_length] at hn
        cases hn
        exact ⟨p, _, Function.update_self .., hf⟩
      · rw [if_neg hqp] at hq
        rw [List.getElem?_append_left (hold hq)] at hn
        exact owned_update_empty hp rfl (h.owned hq features hn f hf)
  | startThrows hp hstart =>
      refine ⟨?_, server_of_created h.server⟩
      intro q n hq features hn f hf
      rw [List.getElem?_append_left (hold hq)] at hn
      exact h.owned hq features hn f hf
  | moveConstruct hp hrhs =>
      refine h.of_created rfl (impl_of_moveMembers hrhs) (fun _ hf => owned_moveMembers ?_ hf)
      intro x hx
      rw [hp] at hx
      cases hx
  | @moveAssign p rhs self other hp hrhs =>
      refine h.of_created rfl
        (impl_of_moveMembers (s := { s with stopCalls := s.stopCalls ++ self.cleanup }) hrhs)
        (fun _ hf => owned_moveMembers ?_ hf)
      intro x hx
      rw [Option.some.inj (hp.symm.trans hx)]
  | @destroy p self hp =>
      have hheld : ∀ {q n : ℕ}, (Function.update s.object p none q).bind (·.impl) = some n →
          q ≠ p ∧ s.impl q = some n := by
        intro q n hq
        rw [Function.update_apply] at hq
        by_cases hqp : q = p
        · rw [if_pos hqp] at hq
          cases hq
        · rw [if_neg hqp] at hq
          exact ⟨hqp, hq⟩
      refine h.of_created rfl (fun hq => ⟨_, (hheld hq).2⟩) ?_
      rintro q f hafter ⟨o, x, hx, hfx⟩
      obtain ⟨hqp, hq⟩ := hheld hafter
      have hop : o ≠ p := by
        rintro rfl
        cases hp.symm.trans hx
        -- The server of `f` is in `q`, so this step would have stranded it.
        have hrunning : f.server ∉ s.destroyed := fun hmem =>
          ((hconserved.released_iff f.server).1 hmem).2 q hq
        have hother : self.impl ≠ some f.server := fun hself =>
          hqp (hconserved.distinct hq ((impl_of_object hp).trans hself))
        have hstrands : strands s (.destroy o) = true := by
          simp only [strands, hp, Option.any_some, List.any_eq_true, Bool.and_eq_true,
            decide_eq_true_eq, bne_iff_ne]
          exact ⟨f, hfx, hrunning, hother⟩
        simp [hstrands] at hsafe
      exact ⟨o, x, (Function.update_of_ne hop ..).trans hx, hfx⟩

theorem featuresKept_of_reachable {s : Servers}
    (h : (machine.guard (fun s e => !strands s e)).Reachable s) : s.FeaturesKept := by
  refine h.guard_invariant ⟨?_, ?_⟩ featuresKept_step
  · intro p n hp
    simp [machine, impl] at hp
  · intro n features hn
    simp [machine] at hn

/-! ## Features without an owner -/

/-- Each feature has one owner, and was set up with the server whose number it carries. -/
structure FeaturesPlaced (s : Servers) : Prop where
  unique : ∀ {p q : ℕ} {f : FeatureRef}, s.owns p f → s.owns q f → p = q
  placed : ∀ {p : ℕ} {f : FeatureRef}, s.owns p f →
    ∃ features, s.created[f.server]? = some features ∧ f ∈ features

theorem owns_of_moveMembers {s : Servers} {p rhs : ℕ} {self other : ServerObject}
    (hself : ∀ f ∈ self.features, s.owns p f) {q : ℕ} {f : FeatureRef}
    (h : (s.moveMembers p rhs self other).owns q f) : s.owns q f := by
  obtain ⟨x, hx, hf⟩ := h
  obtain ⟨y, hy, hfy⟩ : ∃ y, Function.update s.object p (some { self with
      impl := other.impl, shutdownQueue := other.shutdownQueue }) q = some y ∧ f ∈ y.features := by
    by_cases hqr : q = rhs
    · subst hqr
      rw [moveMembers] at hx
      dsimp only at hx
      rw [Function.update_self] at hx
      obtain ⟨y, hy, rfl⟩ := Option.map_eq_some_iff.1 hx
      exact ⟨y, hy, hf⟩
    · exact ⟨x, (Function.update_of_ne hqr ..).symm.trans hx, hf⟩
  by_cases hqp : q = p
  · subst hqp
    cases (Function.update_self ..).symm.trans hy
    exact hself f hfy
  · exact ⟨y, (Function.update_of_ne hqp ..).symm.trans hy, hfy⟩

theorem owns_of_update {s s' : Servers} {p q : ℕ} {o : Option ServerObject} {f : FeatureRef}
    (hobject : s'.object = Function.update s.object p o) (ho : ∀ x ∈ o, f ∈ x.features → s.owns p f)
    (h : s'.owns q f) : s.owns q f := by
  obtain ⟨x, hx, hf⟩ := h
  rw [hobject] at hx
  by_cases hqp : q = p
  · subst hqp
    rw [Function.update_self] at hx
    exact ho x hx hf
  · rw [Function.update_of_ne hqp] at hx
    exact ⟨x, hx, hf⟩

/-- After a step an object owns what it did before, or what it was started with. -/
theorem owns_of_step {s s' : Servers} {e : Event} (hstep : machine.step s e = some s') {q : ℕ}
    {f : FeatureRef} (h : s'.owns q f) :
    s.owns q f ∨ (∃ core cfg, e = .start q core cfg) ∧
      ∃ features, s'.created = s.created ++ [features] ∧ f ∈ features ∧
        f.server = s.created.length := by
  cases moves_of_step hstep with
  | construct hp => exact .inl (owns_of_update rfl (by simp) h)
  | @start p core cfg server hp hstart =>
      by_cases hqp : q = p
      · subst hqp
        obtain ⟨x, hx, hf⟩ := h
        cases (Function.update_self ..).symm.trans hx
        obtain ⟨index, -, hindex⟩ := List.mem_map.1 hf
        exact .inr ⟨⟨core, cfg, rfl⟩, _, rfl, hf, hindex ▸ rfl⟩
      · obtain ⟨x, hx, hf⟩ := h
        exact .inl ⟨x, (Function.update_of_ne hqp ..).symm.trans hx, hf⟩
  | startThrows hp hstart => exact .inl h
  | moveConstruct hp hrhs => exact .inl (owns_of_moveMembers (by simp) h)
  | @moveAssign p rhs self other hp hrhs =>
      exact .inl (owns_of_moveMembers (fun f hf => ⟨self, hp, hf⟩) h)
  | destroy hp => exact .inl (owns_of_update rfl (by simp) h)

theorem created_of_step {s s' : Servers} {e : Event} (hstep : machine.step s e = some s') :
    s.created <+: s'.created := by
  cases moves_of_step hstep with
  | construct hp => exact List.prefix_rfl
  | start hp hstart => exact List.prefix_append ..
  | startThrows hp hstart => exact List.prefix_append ..
  | moveConstruct hp hrhs => exact List.prefix_rfl
  | moveAssign hp hrhs => exact List.prefix_rfl
  | destroy hp => exact List.prefix_rfl

theorem created_getElem? {s s' : Servers} {e : Event} (hstep : machine.step s e = some s') {n : ℕ}
    {features : List FeatureRef} (hn : s.created[n]? = some features) :
    s'.created[n]? = some features := by
  obtain ⟨rest, hrest⟩ := created_of_step hstep
  rw [← hrest, List.getElem?_append_left (List.getElem?_eq_some_iff.1 hn).1, hn]

theorem featuresPlaced_step {s s' : Servers} {e : Event} (hstep : machine.step s e = some s')
    (h : s.FeaturesPlaced) : s'.FeaturesPlaced := by
  have hfresh : ∀ {p : ℕ} {f : FeatureRef}, s.owns p f → f.server ≠ s.created.length := by
    intro p f hf heq
    obtain ⟨features, hfeatures, -⟩ := h.placed hf
    exact absurd (List.getElem?_eq_some_iff.1 hfeatures).1 (by omega)
  refine ⟨?_, ?_⟩
  · intro p q f hp hq
    rcases owns_of_step hstep hp with hp | ⟨⟨core, cfg, rfl⟩, features, -, -, hp⟩
    · rcases owns_of_step hstep hq with hq | ⟨-, features, -, -, hq⟩
      · exact h.unique hp hq
      · exact absurd hq (hfresh hp)
    · rcases owns_of_step hstep hq with hq | ⟨⟨core', cfg', he⟩, -⟩
      · exact absurd hp (hfresh hq)
      · cases he
        rfl
  · intro p f hp
    rcases owns_of_step hstep hp with hp | ⟨-, features, hcreated, hf, hserver⟩
    · obtain ⟨features, hfeatures, hf⟩ := h.placed hp
      exact ⟨features, created_getElem? hstep hfeatures, hf⟩
    · refine ⟨features, ?_, hf⟩
      rw [hcreated, hserver, List.getElem?_concat_length]

theorem featuresPlaced_of_reachable {s : Servers} (h : machine.Reachable s) : s.FeaturesPlaced := by
  refine h.invariant ⟨?_, ?_⟩ featuresPlaced_step
  · rintro p q f ⟨x, hx, -⟩
    cases hx
  · rintro p f ⟨x, hx, -⟩
    cases hx

/-- A step that strands features leaves a `grpc_server` running without them. -/
theorem not_featuresOwned_of_strands {s s' : Servers} {e : Event} (hreach : machine.Reachable s)
    (hstep : machine.step s e = some s') (hbad : strands s e = true) : ¬ s'.FeaturesOwned := by
  have hconserved := conserved_of_reachable hreach
  have hplaced := featuresPlaced_of_reachable hreach
  cases moves_of_step hstep with
  | construct hp => cases hbad
  | start hp hstart => cases hbad
  | startThrows hp hstart => cases hbad
  | moveConstruct hp hrhs => cases hbad
  | moveAssign hp hrhs => cases hbad
  | @destroy p self hp =>
      simp only [strands, hp, Option.any_some, List.any_eq_true, Bool.and_eq_true,
        decide_eq_true_eq, bne_iff_ne] at hbad
      obtain ⟨f, hf, hrunning, hother⟩ := hbad
      obtain ⟨features, hfeatures, hmem⟩ := hplaced.placed ⟨self, hp, hf⟩
      -- The server of `f` is in an object other than `p`, the only owner of `f`.
      obtain ⟨q, hq⟩ : ∃ q, s.impl q = some f.server := by
        by_contra hnone
        refine hrunning ((hconserved.released_iff f.server).2
          ⟨(List.getElem?_eq_some_iff.1 hfeatures).1, fun q hq => hnone ⟨q, hq⟩⟩)
      have hqp : q ≠ p := by
        rintro rfl
        exact hother ((impl_of_object hp).symm.trans hq)
      intro howned
      have hafter : (Function.update s.object p none q).bind (·.impl) = some f.server := by
        rw [Function.update_of_ne hqp]
        exact hq
      obtain ⟨o, ho⟩ := howned hafter features hfeatures f hmem
      have hop : o = p := hplaced.unique (owns_of_update rfl (by simp) ho) ⟨self, hp, hf⟩
      obtain ⟨x, hx, -⟩ := ho
      rw [hop] at hx
      cases (Function.update_self ..).symm.trans hx

/-! ## Moving servers -/

/-- **Moving servers keeps what they serve** in every run that never destroys an object with
    features of a `grpc_server` that runs in another: every `grpc_server` is stopped once, with its
    own queue, and those that run have their features. -/
theorem moved_servers_keep_features {s : Servers}
    (h : (machine.guard (fun s e => !strands s e)).Reachable s) : s.StopsOnce ∧ s.FeaturesOwned :=
  ⟨stopsOnce_of_reachable h.of_guard, (featuresKept_of_reachable h).owned⟩

/-- A server with the reflection feature is started, and moved into a default-constructed one. -/
theorem moved_servers_keep_features_reflection :
    ∃ s : Servers, s.impl 0 = some 0 ∧ s.StopsOnce ∧ s.FeaturesOwned :=
  ⟨_, rfl, moved_servers_keep_features (Machine.reachable_of_run
    [.construct 0, .start 1 Setup.localCore { features := [Setup.reflectionFeature] },
      .moveAssign 0 1] rfl)⟩

/-- A server with the reflection feature is moved into another object, and the object it was started
    in is destroyed. -/
theorem moved_server_without_features :
    ∃ s, machine.run machine.init [.start 0 Setup.localCore { features := [Setup.reflectionFeature] },
        .moveConstruct 1 0, .destroy 0] = some s ∧
      s.impl 1 = some 0 ∧ s.created = [[⟨0, 0⟩]] ∧ s.destroyed = [] ∧ ¬ s.FeaturesOwned := by
  have hstart := Machine.reachable_of_run (M := machine)
    [.start 0 Setup.localCore { features := [Setup.reflectionFeature] }, .moveConstruct 1 0] rfl
  exact ⟨_, rfl, rfl, rfl, rfl, not_featuresOwned_of_strands (e := .destroy 0) hstart rfl rfl⟩

end Servers

end EasyGrpc
