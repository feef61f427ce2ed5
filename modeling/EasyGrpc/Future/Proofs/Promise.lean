import EasyGrpc.Future.Promise

set_option autoImplicit false

/-! # Which futures are left without an answer

A promise answers for its storage: by its producer's operation, and otherwise in its destructor. Two
things take a storage away from a promise without either, the defaulted move assignment and the
`get_future` of a stream; and the `get_future` of a promise that was moved from hands out a future
that has no storage at all. In the runs without these every future is answered
(`futures_answered`), and each of them leaves a future without an answer at once
(`unanswered_of_abandons`). -/

namespace EasyGrpc

namespace Future

namespace PromiseObject

/-- A future was handed out for the storage. -/
def created : PromiseObject → Bool
  | .promise b => b.futureCreated
  | .stream _ => true

/-- The storage was answered. -/
def assigned : PromiseObject → Bool
  | .promise b => b.valueAssigned
  | .stream _ => false

/-- The promise still has to answer a future. -/
def owes (o : PromiseObject) : Bool := o.storage.isSome && o.created && !o.assigned

@[simp] theorem storage_movedFrom (o : PromiseObject) : o.movedFrom.storage = none := by
  cases o <;> rfl

end PromiseObject

namespace Promises

variable {Ω : Type}

open PromiseObject

/-! ## Who refers to a storage -/

/-- The storage a promise refers to. -/
def held (s : Promises Ω) (p : ℕ) : Option ℕ := (s.objects p).bind storage

theorem held_set (s : Promises Ω) (p q : ℕ) (o : Option PromiseObject) :
    (s.set p o).held q = if q = p then o.bind storage else s.held q := by
  by_cases h : q = p
  · subst h
    simp [held, set]
  · simp [held, set, h]

theorem held_eq {s : Promises Ω} {p : ℕ} {o : PromiseObject} (ho : s.objects p = some o) :
    s.held p = o.storage := by
  simp [held, ho]

theorem objects_set {s : Promises Ω} {p q : ℕ} {o : Option PromiseObject} {b : PromiseObject}
    (h : (s.set p o).objects q = some b) :
    q = p ∧ o = some b ∨ q ≠ p ∧ s.objects q = some b := by
  by_cases hqp : q = p
  · subst hqp
    exact Or.inl ⟨rfl, by simpa [set] using h⟩
  · exact Or.inr ⟨hqp, by simpa [set, hqp] using h⟩

/-- Flags and storages fit together, in every run. -/
structure Inv (s : Promises Ω) : Prop where
  held_lt : ∀ p i, s.held p = some i → i < s.allocated
  future_lt : ∀ i, some i ∈ s.futures → i < s.allocated
  beyond : ∀ i, s.allocated ≤ i → s.answers i = []
  unique : ∀ p q i, s.held p = some i → s.held q = some i → p = q
  answers_iff : ∀ p o i, s.objects p = some o → o.storage = some i →
    (s.answers i = [] ↔ o.assigned = false)
  future_iff : ∀ p o i, s.objects p = some o → o.storage = some i →
    (some i ∈ s.futures ↔ o.created = true)
  once : ∀ i, (s.answers i).length ≤ 1

/-- No future is without a storage, and one without an answer has a promise that refers to it. -/
structure Kept (s : Promises Ω) : Prop where
  storages : none ∉ s.futures
  held : ∀ i, some i ∈ s.futures → s.answers i = [] → ∃ p, s.held p = some i

/-- A promise that refers to the storage of a future without an answer owes it one. -/
theorem Inv.owes_of_held {s : Promises Ω} (h : s.Inv) {p i : ℕ} (hheld : s.held p = some i)
    (hi : some i ∈ s.futures) (hnil : s.answers i = []) :
    ∃ o, s.objects p = some o ∧ o.owes = true := by
  obtain ⟨o, ho, hst⟩ := Option.bind_eq_some_iff.1 hheld
  have hcreated := (h.future_iff p o i ho hst).1 hi
  have hassigned := (h.answers_iff p o i ho hst).1 hnil
  exact ⟨o, ho, by simp [owes, hst, hcreated, hassigned]⟩

/-! ## The ways a promise changes

Each operation is one of these. -/

/-- A promise that has no storage to answer for takes the place of `p`, or nothing does. -/
theorem Inv.drop {s : Promises Ω} (h : s.Inv) (p : ℕ) {o : Option PromiseObject}
    (ho : o.bind storage = none) : (s.set p o).Inv where
  held_lt q i hq := by
    rw [held_set] at hq
    by_cases hqp : q = p
    · simp [hqp, ho] at hq
    · exact h.held_lt q i (by simpa [hqp] using hq)
  future_lt := h.future_lt
  beyond := h.beyond
  unique q r i hq hr := by
    rw [held_set] at hq hr
    by_cases hqp : q = p
    · simp [hqp, ho] at hq
    · by_cases hrp : r = p
      · simp [hrp, ho] at hr
      · exact h.unique q r i (by simpa [hqp] using hq) (by simpa [hrp] using hr)
  answers_iff q o' i hq hi := by
    rcases objects_set hq with ⟨-, rfl⟩ | ⟨-, hq⟩
    · exact absurd (ho.symm.trans hi) (by simp)
    · exact h.answers_iff q o' i hq hi
  future_iff q o' i hq hi := by
    rcases objects_set hq with ⟨-, rfl⟩ | ⟨-, hq⟩
    · exact absurd (ho.symm.trans hi) (by simp)
    · exact h.future_iff q o' i hq hi
  once := h.once

/-- Nothing is lost where the promise had nothing to answer for. -/
theorem Kept.drop {s : Promises Ω} (hk : s.Kept) (h : s.Inv) {p : ℕ} {o : Option PromiseObject}
    (howes : ∀ o', s.objects p = some o' → o'.owes = false) : (s.set p o).Kept where
  storages := hk.storages
  held i hi hnil := by
    obtain ⟨q, hq⟩ := hk.held i hi hnil
    refine ⟨q, ?_⟩
    rw [held_set, if_neg]
    · exact hq
    · rintro rfl
      obtain ⟨o', ho', hdebt⟩ := h.owes_of_held hq hi hnil
      exact absurd ((howes o' ho').symm.trans hdebt) (by simp)

/-- The storage a promise refers to is answered; the promise lets go of it, or stays and knows. -/
theorem Inv.answered {s : Promises Ω} (h : s.Inv) {p i : ℕ} {o : PromiseObject}
    (ho : s.objects p = some o) (hi : o.storage = some i) (hassigned : o.assigned = false)
    (a : Answer Ω) {o' : Option PromiseObject}
    (ho' : ∀ b, o' = some b → b.storage = none ∨
      b.storage = some i ∧ b.assigned = true ∧ b.created = o.created) :
    ((s.answer i a).set p o').Inv := by
  have hnil : s.answers i = [] := (h.answers_iff p o i ho hi).2 hassigned
  have hheld : s.held p = some i := (held_eq ho).trans hi
  have hanswers : ∀ j, ((s.answer i a).set p o').answers j =
      if j = i then [a] else s.answers j := by
    intro j
    by_cases hj : j = i
    · subst hj
      simp [set, answer, hnil]
    · simp [set, answer, hj]
  have hsub : ∀ q j, ((s.answer i a).set p o').held q = some j → s.held q = some j := by
    intro q j hq
    rw [held_set] at hq
    by_cases hqp : q = p
    · subst hqp
      obtain ⟨b, rfl, hb⟩ := Option.bind_eq_some_iff.1 (by simpa using hq)
      rcases ho' b rfl with hnone | ⟨hsome, -⟩
      · exact absurd (hnone.symm.trans hb) (by simp)
      · rw [← hb, hsome]
        exact hheld
    · simpa [hqp, held, answer] using hq
  refine ⟨fun q j hq => h.held_lt q j (hsub q j hq), h.future_lt, ?_,
    fun q r j hq hr => h.unique q r j (hsub q j hq) (hsub r j hr), ?_, ?_, ?_⟩
  · intro j hj
    rw [hanswers, if_neg]
    · exact h.beyond j hj
    · rintro rfl
      have hlt := h.held_lt p j hheld
      exact absurd hj (Nat.not_le.2 hlt)
  · intro q b j hq hb
    rcases objects_set hq with ⟨-, rfl⟩ | ⟨hqp, hq⟩
    · rcases ho' b rfl with hnone | ⟨hsome, hb', -⟩
      · exact absurd (hnone.symm.trans hb) (by simp)
      · obtain rfl : i = j := Option.some.inj (hsome.symm.trans hb)
        rw [hanswers, if_pos rfl]
        simp [hb']
    · rw [hanswers, if_neg]
      · exact h.answers_iff q b j hq hb
      · rintro rfl
        exact hqp (h.unique q p j ((held_eq hq).trans hb) hheld)
  · intro q b j hq hb
    rcases objects_set hq with ⟨-, rfl⟩ | ⟨-, hq⟩
    · rcases ho' b rfl with hnone | ⟨hsome, -, hb'⟩
      · exact absurd (hnone.symm.trans hb) (by simp)
      · obtain rfl : i = j := Option.some.inj (hsome.symm.trans hb)
        rw [hb']
        exact h.future_iff p o i ho hi
    · exact h.future_iff q b j hq hb
  · intro j
    rw [hanswers]
    by_cases hj : j = i
    · simp [hj]
    · rw [if_neg hj]
      exact h.once j

theorem Kept.answered {s : Promises Ω} (hk : s.Kept) {p i : ℕ} {o : PromiseObject}
    (ho : s.objects p = some o) (hi : o.storage = some i) (a : Answer Ω)
    (o' : Option PromiseObject) : ((s.answer i a).set p o').Kept where
  storages := hk.storages
  held j hj hnil := by
    by_cases hji : j = i
    · subst hji
      exact absurd hnil (by simp [set, answer])
    · obtain ⟨q, hq⟩ := hk.held j hj (by simpa [set, answer, hji] using hnil)
      refine ⟨q, ?_⟩
      rw [held_set, if_neg]
      · exact hq
      · rintro rfl
        exact hji (Option.some.inj (hq.symm.trans ((held_eq ho).trans hi)))

/-- A future is handed out for the storage of a promise. -/
theorem Inv.handed {s : Promises Ω} (h : s.Inv) {p : ℕ} {b : BasicPromise}
    (ho : s.objects p = some (.promise b)) :
    Inv { s.set p (some (.promise { b with futureCreated := true })) with
      futures := s.futures ++ [b.storage] } := by
  have hheld : ∀ q, (s.set p (some (.promise { b with futureCreated := true }))).held q =
      s.held q := by
    intro q
    rw [held_set]
    by_cases hqp : q = p
    · rw [if_pos hqp, hqp, held_eq ho]
      rfl
    · rw [if_neg hqp]
  refine ⟨fun q i hq => h.held_lt q i ((hheld q).symm.trans hq), ?_, h.beyond,
    fun q r i hq hr => h.unique q r i ((hheld q).symm.trans hq) ((hheld r).symm.trans hr),
    ?_, ?_, h.once⟩
  · intro i hi
    rcases List.mem_append.1 hi with hold | hlast
    · exact h.future_lt i hold
    · exact h.held_lt p i ((held_eq ho).trans (List.mem_singleton.1 hlast).symm)
  · intro q o i hq hi
    rcases objects_set hq with ⟨-, hnew⟩ | ⟨-, hq⟩
    · obtain rfl := Option.some.inj hnew
      exact h.answers_iff p (.promise b) i ho hi
    · exact h.answers_iff q o i hq hi
  · intro q o i hq hi
    rcases objects_set hq with ⟨-, hnew⟩ | ⟨hqp, hq⟩
    · obtain rfl := Option.some.inj hnew
      have hb : b.storage = some i := hi
      simp [created, hb]
    · have hne : some i ≠ b.storage := by
        intro heq
        exact hqp (h.unique q p i ((held_eq hq).trans hi) ((held_eq ho).trans heq.symm))
      simpa [hne] using h.future_iff q o i hq hi

theorem Kept.handed {s : Promises Ω} (hk : s.Kept) {p i : ℕ} {b : BasicPromise}
    (ho : s.objects p = some (.promise b)) (hi : b.storage = some i) :
    Kept { s.set p (some (.promise { b with futureCreated := true })) with
      futures := s.futures ++ [b.storage] } where
  storages := by simp [hk.storages, hi]
  held j hj hnil := by
    have hj : some j ∈ s.futures ∨ j = i := by simpa [hi] using hj
    by_cases hji : j = i
    · subst hji
      exact ⟨p, (held_set _ _ _ _).trans (by simp [PromiseObject.storage, hi])⟩
    · obtain ⟨q, hq⟩ := hk.held j (hj.resolve_right hji) hnil
      refine ⟨q, (held_set _ _ _ _).trans ?_⟩
      rw [if_neg]
      · exact hq
      · rintro rfl
        exact hji (Option.some.inj (hq.symm.trans ((held_eq ho).trans hi)))

/-- A promise gets a new storage, for which a future is handed out if the promise says so. -/
theorem Inv.allocate {s : Promises Ω} (h : s.Inv) {p : ℕ} {o : PromiseObject}
    (hstorage : o.storage = some s.allocated) (hassigned : o.assigned = false)
    {futures : List (Option ℕ)}
    (hfutures : futures = s.futures ++ if o.created then [some s.allocated] else []) :
    Inv { s.set p (some o) with allocated := s.allocated + 1, futures } := by
  have hheld : ∀ q i, (s.set p (some o)).held q = some i →
      q = p ∧ i = s.allocated ∨ q ≠ p ∧ s.held q = some i := by
    intro q i hq
    rw [held_set] at hq
    by_cases hqp : q = p
    · exact Or.inl ⟨hqp, by simpa [hqp, hstorage, eq_comm] using hq⟩
    · exact Or.inr ⟨hqp, by simpa [hqp] using hq⟩
  have hmem : ∀ i, some i ∈ futures ↔ some i ∈ s.futures ∨ o.created = true ∧ i = s.allocated := by
    intro i
    rw [hfutures]
    by_cases hc : o.created = true <;> simp [hc]
  refine ⟨?_, ?_, ?_, ?_, ?_, ?_, h.once⟩
  · intro q i hq
    show i < s.allocated + 1
    rcases hheld q i hq with ⟨-, rfl⟩ | ⟨-, hold⟩
    · exact Nat.lt_succ_self _
    · exact Nat.lt_succ_of_lt (h.held_lt q i hold)
  · intro i hi
    show i < s.allocated + 1
    rcases (hmem i).1 hi with hold | ⟨-, rfl⟩
    · exact Nat.lt_succ_of_lt (h.future_lt i hold)
    · exact Nat.lt_succ_self _
  · intro i hi
    exact h.beyond i (Nat.le_of_succ_le hi)
  · intro q r i hq hr
    rcases hheld q i hq with ⟨rfl, rfl⟩ | ⟨-, hold⟩
    · rcases hheld r _ hr with ⟨rfl, -⟩ | ⟨-, hold'⟩
      · rfl
      · exact absurd (h.held_lt r _ hold') (Nat.lt_irrefl _)
    · rcases hheld r i hr with ⟨-, rfl⟩ | ⟨-, hold'⟩
      · exact absurd (h.held_lt q _ hold) (Nat.lt_irrefl _)
      · exact h.unique q r i hold hold'
  · intro q o' i hq hi
    rcases objects_set hq with ⟨-, hnew⟩ | ⟨-, hq⟩
    · obtain rfl := Option.some.inj hnew
      obtain rfl : s.allocated = i := Option.some.inj (hstorage.symm.trans hi)
      exact ⟨fun _ => hassigned, fun _ => h.beyond _ (Nat.le_refl _)⟩
    · exact h.answers_iff q o' i hq hi
  · intro q o' i hq hi
    rw [hmem]
    rcases objects_set hq with ⟨-, hnew⟩ | ⟨-, hq⟩
    · obtain rfl := Option.some.inj hnew
      obtain rfl : s.allocated = i := Option.some.inj (hstorage.symm.trans hi)
      have hno : some s.allocated ∉ s.futures :=
        fun hold => absurd (h.future_lt _ hold) (Nat.lt_irrefl _)
      simp [hno]
    · have hlt := h.held_lt q i ((held_eq hq).trans hi)
      have hne : i ≠ s.allocated := Nat.ne_of_lt hlt
      simpa [hne] using h.future_iff q o' i hq hi

theorem Kept.allocate {s : Promises Ω} (hk : s.Kept) (h : s.Inv) {p : ℕ} {o : PromiseObject}
    (hstorage : o.storage = some s.allocated)
    (howes : ∀ o', s.objects p = some o' → o'.owes = false)
    {futures : List (Option ℕ)}
    (hfutures : futures = s.futures ++ if o.created then [some s.allocated] else []) :
    Kept { s.set p (some o) with allocated := s.allocated + 1, futures } := by
  have hdropped := hk.drop h (o := some o) howes
  have hnew : (s.set p (some o)).held p = some s.allocated := by simp [held_set, hstorage]
  refine ⟨?_, ?_⟩
  · rw [hfutures]
    by_cases hc : o.created = true <;> simp [hc, hk.storages]
  · intro i hi hnil
    by_cases hia : i = s.allocated
    · exact ⟨p, hia ▸ hnew⟩
    · have hold : some i ∈ s.futures := by
        have hi : some i ∈ futures := hi
        rw [hfutures] at hi
        by_cases hc : o.created = true <;> simpa [hc, hia] using hi
      exact hdropped.held i hold hnil

/-- What `p` referred to is let go of, and what `q` refers to now belongs to `p`. -/
theorem Inv.moved {s : Promises Ω} (h : s.Inv) {p q : ℕ} {rhs : PromiseObject}
    (hq : s.objects q = some rhs) : ((s.set p (some rhs)).set q (some rhs.movedFrom)).Inv := by
  have hheld : ∀ r i, ((s.set p (some rhs)).set q (some rhs.movedFrom)).held r = some i →
      r ≠ q ∧ (r = p ∧ s.held q = some i ∨ r ≠ p ∧ s.held r = some i) := by
    intro r i hr
    rw [held_set] at hr
    by_cases hrq : r = q
    · simp [hrq] at hr
    · rw [if_neg hrq, held_set] at hr
      by_cases hrp : r = p
      · exact ⟨hrq, Or.inl ⟨hrp, by simpa [hrp, held_eq hq] using hr⟩⟩
      · exact ⟨hrq, Or.inr ⟨hrp, by simpa [hrp] using hr⟩⟩
  -- Whatever object refers to a storage now did so before, at `p` or at `q`.
  have hobject : ∀ r o i, ((s.set p (some rhs)).set q (some rhs.movedFrom)).objects r = some o →
      o.storage = some i → ∃ r', s.objects r' = some o := by
    intro r o i hr hi
    rcases objects_set hr with ⟨-, hmoved⟩ | ⟨-, hr⟩
    · obtain rfl := Option.some.inj hmoved
      exact absurd ((storage_movedFrom rhs).symm.trans hi) (by simp)
    · rcases objects_set hr with ⟨-, hrhs⟩ | ⟨-, hr⟩
      · exact ⟨q, hq.trans hrhs⟩
      · exact ⟨r, hr⟩
  refine ⟨?_, h.future_lt, h.beyond, ?_, ?_, ?_, h.once⟩
  · intro r i hr
    rcases (hheld r i hr).2 with ⟨-, hold⟩ | ⟨-, hold⟩
    · exact h.held_lt q i hold
    · exact h.held_lt r i hold
  · intro r t i hr ht
    obtain ⟨hrq, hrcase⟩ := hheld r i hr
    obtain ⟨htq, htcase⟩ := hheld t i ht
    rcases hrcase with ⟨rfl, hr'⟩ | ⟨-, hr'⟩
    · rcases htcase with ⟨rfl, -⟩ | ⟨-, ht'⟩
      · rfl
      · exact absurd (h.unique t q i ht' hr') htq
    · rcases htcase with ⟨-, ht'⟩ | ⟨-, ht'⟩
      · exact absurd (h.unique r q i hr' ht') hrq
      · exact h.unique r t i hr' ht'
  · intro r o i hr hi
    obtain ⟨r', hr'⟩ := hobject r o i hr hi
    exact h.answers_iff r' o i hr' hi
  · intro r o i hr hi
    obtain ⟨r', hr'⟩ := hobject r o i hr hi
    exact h.future_iff r' o i hr' hi

theorem Kept.moved {s : Promises Ω} (hk : s.Kept) (h : s.Inv) {p q : ℕ} {rhs : PromiseObject}
    (hq : s.objects q = some rhs) (howes : ∀ o, s.objects p = some o → o.owes = false) :
    ((s.set p (some rhs)).set q (some rhs.movedFrom)).Kept where
  storages := hk.storages
  held i hi hnil := by
    obtain ⟨r, hr⟩ := hk.held i hi hnil
    have hrp : r ≠ p := by
      rintro rfl
      obtain ⟨o, ho, hdebt⟩ := h.owes_of_held hr hi hnil
      exact absurd ((howes o ho).symm.trans hdebt) (by simp)
    by_cases hrq : r = q
    · subst hrq
      refine ⟨p, ?_⟩
      rw [held_set, if_neg (Ne.symm hrp), held_set, if_pos rfl]
      exact (held_eq hq).symm.trans hr
    · exact ⟨r, by rwa [held_set, if_neg hrq, held_set, if_neg hrp]⟩

/-! ## What a step can do -/

/-- The operation takes a storage from a promise that still has to answer for it (move assignment
    onto it, or `get_future` of a stream promise that has one already), or hands out a future
    without a storage (`get_future` of a promise that was moved from). -/
def abandons (s : Promises Ω) : Event Ω → Bool
  | .getFuture p =>
      match s.objects p with
      | none => false
      | some (.promise b) => b.storage.isNone
      | some (.stream b) => b.storage.isSome
  | .moveAssign p _ => (s.objects p).any owes
  | _ => false

/-- One constructor for each way in which an operation changes the promises. -/
inductive Moves (s : Promises Ω) : Event Ω → Promises Ω → Prop
  /-- Nothing to answer for: a new stream promise, or a destructor. -/
  | drop {e : Event Ω} {p : ℕ} {o : Option PromiseObject} (hplain : s.abandons e = false)
      (ho : o.bind storage = none)
      (howes : ∀ b, s.objects p = some b → b.owes = false) : Moves s e (s.set p o)
  | answered {e : Event Ω} {p i : ℕ} {o : PromiseObject} {a : Answer Ω} {o' : Option PromiseObject}
      (hplain : s.abandons e = false) (ho : s.objects p = some o) (hi : o.storage = some i)
      (hassigned : o.assigned = false)
      (ho' : ∀ b, o' = some b → b.storage = none ∨
        b.storage = some i ∧ b.assigned = true ∧ b.created = o.created) :
      Moves s e ((s.answer i a).set p o')
  | handed {p : ℕ} {b : BasicPromise} (ho : s.objects p = some (.promise b)) :
      Moves s (.getFuture p) { s.set p (some (.promise { b with futureCreated := true })) with
        futures := s.futures ++ [b.storage] }
  | construct {p : ℕ} (hnone : s.objects p = none) :
      Moves s (.construct p) { s.set p (some (.promise { storage := some s.allocated })) with
        allocated := s.allocated + 1 }
  | getStreamFuture {p : ℕ} {b : BasicStreamPromise} (ho : s.objects p = some (.stream b)) :
      Moves s (.getFuture p) { s.set p (some (.stream { storage := some s.allocated })) with
        allocated := s.allocated + 1
        futures := s.futures ++ [some s.allocated] }
  | push {p : ℕ} : Moves s (.push p) s
  | moveConstruct {p q : ℕ} {rhs : PromiseObject} (hnone : s.objects p = none)
      (hq : s.objects q = some rhs) :
      Moves s (.moveConstruct p q) ((s.set p (some rhs)).set q (some rhs.movedFrom))
  | moveAssign {p q : ℕ} {lhs rhs : PromiseObject} (hp : s.objects p = some lhs)
      (hq : s.objects q = some rhs) :
      Moves s (.moveAssign p q) ((s.set p (some rhs)).set q (some rhs.movedFrom))

/-- The storage is answered, and the promise lets go of it unless its future is still to be handed
    out. -/
theorem operate_cases {s s' : Promises Ω} {p : ℕ} {op : Ω} (h : s.operate p op = some s') :
    ∃ o i o', s.objects p = some o ∧ o.storage = some i ∧ o.assigned = false ∧
      s' = (s.answer i (.own op)).set p (some o') ∧
      (o'.storage = none ∨ o'.storage = some i ∧ o'.assigned = true ∧ o'.created = o.created) := by
  unfold operate at h
  split at h
  · exact absurd h (by simp)
  · next b ho =>
      split at h
      · exact absurd h (by simp)
      · next i hi =>
          by_cases hassigned : b.valueAssigned = true
          · exact absurd h (by simp [hassigned])
          · rw [if_neg hassigned] at h
            refine ⟨_, i, _, ho, hi, Bool.not_eq_true _ ▸ hassigned, (Option.some.inj h).symm, ?_⟩
            by_cases hcreated : b.futureCreated = true
            · exact Or.inl (by simp [PromiseObject.storage, hcreated])
            · exact Or.inr ⟨by simp [PromiseObject.storage, hcreated], rfl, rfl⟩
  · next b ho =>
      split at h
      · exact absurd h (by simp)
      · next i hi => exact ⟨_, i, _, ho, hi, rfl, (Option.some.inj h).symm, Or.inl rfl⟩

/-- A storage that is still to be answered is answered. -/
theorem destroy_cases {s s' : Promises Ω} {p : ℕ} (h : s.destroy p = some s') :
    ∃ o, s.objects p = some o ∧
      ((o.storage = none ∨ o.assigned = true) ∧ s' = s.set p none ∨
        ∃ i, o.storage = some i ∧ o.assigned = false ∧
          s' = (s.answer i .unfullfilledPromise).set p none) := by
  unfold destroy at h
  split at h
  · exact absurd h (by simp)
  · next b ho =>
      refine ⟨_, ho, ?_⟩
      split at h
      · next hnone => exact Or.inl ⟨Or.inl hnone, (Option.some.inj h).symm⟩
      · next i hi =>
          by_cases hassigned : b.valueAssigned = true
          · rw [if_pos hassigned] at h
            exact Or.inl ⟨Or.inr hassigned, (Option.some.inj h).symm⟩
          · rw [if_neg hassigned] at h
            exact Or.inr ⟨i, hi, Bool.not_eq_true _ ▸ hassigned, (Option.some.inj h).symm⟩
  · next b ho =>
      refine ⟨_, ho, ?_⟩
      split at h
      · next hnone => exact Or.inl ⟨Or.inl hnone, (Option.some.inj h).symm⟩
      · next i hi => exact Or.inr ⟨i, hi, rfl, (Option.some.inj h).symm⟩

/-- **What an operation on a promise can do.** -/
theorem moves_of_step {s s' : Promises Ω} {e : Event Ω} (hstep : s.step e = some s') :
    Moves s e s' := by
  cases e with
  | construct p =>
      obtain ⟨hfresh, hsome⟩ := Option.ite_none_left_eq_some.1 hstep
      obtain rfl := Option.some.inj hsome
      exact .construct (by simpa using hfresh)
  | constructStream p =>
      obtain ⟨hfresh, hsome⟩ := Option.ite_none_left_eq_some.1 hstep
      obtain rfl := Option.some.inj hsome
      refine .drop rfl rfl (fun b hb => ?_)
      have hnone : s.objects p = none := by simpa using hfresh
      exact absurd (hnone.symm.trans hb) (by simp)
  | getFuture p =>
      simp only [step, getFuture] at hstep
      split at hstep
      · exact absurd hstep (by simp)
      · next b ho =>
          obtain ⟨-, hsome⟩ := Option.ite_none_left_eq_some.1 hstep
          obtain rfl := Option.some.inj hsome
          exact .handed ho
      · next b ho =>
          obtain rfl := Option.some.inj hstep
          exact .getStreamFuture ho
  | operate p op =>
      obtain ⟨o, i, o', ho, hi, hassigned, rfl, ho'⟩ := operate_cases hstep
      refine .answered rfl ho hi hassigned (fun b hb => ?_)
      obtain rfl := Option.some.inj hb
      exact ho'
  | push p =>
      simp only [step, push] at hstep
      split at hstep
      · obtain ⟨-, hsome⟩ := Option.ite_none_right_eq_some.1 hstep
        obtain rfl := Option.some.inj hsome
        exact .push
      · exact absurd hstep (by simp)
  | moveConstruct p q =>
      simp only [step, moveConstruct] at hstep
      split at hstep
      · next rhs hnone hq =>
          obtain rfl := Option.some.inj hstep
          exact .moveConstruct hnone hq
      · exact absurd hstep (by simp)
  | moveAssign p q =>
      simp only [step, moveAssign] at hstep
      split at hstep
      · next lhs rhs hp hq =>
          obtain ⟨-, hsome⟩ := Option.ite_none_right_eq_some.1 hstep
          obtain rfl := Option.some.inj hsome
          exact .moveAssign hp hq
      · exact absurd hstep (by simp)
  | destroy p =>
      obtain ⟨o, ho, ⟨hfree, rfl⟩ | ⟨i, hi, hassigned, rfl⟩⟩ := destroy_cases hstep
      · refine .drop rfl rfl (fun b hb => ?_)
        obtain rfl := Option.some.inj (ho.symm.trans hb)
        rcases hfree with hnone | hassigned
        · simp [owes, hnone]
        · simp [owes, hassigned]
      · exact .answered rfl ho hi hassigned (fun b hb => absurd hb (by simp))

theorem inv_init : (machine Ω).init.Inv where
  held_lt p i h := absurd h (by simp [machine, held])
  future_lt i h := absurd h (by simp [machine])
  beyond i _ := rfl
  unique p q i h := absurd h (by simp [machine, held])
  answers_iff p o i h := absurd h (by simp [machine])
  future_iff p o i h := absurd h (by simp [machine])
  once i := Nat.zero_le 1

theorem inv_step {s s' : Promises Ω} {e : Event Ω} (hstep : s.step e = some s') (h : s.Inv) :
    s'.Inv := by
  cases moves_of_step hstep with
  | drop hplain ho howes => exact h.drop _ ho
  | answered hplain ho hi hassigned ho' => exact h.answered ho hi hassigned _ ho'
  | handed ho => exact h.handed ho
  | construct hnone => exact h.allocate rfl rfl (by simp [created, set])
  | getStreamFuture ho => exact h.allocate rfl rfl rfl
  | push => exact h
  | moveConstruct hnone hq => exact h.moved hq
  | moveAssign hp hq => exact h.moved hq

theorem inv_of_reachable {s : Promises Ω} (h : (machine Ω).Reachable s) : s.Inv :=
  h.invariant inv_init inv_step

/-! ## Which operations leave a future without an answer -/

theorem kept_step {s s' : Promises Ω} {e : Event Ω} (hinv : s.Inv) (hstep : s.step e = some s')
    (hguard : s.abandons e = false) (hk : s.Kept) : s'.Kept := by
  cases moves_of_step hstep with
  | drop hplain ho howes => exact hk.drop hinv howes
  | answered hplain ho hi hassigned ho' => exact hk.answered ho hi _ _
  | @handed p b ho =>
      obtain ⟨i, hi⟩ : ∃ i, b.storage = some i := by
        have hsome : b.storage.isNone = false := by simpa [abandons, ho] using hguard
        exact Option.isSome_iff_exists.1 (by simpa using hsome)
      exact hk.handed ho hi
  | construct hnone =>
      exact hk.allocate hinv rfl (fun o ho => absurd (hnone.symm.trans ho) (by simp))
        (by simp [created, set])
  | @getStreamFuture p b ho =>
      have hnone : b.storage.isSome = false := by simpa [abandons, ho] using hguard
      refine hk.allocate hinv rfl (fun o ho' => ?_) rfl
      obtain rfl := Option.some.inj (ho.symm.trans ho')
      simp [owes, PromiseObject.storage, hnone]
  | push => exact hk
  | moveConstruct hnone hq =>
      exact hk.moved hinv hq (fun o ho => absurd (hnone.symm.trans ho) (by simp))
  | @moveAssign p q lhs rhs hp hq =>
      refine hk.moved hinv hq (fun o ho => ?_)
      obtain rfl := Option.some.inj (hp.symm.trans ho)
      simpa [abandons, hp] using hguard

/-- Every future handed out is answered at most once, and exactly once where no promise that exists
    refers to its storage. -/
def Answered (s : Promises Ω) : Prop :=
  ∀ f ∈ s.futures, ∃ i, f = some i ∧ (s.answers i).length ≤ 1 ∧
    ((∀ p, s.held p ≠ some i) →
      (∃ op, s.answers i = [.own op]) ∨ s.answers i = [.unfullfilledPromise])

theorem Kept.all_answered {s : Promises Ω} (hk : s.Kept) (h : s.Inv) : s.Answered := by
  intro f hf
  cases f with
  | none => exact absurd hf hk.storages
  | some i =>
      refine ⟨i, rfl, h.once i, fun hfree => ?_⟩
      have hlen := h.once i
      cases hans : s.answers i with
      | nil =>
          obtain ⟨p, hp⟩ := hk.held i hf hans
          exact absurd hp (hfree p)
      | cons a rest =>
          obtain rfl : rest = [] := by simpa [hans] using hlen
          cases a with
          | own op => exact Or.inl ⟨op, rfl⟩
          | unfullfilledPromise => exact Or.inr rfl

/-- The storage of a promise that owes its answer, once no promise refers to it any more. -/
theorem Inv.not_answered {s s' : Promises Ω} (h : s.Inv) {p i : ℕ} {o : PromiseObject}
    (ho : s.objects p = some o) (hi : o.storage = some i) (howes : o.owes = true)
    (hfutures : ∀ f ∈ s.futures, f ∈ s'.futures) (hanswers : s'.answers = s.answers)
    (hfree : ∀ q, s'.held q ≠ some i) : ¬ s'.Answered := by
  intro hall
  obtain ⟨hcreated, hassigned⟩ : o.created = true ∧ o.assigned = false := by
    simpa [owes, hi] using howes
  have hmem := hfutures _ ((h.future_iff p o i ho hi).2 hcreated)
  have hnil : s'.answers i = [] := by rw [hanswers, (h.answers_iff p o i ho hi).2 hassigned]
  obtain ⟨j, hj, -, hans⟩ := hall _ hmem
  obtain rfl := Option.some.inj hj
  rcases hans hfree with ⟨op, hop⟩ | hun
  · exact absurd (hnil.symm.trans hop) (by simp)
  · exact absurd (hnil.symm.trans hun) (by simp)

/-- Each such operation leaves a future without an answer at once. -/
theorem unanswered_of_abandons {s s' : Promises Ω} {e : Event Ω} (hreach : (machine Ω).Reachable s)
    (hstep : s.step e = some s') (habandons : s.abandons e = true) : ¬ s'.Answered := by
  have h := inv_of_reachable hreach
  cases moves_of_step hstep with
  | drop hplain ho howes => exact absurd (hplain.symm.trans habandons) (by simp)
  | answered hplain ho hi hassigned ho' =>
      exact absurd (hplain.symm.trans habandons) (by simp)
  | @handed p b ho =>
      have hnone : b.storage = none := by simpa [abandons, ho] using habandons
      intro hall
      obtain ⟨i, hi, -⟩ := hall b.storage (by simp)
      exact absurd (hnone.symm.trans hi) (by simp)
  | construct hnone => exact absurd habandons (by simp [abandons])
  | @getStreamFuture p b ho =>
      have hsome : b.storage.isSome = true := by simpa [abandons, ho] using habandons
      obtain ⟨i, hi⟩ := Option.isSome_iff_exists.1 hsome
      refine h.not_answered ho hi (by simp [owes, PromiseObject.storage, created, assigned, hi])
        (fun f hf => List.mem_append_left _ hf) rfl (fun q hq => ?_)
      have hq := (held_set _ _ _ _).symm.trans hq
      by_cases hqp : q = p
      · subst hqp
        rw [if_pos rfl] at hq
        have hlt := h.held_lt q i ((held_eq ho).trans hi)
        obtain rfl : s.allocated = i := by simpa [PromiseObject.storage] using hq
        exact absurd hlt (Nat.lt_irrefl _)
      · rw [if_neg hqp] at hq
        exact hqp (h.unique q p i hq ((held_eq ho).trans hi))
  | push => exact absurd habandons (by simp [abandons])
  | moveConstruct hnone hq => exact absurd habandons (by simp [abandons])
  | @moveAssign p q lhs rhs hp hq =>
      have howes : lhs.owes = true := by simpa [abandons, hp] using habandons
      obtain ⟨i, hi⟩ := Option.isSome_iff_exists.1
        (show lhs.storage.isSome = true by simp_all [owes])
      refine h.not_answered hp hi howes (fun f hf => hf) rfl (fun r hr => ?_)
      have hpi := (held_eq hp).trans hi
      rw [held_set] at hr
      by_cases hrq : r = q
      · simp [hrq] at hr
      · rw [if_neg hrq, held_set] at hr
        by_cases hrp : r = p
        · -- `p` now has what `q` had, which is not its own old storage.
          rw [if_pos hrp] at hr
          have hqi : s.held q = some i := (held_eq hq).trans (by simpa using hr)
          exact hrq (hrp.trans (h.unique p q i hpi hqi))
        · rw [if_neg hrp] at hr
          exact hrp (h.unique r p i hr hpi)

end Promises

end Future

end EasyGrpc
