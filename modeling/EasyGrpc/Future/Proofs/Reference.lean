import EasyGrpc.Future.Chain
import EasyGrpc.Future.Proofs.Storage

set_option autoImplicit false

/-! # Tasks and the reference evaluation

What the handlers of `Future/Chain.lean` make of an outcome, against `Tree.eval`: a handler that is
called with the reference outcome of its future pushes a task with the callback and the arguments of
the reference evaluation (`Handler.Fits.call`), and such a task does what the reference says
(`Task.Sound.operate`, `Task.Sound.follow`). -/

namespace EasyGrpc

namespace Future

variable {ε : Type} {N : ℕ}

/-! ## Values and errors -/

/-- `get_first_error` finds the error the reference evaluation stops at. -/
theorem values_of_firstError {ts : List (Option Type)} {f : FinishType ε ts} {e : ε}
    (h : getFirstError ts f = some e) : values ts f = .error e := by
  induction ts with
  | nil => exact absurd h (by simp [getFirstError])
  | cons t ts ih =>
      obtain ⟨x, f⟩ := f
      cases t with
      | none =>
          cases x with
          | ok u => exact ih h
          | error e' =>
              obtain rfl : e' = e := Option.some.inj h
              rfl
      | some T =>
          cases x with
          | ok v =>
              have hrest : values ts f = .error e := ih h
              show (do let xs ← values ts f; return (v, xs)) = _
              rw [hrest]
              rfl
          | error e' =>
              obtain rfl : e' = e := Option.some.inj h
              rfl

/-- Where there is no error, the assertions of `finish_to_fullfill` hold. -/
theorem values_of_no_error {ts : List (Option Type)} {f : FinishType ε ts}
    (h : getFirstError ts f = none) : ∃ v, finishToFullfill ts f = some v ∧ values ts f = .ok v := by
  induction ts with
  | nil => exact ⟨(), rfl, rfl⟩
  | cons t ts ih =>
      obtain ⟨x, f⟩ := f
      cases t with
      | none =>
          cases x with
          | ok u => exact ih h
          | error e => exact absurd h (by simp [getFirstError])
      | some T =>
          cases x with
          | ok y =>
              obtain ⟨v, hfull, hvalues⟩ := ih (f := f) h
              refine ⟨(y, v), ?_, ?_⟩
              · show (finishToFullfill ts f).map _ = _
                rw [hfull]
                rfl
              · show (do let xs ← values ts f; return (y, xs)) = _
                rw [hvalues]
                rfl
          | error e => exact absurd h (by simp [getFirstError])

theorem values_fullfillToFinish {ts : List (Option Type)} (v : FullfillType ts) :
    values ts (fullfillToFinish ts v : FinishType ε ts) = .ok v := by
  induction ts with
  | nil => rfl
  | cons t ts ih =>
      cases t with
      | none => exact ih v
      | some T =>
          show (do let xs ← values ts (fullfillToFinish ts v.2); return (v.1, xs)) = _
          rw [ih]
          rfl

/-! ## What a handler is called with -/

/-- The slots a handler finds in what it is called with. -/
def Outcome.slots {ts : List (Option Type)} : Outcome ε ts → Option (FinishType ε ts)
  | .fullfill v => some (fullfillToFinish ts v)
  | .finish f => some f
  | .garbage => none

/-- A finish tuple with values only is what its values make. -/
theorem eq_of_finishToFullfill {ts : List (Option Type)} {f : FinishType ε ts} {v : FullfillType ts}
    (h : finishToFullfill ts f = some v) : f = fullfillToFinish ts v := by
  induction ts with
  | nil => rfl
  | cons t ts ih =>
      obtain ⟨x, f⟩ := f
      cases t with
      | none =>
          cases x with
          | ok u => exact congrArg (Prod.mk _) (ih h)
          | error e => exact absurd h (by simp [finishToFullfill])
      | some T =>
          cases x with
          | ok y =>
              obtain ⟨w, hw, rfl⟩ := Option.map_eq_some_iff.1
                (show (finishToFullfill ts f).map _ = _ from h)
              exact congrArg (Prod.mk _) (ih hw)
          | error e => exact absurd h (by simp [finishToFullfill])

theorem eq_of_inEverySlot {ts : List (Option Type)} {f : FinishType ε ts} {e : ε}
    (h : InEverySlot e ts f) : f = failToExpect ts e := by
  induction ts with
  | nil => rfl
  | cons t ts ih => exact Prod.ext h.1 (ih h.2)

/-- The handler is called with the outcome of the operation. -/
theorem Operation.Produced.slots {ts : List (Option Type)} {op : Operation ε ts}
    {o : Outcome ε ts} (h : op.Produced o) : o.slots = some op.stored := by
  cases op with
  | fullfill v =>
      rcases h with rfl | ⟨f, rfl, hf⟩
      · rfl
      · exact congrArg some (eq_of_finishToFullfill hf)
  | finish f =>
      obtain rfl : o = .finish f := h
      rfl
  | fail e =>
      obtain ⟨f, rfl, hf⟩ := h
      exact congrArg some (eq_of_inEverySlot hf)

/-! ## What becomes of a future, by the reference -/

section Results

variable {types : Fin N → List (Option Type)} {futures : List (Fin N)} {ts : List (Option Type)}

/-- What a delivery leaves in the storage in the end. -/
def Delivery.denote (outcome : ∀ m ∈ futures, FinishType ε (types m)) :
    Delivery ε types futures ts → FinishType ε ts
  | .operate op => op.stored
  | .follow m hmem htypes => htypes ▸ outcome m hmem

theorem CallbackResult.denote_deliver (outcome : ∀ m ∈ futures, FinishType ε (types m))
    (r : CallbackResult ε types futures ts) : r.deliver.denote outcome = r.denote outcome := by
  cases r <;> rfl

end Results

namespace Tree

/-- What the reference evaluation says is done to the storage of `n`. -/
def delivery (T : Tree ε N) (n : Fin N) : Delivery ε T.types (T.futures n) (T.types n) :=
  match T.link n with
  | .promise op => .operate op
  | .then_ parent _ cb =>
      match values _ (T.eval parent) with
      | .ok v => (cb v).deliver
      | .error e => .operate (.fail e)
  | .thenExpect parent _ cb => (cb (T.eval parent)).deliver

theorem eval_eq (T : Tree ε N) (n : Fin N) :
    T.eval n = (T.delivery n).denote (fun m _ => T.eval m) := by
  rw [eval, delivery]
  cases T.link n with
  | promise op => rfl
  | then_ parent hlt cb =>
      dsimp only
      cases values _ (T.eval parent) with
      | ok v => exact ((cb v).denote_deliver _).symm
      | error e => rfl
  | thenExpect parent hlt cb => exact ((cb (T.eval parent)).denote_deliver _).symm

/-- The future whose handler is to act on the storage of `n`. -/
def Starter (T : Tree ε N) (n m : Fin N) : Prop :=
  match T.delivery n with
  | .operate _ => (T.link n).parent? = some m
  | .follow m' _ _ => m = m'

theorem Starter.unique {T : Tree ε N} {n m m' : Fin N} (h : T.Starter n m) (h' : T.Starter n m') :
    m = m' := by
  unfold Starter at h h'
  split at h
  · next hdel =>
      rw [hdel] at h'
      exact Option.some.inj (h.symm.trans h')
  · next hdel =>
      rw [hdel] at h'
      exact h.trans h'.symm

end Tree

/-! ## Tasks and handlers that are as they should be -/

section Sound

variable {T : Tree ε N}

/-- A handler of the future `m` that the tree provides for. -/
def Handler.Fits {m : Fin N} : Handler ε T.types T.futures m → Prop
  | .then_ dst cb => ∃ hlt, T.link dst = .then_ m hlt cb
  | .thenExpect dst cb => ∃ hlt, T.link dst = .thenExpect m hlt cb
  | .finally_ .user => T.terminates m = true
  | .finally_ (.follow dst htypes) => ∃ hmem, T.delivery dst = .follow m hmem htypes

/-- A task with the callback and the arguments of the reference evaluation. -/
def Task.Sound : Task ε T.types T.futures → Prop
  | .then_ src dst cb v =>
      (∃ hlt, T.link dst = .then_ src hlt cb) ∧ values _ (T.eval src) = .ok v
  | .fail src dst e =>
      (∃ hlt cb, T.link dst = .then_ src hlt cb) ∧ values _ (T.eval src) = .error e
  | .thenExpect src dst cb f => (∃ hlt, T.link dst = .thenExpect src hlt cb) ∧ f = T.eval src
  | .finally_ src .user f => T.terminates src = true ∧ f = T.eval src
  | .finally_ src (.follow dst htypes) f =>
      (∃ hmem, T.delivery dst = .follow src hmem htypes) ∧ f = T.eval src

/-- Whose callback a handler holds. -/
def Handler.user {m : Fin N} : Handler ε T.types T.futures m → User N
  | .then_ dst _ => .chained dst
  | .thenExpect dst _ => .chained dst
  | .finally_ .user => .terminated
  | .finally_ (.follow dst _) => .captured dst

theorem Handler.Fits.user_eq {m : Fin N} {h : Handler ε T.types T.futures m} (hfits : h.Fits) :
    T.user m = some h.user := by
  cases h with
  | then_ dst cb =>
      obtain ⟨hlt, hlink⟩ := hfits
      exact T.user_chained dst m (by rw [hlink]; rfl)
  | thenExpect dst cb =>
      obtain ⟨hlt, hlink⟩ := hfits
      exact T.user_chained dst m (by rw [hlink]; rfl)
  | finally_ cb =>
      cases cb with
      | user => exact T.user_terminated m hfits
      | follow dst htypes =>
          obtain ⟨hmem, -⟩ := hfits
          exact T.user_captured dst m hmem

/-- **What a call of a handler pushes.** -/
theorem Handler.Fits.call {m : Fin N} {h : Handler ε T.types T.futures m} (hfits : h.Fits)
    {o : Outcome ε (T.types m)} (ho : o.slots = some (T.eval m)) :
    ∃ t, h.call o = some t ∧ t.Sound ∧ t.src = m := by
  cases o with
  | fullfill v =>
      have hv : fullfillToFinish _ v = T.eval m := Option.some.inj ho
      refine ⟨h.fullfill v, rfl, ?_⟩
      cases h with
      | then_ dst cb => exact ⟨⟨hfits, by rw [← hv, values_fullfillToFinish]⟩, rfl⟩
      | thenExpect dst cb => exact ⟨⟨hfits, hv⟩, rfl⟩
      | finally_ cb => cases cb <;> exact ⟨⟨hfits, hv⟩, rfl⟩
  | finish f =>
      obtain rfl : f = T.eval m := Option.some.inj ho
      cases h with
      | then_ dst cb =>
          cases herr : getFirstError _ (T.eval m) with
          | some e =>
              obtain ⟨hlt, hlink⟩ := hfits
              refine ⟨.fail m dst e, ?_, ⟨⟨hlt, cb, hlink⟩, values_of_firstError herr⟩, rfl⟩
              simp only [Handler.call, Handler.finish, herr]
          | none =>
              obtain ⟨v, hfull, hvalues⟩ := values_of_no_error herr
              refine ⟨.then_ m dst cb v, ?_, ⟨hfits, hvalues⟩, rfl⟩
              simp only [Handler.call, Handler.finish, herr, hfull, Option.map_some]
      | thenExpect dst cb => exact ⟨_, rfl, ⟨hfits, rfl⟩, rfl⟩
      | finally_ cb => cases cb <;> exact ⟨_, rfl, ⟨hfits, rfl⟩, rfl⟩
  | garbage => exact absurd ho (by simp [Outcome.slots])

/-- The future behind which a task's callback stands has the future of its handler as a parent, and
    the task does what the reference says. -/
theorem Task.Sound.chained {t : Task ε T.types T.futures} (h : t.Sound) :
    (∃ dst, (T.link dst).parent? = some t.src ∧ t.effect = (T.delivery dst).effect) ∨
    (∃ dst op hmem htypes, T.delivery dst = .follow t.src hmem htypes ∧
      t.effect = .operate dst op ∧ op.stored = T.eval dst) ∨
    (T.terminates t.src = true ∧ t = .finally_ t.src .user (T.eval t.src)) := by
  cases t with
  | then_ src dst cb v =>
      obtain ⟨⟨hlt, hlink⟩, hvalues⟩ := h
      refine Or.inl ⟨dst, by rw [hlink]; rfl, ?_⟩
      simp only [Task.effect, Tree.delivery, hlink, hvalues]
  | fail src dst e =>
      obtain ⟨⟨hlt, cb, hlink⟩, hvalues⟩ := h
      refine Or.inl ⟨dst, by rw [hlink]; rfl, ?_⟩
      simp only [Task.effect, Tree.delivery, hlink, hvalues, Delivery.effect]
  | thenExpect src dst cb f =>
      obtain ⟨⟨hlt, hlink⟩, rfl⟩ := h
      refine Or.inl ⟨dst, by rw [hlink]; rfl, ?_⟩
      simp only [Task.effect, Tree.delivery, hlink]
  | finally_ src cb f =>
      cases cb with
      | user =>
          obtain ⟨hterm, rfl⟩ := h
          exact Or.inr (Or.inr ⟨hterm, rfl⟩)
      | follow dst htypes =>
          obtain ⟨⟨hmem, hdel⟩, rfl⟩ := h
          refine Or.inr (Or.inl ⟨dst, _, hmem, htypes, hdel, rfl, ?_⟩)
          rw [T.eval_eq dst, hdel]
          rfl

/-- An operation begun by a task brings the reference outcome, and only one future's handler can
    have pushed such a task. -/
theorem Task.Sound.operate {t : Task ε T.types T.futures} (h : t.Sound) {dst : Fin N}
    {op : Operation ε (T.types dst)} (heff : t.effect = .operate dst op) :
    op.stored = T.eval dst ∧ T.Starter dst t.src := by
  rcases h.chained with ⟨dst', hparent, heff'⟩ | ⟨dst', op', hmem, htypes, hdel, heff', hstored⟩ |
    ⟨-, ht⟩
  · rw [heff'] at heff
    cases hdel : T.delivery dst' with
    | operate op' =>
        rw [hdel] at heff
        cases heff
        refine ⟨?_, ?_⟩
        · rw [T.eval_eq dst, hdel]
          rfl
        · rw [Tree.Starter, hdel]
          exact hparent
    | follow m hmem htypes =>
        rw [hdel] at heff
        cases heff
  · rw [heff'] at heff
    cases heff
    refine ⟨hstored, ?_⟩
    rw [Tree.Starter, hdel]
  · rw [ht] at heff
    cases heff

/-- The same of a task that follows a future. -/
theorem Task.Sound.follow {t : Task ε T.types T.futures} (h : t.Sound) {m dst : Fin N}
    {htypes : T.types m = T.types dst} (heff : t.effect = .follow m dst htypes) :
    (∃ hmem, T.delivery dst = .follow m hmem htypes) ∧ (T.link dst).parent? = some t.src := by
  rcases h.chained with ⟨dst', hparent, heff'⟩ | ⟨dst', op', -, -, -, heff', -⟩ | ⟨-, ht⟩
  · rw [heff'] at heff
    cases hdel : T.delivery dst' with
    | operate op' =>
        rw [hdel] at heff
        cases heff
    | follow m' hmem htypes' =>
        rw [hdel] at heff
        cases heff
        exact ⟨⟨hmem, hdel⟩, hparent⟩
  · rw [heff'] at heff
    cases heff
  · rw [ht] at heff
    cases heff

end Sound

end Future

end EasyGrpc
