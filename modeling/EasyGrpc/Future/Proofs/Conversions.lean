import EasyGrpc.Future.Conversions
import EasyGrpc.Future.Proofs.Join
import EasyGrpc.Future.Proofs.Reference

set_option autoImplicit false

/-! # The fast and the stored delivery agree

A future that is resolved after its handler was attached hands it the values; one that is resolved
before keeps a finish tuple and hands it that. Both recursions of `utils.h` compute what the models
of the handlers use (`finishToFullfillAt_eq`, `fullfillToFinishAt_eq`), and neither conversion loses
or misplaces a value. -/

namespace EasyGrpc

namespace Future

variable {ε : Type}

/-! ## From the last slot down -/

/-- The values of the slots, from the first one up. -/
def valuesUp : List (ExpectedElement ε) → Option (List Element)
  | [] => some []
  | slot :: slots => (valTup slot).bind (fun tup => (valuesUp slots).map (tup ++ ·))

theorem valuesUp_concat (slots : List (ExpectedElement ε)) (slot : ExpectedElement ε) :
    valuesUp (slots ++ [slot])
      = (valTup slot).bind (fun tup => (valuesUp slots).map (· ++ tup)) := by
  induction slots with
  | nil =>
      cases h : valTup slot <;> simp [valuesUp, h]
  | cons first slots ih =>
      rw [List.cons_append, valuesUp, valuesUp, ih]
      cases valTup first <;> cases valTup slot <;> cases valuesUp slots <;> simp

/-- The recursion from slot `i` down gives the values of the slots up to `i`. -/
theorem finishToFullfillAt_eq_take (src : List (ExpectedElement ε)) {i : ℕ} (hi : i < src.length) :
    finishToFullfillAt src i = valuesUp (src.take (i + 1)) := by
  induction i with
  | zero =>
      rw [List.take_succ_eq_append_getElem hi, valuesUp_concat, finishToFullfillAt,
        List.getElem?_eq_getElem hi]
      cases h : valTup src[0] <;> simp [valuesUp, h]
  | succ i ih =>
      rw [List.take_succ_eq_append_getElem hi, valuesUp_concat, ← ih (by omega), finishToFullfillAt,
        List.getElem?_eq_getElem hi]
      rfl

theorem length_slotElements (ts : List (Option Type)) (f : FinishType ε ts) :
    (slotElements ts f).length = ts.length := by
  induction ts with
  | nil => rfl
  | cons t ts ih => exact congrArg Nat.succ (ih f.2)

theorem valuesUp_slotElements (ts : List (Option Type)) (f : FinishType ε ts) :
    valuesUp (slotElements ts f) = (finishToFullfill ts f).map (valueElements ts) := by
  induction ts with
  | nil => rfl
  | cons t ts ih =>
      obtain ⟨x, f⟩ := f
      cases t with
      | none =>
          cases x with
          | ok u =>
              have hrest := ih f
              show (valuesUp (slotElements ts f)).map ([] ++ ·) = (finishToFullfill ts f).map _
              rw [hrest, Option.map_map]
              rfl
          | error e => rfl
      | some T =>
          cases x with
          | ok v =>
              have hrest := ih f
              show (valuesUp (slotElements ts f)).map ([⟨T, v⟩] ++ ·)
                = ((finishToFullfill ts f).map (v, ·)).map _
              rw [hrest, Option.map_map]
              exact (Option.map_map (valueElements (some T :: ts)) (v, ·) (finishToFullfill ts f)).symm
          | error e => rfl

/-- **`finish_to_fullfill`, from the last slot, collects the values of all slots.** -/
theorem finishToFullfillAt_eq {ts : List (Option Type)} (hne : ts ≠ []) (f : FinishType ε ts) :
    finishToFullfillAt (slotElements ts f) (ts.length - 1)
      = (finishToFullfill ts f).map (valueElements ts) := by
  have hpos : 0 < ts.length := List.length_pos_iff.2 hne
  have hlength := length_slotElements ts f
  rw [finishToFullfillAt_eq_take _ (by omega), List.take_of_length_le (by omega),
    valuesUp_slotElements]

/-! ## From the first slot up -/

theorem fullfillToFinishAt_void {result : List (Option Type)} {i : ℕ}
    (hslot : result[i]? = some none) (j : ℕ) (src : List Element) :
    (fullfillToFinishAt result i j src : Option (List (ExpectedElement ε)))
      = if i = result.length - 1 then some [⟨none, .ok ()⟩]
        else (fullfillToFinishAt result (i + 1) j src).map (⟨none, .ok ()⟩ :: ·) := by
  rw [fullfillToFinishAt]
  split
  · next h => cases h.symm.trans hslot
  · rfl
  · next h => cases h.symm.trans hslot

theorem fullfillToFinishAt_value {result : List (Option Type)} {i j : ℕ} {T U : Type} {x : U}
    {src : List Element} (hslot : result[i]? = some (some T)) (hvalue : src[j]? = some ⟨U, x⟩) :
    (fullfillToFinishAt result i j src : Option (List (ExpectedElement ε)))
      = if i = result.length - 1 then some [⟨some U, .ok x⟩]
        else (fullfillToFinishAt result (i + 1) (j + 1) src).map (⟨some U, .ok x⟩ :: ·) := by
  rw [fullfillToFinishAt]
  split
  · next h => cases h.symm.trans hslot
  · next h => cases h.symm.trans hslot
  · rw [hvalue]
    rfl

/-- The recursion behind the slots `before`, with the values `used` used up, converts the others. -/
theorem fullfillToFinishAt_eq_drop {ts : List (Option Type)} (hne : ts ≠ [])
    (before : List (Option Type)) (used : List Element) (v : FullfillType ts) :
    fullfillToFinishAt (before ++ ts) before.length used.length (used ++ valueElements ts v)
      = some (slotElements ts (fullfillToFinish ts v : FinishType ε ts)) := by
  induction ts generalizing before used with
  | nil => exact absurd rfl hne
  | cons t ts ih =>
      have hslot : (before ++ t :: ts)[before.length]? = some t := by simp
      have hlast : before.length = (before ++ t :: ts).length - 1 ↔ ts = [] := by
        rw [List.length_append, List.length_cons, ← List.length_eq_zero_iff]
        omega
      have happend : before ++ t :: ts = (before ++ [t]) ++ ts := by simp
      have hlength : before.length + 1 = (before ++ [t]).length := by simp
      cases t with
      | none =>
          rw [fullfillToFinishAt_void hslot]
          by_cases hts : ts = []
          · rw [if_pos (hlast.2 hts)]
            subst hts
            rfl
          · have hrest := ih hts (before ++ [none]) used v
            rw [if_neg (fun h => hts (hlast.1 h)), happend, hlength]
            exact congrArg (Option.map _) hrest
      | some T =>
          have hvalue : (used ++ valueElements (some T :: ts) v)[used.length]? = some ⟨T, v.1⟩ := by
            simp [valueElements]
          rw [fullfillToFinishAt_value hslot hvalue]
          by_cases hts : ts = []
          · rw [if_pos (hlast.2 hts)]
            subst hts
            rfl
          · have hrest := ih hts (before ++ [some T]) (used ++ [⟨T, v.1⟩]) v.2
            have hused : used ++ valueElements (some T :: ts) v
                = (used ++ [⟨T, v.1⟩]) ++ valueElements ts v.2 := by simp [valueElements]
            have hcount : used.length + 1 = (used ++ [(⟨T, v.1⟩ : Element)]).length := by simp
            rw [if_neg (fun h => hts (hlast.1 h)), happend, hlength, hused, hcount]
            exact congrArg (Option.map _) hrest

/-- **`fullfill_to_finish`, from the first slot, puts every value into its slot.** -/
theorem fullfillToFinishAt_eq {ts : List (Option Type)} (hne : ts ≠ []) (v : FullfillType ts) :
    fullfillToFinishAt ts 0 0 (valueElements ts v)
      = some (slotElements ts (fullfillToFinish ts v : FinishType ε ts)) :=
  fullfillToFinishAt_eq_drop hne [] [] v

/-! ## A tuple is known by its elements -/

theorem valueElements_injective (ts : List (Option Type)) :
    Function.Injective (valueElements ts) := by
  induction ts with
  | nil => exact fun _ _ _ => rfl
  | cons t ts ih =>
      cases t with
      | none => exact ih
      | some T =>
          intro v w h
          obtain ⟨hhead, htail⟩ := List.cons.inj h
          have hfirst : v.1 = w.1 := eq_of_heq (Sigma.mk.inj hhead).2
          exact Prod.ext hfirst (ih htail)

theorem slotElements_injective (ts : List (Option Type)) :
    Function.Injective (slotElements ts : FinishType ε ts → _) := by
  induction ts with
  | nil => exact fun _ _ _ => rfl
  | cons t ts ih =>
      intro f g h
      obtain ⟨hhead, htail⟩ := List.cons.inj h
      have hfirst : f.1 = g.1 := eq_of_heq (Sigma.mk.inj hhead).2
      exact Prod.ext hfirst (ih htail)

/-! ## Round trips -/

/-- Without an error, wrapping the values again gives the finish tuple back. -/
theorem fullfillToFinish_finishToFullfill {ts : List (Option Type)} {f : FinishType ε ts}
    (h : getFirstError ts f = none) :
    (finishToFullfill ts f).map (fullfillToFinish ts) = some f := by
  induction ts with
  | nil => rfl
  | cons t ts ih =>
      obtain ⟨x, f⟩ := f
      cases t with
      | none =>
          cases x with
          | ok u =>
              obtain ⟨v, hv, hback⟩ := Option.map_eq_some_iff.1 (ih (f := f) h)
              refine (congrArg (Option.map (fullfillToFinish (none :: ts))) hv).trans ?_
              exact congrArg (fun g => some (Except.ok (), g)) hback
          | error e => cases h
      | some T =>
          cases x with
          | ok x =>
              obtain ⟨v, hv, hback⟩ := Option.map_eq_some_iff.1 (ih (f := f) h)
              have hfull : (finishToFullfill ts f).map (x, ·) = some (x, v) := by
                rw [hv]
                rfl
              refine (congrArg (Option.map (fullfillToFinish (some T :: ts))) hfull).trans ?_
              exact congrArg (fun g => some (Except.ok x, g)) hback
          | error e => cases h

theorem getFirstError_fullfillToFinish (ts : List (Option Type)) (v : FullfillType ts) :
    getFirstError ts (fullfillToFinish ts v : FinishType ε ts) = none := by
  induction ts with
  | nil => rfl
  | cons t ts ih =>
      cases t with
      | none => exact ih v
      | some T => exact ih v.2

/-! ## The first error -/

theorem getFirstError_eq_none_iff {ts : List (Option Type)} {f : FinishType ε ts} :
    getFirstError ts f = none ↔ ∀ i, (slot ts i f).error? = none := by
  refine ⟨fun h => ?_, getFirstError_of_none⟩
  induction ts with
  | nil => exact fun i => i.elim0
  | cons t ts ih =>
      rw [getFirstError_cons] at h
      cases hfirst : f.1.error? with
      | some e =>
          rw [hfirst] at h
          cases h
      | none =>
          rw [hfirst] at h
          rintro ⟨i, hi⟩
          cases i with
          | zero => exact hfirst
          | succ i => exact ih h ⟨i, Nat.lt_of_succ_lt_succ hi⟩

theorem getFirstError_eq_some_iff {ts : List (Option Type)} {f : FinishType ε ts} {e : ε} :
    getFirstError ts f = some e ↔
      ∃ i, (slot ts i f).error? = some e ∧ ∀ j < i, (slot ts j f).error? = none := by
  refine ⟨fun h => ?_, fun ⟨i, hi, hbefore⟩ => getFirstError_of_first hi hbefore⟩
  induction ts with
  | nil => cases h
  | cons t ts ih =>
      rw [getFirstError_cons] at h
      cases hfirst : f.1.error? with
      | some e' =>
          rw [hfirst] at h
          exact ⟨⟨0, Nat.zero_lt_succ _⟩, hfirst.trans h, fun j hj => absurd hj (Nat.not_lt_zero j)⟩
      | none =>
          rw [hfirst] at h
          obtain ⟨i, hi, hbefore⟩ := ih h
          refine ⟨i.succ, hi, ?_⟩
          rintro ⟨j, hlt⟩ hj
          cases j with
          | zero => exact hfirst
          | succ j =>
              exact hbefore ⟨j, Nat.lt_of_succ_lt_succ hlt⟩ (Nat.lt_of_succ_lt_succ hj)

/-! ## The handlers -/

variable {N : ℕ} {types : Fin N → List (Option Type)} {futures : Fin N → List (Fin N)}

/-- A handler does with the finish tuple of some values what it does with the values. -/
theorem Handler.finish_fullfillToFinish {m : Fin N} (h : Handler ε types futures m)
    (v : FullfillType (types m)) : h.finish (fullfillToFinish _ v) = some (h.fullfill v) := by
  cases h with
  | then_ dst cb =>
      rw [Handler.finish, getFirstError_fullfillToFinish]
      show (finishToFullfill _ (fullfillToFinish _ v : FinishType ε _)).map _ = _
      rw [finishToFullfill_fullfillToFinish]
      rfl
  | thenExpect dst cb => rfl
  | finally_ cb => rfl

/-! ## Both paths -/

/-- What the conversions of a future of slots `ts` are to each other. -/
structure ConversionsAgree (ε : Type) (ts : List (Option Type)) : Prop where
  /-- The recursions of the source compute the tuples the handlers are given. -/
  to_finish : ∀ v, fullfillToFinishAt ts 0 0 (valueElements ts v)
    = some (slotElements ts (fullfillToFinish ts v : FinishType ε ts))
  to_fullfill : ∀ f : FinishType ε ts, finishToFullfillAt (slotElements ts f) (ts.length - 1)
    = (finishToFullfill ts f).map (valueElements ts)
  fullfill_back : ∀ v, finishToFullfill ts (fullfillToFinish ts v : FinishType ε ts) = some v
  finish_back : ∀ f : FinishType ε ts, (∀ i, (slot ts i f).error? = none) →
    (finishToFullfill ts f).map (fullfillToFinish ts) = some f
  first_error : ∀ (f : FinishType ε ts) (e : ε), getFirstError ts f = some e ↔
    ∃ i, (slot ts i f).error? = some e ∧ ∀ j < i, (slot ts j f).error? = none
  no_error : ∀ f : FinishType ε ts, getFirstError ts f = none ↔ ∀ i, (slot ts i f).error? = none

/-- **The fast and the stored delivery path agree** for every mix of `void` and value slots: the
    conversions are inverse to each other, `get_first_error` finds the error of the lowest slot, and
    every handler runs its callback with the same arguments on either path. -/
theorem delivery_paths_agree {ts : List (Option Type)} (hne : ts ≠ []) :
    ConversionsAgree ε ts ∧
    ∀ (N : ℕ) (types : Fin N → List (Option Type)) (futures : Fin N → List (Fin N)) (m : Fin N),
      types m = ts → ∀ (h : Handler ε types futures m) (v : FullfillType (types m)),
      h.finish (fullfillToFinish _ v) = some (h.fullfill v) := by
  refine ⟨⟨fullfillToFinishAt_eq hne, finishToFullfillAt_eq hne, ?_, ?_, ?_, ?_⟩, ?_⟩
  · exact finishToFullfill_fullfillToFinish ts
  · exact fun f hnone => fullfillToFinish_finishToFullfill (getFirstError_of_none hnone)
  · exact fun f e => getFirstError_eq_some_iff
  · exact fun f => getFirstError_eq_none_iff
  · exact fun N types futures m _ h v => h.finish_fullfillToFinish v

/-- A future of a `void` between two values. -/
theorem delivery_paths_agree_void :
    ConversionsAgree String [some ℕ, none, some Bool] ∧
    ∀ (N : ℕ) (types : Fin N → List (Option Type)) (futures : Fin N → List (Fin N)) (m : Fin N),
      types m = [some ℕ, none, some Bool] →
      ∀ (h : Handler String types futures m) (v : FullfillType (types m)),
      h.finish (fullfillToFinish _ v) = some (h.fullfill v) :=
  delivery_paths_agree (by simp)

end Future

end EasyGrpc
