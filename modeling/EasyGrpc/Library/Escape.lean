import Mathlib.Logic.Relation

set_option autoImplicit false

/-! # Escapes without delimiters

Some characters are kept, each of the others is replaced by a spelling made of characters that are
kept. Nothing marks where a spelling begins or ends, so the escaped string stands for every string
that spells the same: two strings are escaped alike exactly if they can be turned into each other by
spelling characters out and the reverse (`escape_eq_iff`). -/

variable {α : Type*}

namespace Escape

/-- Each character that is not kept is replaced by its spelling. -/
def escape (keep : α → Bool) (spell : α → List α) (s : List α) : List α :=
  s.flatMap (fun c => if keep c then [c] else spell c)

/-- `y` is `x` with one of its characters spelled out. -/
def Spelled (keep : α → Bool) (spell : α → List α) (x y : List α) : Prop :=
  ∃ u c v, keep c = false ∧ x = u ++ c :: v ∧ y = u ++ spell c ++ v

variable {keep : α → Bool} {spell : α → List α}

theorem escape_append (x y : List α) :
    escape keep spell (x ++ y) = escape keep spell x ++ escape keep spell y :=
  List.flatMap_append

theorem escape_cons (c : α) (s : List α) :
    escape keep spell (c :: s) = (if keep c then [c] else spell c) ++ escape keep spell s :=
  List.flatMap_cons

/-- What is kept is escaped as it is. -/
theorem escape_eq_self {s : List α} (h : ∀ c ∈ s, keep c = true) : escape keep spell s = s := by
  induction s with
  | nil => rfl
  | cons c s ih =>
      rw [escape_cons, if_pos (h c List.mem_cons_self),
        ih (fun d hd => h d (List.mem_cons_of_mem _ hd))]
      rfl

theorem escape_of_spelled (hspell : ∀ c, keep c = false → ∀ d ∈ spell c, keep d = true)
    {x y : List α} (h : Spelled keep spell x y) : escape keep spell x = escape keep spell y := by
  obtain ⟨u, c, v, hc, rfl, rfl⟩ := h
  have hself : escape keep spell (spell c) = spell c := escape_eq_self (hspell c hc)
  rw [escape_append, escape_append, escape_append, escape_cons, hc, hself, List.append_assoc]
  rfl

/-- Spelling out behind a common beginning. -/
theorem eqvGen_append_left (u : List α) {x y : List α}
    (h : Relation.EqvGen (Spelled keep spell) x y) :
    Relation.EqvGen (Spelled keep spell) (u ++ x) (u ++ y) := by
  induction h with
  | rel x y h =>
      obtain ⟨u', c, v, hc, rfl, rfl⟩ := h
      exact .rel _ _ ⟨u ++ u', c, v, hc, by simp, by simp⟩
  | refl x => exact .refl _
  | symm x y _ ih => exact .symm _ _ ih
  | trans x y z _ _ ihx ihy => exact .trans _ _ _ ihx ihy

/-- Escaping spells out one character after the other. -/
theorem eqvGen_escape (s : List α) :
    Relation.EqvGen (Spelled keep spell) s (escape keep spell s) := by
  induction s with
  | nil => exact .refl _
  | cons c s ih =>
      rw [escape_cons]
      by_cases hc : keep c = true
      · rw [if_pos hc]
        exact eqvGen_append_left [c] ih
      · rw [if_neg hc]
        have hspelled : Spelled keep spell (c :: s) (spell c ++ s) :=
          ⟨[], c, s, by simpa using hc, rfl, rfl⟩
        exact .trans _ _ _ (.rel _ _ hspelled) (eqvGen_append_left _ ih)

/-- **Which strings are escaped alike.** -/
theorem escape_eq_iff (hspell : ∀ c, keep c = false → ∀ d ∈ spell c, keep d = true)
    {x y : List α} :
    escape keep spell x = escape keep spell y ↔ Relation.EqvGen (Spelled keep spell) x y := by
  constructor
  · intro h
    have hx : Relation.EqvGen (Spelled keep spell) x (escape keep spell y) := h ▸ eqvGen_escape x
    exact .trans _ _ _ hx (.symm _ _ (eqvGen_escape y))
  · intro h
    induction h with
    | rel x y h => exact escape_of_spelled hspell h
    | refl x => rfl
    | symm x y _ ih => exact ih.symm
    | trans x y z _ _ ihx ihy => exact ihx.trans ihy

end Escape
