import Mathlib.Data.List.Perm.Basic

set_option autoImplicit false

/-! # Lists

Where the entries of a list are after it was filtered, extended or changed in one place, and lists
that are joined by separators. -/

namespace List

variable {α β γ : Type*}

/-! ## Positions in a filtered list -/

/-- An element of a filtered list is found there after as many others as were kept before it. -/
theorem getElem?_filter_countP {p : α → Bool} {x : α} (hx : p x = true) :
    ∀ (l : List α) (i : ℕ), l[i]? = some x → (l.filter p)[(l.take i).countP p]? = some x := by
  intro l
  induction l with
  | nil =>
      intro i h
      cases h
  | cons y l ih =>
      intro i h
      cases i with
      | zero =>
          obtain rfl : y = x := by simpa using h
          simp [hx]
      | succ i =>
          have htail := ih i (by simpa using h)
          by_cases hy : p y = true
          · simpa [hy, List.countP_cons] using htail
          · simpa [hy, List.countP_cons] using htail

/-- And every element of the filtered list comes from such a place. -/
theorem exists_of_getElem?_filter {p : α → Bool} {x : α} :
    ∀ (l : List α) (k : ℕ), (l.filter p)[k]? = some x →
      ∃ i, l[i]? = some x ∧ (l.take i).countP p = k := by
  intro l
  induction l with
  | nil =>
      intro k h
      cases h
  | cons y l ih =>
      intro k h
      by_cases hy : p y = true
      · rw [List.filter_cons_of_pos hy] at h
        cases k with
        | zero => exact ⟨0, by simpa using h, rfl⟩
        | succ k =>
            obtain ⟨i, hi, hcount⟩ := ih k (by simpa using h)
            exact ⟨i + 1, by simpa using hi, by simp [hy, hcount]⟩
      · rw [List.filter_cons_of_neg hy] at h
        obtain ⟨i, hi, hcount⟩ := ih k h
        exact ⟨i + 1, by simpa using hi, by simp [hy, hcount]⟩

/-- Erasing a kept element before or after filtering is the same. -/
theorem filter_eraseIdx_of_pos {p : α → Bool} {x : α} (hx : p x = true) :
    ∀ (l : List α) (i : ℕ), l[i]? = some x →
      (l.eraseIdx i).filter p = (l.filter p).eraseIdx ((l.take i).countP p) := by
  intro l
  induction l with
  | nil =>
      intro i h
      cases h
  | cons y l ih =>
      intro i h
      cases i with
      | zero =>
          obtain rfl : y = x := by simpa using h
          simp [hx]
      | succ i =>
          have htail := ih i (by simpa using h)
          by_cases hy : p y = true
          · simpa [hy, List.countP_cons] using htail
          · simpa [hy, List.countP_cons] using htail

/-- Erasing a dropped element changes nothing. -/
theorem filter_eraseIdx_of_neg {p : α → Bool} {x : α} (hx : p x = false) :
    ∀ (l : List α) (i : ℕ), l[i]? = some x → (l.eraseIdx i).filter p = l.filter p := by
  intro l
  induction l with
  | nil =>
      intro i h
      cases h
  | cons y l ih =>
      intro i h
      cases i with
      | zero =>
          obtain rfl : y = x := by simpa using h
          simp [hx]
      | succ i =>
          have htail := ih i (by simpa using h)
          by_cases hy : p y = true
          · simpa [hy] using htail
          · simpa [hy] using htail

/-! ## One entry more, less or another -/

/-- What is at a place of a list after the `n`-th entry was replaced. -/
theorem getElem?_set_cases {l : List α} {n m : ℕ} {x y : α}
    (h : (l.set n x)[m]? = some y) : (m = n ∧ y = x) ∨ (m ≠ n ∧ l[m]? = some y) := by
  by_cases hm : m = n
  · subst hm
    rw [List.getElem?_set_self'] at h
    obtain ⟨z, -, rfl⟩ := Option.map_eq_some_iff.1 h
    exact Or.inl ⟨rfl, rfl⟩
  · rw [List.getElem?_set_ne (Ne.symm hm)] at h
    exact Or.inr ⟨hm, h⟩

/-- What is at a place of a list to which one entry was added. -/
theorem getElem?_append_cases {l : List α} {m : ℕ} {x y : α}
    (h : (l ++ [x])[m]? = some y) : (m = l.length ∧ y = x) ∨ (m < l.length ∧ l[m]? = some y) := by
  by_cases hm : m < l.length
  · rw [List.getElem?_append_left hm] at h
    exact Or.inr ⟨hm, h⟩
  · rw [List.getElem?_append_right (Nat.not_lt.1 hm)] at h
    obtain ⟨hzero, rfl⟩ := List.getElem?_eq_some_iff.1 h
    rw [List.length_singleton] at hzero
    exact Or.inl ⟨by omega, by simp⟩

/-- Moving an entry behind another list rearranges the two. -/
theorem perm_eraseIdx_append {l : List α} {i : ℕ} {x : α} (hx : l[i]? = some x)
    (l' : List α) : (l.eraseIdx i ++ (l' ++ [x])).Perm (l ++ l') := by
  obtain ⟨hlt, rfl⟩ := List.getElem?_eq_some_iff.1 hx
  have hperm := List.getElem_cons_eraseIdx_perm hlt
  have hmove : (l.eraseIdx i ++ (l' ++ [l[i]])).Perm (l[i] :: l.eraseIdx i ++ l') := by
    rw [← List.append_assoc]
    exact List.perm_append_comm
  exact hmove.trans (hperm.append_right l')

/-- Looking up the key of an entry, where different entries have different keys. -/
theorem lookup_map_of_nodup [BEq β] [LawfulBEq β] {f : α → β} {g : α → γ} {l : List α}
    (hf : (l.map f).Nodup) {x : α} (hx : x ∈ l) :
    (l.map (fun y => (f y, g y))).lookup (f x) = some (g x) := by
  induction l with
  | nil => exact absurd hx (by simp)
  | cons y l ih =>
      obtain ⟨hnew, hrest⟩ := List.nodup_cons.1 hf
      rcases List.mem_cons.1 hx with rfl | hx
      · simp
      · have hne : f x ≠ f y := fun heq => hnew (heq ▸ List.mem_map_of_mem hx)
        rw [List.map_cons, List.lookup_cons, beq_eq_false_iff_ne.2 hne]
        exact ih hrest hx

/-! ## Lists with separators -/

/-- All parts but the first follow a separator. -/
theorem intercalate_cons (sep part : List α) (parts : List (List α)) :
    sep.intercalate (part :: parts) = part ++ (parts.map (sep ++ ·)).flatten := by
  induction parts generalizing part with
  | nil => simp
  | cons next parts ih =>
      rw [List.intercalate_cons_cons, ih, List.map_cons, List.flatten_cons, List.append_assoc,
        List.append_assoc]

/-- What is appended to the last part is appended to the whole. -/
theorem intercalate_append_last (sep : List α) (parts : List (List α)) (last more : List α) :
    sep.intercalate (parts ++ [last ++ more]) = sep.intercalate (parts ++ [last]) ++ more := by
  cases parts with
  | nil => simp
  | cons part parts => simp [intercalate_cons]

/-- Replacing the separators, where the parts contain nothing that is replaced. -/
theorem flatMap_intercalate {f : α → List α} {sep : List α} {parts : List (List α)}
    (h : ∀ part ∈ parts, part.flatMap f = part) :
    (sep.intercalate parts).flatMap f = (sep.flatMap f).intercalate parts := by
  induction parts with
  | nil => rfl
  | cons part parts ih =>
      have hpart := h part List.mem_cons_self
      cases parts with
      | nil => simpa using hpart
      | cons next parts =>
          rw [List.intercalate_cons_cons, List.intercalate_cons_cons, List.flatMap_append,
            List.flatMap_append, hpart, ih (fun part hmem => h part (List.mem_cons_of_mem _ hmem))]

end List
