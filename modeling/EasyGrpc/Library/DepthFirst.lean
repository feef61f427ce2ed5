import Mathlib.Data.Finset.Card
import Mathlib.Logic.Relation

set_option autoImplicit false

/-! # Depth-first walks

A recursive walk over a graph given by lists of successors, with one list of the vertices seen that
all recursive calls share. `depth` bounds how deep the calls may nest; the walk is `none` where they
would nest deeper. On a finite graph, cyclic or not, that does not happen (`visit_terminates`), and
the walk lists the vertices that can be reached, each of them once, beginning with its root. -/

variable {V : Type*}

namespace DepthFirst

/-- There is an edge from `a` to `b`. -/
def Edge (succ : V → List V) (a b : V) : Prop := b ∈ succ a

/-! ## What a walk has done -/

/-- A walk from `roots`, begun with the vertices `seen`, has led to the vertices `out`. -/
structure Visits (succ : V → List V) (roots seen out : List V) : Prop where
  /-- Vertices are only added, at the end, -/
  kept : seen <+: out
  /-- none of them twice, -/
  nodup : seen.Nodup → out.Nodup
  covers : ∀ v ∈ roots, v ∈ out
  /-- only those that can be reached, -/
  reached : ∀ w ∈ out, w ∈ seen ∨ ∃ v ∈ roots, Relation.ReflTransGen (Edge succ) v w
  /-- and with each of them its successors. -/
  closed : ∀ w ∈ out, w ∈ seen ∨ ∀ u ∈ succ w, u ∈ out

variable {succ : V → List V}

theorem Visits.nil (seen : List V) : Visits succ [] seen seen where
  kept := List.prefix_rfl
  nodup h := h
  covers v hv := absurd hv (by simp)
  reached w hw := Or.inl hw
  closed w hw := Or.inl hw

/-- A root that was seen before adds nothing. -/
theorem Visits.of_mem {v : V} {seen : List V} (hv : v ∈ seen) : Visits succ [v] seen seen where
  kept := List.prefix_rfl
  nodup h := h
  covers w hw := by
    rw [List.mem_singleton.1 hw]
    exact hv
  reached w hw := Or.inl hw
  closed w hw := Or.inl hw

/-- Walks from one root after the other. -/
theorem Visits.cons {v : V} {vs seen mid out : List V} (h : Visits succ [v] seen mid)
    (hrest : Visits succ vs mid out) : Visits succ (v :: vs) seen out where
  kept := h.kept.trans hrest.kept
  nodup hseen := hrest.nodup (h.nodup hseen)
  covers w hw := by
    rcases List.mem_cons.1 hw with rfl | hw
    · exact hrest.kept.subset (h.covers w (by simp))
    · exact hrest.covers w hw
  reached w hw := by
    rcases hrest.reached w hw with hmid | ⟨u, hu, hreach⟩
    · rcases h.reached w hmid with hseen | ⟨u, hu, hreach⟩
      · exact Or.inl hseen
      · obtain rfl : u = v := List.mem_singleton.1 hu
        exact Or.inr ⟨u, List.mem_cons_self, hreach⟩
    · exact Or.inr ⟨u, List.mem_cons_of_mem _ hu, hreach⟩
  closed w hw := by
    rcases hrest.closed w hw with hmid | hsucc
    · rcases h.closed w hmid with hseen | hsucc
      · exact Or.inl hseen
      · exact Or.inr (fun u hu => hrest.kept.subset (hsucc u hu))
    · exact Or.inr hsucc

/-- A new root is added, then the walk goes on from its successors. -/
theorem Visits.of_succ {v : V} {seen out : List V} (hv : v ∉ seen)
    (h : Visits succ (succ v) (seen ++ [v]) out) : Visits succ [v] seen out where
  kept := (List.prefix_append seen [v]).trans h.kept
  nodup hseen := h.nodup (List.nodup_append.2 ⟨hseen, List.nodup_singleton v, by
    intro a ha b hb hab
    obtain rfl : b = v := List.mem_singleton.1 hb
    exact hv (hab ▸ ha)⟩)
  covers w hw := by
    rw [List.mem_singleton.1 hw]
    exact h.kept.subset (by simp)
  reached w hw := by
    rcases h.reached w hw with hmem | ⟨u, hu, hreach⟩
    · rcases List.mem_append.1 hmem with hseen | hroot
      · exact Or.inl hseen
      · obtain rfl : w = v := List.mem_singleton.1 hroot
        exact Or.inr ⟨w, List.mem_singleton_self w, .refl⟩
    · exact Or.inr ⟨v, List.mem_singleton_self v, .head hu hreach⟩
  closed w hw := by
    rcases h.closed w hw with hmem | hsucc
    · rcases List.mem_append.1 hmem with hseen | hroot
      · exact Or.inl hseen
      · obtain rfl : w = v := List.mem_singleton.1 hroot
        exact Or.inr h.covers
    · exact Or.inr hsucc

/-- A walk begun with nothing seen has listed what can be reached. -/
theorem Visits.mem_iff {v : V} {out : List V} (h : Visits succ [v] [] out) (w : V) :
    w ∈ out ↔ Relation.ReflTransGen (Edge succ) v w := by
  constructor
  · intro hw
    rcases h.reached w hw with hnil | ⟨u, hu, hreach⟩
    · exact absurd hnil (by simp)
    · exact List.mem_singleton.1 hu ▸ hreach
  · intro hreach
    induction hreach with
    | refl => exact h.covers v (List.mem_singleton_self v)
    | tail _ hedge ih =>
        rcases h.closed _ ih with hnil | hsucc
        · exact absurd hnil (by simp)
        · exact hsucc _ hedge

/-! ## The walk -/

variable [DecidableEq V]

/-- The walk from `v`. -/
def visit (succ : V → List V) : ℕ → V → List V → Option (List V)
  | 0, _, _ => none
  | depth + 1, v, seen =>
      if v ∈ seen then some seen
      else (succ v).foldlM (fun seen w => visit succ depth w seen) (seen ++ [v])

omit [DecidableEq V] in
/-- The recursive calls, by induction on the successors still to be visited. -/
theorem Visits.of_foldlM {walk : V → List V → Option (List V)}
    (hwalk : ∀ v seen out, walk v seen = some out → Visits succ [v] seen out)
    {vs seen out : List V} (h : vs.foldlM (fun seen w => walk w seen) seen = some out) :
    Visits succ vs seen out := by
  induction vs generalizing seen with
  | nil =>
      obtain rfl : seen = out := Option.some.inj h
      exact .nil seen
  | cons w ws ih =>
      simp only [List.foldlM_cons, Option.bind_eq_bind, Option.bind_eq_some_iff] at h
      obtain ⟨mid, hmid, hrest⟩ := h
      exact (hwalk w seen mid hmid).cons (ih hrest)

theorem visits_of_visit {depth : ℕ} {v : V} {seen out : List V}
    (h : visit succ depth v seen = some out) : Visits succ [v] seen out := by
  induction depth generalizing v seen out with
  | zero => exact absurd h (by simp [visit])
  | succ depth ih =>
      by_cases hv : v ∈ seen
      · simp only [visit, if_pos hv, Option.some.injEq] at h
        exact h ▸ .of_mem hv
      · simp only [visit, if_neg hv] at h
        exact .of_succ hv (.of_foldlM (fun w seen out => ih) h)

/-- The root comes first. -/
theorem head?_visit {depth : ℕ} {v : V} {out : List V} (h : visit succ depth v [] = some out) :
    out.head? = some v := by
  cases depth with
  | zero => exact absurd h (by simp [visit])
  | succ depth =>
      simp only [visit, List.not_mem_nil, if_false, List.nil_append] at h
      obtain ⟨rest, rfl⟩ := (Visits.of_foldlM (fun w seen out => visits_of_visit) h).kept
      rfl

/-! ## It ends -/

/-- The vertices still to be seen. -/
def unseen (S : Finset V) (seen : List V) : Finset V := S.filter (· ∉ seen)

theorem card_unseen_le (S : Finset V) {seen out : List V} (h : seen <+: out) :
    (unseen S out).card ≤ (unseen S seen).card :=
  Finset.card_le_card (Finset.monotone_filter_right S (fun _ _ hout hseen => hout (h.subset hseen)))

theorem card_unseen_lt {S : Finset V} {seen : List V} {v : V} (hv : v ∈ S) (hnew : v ∉ seen) :
    (unseen S (seen ++ [v])).card < (unseen S seen).card := by
  refine Finset.card_lt_card (Finset.ssubset_iff_of_subset ?_ |>.2 ⟨v, ?_, ?_⟩)
  · exact Finset.monotone_filter_right S (fun _ _ hout hseen => hout (List.mem_append_left _ hseen))
  · exact Finset.mem_filter.2 ⟨hv, hnew⟩
  · simp [unseen]

/-- In a finite set of vertices closed under edges, the calls nest no deeper than there are vertices
    still to be seen. -/
theorem visit_terminates {S : Finset V} (hclosed : ∀ v ∈ S, ∀ w ∈ succ v, w ∈ S) {depth : ℕ}
    {v : V} {seen : List V} (hv : v ∈ S) (hdepth : (unseen S seen).card < depth) :
    ∃ out, visit succ depth v seen = some out := by
  induction depth generalizing v seen with
  | zero => exact absurd hdepth (Nat.not_lt_zero _)
  | succ depth ih =>
      have hlist (vs : List V) (hvs : ∀ w ∈ vs, w ∈ S) (seen : List V)
          (hless : (unseen S seen).card < depth) :
          ∃ out, vs.foldlM (fun seen w => visit succ depth w seen) seen = some out := by
        induction vs generalizing seen with
        | nil => exact ⟨seen, rfl⟩
        | cons w ws ihws =>
            obtain ⟨mid, hmid⟩ := ih (hvs w List.mem_cons_self) hless
            have hle := card_unseen_le S (visits_of_visit hmid).kept
            obtain ⟨out, hout⟩ := ihws (fun u hu => hvs u (List.mem_cons_of_mem _ hu)) mid (by omega)
            refine ⟨out, ?_⟩
            rw [List.foldlM_cons, hmid]
            exact hout
      by_cases hseen : v ∈ seen
      · exact ⟨seen, by simp [visit, hseen]⟩
      · have hless := card_unseen_lt hv hseen
        obtain ⟨out, hout⟩ := hlist (succ v) (hclosed v hv) (seen ++ [v]) (by omega)
        exact ⟨out, by simp only [visit, if_neg hseen, hout]⟩

/-- **A depth-first walk over a finite graph** ends, and lists the vertices that can be reached from
    its root, each of them once and the root first. -/
theorem visit_spec {S : Finset V} (hclosed : ∀ v ∈ S, ∀ w ∈ succ v, w ∈ S) {v : V} (hv : v ∈ S)
    {depth : ℕ} (hdepth : S.card < depth) :
    ∃ out, visit succ depth v [] = some out ∧ out.head? = some v ∧ out.Nodup ∧
      ∀ w, w ∈ out ↔ Relation.ReflTransGen (Edge succ) v w := by
  have hunseen : (unseen S []).card < depth := by simpa [unseen] using hdepth
  obtain ⟨out, hout⟩ := visit_terminates hclosed hv hunseen
  have hvisits := visits_of_visit hout
  exact ⟨out, hout, head?_visit hout, hvisits.nodup List.nodup_nil, hvisits.mem_iff⟩

end DepthFirst
