import EasyGrpc.Queue.CallOrder
import Mathlib.Data.List.Flatten
import EasyGrpc.Queue.Proofs.Parties

set_option autoImplicit false

/-! # Calls that are in order

A batch that would be out of order on the wire stays so, whatever follows: whether every batch of a
run was started when it might be is known from the batches that were started. -/

namespace EasyGrpc

variable {κ : Type} [BatchSpec κ]

/-! ## Kinds of operations, and of batches -/

/-- Where no batch of the kind was started, its operations were not. -/
theorem notMem_kindsOf {l : List κ} {k : OpKind} {p : κ → Bool}
    (h : ∀ b, k ∈ kindsOf [b] → p b = true) (hnone : l.countP p = 0) : k ∉ kindsOf l := by
  intro hmem
  obtain ⟨op, hop, rfl⟩ := List.mem_map.1 hmem
  obtain ⟨b, hb, hop⟩ := List.mem_flatMap.1 hop
  have hkind : op.kind ∈ kindsOf [b] := by
    rw [kindsOf_singleton]
    exact List.mem_map_of_mem hop
  exact List.countP_eq_zero.1 hnone b hb (h b hkind)

/-- Where a batch of the kind was started, its operations were. -/
theorem mem_kindsOf {l : List κ} {k : OpKind} {p : κ → Bool}
    (h : ∀ b, p b = true → k ∈ kindsOf [b]) (hsome : l.countP p ≠ 0) : k ∈ kindsOf l := by
  obtain ⟨b, hb, hp⟩ := List.countP_pos_iff.1 (Nat.pos_of_ne_zero hsome)
  have hkind := h b hp
  rw [kindsOf_singleton] at hkind
  obtain ⟨op, hop, rfl⟩ := List.mem_map.1 hkind
  exact List.mem_map_of_mem (List.mem_flatMap.2 ⟨b, hb, hop⟩)

namespace Call

omit [BatchSpec κ] in
/-- Of two kinds of which nothing was started, nothing was. -/
theorem starts_or {c : Call κ} {p q : κ → Bool} (hp : c.starts p = 0) (hq : c.starts q = 0) :
    c.starts (fun b => p b || q b) = 0 := by
  refine List.countP_eq_zero.2 fun b hb => ?_
  have hno := List.countP_eq_zero.1 hp b hb
  have hnot := List.countP_eq_zero.1 hq b hb
  simp [hno, hnot]

/-! ## What was started in order -/

/-- Each batch was started where it may follow. -/
def Ordered (c : Call κ) : Prop :=
  ∀ before b after, c.started = before ++ b :: after → Follows before b

variable {c c' : Call κ}

/-- Batches that were started out of order stay so. -/
theorem Ordered.of_prefix (h : c'.Ordered) (hkept : c.started <+: c'.started) : c.Ordered := by
  intro before b after hb
  obtain ⟨rest, hrest⟩ := hkept
  refine h before b (after ++ rest) ?_
  rw [← hrest, hb, List.append_assoc, List.cons_append]

theorem Ordered.follows {b : κ} (h : (c.startBatch b).Ordered) : Follows c.started b :=
  h c.started b [] rfl

namespace Orderly

theorem ordered (h : c.Orderly) : c.Ordered := by
  induction h with
  | new =>
      intro before b after hb
      cases before <;> cases hb
  | @start c b _ hb ih =>
      intro before b' after hsplit
      have heq : c.started ++ [b] = before ++ b' :: after := hsplit
      rcases List.eq_nil_or_concat after with rfl | ⟨after, last, rfl⟩
      · obtain ⟨rfl, hlast⟩ := List.append_inj' heq rfl
        obtain rfl := List.singleton_inj.1 hlast
        exact hb.follows
      · refine ih before b' after ?_
        have hinner : c.started ++ [b] = (before ++ b' :: after) ++ [last] := by simpa using heq
        exact (List.append_inj' hinner rfl).1
  | complete _ _ ih => exact ih
  | cancel _ ih => exact ih

/-- What is in flight was started. -/
theorem sublist (h : c.Orderly) : c.outstanding.Sublist c.started := by
  induction h with
  | new => exact .slnil
  | start _ _ ih => exact ih.append (List.Sublist.refl _)
  | complete _ i ih => exact (List.eraseIdx_sublist _ i).trans ih
  | cancel _ ih => exact ih

/-- Only operations that come more than once need to be looked for among those in flight. -/
theorem allows (h : c.Orderly) {b : κ} (hfollows : Follows c.started b)
    (hnodup : (kindsOf [b]).Nodup)
    (hfree : ∀ k ∈ kindsOf [b], k.repeats = true → k ∉ kindsOf c.outstanding) : c.Allows b where
  follows := hfollows
  nodup := hnodup
  free k hk := by
    cases hrepeats : k.repeats with
    | true => exact hfree k hk hrepeats
    | false =>
        have hsubset : kindsOf c.outstanding ⊆ kindsOf c.started :=
          List.map_subset _ (h.sublist.flatMap BatchSpec.ops).subset
        exact fun hmem => hfollows.once k hk hrepeats (hsubset hmem)

/-- What completes was started. -/
theorem started_ne_nil (h : c.Orderly) {i : ℕ} {b : κ} (hb : c.outstanding[i]? = some b) :
    c.started ≠ [] :=
  List.ne_nil_of_mem (h.sublist.subset (List.mem_of_getElem? hb))

/-! ### Batches that may be started -/

variable {b : κ} {p q : κ → Bool}

/-- The first batch has the metadata. -/
theorem startFirst (h : c.Orderly) (hnil : c.started = []) (hnodup : (kindsOf [b]).Nodup)
    (hmeta : .sendInitialMetadata ∈ kindsOf [b]) : (c.startBatch b).Orderly := by
  refine h.start ⟨⟨fun k _ _ hmem => ?_, fun _ => hmeta, fun _ k hmem => ?_⟩, hnodup,
    fun k _ hmem => ?_⟩
  · rw [hnil] at hmem
    cases hmem
  · rw [hnil] at hmem
    cases hmem
  · have hout : c.outstanding = [] := List.sublist_nil.1 (hnil ▸ h.sublist)
    rw [hout] at hmem
    cases hmem

/-- A message is read while no other is being read. -/
theorem startRead (h : c.Orderly) (hne : c.started ≠ []) (hkinds : kindsOf [b] = [.recvMessage])
    (hp : ∀ b', .recvMessage ∈ kindsOf [b'] → p b' = true) (hpending : c.pending p = 0) :
    (c.startBatch b).Orderly := by
  have hall : ∀ k ∈ kindsOf [b], k = .recvMessage := by
    intro k hk
    rwa [hkinds, List.mem_singleton] at hk
  refine h.start (h.allows ⟨fun k hk hno => ?_, fun hnil => absurd hnil hne, fun hmem => ?_⟩ ?_ ?_)
  · rw [hall k hk] at hno
    cases hno
  · cases hall _ hmem
  · simp [hkinds]
  · intro k hk _
    rw [hall k hk]
    exact notMem_kindsOf hp hpending

/-- A message is sent while no other is being sent, until the end. -/
theorem startWrite (h : c.Orderly) (hne : c.started ≠ []) (hkinds : kindsOf [b] = [.sendMessage])
    (hp : ∀ b', .sendMessage ∈ kindsOf [b'] → p b' = true)
    (hq : ∀ b' k, k ∈ kindsOf [b'] → k.isLast = true → q b' = true)
    (hpending : c.pending p = 0) (hopen : c.starts q = 0) : (c.startBatch b).Orderly := by
  have hall : ∀ k ∈ kindsOf [b], k = .sendMessage := by
    intro k hk
    rwa [hkinds, List.mem_singleton] at hk
  refine h.start
    (h.allows ⟨fun k hk hno => ?_, fun hnil => absurd hnil hne, fun _ k hk => ?_⟩ ?_ ?_)
  · rw [hall k hk] at hno
    cases hno
  · by_contra hlast
    exact notMem_kindsOf (fun b' hk' => hq b' k hk' (by simpa using hlast)) hopen hk
  · simp [hkinds]
  · intro k hk _
    rw [hall k hk]
    exact notMem_kindsOf hp hpending

/-- A batch is started while none that shares an operation with it was, and none that its message
    could not follow. -/
theorem startOnce (h : c.Orderly) (hne : c.started ≠ []) (hnodup : (kindsOf [b]).Nodup)
    (hp : ∀ b' k, k ∈ kindsOf [b'] → k ∈ kindsOf [b] ∨ (.sendMessage ∈ kindsOf [b] ∧
      k.isLast = true) → p b' = true) (hnone : c.starts p = 0) : (c.startBatch b).Orderly := by
  have hpending : c.pending p = 0 :=
    Nat.le_zero.1 (hnone ▸ h.sublist.countP_le)
  refine h.start (h.allows ⟨fun k hk _ => ?_, fun hnil => absurd hnil hne, fun hmsg k hk => ?_⟩
    hnodup fun k hk _ => ?_)
  · exact notMem_kindsOf (fun b' hk' => hp b' k hk' (Or.inl hk)) hnone
  · by_contra hlast
    exact notMem_kindsOf (fun b' hk' => hp b' k hk' (Or.inr ⟨hmsg, by simpa using hlast⟩)) hnone hk
  · exact notMem_kindsOf (fun b' hk' => hp b' k hk' (Or.inl hk)) hpending

end Orderly

end Call

/-! ## The runs of a party -/

namespace Party

variable {P : Party}

/-- A party that has started a batch at once has always started one. -/
theorem started_ne_nil (hinit : (P.call P.machine.init).started ≠ []) {t : P.State}
    (ht : P.machine.Reachable t) : (P.call t).started ≠ [] := by
  refine ht.invariant (P := fun t => (P.call t).started ≠ []) hinit fun hstep hne => ?_
  exact (started_step hstep).ne_nil hne

/-- **Order rule.** Where each step that meets `turn` starts what it may, and each that does not
    starts a batch out of order, a run starts everything when it may exactly if all of its steps
    meet `turn`. -/
theorem orderly_iff {turn : P.State → P.Event → Bool} (hinit : (P.call P.machine.init).Orderly)
    (hkeep : ∀ {t t' e}, P.machine.Reachable t → P.machine.step t e = some t' → turn t e = true →
      (P.call t).Orderly → (P.call t').Orderly)
    (hbreak : ∀ {t t' e}, P.machine.Reachable t → P.machine.step t e = some t' →
      turn t e = false → ¬ (P.call t').Ordered)
    {es : List P.Event} {t : P.State} (hrun : P.machine.run P.machine.init es = some t) :
    (P.call t).Orderly ↔ (P.machine.guard turn).run P.machine.init es ≠ none := by
  have horderly : ∀ {t}, (P.machine.guard turn).Reachable t → (P.call t).Orderly :=
    fun ht => ht.guard_invariant hinit hkeep
  have hiff := Machine.guard_run_eq_none_iff (C := turn) (P := fun t => ¬ (P.call t).Ordered)
    (fun ht hno => hno (horderly ht).ordered) hbreak
    (fun _ hstep hno hordered => hno (hordered.of_prefix (started_step hstep))) .init hrun
  constructor
  · intro ht hnone
    exact hiff.1 hnone ht.ordered
  · intro hsome
    obtain ⟨t', hguard⟩ := Option.ne_none_iff_exists'.1 hsome
    have hsame : t' = t := by
      have hplain := Machine.run_of_guard hguard
      rw [hrun] at hplain
      exact (Option.some.inj hplain).symm
    exact hsame ▸ horderly (Machine.reachable_of_run es hguard)

end Party

end EasyGrpc
