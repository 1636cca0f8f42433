import Codespine.Lib.Attribution.Network

open digraph

namespace attribution

variable {V : Type*}

open Classical in
/-- A sum over a multiset splits along an index set of which every element
meets exactly one index. -/
theorem sum_partition {ι α : Type*} (K : Finset ι) (R : ι → α → Prop) (M : Multiset α) (φ : α → ℚ)
    (h : ∀ e ∈ M, ∃! k, k ∈ K ∧ R k e) :
    ∑ k ∈ K, ((M.filter (R k)).map φ).sum = (M.map φ).sum := by
  induction M using Multiset.induction with
  | empty => simp
  | cons e M ih =>
    have hrest := ih fun e' he' => h e' (Multiset.mem_cons_of_mem he')
    have hsplit : ∀ k, (((e ::ₘ M).filter (R k)).map φ).sum =
        (if R k e then φ e else 0) + ((M.filter (R k)).map φ).sum := by
      intro k
      by_cases hk : R k e <;> simp [hk]
    obtain ⟨k, ⟨hkK, hkR⟩, hunique⟩ := h e (Multiset.mem_cons_self e M)
    rw [Finset.sum_congr rfl fun k _ => hsplit k, Finset.sum_add_distrib, hrest, Multiset.map_cons,
      Multiset.sum_cons, Finset.sum_eq_single_of_mem k hkK]
    · rw [if_pos hkR]
    · intro k' hk' hne
      rw [if_neg fun hR => hne (hunique k' ⟨hk', hR⟩)]

namespace Network

variable {N : Network V}

/-- One representative for every component. -/
structure Transversal (N : Network V) (reps : Finset V) : Prop where
  subset : reps ⊆ N.verts
  covers : ∀ v ∈ N.verts, ∃ r ∈ reps, N.SameComponent r v
  unique : ∀ r ∈ reps, ∀ r' ∈ reps, N.SameComponent r r' → r = r'

/-- Every network has representatives. -/
theorem exists_transversal (N : Network V) : ∃ reps, N.Transversal reps := by
  classical
  let same : Setoid V := ⟨N.SameComponent, fun v => Linked.refl v, fun h => h.symm, fun h h' => h.trans h'⟩
  let known : Setoid N.verts := same.comap Subtype.val
  refine ⟨N.verts.attach.image fun v => (Quotient.mk known v).out.1, ?_⟩
  constructor
  case subset =>
    intro r hr
    obtain ⟨v, _, rfl⟩ := Finset.mem_image.mp hr
    exact (Quotient.mk known v).out.2
  case covers =>
    intro v hv
    refine ⟨_, Finset.mem_image_of_mem _ (Finset.mem_attach N.verts ⟨v, hv⟩), ?_⟩
    exact Quotient.mk_out (s := known) ⟨v, hv⟩
  case unique =>
    intro r hr r' hr' hsame
    obtain ⟨v, _, rfl⟩ := Finset.mem_image.mp hr
    obtain ⟨v', _, rfl⟩ := Finset.mem_image.mp hr'
    have hclass : Quotient.mk known (Quotient.mk known v).out = Quotient.mk known (Quotient.mk known v').out :=
      Quotient.sound hsame
    rw [Quotient.out_eq, Quotient.out_eq] at hclass
    rw [hclass]

theorem Transversal.existsUnique {reps : Finset V} (h : N.Transversal reps) {v : V} (hv : v ∈ N.verts) :
    ∃! r, r ∈ reps ∧ N.SameComponent r v := by
  obtain ⟨r, hr, hrv⟩ := h.covers v hv
  exact ⟨r, ⟨hr, hrv⟩, fun r' hr' => h.unique r' hr'.1 r hr (hr'.2.trans hrv.symm)⟩

/-- Summing over components and then over members is summing over vertices. -/
theorem Transversal.sum_component {reps : Finset V} (h : N.Transversal reps) (φ : V → ℚ) :
    ∑ r ∈ reps, ∑ u ∈ N.component r, φ u = ∑ u ∈ N.verts, φ u := by
  classical
  exact sum_partition reps (fun r u => N.SameComponent r u) N.verts.val φ fun u hu => h.existsUnique hu

/-- Across all arcs into one entered vertex, its cost is handed on once. -/
theorem sum_carry_target (f : V → ℚ) {t : V} (ht : 0 < N.inbound t) [DecidableEq V] :
    ((N.crossing.filter fun e => e.target = t).map (N.carry f)).sum = f t := by
  classical
  have hmap : ((N.crossing.filter fun e => e.target = t).map (N.carry f)) =
      (N.crossing.filter fun e => e.target = t).map fun e => f t / N.inbound t * e.weight := by
    refine Multiset.map_congr rfl fun e he => ?_
    rw [carry, (Multiset.mem_filter.mp he).2]
    ring
  have hinbound : N.inbound t = ((N.crossing.filter fun e => e.target = t).map Arc.weight).sum := by
    unfold inbound
    congr
  rw [hmap, Multiset.sum_map_mul_left, ← hinbound]
  exact div_mul_cancel₀ _ ht.ne'

open Classical in
/-- What all components take over is what all entered vertices hand on: each
entered vertex hands on the whole cost of its component. -/
theorem Transversal.sum_leaving {reps : Finset V} (h : N.Transversal reps) (f : V → ℚ) :
    ∑ r ∈ reps, ((N.leaving r).map (N.carry f)).sum =
      ∑ t ∈ N.verts.filter (fun t => 0 < N.inbound t), f t := by
  set entered := N.crossing.filter fun e => 0 < N.inbound e.target with hentered
  have hmem : ∀ e ∈ entered, e ∈ N.arcs ∧ 0 < N.inbound e.target := fun e he => by
    have he' := Multiset.mem_filter.mp he
    exact ⟨Multiset.mem_of_mem_filter he'.1, he'.2⟩
  have hsource : ∑ r ∈ reps, ((N.leaving r).map (N.carry f)).sum = (entered.map (N.carry f)).sum := by
    rw [← sum_partition reps (fun r e => N.SameComponent r e.source) entered (N.carry f)
      fun e he => h.existsUnique (N.source_mem e (hmem e he).1)]
    refine Finset.sum_congr rfl fun r _ => ?_
    rw [leaving, hentered, Multiset.filter_filter]
  have htarget : (entered.map (N.carry f)).sum =
      ∑ t ∈ N.verts.filter (fun t => 0 < N.inbound t), ((entered.filter fun e => e.target = t).map (N.carry f)).sum := by
    refine (sum_partition _ (fun t (e : Arc V) => e.target = t) entered (N.carry f) fun e he => ?_).symm
    refine ⟨e.target, ⟨?_, rfl⟩, fun t ht => ht.2.symm⟩
    exact Finset.mem_filter.mpr ⟨N.target_mem e (hmem e he).1, (hmem e he).2⟩
  rw [hsource, htarget]
  refine Finset.sum_congr rfl fun t ht => ?_
  have hpos := (Finset.mem_filter.mp ht).2
  rw [← sum_carry_target f hpos, hentered, Multiset.filter_filter]
  refine congrArg (fun M => (Multiset.map (N.carry f) M).sum) (Multiset.filter_congr fun e _ => ?_)
  exact ⟨fun he => he.1, fun he => ⟨he, he ▸ hpos⟩⟩

open Classical in
/-- The balance of a solution, whatever the shape of the network: the
components together bear the total plus what entered vertices hand on. -/
theorem Solves.balance {f : V → ℚ} (hf : N.Solves f) {reps : Finset V} (h : N.Transversal reps) :
    ∑ r ∈ reps, f r = N.total + ∑ t ∈ N.verts.filter (fun t => 0 < N.inbound t), f t := by
  rw [← h.sum_leaving f, total, ← h.sum_component N.own, ← Finset.sum_add_distrib]
  exact Finset.sum_congr rfl fun r hr => hf r (h.subset hr)

/-- A component one of whose members is entered from outside. -/
def Entered (N : Network V) (v : V) : Prop := ∃ t ∈ N.component v, 0 < N.inbound t

open Classical in
/-- Conservation: when every component is entered at no more than one member,
the components that are entered nowhere bear the total between them. -/
theorem Solves.conserves {f : V → ℚ} (hf : N.Solves f) {reps : Finset V} (h : N.Transversal reps)
    (hentry : ∀ a ∈ N.verts, ∀ b ∈ N.verts, N.SameComponent a b → 0 < N.inbound a → 0 < N.inbound b → a = b) :
    ∑ r ∈ reps.filter (fun r => ¬ N.Entered r), f r = N.total := by
  have hentered : ∑ t ∈ N.verts.filter (fun t => 0 < N.inbound t), f t =
      ∑ r ∈ reps.filter (fun r => N.Entered r), f r := by
    rw [Finset.sum_filter, ← h.sum_component, Finset.sum_filter]
    refine Finset.sum_congr rfl fun r hr => ?_
    split
    · next hsome =>
      obtain ⟨t, ht, hpos⟩ := hsome
      rw [Finset.sum_eq_single_of_mem t ht, if_pos hpos]
      · exact (hf.eq_of_sameComponent (h.subset hr) (mem_component.mp ht).1 (mem_component.mp ht).2).symm
      · intro u hu hne
        rw [if_neg]
        intro hpos'
        have hsame := (mem_component.mp hu).2.symm.trans (mem_component.mp ht).2
        exact hne (hentry u (mem_component.mp hu).1 t (mem_component.mp ht).1 hsame hpos' hpos)
    · next hnone =>
      refine Finset.sum_eq_zero fun t ht => if_neg fun hpos => hnone ⟨t, ht, hpos⟩
  have hbalance := hf.balance h
  rw [hentered, ← Finset.sum_filter_add_sum_filter_not reps (fun r => N.Entered r)] at hbalance
  linarith

end Network

end attribution
