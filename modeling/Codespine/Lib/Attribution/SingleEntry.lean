import Codespine.Lib.Attribution.Multiplicity

open digraph

namespace attribution.Network

variable {V : Type*} {N : Network V}

open Classical in
/-- The arcs that enter the component of a vertex: those along which it hands
its cost on. -/
noncomputable def entering (N : Network V) (m : V) : Multiset (Arc V) :=
  N.crossing.filter fun e => N.SameComponent e.target m ∧ 0 < N.inbound e.target

theorem mem_entering {m : V} {e : Arc V} : e ∈ N.entering m ↔
    e ∈ N.arcs ∧ ¬ N.SameComponent e.source e.target ∧ N.SameComponent e.target m ∧ 0 < N.inbound e.target := by
  classical
  rw [entering, crossing, Multiset.mem_filter, Multiset.mem_filter, and_assoc]

/-- No component is entered at more than one member. -/
def SingleEntry (N : Network V) : Prop :=
  ∀ a b, N.SameComponent a b → 0 < N.inbound a → 0 < N.inbound b → a = b

theorem sum_map_mul_ite {α : Type*} (M : Multiset α) (φ : α → ℚ) (p : α → Prop) [DecidablePred p] :
    (M.map fun a => φ a * if p a then 1 else 0).sum = ((M.filter p).map φ).sum := by
  induction M using Multiset.induction with
  | empty => rfl
  | cons a M ih =>
    rw [Multiset.map_cons, Multiset.sum_cons, ih]
    by_cases ha : p a
    · rw [if_pos ha, mul_one, Multiset.filter_cons_of_pos _ ha, Multiset.map_cons, Multiset.sum_cons]
    · rw [if_neg ha, mul_zero, zero_add, Multiset.filter_cons_of_neg _ ha]

/-- A chain taken apart at its last arc instead of its first. -/
theorem chains_succ_last (k : ℕ) (v m : V) : N.chains (k + 1) v m =
    ((N.entering m).map fun e => e.weight / N.inbound e.target * N.chains k v e.source).sum := by
  classical
  induction k generalizing v with
  | zero =>
    have harcs : (N.leaving v).filter (fun e => N.SameComponent e.target m) =
        (N.entering m).filter fun e => N.SameComponent v e.source := by
      rw [leaving, entering, Multiset.filter_filter, Multiset.filter_filter]
      exact Multiset.filter_congr fun e _ => by tauto
    simp only [chains]
    rw [sum_map_mul_ite, sum_map_mul_ite, harcs]
  | succ k ih =>
    have hswap := Multiset.sum_map_sum_map (N.leaving v) (N.entering m) (f := fun e e' =>
      e.weight / N.inbound e.target * (e'.weight / N.inbound e'.target * N.chains k e.target e'.source))
    simp only [Multiset.sum_map_mul_left, ← ih] at hswap
    refine hswap.trans (congrArg Multiset.sum (Multiset.map_congr rfl fun e' _ => ?_))
    rw [chains, ← Multiset.sum_map_mul_left]
    refine congrArg Multiset.sum (Multiset.map_congr rfl fun e _ => ?_)
    ring

open Classical in
/-- The multiplicity, in terms of those who hand the cost of `m` on. -/
theorem multiplicity_last {v : V} (hv : v ∈ N.verts) (m : V) :
    N.multiplicity v m = (if N.SameComponent v m then 1 else 0) +
      ((N.entering m).map fun e => e.weight / N.inbound e.target * N.multiplicity v e.source).sum := by
  have hlast : N.chains N.verts.card v m = 0 := chains_eq_zero hv (rank_le_card N.verts v) m
  have hshift : N.multiplicity v m = ∑ k ∈ Finset.range (N.verts.card + 1), N.chains k v m := by
    rw [Finset.sum_range_succ, hlast, add_zero, multiplicity]
  have hswap : ∑ k ∈ Finset.range N.verts.card, N.chains (k + 1) v m =
      ((N.entering m).map fun e => e.weight / N.inbound e.target * N.multiplicity v e.source).sum := by
    simp only [chains_succ_last, multiplicity, Finset.mul_sum]
    exact Multiset.sum_map_sum_map (Finset.range N.verts.card).val (N.entering m)
  rw [hshift, Finset.sum_range_succ', hswap, add_comm]
  simp only [chains]

/-- Nothing is borne of a vertex that is not reached. -/
theorem multiplicity_eq_zero {v m : V} (h : ¬ Reaches N.Adj v m) : N.multiplicity v m = 0 := by
  have hchains : ∀ k v, ¬ Reaches N.Adj v m → N.chains k v m = 0 := by
    intro k
    induction k with
    | zero => exact fun v hv => if_neg fun hsame => hv hsame.1
    | succ k ih =>
      intro v hv
      refine Multiset.sum_eq_zero fun q hq => ?_
      obtain ⟨e, he, rfl⟩ := Multiset.mem_map.mp hq
      obtain ⟨harc, _, hsame, _⟩ := mem_leaving.mp he
      have htarget : ¬ Reaches N.Adj e.target m := fun hreach =>
        hv (hsame.1.trans ((Reaches.single ⟨e, harc, rfl, rfl⟩).trans hreach))
      rw [ih e.target htarget, mul_zero]
  exact Finset.sum_eq_zero fun k _ => hchains k v h

section Nonnegative

variable (hweight : ∀ e ∈ N.arcs, 0 ≤ e.weight)

include hweight

theorem part_nonneg {e : Arc V} (he : e ∈ N.arcs) : 0 ≤ e.weight / N.inbound e.target :=
  div_nonneg (hweight e he) (inbound_nonneg hweight e.target)

/-- Where every component is entered at one member, its cost is handed on once:
no vertex bears any cost more than once. -/
theorem multiplicity_le_one (hentry : N.SingleEntry) {v m : V} (hv : v ∈ N.verts) (hm : m ∈ N.verts) :
    N.multiplicity v m ≤ 1 := by
  classical
  -- against the order of the components: those who hand a cost on rank higher than where it comes from
  induction hrank : N.verts.card - rank N.Adj N.verts m using Nat.strong_induction_on generalizing m with
  | _ n ih =>
    rw [multiplicity_last hv]
    by_cases hsame : N.SameComponent v m
    · rw [if_pos hsame, Multiset.sum_eq_zero, add_zero]
      intro q hq
      obtain ⟨e, he, rfl⟩ := Multiset.mem_map.mp hq
      obtain ⟨harc, hcross, htarget, _⟩ := mem_entering.mp he
      rw [multiplicity_eq_zero, mul_zero]
      intro hreach
      have hback : Reaches N.Adj e.target e.source := htarget.1.trans (hsame.2.trans hreach)
      exact hcross ⟨Reaches.single ⟨e, harc, rfl, rfl⟩, hback⟩
    · rw [if_neg hsame, zero_add]
      rcases Multiset.empty_or_exists_mem (N.entering m) with hnone | ⟨first, hfirst⟩
      · rw [hnone]
        exact zero_le_one
      · obtain ⟨_, _, hfirstSame, hinbound⟩ := mem_entering.mp hfirst
        have hsources : ∀ e ∈ N.entering m, e.weight / N.inbound e.target * N.multiplicity v e.source ≤
            e.weight / N.inbound first.target := by
          intro e he
          obtain ⟨harc, hcross, htarget, hpos⟩ := mem_entering.mp he
          have hone : e.target = first.target := hentry _ _ (htarget.trans hfirstSame.symm) hpos hinbound
          have hlt : rank N.Adj N.verts m < rank N.Adj N.verts e.source := by
            rw [← rank_eq_of_linked htarget]
            exact rank_lt_of_cross (N.source_mem e harc) ⟨e, harc, rfl, rfl⟩ hcross
          have hle := @digraph.rank_le_card _ N.Adj N.verts e.source
          have hsource := ih _ (by omega) (N.source_mem e harc) rfl
          rw [← hone]
          exact mul_le_of_le_one_right (part_nonneg hweight harc) hsource
        have hentering : N.entering m = N.crossing.filter fun e => e.target = first.target := by
          refine Multiset.filter_congr fun e _ => ⟨fun he => ?_, fun he => ?_⟩
          · exact hentry _ _ (he.1.trans hfirstSame.symm) he.2 hinbound
          · exact he ▸ ⟨hfirstSame, hinbound⟩
        refine (Multiset.sum_map_le_sum_map _ _ hsources).trans_eq ?_
        rw [Multiset.sum_map_div, hentering]
        exact div_self hinbound.ne'

end Nonnegative

end attribution.Network
