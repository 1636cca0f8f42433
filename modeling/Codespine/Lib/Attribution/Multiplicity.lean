import Codespine.Lib.Attribution.Network

open digraph

namespace attribution.Network

variable {V : Type*} {N : Network V}

open Classical in
/-- The fraction of the cost of `m` that reaches `v` along chains of exactly
`k` arcs between components, each chain weighted by the product of the parts
its arcs carry. It depends on the arcs only, not on any cost. -/
noncomputable def chains (N : Network V) : ℕ → V → V → ℚ
  | 0, v, m => if N.SameComponent v m then 1 else 0
  | k + 1, v, m =>
    ((N.leaving v).map fun e => e.weight / N.inbound e.target * chains N k e.target m).sum

/-- How many times over the cost of `m` is borne by `v`, along chains of every
length. It is at most `1` when nothing is handed on twice. -/
noncomputable def multiplicity (N : Network V) (v m : V) : ℚ :=
  ∑ k ∈ Finset.range N.verts.card, N.chains k v m

/-- A chain visits every component at most once. -/
theorem chains_eq_zero {k : ℕ} {v : V} (hv : v ∈ N.verts) (hk : rank N.Adj N.verts v ≤ k) (m : V) :
    N.chains k v m = 0 := by
  induction k generalizing v with
  | zero =>
    have := @rank_pos _ N.Adj _ _ hv
    omega
  | succ k ih =>
    refine Multiset.sum_eq_zero fun q hq => ?_
    obtain ⟨e, he, rfl⟩ := Multiset.mem_map.mp hq
    have hlt := rank_lt_of_mem_leaving he
    rw [ih (N.target_mem e (mem_leaving.mp he).1) (by omega), mul_zero]

open Classical in
/-- The multiplicity obeys the recurrence of a unit cost at `m`. -/
theorem multiplicity_eq {v : V} (hv : v ∈ N.verts) (m : V) :
    N.multiplicity v m = (if N.SameComponent v m then 1 else 0) +
      ((N.leaving v).map fun e => e.weight / N.inbound e.target * N.multiplicity e.target m).sum := by
  have hlast : N.chains N.verts.card v m = 0 := chains_eq_zero hv (rank_le_card N.verts v) m
  have hshift : N.multiplicity v m = ∑ k ∈ Finset.range (N.verts.card + 1), N.chains k v m := by
    rw [Finset.sum_range_succ, hlast, add_zero, multiplicity]
  have hswap : ∑ k ∈ Finset.range N.verts.card, N.chains (k + 1) v m =
      ((N.leaving v).map fun e => e.weight / N.inbound e.target * N.multiplicity e.target m).sum := by
    simp only [chains, multiplicity, Finset.mul_sum]
    exact Multiset.sum_map_sum_map (Finset.range N.verts.card).val (N.leaving v)
  rw [hshift, Finset.sum_range_succ', hswap, add_comm]
  simp only [chains]

/-- The solution in closed form: `v` bears the own cost of every vertex, each
as many times over as its multiplicity says. -/
theorem Solves.eq_sum_multiplicity {f : V → ℚ} (hf : N.Solves f) {v : V} (hv : v ∈ N.verts) :
    f v = ∑ m ∈ N.verts, N.multiplicity v m * N.own m := by
  classical
  refine hf.unique (g := fun v => ∑ m ∈ N.verts, N.multiplicity v m * N.own m) (fun v hv => ?_) hv
  have hown : ∑ u ∈ N.component v, N.own u =
      ∑ m ∈ N.verts, (if N.SameComponent v m then 1 else 0) * N.own m := by
    rw [component, Finset.sum_filter]
    exact Finset.sum_congr rfl fun m _ => by split <;> simp
  have hcarry : ((N.leaving v).map (N.carry fun v => ∑ m ∈ N.verts, N.multiplicity v m * N.own m)).sum =
      ∑ m ∈ N.verts, ((N.leaving v).map fun e =>
        e.weight / N.inbound e.target * N.multiplicity e.target m).sum * N.own m := by
    simp only [← Multiset.sum_map_mul_right]
    rw [Finset.sum, Multiset.sum_map_sum_map]
    refine congrArg Multiset.sum (Multiset.map_congr rfl fun e _ => ?_)
    rw [carry, Finset.sum_mul, Finset.sum_div]
    refine Finset.sum_congr rfl fun m _ => ?_
    ring
  rw [hown, hcarry, ← Finset.sum_add_distrib]
  refine Finset.sum_congr rfl fun m _ => ?_
  rw [multiplicity_eq hv m, add_mul]

end attribution.Network
