import Codespine.Lib.Attribution.Multiplicity

open digraph

namespace attribution.Network

variable {V : Type*} {N : Network V}

/-- The same network with other own costs. -/
def withOwn (N : Network V) (own : V → ℚ) : Network V := { N with own }

/-- How cost is shared does not depend on what the costs are. -/
theorem multiplicity_withOwn (own : V → ℚ) (v m : V) : (N.withOwn own).multiplicity v m = N.multiplicity v m := by
  have hchains : ∀ k v, (N.withOwn own).chains k v m = N.chains k v m := by
    intro k
    induction k with
    | zero => exact fun _ => rfl
    | succ k ih =>
      intro v
      refine congrArg Multiset.sum (Multiset.map_congr rfl fun e _ => ?_)
      rw [ih]
      rfl
  exact Finset.sum_congr rfl fun k _ => hchains k v

/-- Costs add up: the solution for a combination of own costs is that
combination of the solutions. -/
theorem Solves.linear {own own' f g h : V → ℚ} {a b : ℚ} (hh : N.Solves h) (hf : (N.withOwn own).Solves f)
    (hg : (N.withOwn own').Solves g) (hown : ∀ m ∈ N.verts, N.own m = a * own m + b * own' m) {v : V} (hv : v ∈ N.verts) :
    h v = a * f v + b * g v := by
  have hf := hf.eq_sum_multiplicity (v := v) hv
  have hg := hg.eq_sum_multiplicity (v := v) hv
  simp only [multiplicity_withOwn] at hf hg
  calc h v = ∑ m ∈ N.verts, N.multiplicity v m * N.own m := hh.eq_sum_multiplicity hv
    _ = ∑ m ∈ N.verts, (a * (N.multiplicity v m * own m) + b * (N.multiplicity v m * own' m)) := by
      refine Finset.sum_congr rfl fun m hm => ?_
      rw [hown m hm]
      ring
    _ = a * f v + b * g v := by
      rw [Finset.sum_add_distrib, ← Finset.mul_sum, ← Finset.mul_sum, hf, hg]
      rfl

section Positive

variable (hown : ∀ m ∈ N.verts, 0 ≤ N.own m) (hweight : ∀ e ∈ N.arcs, 0 < e.weight)

include hown hweight

end Positive

end attribution.Network
