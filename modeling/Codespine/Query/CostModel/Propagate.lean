import Codespine.Lib.Attribution.Conservation
import Codespine.Query.CostModel

namespace codespine.query

/-- A table filled in increasing order, each entry from smaller entries only,
satisfies the equation that filled it in its final state. -/
theorem foldl_update_range (F : (ℤ → ℚ) → ℤ → ℚ)
    (hF : ∀ table table' : ℤ → ℚ, ∀ c : ℕ, (∀ d : ℕ, d < c → table d = table' d) → F table c = F table' c)
    (init : ℤ → ℚ) (count : ℕ) {c : ℕ} (hc : c < count) :
    let table := (List.range count).foldl (fun t (c : ℕ) => Function.update t (c : ℤ) (F t c)) init
    table c = F table c := by
  induction count with
  | zero => omega
  | succ count ih =>
    simp only [List.range_succ, List.foldl_append, List.foldl_cons, List.foldl_nil]
    set table := (List.range count).foldl (fun t (c : ℕ) => Function.update t (c : ℤ) (F t c)) init
    have hagree : ∀ d : ℕ, d < count → Function.update table (count : ℤ) (F table count) d = table d := by
      intro d hd
      rw [Function.update_of_ne]
      omega
    by_cases hlast : c = count
    · subst hlast
      rw [Function.update_self]
      exact hF _ _ c fun d hd => (hagree d hd).symm
    · have hlt : c < count := by omega
      rw [hagree c hlt, ih hlt]
      exact hF _ _ c fun d hd => (hagree d (hd.trans hlt)).symm

/-- Elements on which the summand vanishes may be dropped. -/
theorem sum_map_filter_of_zero {α : Type*} (g : α → ℚ) (q : α → Prop) [DecidablePred q] (l : List α)
    (h : ∀ e ∈ l, ¬ q e → g e = 0) : ((l.filter fun e => q e).map g).sum = (l.map g).sum := by
  induction l with
  | nil => rfl
  | cons e l ih =>
    have ih := ih fun e' he' => h e' (List.mem_cons_of_mem e he')
    by_cases hq : q e
    · simp [hq, ih]
    · simp [hq, ih, h e List.mem_cons_self hq]

section Table

variable {count : ℕ} {edges : List (IndexEdge count)} {componentOf : Fin count → ℤ} {self : Fin count → ℚ}

/-- Summing over the out-edges of all members of a component is summing over
the edges that start in it. -/
theorem sum_outEdges_members (g : IndexEdge count → ℚ) (comp : ℤ) :
    (((membersOf componentOf comp).flatMap (outEdgesAt edges)).map g).sum =
      ((edges.filter fun edge => componentOf edge.source = comp).map g).sum := by
  have hpart := attribution.sum_partition (membersOf componentOf comp).toFinset
    (fun i (edge : IndexEdge count) => edge.source = i)
    (edges.filter fun edge => componentOf edge.source = comp) g fun edge hedge => by
      refine ⟨edge.source, ⟨?_, rfl⟩, fun i hi => hi.2.symm⟩
      simpa [membersOf] using (List.mem_filter.mp (Multiset.mem_coe.mp hedge)).2
  rw [Multiset.map_coe, Multiset.sum_coe] at hpart
  rw [← hpart, List.map_flatMap, List.flatMap_def, List.sum_flatten, List.map_map, ← List.sum_toFinset]
  · refine Finset.sum_congr rfl fun i hi => ?_
    have hi' : componentOf i = comp := by simpa [membersOf] using hi
    rw [Multiset.filter_coe, Multiset.map_coe, Multiset.sum_coe, List.filter_filter]
    refine congrArg (fun l => (List.map g l).sum) (List.filter_congr fun edge _ => ?_)
    by_cases hsource : edge.source = i
    · simp [hsource, hi']
    · simp [hsource]
  · exact (List.nodup_finRange count).filter _

/-- Under a numbering in which no edge climbs, the table that `propagate`
fills satisfies the propagation equation at every component: a callee's
component has its final value before a caller's reads it. -/
theorem propagate_eq (hdescends : ∀ edge ∈ edges, componentOf edge.target ≤ componentOf edge.source)
    (hnonneg : ∀ i, 0 ≤ componentOf i) (componentCount : ℕ) {comp : ℕ} (hcomp : comp < componentCount) :
    propagate edges componentOf self componentCount comp =
      inclusiveOf edges componentOf self (propagate edges componentOf self componentCount) comp := by
  refine foldl_update_range (inclusiveOf edges componentOf self) (fun table table' c hagree => ?_) _ _ hcomp
  unfold inclusiveOf
  congr 1
  refine congrArg List.sum (List.map_congr_left fun edge hedge => ?_)
  obtain ⟨i, hi, hout⟩ := List.mem_flatMap.mp hedge
  have hedge : edge ∈ edges := List.mem_of_mem_filter hout
  have hsource : componentOf edge.source = c := by
    have hsource : edge.source = i := by simpa using (List.mem_filter.mp hout).2
    rw [hsource]
    simpa [membersOf] using hi
  unfold contribution
  split
  · rfl
  · next hcross =>
    have hle := hdescends edge hedge
    have hge := hnonneg edge.target
    have htarget : componentOf edge.target = ((componentOf edge.target).toNat : ℤ) := by omega
    rw [htarget, hagree _ (by omega)]

end Table

end codespine.query
