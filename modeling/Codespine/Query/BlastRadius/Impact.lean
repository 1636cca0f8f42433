import Codespine.Query.BlastRadius

open codespine.schema codespine.store digraph Relation

namespace codespine.query.GraphQuery

/-- `id` calls itself by a chain of at most `bound` calls. -/
def ClosesWithin (edges : List CallEdge) (bound : ℕ) (id : String) : Prop :=
  ∃ n < bound, Walk (Calls edges) (n + 1) id id

/-- The part of the impact set that only chains of more than `bound` calls
reach. -/
def impactBeyond (edges : List CallEdge) (bound : ℕ) (id : String) : Set String :=
  {m ∈ impactSet edges id | ∀ n < bound, ¬ Walk (Calls edges) (n + 1) m id}

theorem finite_impactSet (edges : List CallEdge) (id : String) : (impactSet edges id).Finite := by
  refine (edges.map CallEdge.fromId).toFinset.finite_toSet.subset fun m hm => ?_
  obtain ⟨b, ⟨edge, hedge, hfrom, _⟩, _⟩ := TransGen.head'_iff.mp hm.2
  simpa using ⟨edge, hedge, hfrom⟩

/-- The impact set splits into what the bounded walk finds besides `id` and
what lies beyond the bound. -/
theorem impactSet_eq_union (store : KuzuStore) (bound : ℕ) (id : String) :
    impactSet (readCallEdges store) id =
      ((within (inboundCalls store) bound id).toFinset.erase id : Set String) ∪
        impactBeyond (readCallEdges store) bound id := by
  ext m
  simp only [Finset.coe_erase, List.coe_toFinset, Set.mem_union, Set.mem_sdiff, Set.mem_ofPred_eq,
    Set.mem_singleton_iff, mem_within_inboundCalls, impactBeyond, impactSet]
  constructor
  · intro hm
    by_cases hwithin : ∃ n < bound, Walk (Calls (readCallEdges store)) (n + 1) m id
    · exact Or.inl ⟨hwithin, hm.1⟩
    · exact Or.inr ⟨hm, fun n hn hwalk => hwithin ⟨n, hn, hwalk⟩⟩
  · rintro (⟨⟨n, _, hwalk⟩, hne⟩ | ⟨hm, _⟩)
    · exact ⟨hne, hwalk.transGen⟩
    · exact hm

/-- What the bounded walk finds besides `id` and what lies beyond the bound add
up to the impact set. -/
theorem card_within_add (store : KuzuStore) (bound : ℕ) (id : String) :
    ((within (inboundCalls store) bound id).toFinset.erase id).card +
        (impactBeyond (readCallEdges store) bound id).ncard =
      (impactSet (readCallEdges store) id).ncard := by
  have hfinite := finite_impactSet (readCallEdges store) id
  have hdisjoint : Disjoint ((within (inboundCalls store) bound id).toFinset.erase id : Set String)
      (impactBeyond (readCallEdges store) bound id) := by
    refine Set.disjoint_left.mpr fun m hm hbeyond => ?_
    obtain ⟨n, hn, hwalk⟩ :=
      mem_within_inboundCalls.mp (List.mem_toFinset.mp (Finset.mem_of_mem_erase (Finset.mem_coe.mp hm)))
    exact hbeyond.2 n hn hwalk
  rw [impactSet_eq_union store bound id,
    Set.ncard_union_eq hdisjoint (Finset.finite_toSet _) (hfinite.subset (Set.sep_subset _ _)), Set.ncard_coe_finset]

/-- The bounded walk finds as many nodes as the impact set has exactly when
nothing lies beyond the bound and `id` is on no short cycle, or when one node
lies beyond it and `id`, which then is on a short cycle, is counted instead. -/
theorem length_blastRadius_eq_iff (store : KuzuStore) (id : String) (depth : JsNumber) :
    (blastRadius store id depth).length = (impactSet (readCallEdges store) id).ncard ↔
      (¬ ClosesWithin (readCallEdges store) (clampDepth depth) id ∧
          (impactBeyond (readCallEdges store) (clampDepth depth) id).ncard = 0) ∨
        (ClosesWithin (readCallEdges store) (clampDepth depth) id ∧
          (impactBeyond (readCallEdges store) (clampDepth depth) id).ncard = 1) := by
  set found := within (inboundCalls store) (clampDepth depth) id with hfound
  have hsplit := card_within_add store (clampDepth depth) id
  have hlength : found.toFinset.card = found.length := List.toFinset_card_of_nodup (nodup_within _ _)
  have hcycle : ClosesWithin (readCallEdges store) (clampDepth depth) id ↔ id ∈ found :=
    mem_within_inboundCalls.symm
  rw [length_blastRadius, ← hfound]
  rw [← hfound] at hsplit
  by_cases hid : id ∈ found
  · have hcard : (found.toFinset.erase id).card + 1 = found.toFinset.card :=
      Finset.card_erase_add_one (List.mem_toFinset.mpr hid)
    simp only [hcycle.mpr hid, not_true_eq_false, false_and, true_and, false_or]
    omega
  · have hcard : (found.toFinset.erase id).card = found.toFinset.card := by
      rw [Finset.erase_eq_of_notMem fun h => hid (List.mem_toFinset.mp h)]
    have hopen : ¬ ClosesWithin (readCallEdges store) (clampDepth depth) id := fun h => hid (hcycle.mp h)
    simp only [hopen, not_false_eq_true, true_and, false_and, or_false]
    omega

end codespine.query.GraphQuery
