import Codespine.Query.Hotspots

open codespine.schema codespine.store digraph Relation

namespace codespine.query.GraphQuery

/-- One of the edges runs from `a` to `b`. -/
def Calls (edges : List CallEdge) (a b : String) : Prop := ∃ edge ∈ edges, edge.fromId = a ∧ edge.toId = b

/-- The transitive inbound impact set of `id`: everything else that reaches it
along call edges. -/
def impactSet (edges : List CallEdge) (id : String) : Set String := {m | m ≠ id ∧ TransGen (Calls edges) m id}

theorem getD_sumInbound (edges : List CallEdge) (weight : CallEdge → ℚ) (id : String) :
    (sumInbound edges weight).getD id 0 = ((edges.filter fun edge => edge.toId = id).map weight).sum := by
  have key : ∀ (l : List CallEdge) (totals : OrderedMap String ℚ),
      (l.foldl (fun totals edge => totals.add edge.toId (weight edge)) totals).getD id 0 =
      totals.getD id 0 + ((l.filter fun edge => edge.toId = id).map weight).sum := by
    intro l
    induction l with
    | nil => simp
    | cons edge l ih =>
      intro totals
      rw [List.foldl_cons, ih, OrderedMap.getD_add]
      by_cases h : edge.toId = id
      · subst h
        simp [add_assoc]
      · rw [if_neg (Ne.symm h), List.filter_cons_of_neg (by simpa using h), add_zero]
  exact (key edges ∅).trans (zero_add _)

theorem getD_callerBuckets (edges : List CallEdge) (id : String) :
    (callerBuckets edges).getD id [] = (edges.filter fun edge => edge.toId = id).map CallEdge.fromId := by
  have key : ∀ (l : List CallEdge) (callers : OrderedMap String (List String)),
      (l.foldl (fun callers edge => callers.set edge.toId (callers.getD edge.toId [] ++ [edge.fromId]))
        callers).getD id [] =
      callers.getD id [] ++ (l.filter fun edge => edge.toId = id).map CallEdge.fromId := by
    intro l
    induction l with
    | nil => simp
    | cons edge l ih =>
      intro callers
      rw [List.foldl_cons, ih, OrderedMap.getD_set]
      by_cases h : edge.toId = id
      · subst h
        simp
      · rw [if_neg (Ne.symm h), List.filter_cons_of_neg (by simpa using h)]
  exact (key edges ∅).trans (List.nil_append _)

theorem mem_callerBuckets {edges : List CallEdge} {id m : String} :
    m ∈ (callerBuckets edges).getD id [] ↔ Calls edges m id := by
  rw [getD_callerBuckets]
  simp only [Calls, List.mem_map, List.mem_filter, decide_eq_true_eq]
  constructor
  · rintro ⟨edge, ⟨hedge, hto⟩, hfrom⟩
    exact ⟨edge, hedge, hfrom, hto⟩
  · rintro ⟨edge, hedge, hfrom, hto⟩
    exact ⟨edge, ⟨hedge, hto⟩, hfrom⟩

theorem swap_callerBuckets (edges : List CallEdge) :
    (fun a b => b ∈ (callerBuckets edges).getD a []) = Function.swap (Calls edges) := by
  funext a b
  exact propext mem_callerBuckets

/-- The search that `reachableCount` counts the vertices of. -/
def searchFrom (start : String) (callers : OrderedMap String (List String)) : Search String :=
  Search.run (fun v => callers.getD v []) ((callers.getD start []).length + (callers.values.map List.length).sum)
    ⟨[], (callers.getD start []).reverse⟩

section Search

variable (start : String) (callers : OrderedMap String (List String))

theorem getD_eq_nil {v : String} (hv : v ∉ callers.keys.toFinset) : callers.getD v [] = [] := by
  rw [OrderedMap.getD, OrderedMap.get_eq_none_iff.mpr fun h => hv (List.mem_toFinset.mpr h), Option.getD_none]

/-- The fuel counts every turn a search can take. -/
theorem searchFrom_fuel : (callers.getD start []).reverse.length + ∑ v ∈ callers.keys.toFinset, (callers.getD v []).length ≤
    (callers.getD start []).length + (callers.values.map List.length).sum := by
  rw [List.length_reverse, List.sum_toFinset _ callers.nodup_keys,
    OrderedMap.sum_getD List.length callers List.length_nil callers.nodup_keys fun k hk => hk]

/-- The search ends: it has nothing left to look at. -/
theorem stack_searchFrom : (searchFrom start callers).stack = [] := by
  refine Search.stack_run (fun v => getD_eq_nil callers) _ ?_
  simpa [Search.measure] using searchFrom_fuel start callers

/-- A search over any bucket table counts what it reaches from `start`. -/
theorem reachableCount_eq_ncard :
    reachableCount start callers = {m | m ≠ start ∧ TransGen (fun a b => b ∈ callers.getD a []) start m}.ncard := by
  obtain ⟨hnodup, hvisited⟩ := Search.run_visits (fun v => getD_eq_nil callers) (callers.getD start []).reverse
    (searchFrom_fuel start callers)
  change (searchFrom start callers).visited.Nodup at hnodup
  change ∀ w, w ∈ (searchFrom start callers).visited ↔ _ at hvisited
  have hset : {m | m ≠ start ∧ TransGen (fun a b => b ∈ callers.getD a []) start m} =
      (((searchFrom start callers).visited.erase start).toFinset : Set String) := by
    ext m
    simp only [Set.mem_ofPred_eq, List.coe_toFinset, hnodup.mem_erase_iff, hvisited, TransGen.head'_iff, List.mem_reverse]
    rfl
  rw [hset, Set.ncard_coe_finset, List.toFinset_card_of_nodup (hnodup.erase start)]
  rfl

end Search

theorem ncard_impactSet (edges : List CallEdge) (id : String) :
    (impactSet edges id).ncard = reachableCount id (callerBuckets edges) := by
  rw [reachableCount_eq_ncard, swap_callerBuckets]
  simp only [impactSet, transGen_swap]

/-- The sizes count exactly the impact sets. -/
theorem get_blastRadiusSizes (edges : List CallEdge) {nodes : List StoredNode} {node : StoredNode}
    (hnode : node ∈ nodes) :
    (blastRadiusSizes nodes edges).get node.id = some ((impactSet edges node.id).ncard : ℚ) := by
  set size := fun id => (reachableCount id (callerBuckets edges) : ℚ)
  have key : ∀ (l : List StoredNode) (sizes : OrderedMap String ℚ), node ∈ l ∨ sizes.get node.id = some (size node.id) →
      (l.foldl (fun sizes node => sizes.set node.id (size node.id)) sizes).get node.id = some (size node.id) := by
    intro l
    induction l with
    | nil => simp
    | cons other l ih =>
      intro sizes h
      refine ih _ ?_
      beta_reduce
      by_cases hid : node.id = other.id
      · rw [← hid]
        exact Or.inr (OrderedMap.get_set_self _ _ _)
      · rw [OrderedMap.get_set_ne hid]
        refine h.imp_left fun hmem => ?_
        obtain rfl | hmem := List.mem_cons.mp hmem
        · exact absurd rfl hid
        · exact hmem
  rw [ncard_impactSet]
  exact key nodes ∅ (Or.inl hnode)

/-- The searches end, whatever the graph, and each node is assigned the number
of ids, other than its own, that a non-empty path of calls leads from. -/
theorem blastRadiusSizes_exact (nodes : List StoredNode) (edges : List CallEdge) :
    (∀ node ∈ nodes, (searchFrom node.id (callerBuckets edges)).stack = []) ∧
      ∀ node ∈ nodes, (blastRadiusSizes nodes edges).get node.id =
        some (({m | m ≠ node.id ∧ TransGen (fun a b => ∃ edge ∈ edges, edge.fromId = a ∧ edge.toId = b) m node.id} :
          Set String).ncard : ℚ) :=
  ⟨fun node _ => stack_searchFrom node.id (callerBuckets edges), fun _ hnode => get_blastRadiusSizes edges hnode⟩

end codespine.query.GraphQuery
