import Codespine.Query.CostModel.Network
import Codespine.Query.CostModel.Propagate

open codespine.schema codespine.store codespine.query.TarjanState attribution digraph

namespace codespine.query.GraphQuery

variable {nodes : List StoredNode} {edges : List CallEdge} {metric : CostMetric}

/-- An index edge as an arc between ids. -/
def arcOf (nodes : List StoredNode) (edge : IndexEdge nodes.length) : Arc String :=
  ⟨idAt nodes edge.source, idAt nodes edge.target, edge.count⟩

/-- The component number of every node, as the pass computes it. -/
def numberAt (nodes : List StoredNode) (edges : List CallEdge) : Fin nodes.length → ℤ :=
  (stronglyConnectedComponents (successorsAt (indexEdges nodes edges))).componentOf

/-- The final cost of every component, as the pass computes it. -/
def costOf (nodes : List StoredNode) (edges : List CallEdge) (metric : CostMetric) : ℤ → ℚ :=
  propagate (indexEdges nodes edges) (numberAt nodes edges) (selfAt nodes metric)
    (stronglyConnectedComponents (successorsAt (indexEdges nodes edges))).componentCount

theorem calls_iff {i j : Fin nodes.length} {kept : List (IndexEdge nodes.length)} :
    Calls (successorsAt kept) i j ↔ ∃ edge ∈ kept, edge.source = i ∧ edge.target = j := by
  simp [Calls, successorsAt, outEdgesAt, and_assoc]

theorem numberAt_numbering (nodes : List StoredNode) (edges : List CallEdge) :
    Numbering (Calls (successorsAt (indexEdges nodes edges))) (numberAt nodes edges) :=
  (stronglyConnectedComponents_spec _).1

/-- With distinct ids, exactly one row carries the id of a row. -/
theorem filter_id_eq {rows : List StoredNode} (hdistinct : (rows.map StoredNode.id).Nodup) {node : StoredNode}
    (hnode : node ∈ rows) : rows.filter (fun row => row.id = node.id) = [node] := by
  induction rows with
  | nil => cases hnode
  | cons row rows ih =>
    rw [List.map_cons, List.nodup_cons] at hdistinct
    rcases List.mem_cons.mp hnode with rfl | hmem
    · have hrest : rows.filter (fun row => row.id = node.id) = [] := by
        refine List.filter_eq_nil_iff.mpr fun row hrow => ?_
        rw [decide_eq_true_eq]
        exact fun heq => hdistinct.1 (heq ▸ List.mem_map_of_mem hrow)
      simp [hrest]
    · have hne : row.id ≠ node.id := fun heq => hdistinct.1 (heq ▸ List.mem_map_of_mem hmem)
      rw [List.filter_cons_of_neg (by simpa using hne), ih hdistinct.2 hmem]

section Distinct

variable (hdistinct : (nodes.map StoredNode.id).Nodup)

include hdistinct

theorem map_arcOf_indexEdge (edge : CallEdge) :
    (indexEdge nodes edge).map (arcOf nodes) =
      if edge.fromId ∈ nodes.map StoredNode.id ∧ edge.toId ∈ nodes.map StoredNode.id ∧ edge.fromId ≠ edge.toId
      then some ⟨edge.fromId, edge.toId, edge.count⟩ else none := by
  have hknown : ∀ id, id ∈ nodes.map StoredNode.id ↔ ∃ i, idAt nodes i = id := by
    intro id
    rw [← map_idAt_finRange]
    simp
  have hunknown : ∀ id, id ∉ nodes.map StoredNode.id → (indexOf nodes).get id = none := by
    intro id hid
    refine get_byId_eq_none (fun i => i) fun i hi => hid ((hknown id).mpr ⟨i, hi⟩)
  unfold indexEdge
  by_cases hfrom : edge.fromId ∈ nodes.map StoredNode.id
  · by_cases hto : edge.toId ∈ nodes.map StoredNode.id
    · obtain ⟨i, hi⟩ := (hknown _).mp hfrom
      obtain ⟨j, hj⟩ := (hknown _).mp hto
      rw [(indexOf_eq_some_iff hdistinct).mpr hi, (indexOf_eq_some_iff hdistinct).mpr hj]
      have hiff : i = j ↔ edge.fromId = edge.toId := by
        rw [← hi, ← hj]
        exact (idAt_injective hdistinct).eq_iff.symm
      by_cases hself : i = j
      · simp [hself, hiff.mp hself]
      · have hne : edge.fromId ≠ edge.toId := fun heq => hself (hiff.mpr heq)
        simp only [if_neg hself, if_pos (And.intro hfrom (And.intro hto hne)), Option.map_some, arcOf, hi, hj]
    · rw [hunknown _ hto, if_neg fun h => hto h.2.1]
      split <;> simp_all
  · rw [hunknown _ hfrom, if_neg fun h => hfrom h.1]
    rfl

theorem callArcs_eq (edges : List CallEdge) :
    callArcs nodes edges = (indexEdges nodes edges).map (arcOf nodes) := by
  unfold callArcs indexEdges
  induction edges with
  | nil => rfl
  | cons edge edges ih =>
    have hedge := map_arcOf_indexEdge hdistinct edge
    cases hindex : indexEdge nodes edge with
    | none =>
      rw [hindex] at hedge
      have hout := (ite_eq_right_iff.mp hedge.symm)
      rw [List.filterMap_cons_none hindex, ← ih, List.filter_cons_of_neg]
      rw [decide_eq_true_eq]
      intro hkept
      cases hout hkept
    | some found =>
      rw [hindex, Option.map_some] at hedge
      split at hedge
      · next hkept =>
        rw [List.filterMap_cons_some hindex, List.filter_cons_of_pos (by simpa using hkept), List.map_cons,
          List.map_cons, ih, ← Option.some.inj hedge]
      · cases hedge

/-- A sum over selected arcs of the network is a sum over selected edges of
the index table. -/
theorem sum_arcs_filter (p : Arc String → Prop) {_ : DecidablePred p} (q : IndexEdge nodes.length → Prop)
    [DecidablePred q] (hpq : ∀ edge ∈ indexEdges nodes edges, p (arcOf nodes edge) ↔ q edge) (g : Arc String → ℚ) :
    (((callNetwork nodes edges metric).arcs.filter p).map g).sum =
      (((indexEdges nodes edges).filter fun edge => q edge).map fun edge => g (arcOf nodes edge)).sum := by
  change (((callArcs nodes edges : Multiset (Arc String)).filter p).map g).sum = _
  rw [callArcs_eq hdistinct, Multiset.filter_coe, Multiset.map_coe, Multiset.sum_coe, List.filter_map, List.map_map]
  refine congrArg (fun l => (List.map (g ∘ arcOf nodes) l).sum) (List.filter_congr fun edge hedge => ?_)
  simpa using hpq edge hedge

theorem sameComponent_iff (i j : Fin nodes.length) :
    (callNetwork nodes edges metric).SameComponent (idAt nodes i) (idAt nodes j) ↔
      numberAt nodes edges i = numberAt nodes edges j := by
  have hadj : ∀ a b, (callNetwork nodes edges metric).Adj a b ↔
      ∃ edge ∈ indexEdges nodes edges, idAt nodes edge.source = a ∧ idAt nodes edge.target = b := by
    intro a b
    change (∃ e ∈ (callArcs nodes edges : Multiset (Arc String)), _) ↔ _
    rw [callArcs_eq hdistinct]
    simp [arcOf]
  rw [(numberAt_numbering nodes edges).eq_iff_linked]
  refine Linked.map_iff (idAt_injective hdistinct) (fun a b hab => ?_) (fun a w haw => ?_) i j
  · obtain ⟨edge, hedge, rfl, rfl⟩ := calls_iff.mp hab
    exact (hadj _ _).mpr ⟨edge, hedge, rfl, rfl⟩
  · obtain ⟨edge, hedge, hsource, rfl⟩ := (hadj _ _).mp haw
    exact ⟨edge.target, rfl, calls_iff.mpr ⟨edge, hedge, idAt_injective hdistinct hsource, rfl⟩⟩

theorem inbound_idAt (i : Fin nodes.length) :
    (callNetwork nodes edges metric).inbound (idAt nodes i) =
      externalInboundAt (indexEdges nodes edges) (numberAt nodes edges) i := by
  classical
  unfold Network.inbound Network.crossing externalInboundAt inEdgesAt
  rw [Multiset.filter_filter, List.filter_filter]
  rw [sum_arcs_filter hdistinct _ (fun edge => numberAt nodes edges edge.source ≠ numberAt nodes edges i ∧
    edge.target = i)]
  · refine congrArg (fun l => (List.map IndexEdge.count l).sum) (List.filter_congr fun edge _ => ?_)
    simp
  · intro edge _
    change idAt nodes edge.target = idAt nodes i ∧ ¬ _ ↔ _
    rw [(idAt_injective hdistinct).eq_iff, and_comm]
    refine and_congr_left fun htarget => not_congr ?_
    rw [← htarget]
    exact sameComponent_iff hdistinct _ _

theorem own_idAt (i : Fin nodes.length) :
    (callNetwork nodes edges metric).own (idAt nodes i) = selfAt nodes metric i := by
  have hfilter := filter_id_eq hdistinct (List.getElem_mem i.isLt)
  change ((nodes.filter fun node => node.id = idAt nodes i).map _).sum = _
  rw [idAt, Fin.getElem_fin, hfilter]
  simp [selfAt]

theorem component_idAt (i : Fin nodes.length) :
    (callNetwork nodes edges metric).component (idAt nodes i) =
      (Finset.univ.filter fun j => numberAt nodes edges j = numberAt nodes edges i).image (idAt nodes) := by
  ext id
  rw [Network.mem_component, mem_verts, Finset.mem_image]
  constructor
  · rintro ⟨⟨j, rfl⟩, hsame⟩
    refine ⟨j, ?_, rfl⟩
    simpa [eq_comm] using (sameComponent_iff hdistinct i j).mp hsame
  · rintro ⟨j, hj, rfl⟩
    refine ⟨⟨j, rfl⟩, (sameComponent_iff hdistinct i j).mpr ?_⟩
    simpa [eq_comm] using hj

theorem sum_component_idAt (i : Fin nodes.length) :
    ∑ u ∈ (callNetwork nodes edges metric).component (idAt nodes i), (callNetwork nodes edges metric).own u =
      ((membersOf (numberAt nodes edges) (numberAt nodes edges i)).map (selfAt nodes metric)).sum := by
  rw [component_idAt hdistinct, Finset.sum_image fun a _ b _ hab => idAt_injective hdistinct hab]
  rw [membersOf, ← List.sum_toFinset _ ((List.nodup_finRange _).filter _)]
  refine Finset.sum_congr ?_ fun j _ => own_idAt hdistinct j
  ext j
  simp

/-- A node is reported with the cost of its component. -/
theorem getD_inclusiveCost (i : Fin nodes.length) :
    (computeCostModel nodes edges metric).inclusiveCost.getD (idAt nodes i) 0 =
      costOf nodes edges metric (numberAt nodes edges i) := by
  rw [OrderedMap.getD]
  exact congrArg (Option.getD · 0) (get_byId hdistinct _ i)

omit hdistinct in
/-- The propagation equation at the component of a node. -/
theorem costOf_numberAt (i : Fin nodes.length) :
    costOf nodes edges metric (numberAt nodes edges i) =
      inclusiveOf (indexEdges nodes edges) (numberAt nodes edges) (selfAt nodes metric) (costOf nodes edges metric)
        (numberAt nodes edges i) := by
  obtain ⟨hnumbering, hbounds, _⟩ := stronglyConnectedComponents_spec (successorsAt (indexEdges nodes edges))
  have hdescends : ∀ edge ∈ indexEdges nodes edges,
      numberAt nodes edges edge.target ≤ numberAt nodes edges edge.source :=
    fun edge hedge => hnumbering.le_of_adj _ _ (calls_iff.mpr ⟨edge, hedge, rfl, rfl⟩)
  have hnonneg : 0 ≤ numberAt nodes edges i := (hbounds i).1
  have hbelow : numberAt nodes edges i < (stronglyConnectedComponents
      (successorsAt (indexEdges nodes edges))).componentCount := (hbounds i).2
  have hequation := @propagate_eq _ _ _ (selfAt nodes metric) hdescends (fun j => (hbounds j).1)
    (stronglyConnectedComponents (successorsAt (indexEdges nodes edges))).componentCount
    (numberAt nodes edges i).toNat (by omega)
  rw [Int.toNat_of_nonneg hnonneg] at hequation
  exact hequation

/-- The arcs that carry cost to a component are the edges out of it into a
node that is called from outside. -/
theorem sum_leaving_idAt (i : Fin nodes.length) (g : Arc String → ℚ) :
    (((callNetwork nodes edges metric).leaving (idAt nodes i)).map g).sum =
      (((indexEdges nodes edges).filter fun edge => numberAt nodes edges edge.source = numberAt nodes edges i ∧
        numberAt nodes edges edge.target ≠ numberAt nodes edges i ∧
        0 < externalInboundAt (indexEdges nodes edges) (numberAt nodes edges) edge.target).map
          fun edge => g (arcOf nodes edge)).sum := by
  classical
  unfold Network.leaving Network.crossing
  rw [Multiset.filter_filter]
  refine sum_arcs_filter hdistinct _ _ (fun edge _ => ?_) g
  rw [arcOf, inbound_idAt hdistinct, sameComponent_iff hdistinct, sameComponent_iff hdistinct]
  constructor
  · rintro ⟨⟨hsource, hpos⟩, hcross⟩
    exact ⟨hsource.symm, fun heq => hcross (hsource.symm.trans heq.symm), hpos⟩
  · rintro ⟨hsource, hcross, hpos⟩
    exact ⟨⟨hsource.symm, hpos⟩, fun heq => hcross (heq.symm.trans hsource)⟩

omit hdistinct in
/-- Only those edges contribute to the cost of the component. -/
theorem sum_contribution (table : ℤ → ℚ) (i : Fin nodes.length) :
    (((membersOf (numberAt nodes edges) (numberAt nodes edges i)).flatMap
      (outEdgesAt (indexEdges nodes edges))).map
        (contribution (indexEdges nodes edges) (numberAt nodes edges) table (numberAt nodes edges i))).sum =
      (((indexEdges nodes edges).filter fun edge => numberAt nodes edges edge.source = numberAt nodes edges i ∧
        numberAt nodes edges edge.target ≠ numberAt nodes edges i ∧
        0 < externalInboundAt (indexEdges nodes edges) (numberAt nodes edges) edge.target).map fun edge =>
          table (numberAt nodes edges edge.target) * edge.count /
            externalInboundAt (indexEdges nodes edges) (numberAt nodes edges) edge.target).sum := by
  rw [sum_outEdges_members]
  rw [← sum_map_filter_of_zero _ (fun edge : IndexEdge nodes.length =>
    numberAt nodes edges edge.target ≠ numberAt nodes edges i ∧
      0 < externalInboundAt (indexEdges nodes edges) (numberAt nodes edges) edge.target), List.filter_filter]
  · have hlists : ∀ l : List (IndexEdge nodes.length), l.filter (fun edge =>
        decide (numberAt nodes edges edge.target ≠ numberAt nodes edges i ∧
          0 < externalInboundAt (indexEdges nodes edges) (numberAt nodes edges) edge.target) &&
        decide (numberAt nodes edges edge.source = numberAt nodes edges i)) =
        l.filter fun edge => numberAt nodes edges edge.source = numberAt nodes edges i ∧
          numberAt nodes edges edge.target ≠ numberAt nodes edges i ∧
          0 < externalInboundAt (indexEdges nodes edges) (numberAt nodes edges) edge.target := by
      intro l
      refine List.filter_congr fun edge _ => ?_
      simp only [Bool.and_comm, ← Bool.decide_and]
    rw [hlists]
    refine congrArg List.sum (List.map_congr_left fun edge hedge => ?_)
    obtain ⟨_, hcross, hpos⟩ := of_decide_eq_true (List.mem_filter.mp hedge).2
    rw [contribution, if_neg hcross, if_pos hpos]
  · intro edge _ hdrop
    unfold contribution
    split
    · rfl
    · next hcross =>
      rw [if_neg]
      exact fun hpos => hdrop ⟨hcross, hpos⟩

variable (edges metric) in
/-- The costs the model reports solve the recurrence of the call network. -/
theorem inclusiveCost_solves : (callNetwork nodes edges metric).Solves
    fun id => (computeCostModel nodes edges metric).inclusiveCost.getD id 0 := by
  intro id hid
  obtain ⟨i, rfl⟩ := mem_verts.mp hid
  dsimp only
  rw [getD_inclusiveCost hdistinct, costOf_numberAt, inclusiveOf, sum_component_idAt hdistinct, sum_contribution,
    sum_leaving_idAt hdistinct]
  congr 1
  refine congrArg List.sum (List.map_congr_left fun edge _ => ?_)
  simp only [Network.carry, arcOf, getD_inclusiveCost hdistinct, inbound_idAt hdistinct]

end Distinct

end codespine.query.GraphQuery
