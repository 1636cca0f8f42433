import Codespine.Query.CostAttribution
import Codespine.Query.CostRanking.Share

open codespine.schema codespine.store attribution digraph

namespace codespine.query.GraphQuery

variable {nodes : List StoredNode} {edges : List CallEdge} {metric : CostMetric}

/-- What an edge hands from its target's component to its source: the target's
part of the cost, by the weight that enters the target. -/
def handed (nodes : List StoredNode) (edges : List CallEdge) (metric : CostMetric) (edge : IndexEdge nodes.length) : ℚ :=
  if 0 < externalInboundAt (indexEdges nodes edges) (numberAt nodes edges) edge.target then
    costOf nodes edges metric (numberAt nodes edges edge.target) * edge.count /
      externalInboundAt (indexEdges nodes edges) (numberAt nodes edges) edge.target
  else 0

/-- The out-edges of a node that leave its component. -/
def leavingAt (nodes : List StoredNode) (edges : List CallEdge) (i : Fin nodes.length) : List (IndexEdge nodes.length) :=
  (outEdgesAt (indexEdges nodes edges) i).filter fun edge => numberAt nodes edges edge.target ≠ numberAt nodes edges i

/-- The in-edges of a node that come from outside its component. -/
def enteringAt (nodes : List StoredNode) (edges : List CallEdge) (i : Fin nodes.length) : List (IndexEdge nodes.length) :=
  (inEdgesAt (indexEdges nodes edges) i).filter fun edge => numberAt nodes edges edge.source ≠ numberAt nodes edges i

theorem mem_of_mem_leavingAt {i : Fin nodes.length} {edge : IndexEdge nodes.length} (h : edge ∈ leavingAt nodes edges i) :
    edge ∈ indexEdges nodes edges :=
  List.mem_of_mem_filter (List.mem_of_mem_filter h)

theorem mem_of_mem_enteringAt {i : Fin nodes.length} {edge : IndexEdge nodes.length}
    (h : edge ∈ enteringAt nodes edges i) : edge ∈ indexEdges nodes edges :=
  List.mem_of_mem_filter (List.mem_of_mem_filter h)

theorem contribution_eq_handed {comp : ℤ} {edge : IndexEdge nodes.length} (hcross : numberAt nodes edges edge.target ≠ comp) :
    contribution (indexEdges nodes edges) (numberAt nodes edges) (costOf nodes edges metric) comp edge =
      handed nodes edges metric edge := by
  rw [contribution, if_neg hcross, handed]

/-- What the out-edges of a member contribute is what they hand to it. -/
theorem sum_handed_leavingAt (i : Fin nodes.length) :
    ((leavingAt nodes edges i).map (handed nodes edges metric)).sum =
      ((outEdgesAt (indexEdges nodes edges) i).map (contribution (indexEdges nodes edges) (numberAt nodes edges)
        (costOf nodes edges metric) (numberAt nodes edges i))).sum := by
  rw [← sum_map_filter_of_zero _ (fun edge : IndexEdge nodes.length =>
    numberAt nodes edges edge.target ≠ numberAt nodes edges i) (outEdgesAt (indexEdges nodes edges) i)]
  · refine congrArg List.sum (List.map_congr_left fun edge hedge => ?_)
    exact (contribution_eq_handed (of_decide_eq_true (List.mem_filter.mp hedge).2)).symm
  · intro edge _ hsame
    rw [contribution, if_pos (not_not.mp hsame)]

/-- A component spends its cost on its members and on what they call. -/
theorem sum_spent (i : Fin nodes.length) :
    ((membersOf (numberAt nodes edges) (numberAt nodes edges i)).map fun j =>
      selfAt nodes metric j + ((leavingAt nodes edges j).map (handed nodes edges metric)).sum).sum =
        costOf nodes edges metric (numberAt nodes edges i) := by
  rw [costOf_numberAt, inclusiveOf, List.sum_map_add, List.map_flatMap, List.flatMap_def, List.sum_flatten, List.map_map]
  congr 1
  refine congrArg List.sum (List.map_congr_left fun j hj => ?_)
  have hnumber : numberAt nodes edges j = numberAt nodes edges i := of_decide_eq_true (List.mem_filter.mp hj).2
  rw [sum_handed_leavingAt, hnumber, Function.comp_apply]

/-- The weights of the edges that enter a node from outside. -/
theorem sum_count_enteringAt (i : Fin nodes.length) :
    ((enteringAt nodes edges i).map IndexEdge.count).sum =
      externalInboundAt (indexEdges nodes edges) (numberAt nodes edges) i := rfl

/-- An entered node hands out the whole cost of its component. -/
theorem sum_handed_enteringAt (i : Fin nodes.length)
    (hpos : 0 < externalInboundAt (indexEdges nodes edges) (numberAt nodes edges) i) :
    ((enteringAt nodes edges i).map (handed nodes edges metric)).sum =
      costOf nodes edges metric (numberAt nodes edges i) := by
  have hhanded : (enteringAt nodes edges i).map (handed nodes edges metric) =
      (enteringAt nodes edges i).map fun edge => costOf nodes edges metric (numberAt nodes edges i) /
        externalInboundAt (indexEdges nodes edges) (numberAt nodes edges) i * edge.count := by
    refine List.map_congr_left fun edge hedge => ?_
    have htarget : edge.target = i := of_decide_eq_true (List.mem_filter.mp (List.mem_filter.mp hedge).1).2
    rw [handed, htarget, if_pos hpos]
    ring
  rw [hhanded, List.sum_map_mul_left, sum_count_enteringAt]
  exact div_mul_cancel₀ _ hpos.ne'

section Distinct

variable (hdistinct : (nodes.map StoredNode.id).Nodup)

include hdistinct

theorem get_nodeById (i : Fin nodes.length) : (nodeById nodes).get (idAt nodes i) = some (nodes.get i) := by
  refine OrderedMap.get_ofList_of_mem ?_ (List.mem_map_of_mem (List.getElem_mem i.isLt))
  rw [List.map_map]
  exact hdistinct

theorem get_componentOf_eq_iff (i j : Fin nodes.length) :
    (computeCostModel nodes edges metric).componentOf.get (idAt nodes i) =
        (computeCostModel nodes edges metric).componentOf.get (idAt nodes j) ↔
      numberAt nodes edges i = numberAt nodes edges j := by
  have hget : ∀ i, (computeCostModel nodes edges metric).componentOf.get (idAt nodes i) =
      some (numberAt nodes edges i) := fun i => get_byId hdistinct _ i
  rw [hget, hget, Option.some_inj]

theorem getD_externalInbound (i : Fin nodes.length) :
    (computeCostModel nodes edges metric).externalInbound.getD (idAt nodes i) 0 =
      externalInboundAt (indexEdges nodes edges) (numberAt nodes edges) i := by
  rw [externalInbound_eq hdistinct, inbound_idAt hdistinct]

/-- The callees of a node: one for each edge that leaves its component. -/
theorem calleesOf_idAt (focalInclusive : ℚ) (i : Fin nodes.length) :
    calleesOf nodes (computeCostModel nodes edges metric) focalInclusive (idAt nodes i) =
      (leavingAt nodes edges i).map fun edge =>
        { symbolOf nodes[edge.target] with
          amount := handed nodes edges metric edge
          share := if 0 < focalInclusive then handed nodes edges metric edge / focalInclusive else 0
          callCount := edge.count } := by
  have hout : (computeCostModel nodes edges metric).outEdges.get (idAt nodes i) =
      some ((outEdgesAt (indexEdges nodes edges) i).map fun edge =>
        ⟨idAt nodes i, idAt nodes edge.target, edge.count⟩) := get_byId hdistinct _ i
  rw [calleesOf, hout, Option.getD_some, List.filterMap_map, leavingAt, ← List.filterMap_eq_map, List.filterMap_filter]
  refine List.filterMap_congr fun edge _ => ?_
  simp only [Function.comp_apply, get_componentOf_eq_iff hdistinct, decide_eq_true_eq, ite_not]
  refine if_congr Iff.rfl rfl ?_
  rw [get_nodeById hdistinct, getD_externalInbound hdistinct, getD_inclusiveCost hdistinct]
  rfl

/-- The callers of a node: one for each edge that enters it from outside. -/
theorem callersOf_idAt (i : Fin nodes.length) :
    callersOf nodes (computeCostModel nodes edges metric) (costOf nodes edges metric (numberAt nodes edges i))
        (idAt nodes i) =
      (enteringAt nodes edges i).map fun edge =>
        { symbolOf nodes[edge.source] with
          amount := handed nodes edges metric edge
          share :=
            if 0 < externalInboundAt (indexEdges nodes edges) (numberAt nodes edges) i then
              edge.count / externalInboundAt (indexEdges nodes edges) (numberAt nodes edges) i
            else 0
          callCount := edge.count } := by
  have hin : (computeCostModel nodes edges metric).inEdges.get (idAt nodes i) =
      some ((inEdgesAt (indexEdges nodes edges) i).map fun edge =>
        ⟨idAt nodes edge.source, idAt nodes i, edge.count⟩) := get_byId hdistinct _ i
  rw [callersOf, hin, Option.getD_some, List.filterMap_map, enteringAt, ← List.filterMap_eq_map, List.filterMap_filter]
  refine List.filterMap_congr fun edge hedge => ?_
  have htarget : edge.target = i := of_decide_eq_true (List.mem_filter.mp hedge).2
  simp only [Function.comp_apply, get_componentOf_eq_iff hdistinct, decide_eq_true_eq, ite_not]
  refine if_congr Iff.rfl rfl ?_
  rw [get_nodeById hdistinct, getD_externalInbound hdistinct, handed, htarget]
  rfl

/-- The edges of the list from one node to another are those of the index
table. -/
theorem map_count_between {i j : Fin nodes.length} (hne : i ≠ j) :
    ((indexEdges nodes edges).filter fun edge => edge.source = i ∧ edge.target = j).map IndexEdge.count =
      (edges.filter fun edge => edge.fromId = idAt nodes i ∧ edge.toId = idAt nodes j).map CallEdge.count := by
  have hinjective := idAt_injective hdistinct
  have harcs := congrArg (fun arcs => (arcs.filter fun arc : Arc String => arc.source = idAt nodes i ∧
    arc.target = idAt nodes j).map Arc.weight) (callArcs_eq hdistinct edges)
  dsimp only [callArcs] at harcs
  rw [List.filter_map, List.map_map, List.filter_filter, List.filter_map, List.map_map] at harcs
  have hknown : ∀ k : Fin nodes.length, idAt nodes k ∈ nodes.map StoredNode.id := fun k =>
    List.mem_map_of_mem (List.getElem_mem k.isLt)
  have hleft : (indexEdges nodes edges).filter (fun edge => edge.source = i ∧ edge.target = j) =
      (indexEdges nodes edges).filter ((fun arc : Arc String => decide (arc.source = idAt nodes i ∧
        arc.target = idAt nodes j)) ∘ arcOf nodes) := by
    refine List.filter_congr fun edge _ => ?_
    simp only [Function.comp_apply, arcOf, hinjective.eq_iff]
  have hright : edges.filter (fun edge => edge.fromId = idAt nodes i ∧ edge.toId = idAt nodes j) =
      edges.filter fun edge => ((fun arc : Arc String => decide (arc.source = idAt nodes i ∧
        arc.target = idAt nodes j)) ∘ fun edge : CallEdge => ⟨edge.fromId, edge.toId, edge.count⟩) edge &&
          decide (edge.fromId ∈ nodes.map StoredNode.id ∧ edge.toId ∈ nodes.map StoredNode.id ∧
            edge.fromId ≠ edge.toId) := by
    refine List.filter_congr fun edge _ => ?_
    rw [Function.comp_apply, ← Bool.decide_and, decide_eq_decide]
    refine (and_iff_left_of_imp ?_).symm
    rintro ⟨hfrom, hto⟩
    rw [hfrom, hto]
    exact ⟨hknown i, hknown j, fun heq => hne (hinjective heq)⟩
  rw [hleft, hright]
  exact harcs.symm

end Distinct

/-- An edge between components is listed with both of its ends alike. -/
theorem leavingAt_filter {i j : Fin nodes.length} (hcross : numberAt nodes edges j ≠ numberAt nodes edges i) :
    (leavingAt nodes edges i).filter (fun edge => edge.target = j) =
      (indexEdges nodes edges).filter fun edge => edge.source = i ∧ edge.target = j := by
  rw [leavingAt, outEdgesAt, List.filter_filter, List.filter_filter]
  refine List.filter_congr fun edge _ => ?_
  rw [← Bool.decide_and, ← Bool.decide_and, decide_eq_decide]
  constructor
  · rintro ⟨⟨htarget, _⟩, hsource⟩
    exact ⟨hsource, htarget⟩
  · rintro ⟨hsource, htarget⟩
    exact ⟨⟨htarget, htarget ▸ hcross⟩, hsource⟩

theorem enteringAt_filter {i j : Fin nodes.length} (hcross : numberAt nodes edges j ≠ numberAt nodes edges i) :
    (enteringAt nodes edges j).filter (fun edge => edge.source = i) =
      (indexEdges nodes edges).filter fun edge => edge.source = i ∧ edge.target = j := by
  rw [enteringAt, inEdgesAt, List.filter_filter, List.filter_filter]
  refine List.filter_congr fun edge _ => ?_
  rw [← Bool.decide_and, ← Bool.decide_and, decide_eq_decide]
  constructor
  · rintro ⟨⟨hsource, _⟩, htarget⟩
    exact ⟨hsource, htarget⟩
  · rintro ⟨hsource, htarget⟩
    exact ⟨⟨hsource, hsource ▸ hcross.symm⟩, htarget⟩

/-- One of several amounts is no more than all of them. -/
theorem le_sum_map {α : Type*} {amount : α → ℚ} {l : List α} (h : ∀ a ∈ l, 0 ≤ amount a) {a : α} (ha : a ∈ l) :
    amount a ≤ (l.map amount).sum := by
  refine List.single_le_sum (fun value hvalue => ?_) _ (List.mem_map_of_mem ha)
  obtain ⟨b, hb, rfl⟩ := List.mem_map.mp hvalue
  exact h b hb

section Shares

variable (hdistinct : (nodes.map StoredNode.id).Nodup)
  (hmeasured : ∀ node ∈ nodes, 0 ≤ runtimeValue node.metadata (metricKey metric))
  (hweight : ∀ edge ∈ edges, 0 ≤ edge.count)

include hweight in
theorem indexEdges_nonneg : ∀ edge ∈ indexEdges nodes edges, 0 ≤ edge.count := by
  intro edge hedge
  obtain ⟨call, hcall, hindex⟩ := List.mem_filterMap.mp hedge
  unfold indexEdge at hindex
  split at hindex
  · split at hindex
    · cases hindex
    · rw [← Option.some.inj hindex]
      exact hweight call hcall
  · cases hindex

include hdistinct hmeasured hweight

theorem costOf_nonneg (i : Fin nodes.length) : 0 ≤ costOf nodes edges metric (numberAt nodes edges i) := by
  rw [← getD_inclusiveCost hdistinct]
  exact @inclusiveCost_nonneg _ ⟨edges, .static, false⟩ _ hdistinct hmeasured hweight _ (List.getElem_mem i.isLt)

theorem handed_nonneg {edge : IndexEdge nodes.length} (hedge : edge ∈ indexEdges nodes edges) :
    0 ≤ handed nodes edges metric edge := by
  unfold handed
  split
  · next hpos =>
    exact div_nonneg (mul_nonneg (costOf_nonneg hdistinct hmeasured hweight _) (indexEdges_nonneg hweight edge hedge))
      hpos.le
  · exact le_refl 0

theorem sum_handed_nonneg (i : Fin nodes.length) :
    0 ≤ ((leavingAt nodes edges i).map (handed nodes edges metric)).sum := by
  refine List.sum_nonneg fun amount hamount => ?_
  obtain ⟨edge, hedge, rfl⟩ := List.mem_map.mp hamount
  exact handed_nonneg hdistinct hmeasured hweight (mem_of_mem_leavingAt hedge)

/-- No single callee takes more than the cost of its caller's component. -/
theorem handed_le_costOf {i : Fin nodes.length} {edge : IndexEdge nodes.length} (hedge : edge ∈ leavingAt nodes edges i) :
    handed nodes edges metric edge ≤ costOf nodes edges metric (numberAt nodes edges i) := by
  have hself : ∀ j, 0 ≤ selfAt nodes metric j := fun j => hmeasured _ (List.getElem_mem j.isLt)
  have hmember : i ∈ membersOf (numberAt nodes edges) (numberAt nodes edges i) := by simp [membersOf]
  calc handed nodes edges metric edge
      ≤ ((leavingAt nodes edges i).map (handed nodes edges metric)).sum :=
        le_sum_map (fun other hother => handed_nonneg hdistinct hmeasured hweight (mem_of_mem_leavingAt hother)) hedge
    _ ≤ selfAt nodes metric i + ((leavingAt nodes edges i).map (handed nodes edges metric)).sum :=
        le_add_of_nonneg_left (hself i)
    _ ≤ ((membersOf (numberAt nodes edges) (numberAt nodes edges i)).map fun j =>
          selfAt nodes metric j + ((leavingAt nodes edges j).map (handed nodes edges metric)).sum).sum :=
        @le_sum_map _ (fun j => selfAt nodes metric j + ((leavingAt nodes edges j).map (handed nodes edges metric)).sum) _
          (fun j _ => add_nonneg (hself j) (sum_handed_nonneg hdistinct hmeasured hweight j)) _ hmember
    _ = costOf nodes edges metric (numberAt nodes edges i) := sum_spent i

omit hdistinct hmeasured in
theorem count_le_externalInboundAt {i : Fin nodes.length} {edge : IndexEdge nodes.length}
    (hedge : edge ∈ enteringAt nodes edges i) :
    edge.count ≤ externalInboundAt (indexEdges nodes edges) (numberAt nodes edges) i := by
  rw [← sum_count_enteringAt]
  exact le_sum_map (fun other hother => indexEdges_nonneg hweight other (mem_of_mem_enteringAt hother)) hedge

end Shares

section Report

variable {localeCompare : Comparator String} {flow : FlowEdges} {manifest : Option RuntimeManifest}
  (hdistinct : (nodes.map StoredNode.id).Nodup)

include hdistinct

/-- A report on a node of the graph: the node with its costs, and its callees
and callers in some order. -/
theorem attributeCost_idAt (i : Fin nodes.length) :
    let report := attributeCost localeCompare nodes flow manifest metric (idAt nodes i)
    report.node = some (toCostRef (nodes.get i) (computeCostModel nodes flow.edges metric)) ∧
      report.callees.Perm (calleesOf nodes (computeCostModel nodes flow.edges metric)
        (costOf nodes flow.edges metric (numberAt nodes flow.edges i)) (idAt nodes i)) ∧
      report.callers.Perm (callersOf nodes (computeCostModel nodes flow.edges metric)
        (costOf nodes flow.edges metric (numberAt nodes flow.edges i)) (idAt nodes i)) := by
  have hcost : (toCostRef (nodes.get i) (computeCostModel nodes flow.edges metric)).inclusiveCost =
      costOf nodes flow.edges metric (numberAt nodes flow.edges i) := getD_inclusiveCost hdistinct i
  simp only [attributeCost, get_nodeById hdistinct, hcost]
  exact ⟨trivial, (flowOrder localeCompare).sort_perm _, (flowOrder localeCompare).sort_perm _⟩

theorem amounts_callees (i : Fin nodes.length) :
    ((attributeCost localeCompare nodes flow manifest metric (idAt nodes i)).callees.map CostFlow.amount).sum =
      ((leavingAt nodes flow.edges i).map (handed nodes flow.edges metric)).sum := by
  rw [((attributeCost_idAt hdistinct i).2.1.map _).sum_eq, calleesOf_idAt hdistinct, List.map_map]
  rfl

theorem selfCost_idAt (i : Fin nodes.length) :
    (toCostRef (nodes.get i) (computeCostModel nodes flow.edges metric)).selfCost = selfAt nodes metric i := by
  change (computeCostModel nodes flow.edges metric).selfCost.getD (idAt nodes i) 0 = _
  rw [selfCost_eq hdistinct, own_idAt hdistinct]

open Classical in
/-- Over all members of a node's component, self cost and callee amounts add
up to the inclusive cost. -/
theorem sum_members (i : Fin nodes.length) :
    ((nodes.filter fun node => (callNetwork nodes flow.edges metric).SameComponent (idAt nodes i) node.id).map
      fun node =>
        ((attributeCost localeCompare nodes flow manifest metric node.id).node.map fun ref => ref.selfCost).getD 0 +
          ((attributeCost localeCompare nodes flow manifest metric node.id).callees.map CostFlow.amount).sum).sum =
      costOf nodes flow.edges metric (numberAt nodes flow.edges i) := by
  have hnodes : nodes = (List.finRange nodes.length).map fun j => nodes[j] := by
    refine List.ext_getElem (by simp) fun n hn hn' => ?_
    simp
  have hmembers : nodes.filter (fun node => (callNetwork nodes flow.edges metric).SameComponent (idAt nodes i) node.id) =
      (membersOf (numberAt nodes flow.edges) (numberAt nodes flow.edges i)).map fun j => nodes[j] := by
    refine (congrArg (List.filter _) hnodes).trans ?_
    rw [List.filter_map, membersOf]
    refine congrArg _ (List.filter_congr fun j _ => ?_)
    rw [Function.comp_apply, decide_eq_decide, eq_comm]
    exact sameComponent_iff hdistinct i j
  rw [hmembers, List.map_map, ← sum_spent]
  refine congrArg List.sum (List.map_congr_left fun j _ => ?_)
  change ((attributeCost localeCompare nodes flow manifest metric (idAt nodes j)).node.map _).getD 0 +
    ((attributeCost localeCompare nodes flow manifest metric (idAt nodes j)).callees.map _).sum = _
  rw [(attributeCost_idAt hdistinct j).1, amounts_callees hdistinct, ← selfCost_idAt hdistinct]
  rfl

/-- What a callee and a caller see of the edges between them. -/
theorem amounts_between {i j : Fin nodes.length}
    (hcross : numberAt nodes flow.edges j ≠ numberAt nodes flow.edges i) :
    let callees := (attributeCost localeCompare nodes flow manifest metric (idAt nodes i)).callees
    let callers := (attributeCost localeCompare nodes flow manifest metric (idAt nodes j)).callers
    let between := (indexEdges nodes flow.edges).filter fun edge => edge.source = i ∧ edge.target = j
    ((callees.filter fun ref => ref.id = idAt nodes j).map fun ref => (ref.callCount, ref.amount)).Perm
        (between.map fun edge => (edge.count, handed nodes flow.edges metric edge)) ∧
      ((callers.filter fun ref => ref.id = idAt nodes i).map fun ref => (ref.callCount, ref.amount)).Perm
        (between.map fun edge => (edge.count, handed nodes flow.edges metric edge)) := by
  have hinjective := idAt_injective hdistinct
  constructor
  · refine (((attributeCost_idAt hdistinct i).2.1.filter _).map _).trans (List.Perm.of_eq ?_)
    rw [calleesOf_idAt hdistinct, List.filter_map, List.map_map, ← leavingAt_filter hcross]
    refine congrArg _ (List.filter_congr fun edge _ => ?_)
    rw [Function.comp_apply, decide_eq_decide]
    exact hinjective.eq_iff
  · refine (((attributeCost_idAt hdistinct j).2.2.filter _).map _).trans (List.Perm.of_eq ?_)
    rw [callersOf_idAt hdistinct, List.filter_map, List.map_map, ← enteringAt_filter hcross]
    refine congrArg _ (List.filter_congr fun edge _ => ?_)
    rw [Function.comp_apply, decide_eq_decide]
    exact hinjective.eq_iff

/-- An edge between components is listed alike by both of its ends, with the
weight it has in the list of edges. -/
theorem flows_between {i j : Fin nodes.length}
    (hcross : numberAt nodes flow.edges j ≠ numberAt nodes flow.edges i) :
    let callees := (attributeCost localeCompare nodes flow manifest metric (idAt nodes i)).callees
    let callers := (attributeCost localeCompare nodes flow manifest metric (idAt nodes j)).callers
    ((callees.filter fun ref => ref.id = idAt nodes j).map fun ref => (ref.callCount, ref.amount)).Perm
        ((callers.filter fun ref => ref.id = idAt nodes i).map fun ref => (ref.callCount, ref.amount)) ∧
      ((callees.filter fun ref => ref.id = idAt nodes j).map CostFlow.callCount).Perm
        ((flow.edges.filter fun edge => edge.fromId = idAt nodes i ∧ edge.toId = idAt nodes j).map CallEdge.count) := by
  have hne : i ≠ j := fun heq => hcross (heq ▸ rfl)
  obtain ⟨hcallees, hcallers⟩ := @amounts_between _ metric localeCompare flow manifest hdistinct _ _ hcross
  refine ⟨hcallees.trans hcallers.symm, ?_⟩
  rw [← map_count_between hdistinct hne]
  have hcounts := hcallees.map Prod.fst
  rwa [List.map_map, List.map_map] at hcounts

/-- A node that no other shares a component with is all of its component. -/
theorem membersOf_eq_singleton {i : Fin nodes.length} (hacyclic : ∀ node ∈ nodes,
      (callNetwork nodes flow.edges metric).SameComponent (idAt nodes i) node.id → node.id = idAt nodes i) :
    membersOf (numberAt nodes flow.edges) (numberAt nodes flow.edges i) = [i] := by
  refine List.perm_singleton.mp ((List.perm_ext_iff_of_nodup ((List.nodup_finRange _).filter _)
    (List.nodup_singleton i)).mpr fun j => ?_)
  rw [List.mem_filter, decide_eq_true_eq, List.mem_singleton]
  constructor
  · rintro ⟨_, hj⟩
    exact idAt_injective hdistinct
      (hacyclic nodes[j] (List.getElem_mem j.isLt) ((sameComponent_iff hdistinct i j).mpr hj.symm))
  · rintro rfl
    exact ⟨List.mem_finRange j, rfl⟩

/-- An entered node's callers bear its cost between them. -/
theorem sum_callers (i : Fin nodes.length)
    (hpos : 0 < externalInboundAt (indexEdges nodes flow.edges) (numberAt nodes flow.edges) i) :
    let callers := (attributeCost localeCompare nodes flow manifest metric (idAt nodes i)).callers
    (callers.map CostFlow.amount).sum = costOf nodes flow.edges metric (numberAt nodes flow.edges i) ∧
      (callers.map CostFlow.share).sum = 1 := by
  have hperm := (@attributeCost_idAt _ metric localeCompare flow manifest hdistinct i).2.2
  rw [callersOf_idAt hdistinct] at hperm
  constructor
  · rw [(hperm.map _).sum_eq, List.map_map]
    exact sum_handed_enteringAt i hpos
  · rw [(hperm.map _).sum_eq, List.map_map]
    have hshares : (enteringAt nodes flow.edges i).map (fun edge => if 0 < externalInboundAt
        (indexEdges nodes flow.edges) (numberAt nodes flow.edges) i then edge.count /
          externalInboundAt (indexEdges nodes flow.edges) (numberAt nodes flow.edges) i else 0) =
        (enteringAt nodes flow.edges i).map fun edge => edge.count *
          (externalInboundAt (indexEdges nodes flow.edges) (numberAt nodes flow.edges) i)⁻¹ := by
      refine List.map_congr_left fun edge _ => ?_
      rw [if_pos hpos, div_eq_mul_inv]
    change ((enteringAt nodes flow.edges i).map (fun edge => if 0 < _ then _ else _)).sum = 1
    rw [hshares, List.sum_map_mul_right, sum_count_enteringAt]
    exact mul_inv_cancel₀ hpos.ne'

variable (hmeasured : ∀ node ∈ nodes, 0 ≤ runtimeValue node.metadata (metricKey metric))
  (hweight : ∀ edge ∈ flow.edges, 0 ≤ edge.count)

include hmeasured hweight

/-- All shares are fractions. -/
theorem share_mem (i : Fin nodes.length) :
    let report := attributeCost localeCompare nodes flow manifest metric (idAt nodes i)
    ∀ ref ∈ report.callees ++ report.callers, 0 ≤ ref.share ∧ ref.share ≤ 1 := by
  intro report ref href
  obtain ⟨_, hcallees, hcallers⟩ := @attributeCost_idAt _ metric localeCompare flow manifest hdistinct i
  rw [calleesOf_idAt hdistinct] at hcallees
  rw [callersOf_idAt hdistinct] at hcallers
  rcases List.mem_append.mp href with href | href
  · obtain ⟨edge, hedge, rfl⟩ := List.mem_map.mp (hcallees.mem_iff.mp href)
    have hnonneg := handed_nonneg hdistinct hmeasured hweight (mem_of_mem_leavingAt hedge)
    dsimp only
    split
    · next hpos =>
      exact ⟨div_nonneg hnonneg hpos.le, (div_le_one hpos).mpr (handed_le_costOf hdistinct hmeasured hweight hedge)⟩
    · exact ⟨le_refl 0, zero_le_one⟩
  · obtain ⟨edge, hedge, rfl⟩ := List.mem_map.mp (hcallers.mem_iff.mp href)
    have hnonneg := indexEdges_nonneg hweight edge (mem_of_mem_enteringAt hedge)
    dsimp only
    split
    · next hpos => exact ⟨div_nonneg hnonneg hpos.le, (div_le_one hpos).mpr (count_le_externalInboundAt hweight hedge)⟩
    · exact ⟨le_refl 0, zero_le_one⟩

end Report

open Classical in
/-- An attribution splits cost exactly, both ways. A component spends its
inclusive cost on its members and on their callees; an entered node's callers
bear its inclusive cost in shares that add up to one; and an edge between
components is listed with the same amount by the node it leaves and by the
node it enters. -/
theorem attributeCost_splits (localeCompare : Comparator String) (flow : FlowEdges)
    (manifest : Option RuntimeManifest) (metric : CostMetric) (hdistinct : (nodes.map StoredNode.id).Nodup)
    (hmeasured : ∀ node ∈ nodes, 0 ≤ runtimeValue node.metadata (metricKey metric))
    (hweight : ∀ edge ∈ flow.edges, 0 ≤ edge.count) {id : String} (hid : id ∈ nodes.map StoredNode.id) :
    let report := attributeCost localeCompare nodes flow manifest metric
    let N := callNetwork nodes flow.edges metric
    ∃ focal, (report id).node = some focal ∧
      ((nodes.filter fun node => N.SameComponent id node.id).map fun node =>
        ((report node.id).node.map fun ref => ref.selfCost).getD 0 +
          ((report node.id).callees.map CostFlow.amount).sum).sum = focal.inclusiveCost ∧
      ((∀ node ∈ nodes, N.SameComponent id node.id → node.id = id) →
        focal.selfCost + ((report id).callees.map CostFlow.amount).sum = focal.inclusiveCost) ∧
      (0 < (computeCostModel nodes flow.edges metric).externalInbound.getD id 0 →
        ((report id).callers.map CostFlow.amount).sum = focal.inclusiveCost ∧
          ((report id).callers.map CostFlow.share).sum = 1) ∧
      (∀ ref ∈ (report id).callees ++ (report id).callers, 0 ≤ ref.share ∧ ref.share ≤ 1) ∧
      ∀ other ∈ nodes.map StoredNode.id, ¬ N.SameComponent id other →
        (((report id).callees.filter fun ref => ref.id = other).map fun ref => (ref.callCount, ref.amount)).Perm
            (((report other).callers.filter fun ref => ref.id = id).map fun ref => (ref.callCount, ref.amount)) ∧
          (((report id).callees.filter fun ref => ref.id = other).map CostFlow.callCount).Perm
            ((flow.edges.filter fun edge => edge.fromId = id ∧ edge.toId = other).map CallEdge.count) := by
  intro report N
  rw [← map_idAt_finRange] at hid
  obtain ⟨i, _, rfl⟩ := List.mem_map.mp hid
  have hcost : (toCostRef (nodes.get i) (computeCostModel nodes flow.edges metric)).inclusiveCost =
      costOf nodes flow.edges metric (numberAt nodes flow.edges i) := getD_inclusiveCost hdistinct i
  refine ⟨_, (attributeCost_idAt hdistinct i).1, (sum_members hdistinct i).trans hcost.symm, fun hacyclic => ?_,
    fun hpos => ?_, share_mem hdistinct hmeasured hweight i, fun other hother hcross => ?_⟩
  · have halone := membersOf_eq_singleton hdistinct hacyclic
    have hspent := @sum_spent nodes flow.edges metric i
    rw [halone, List.map_singleton, List.sum_singleton] at hspent
    rw [hcost, selfCost_idAt hdistinct, amounts_callees hdistinct, hspent]
  · rw [getD_externalInbound hdistinct] at hpos
    rw [hcost]
    exact sum_callers hdistinct i hpos
  · rw [← map_idAt_finRange] at hother
    obtain ⟨j, _, rfl⟩ := List.mem_map.mp hother
    have hnumber : numberAt nodes flow.edges j ≠ numberAt nodes flow.edges i := fun heq =>
      hcross ((sameComponent_iff hdistinct i j).mpr heq.symm)
    exact flows_between hdistinct hnumber

/-- The cycle of the example, entered by its root and by its leaf. -/
theorem attributeCost_splits_cycle :
    ∃ focal, (attributeCost Comparator.ofOrder cycleNodes ⟨cycleEdges, .static, false⟩ none .selfTime "even").node =
        some focal ∧
      ((attributeCost Comparator.ofOrder cycleNodes ⟨cycleEdges, .static, false⟩ none .selfTime "even").callers.map
        CostFlow.amount).sum = focal.inclusiveCost ∧
      ((attributeCost Comparator.ofOrder cycleNodes ⟨cycleEdges, .static, false⟩ none .selfTime "even").callers.map
        CostFlow.share).sum = 1 := by
  obtain ⟨focal, hnode, _, _, hcallers, _⟩ := @attributeCost_splits cycleNodes Comparator.ofOrder
    ⟨cycleEdges, .static, false⟩ none .selfTime (by decide) (by decide +kernel) (by decide +kernel) "even" (by decide)
  exact ⟨focal, hnode, hcallers (by decide +kernel)⟩

end codespine.query.GraphQuery
