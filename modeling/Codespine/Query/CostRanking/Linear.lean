import Codespine.Lib.Attribution.Linear
import Codespine.Query.CostRanking

open codespine.schema codespine.store attribution

namespace codespine.query.GraphQuery

/-- The nodes of a graph under three profiles, the first of which measures `a`
times what the second does and `b` times what the third does. -/
structure Combines (metric : CostMetric) (a b : ℚ) (nodes first second : List StoredNode) : Prop where
  first_ids : (first.map StoredNode.id).Perm (nodes.map StoredNode.id)
  second_ids : (second.map StoredNode.id).Perm (nodes.map StoredNode.id)
  value : ∀ node ∈ nodes, ∀ one ∈ first, ∀ two ∈ second, one.id = node.id → two.id = node.id →
    runtimeValue node.metadata (metricKey metric) =
      a * runtimeValue one.metadata (metricKey metric) + b * runtimeValue two.metadata (metricKey metric)

section Network

variable {nodes first second : List StoredNode} {edges : List CallEdge} {metric : CostMetric} {a b : ℚ}

/-- The call network of the same symbols differs in the own costs only. -/
theorem callNetwork_withOwn (hids : (first.map StoredNode.id).Perm (nodes.map StoredNode.id)) :
    callNetwork first edges metric =
      (callNetwork nodes edges metric).withOwn (callNetwork first edges metric).own := by
  refine Network.ext ?_ ?_ rfl
  · exact List.toFinset_eq_of_perm _ _ hids
  · refine Multiset.coe_eq_coe.mpr (List.Perm.of_eq ?_)
    unfold callArcs
    simp only [hids.mem_iff]

theorem own_of_mem (hdistinct : (nodes.map StoredNode.id).Nodup) {node : StoredNode} (hnode : node ∈ nodes) :
    (callNetwork nodes edges metric).own node.id = runtimeValue node.metadata (metricKey metric) := by
  change ((nodes.filter fun row => row.id = node.id).map _).sum = _
  rw [filter_id_eq hdistinct hnode, List.map_singleton, List.sum_singleton]

theorem exists_of_perm (hids : (first.map StoredNode.id).Perm (nodes.map StoredNode.id)) {node : StoredNode}
    (hnode : node ∈ nodes) : ∃ one ∈ first, one.id = node.id :=
  List.mem_map.mp (hids.mem_iff.mpr (List.mem_map_of_mem hnode))

variable (hdistinct : (nodes.map StoredNode.id).Nodup) (hcombines : Combines metric a b nodes first second)

include hdistinct hcombines

/-- The own costs are combined, at stored symbols and elsewhere. -/
theorem own_combines (id : String) : (callNetwork nodes edges metric).own id =
    a * (callNetwork first edges metric).own id + b * (callNetwork second edges metric).own id := by
  have hfirst := hcombines.first_ids.nodup_iff.mpr hdistinct
  have hsecond := hcombines.second_ids.nodup_iff.mpr hdistinct
  by_cases hid : id ∈ nodes.map StoredNode.id
  · obtain ⟨node, hnode, rfl⟩ := List.mem_map.mp hid
    obtain ⟨one, hone, honeId⟩ := exists_of_perm hcombines.first_ids hnode
    obtain ⟨two, htwo, htwoId⟩ := exists_of_perm hcombines.second_ids hnode
    have hone' : (callNetwork first edges metric).own one.id = _ := own_of_mem hfirst hone
    have htwo' : (callNetwork second edges metric).own two.id = _ := own_of_mem hsecond htwo
    rw [honeId] at hone'
    rw [htwoId] at htwo'
    rw [own_of_mem hdistinct hnode, hone', htwo']
    exact hcombines.value node hnode one hone two htwo honeId htwoId
  · rw [own_eq_zero fun h => hid (List.mem_toFinset.mp h),
      own_eq_zero fun h => hid (hcombines.first_ids.mem_iff.mp (List.mem_toFinset.mp h)),
      own_eq_zero fun h => hid (hcombines.second_ids.mem_iff.mp (List.mem_toFinset.mp h))]
    ring

theorem inclusiveCost_combines (id : String) : (computeCostModel nodes edges metric).inclusiveCost.getD id 0 =
    a * (computeCostModel first edges metric).inclusiveCost.getD id 0 +
      b * (computeCostModel second edges metric).inclusiveCost.getD id 0 := by
  have hfirst := hcombines.first_ids.nodup_iff.mpr hdistinct
  have hsecond := hcombines.second_ids.nodup_iff.mpr hdistinct
  by_cases hid : id ∈ (callNetwork nodes edges metric).verts
  · have hsolves := inclusiveCost_solves edges metric hfirst
    rw [callNetwork_withOwn hcombines.first_ids] at hsolves
    have hsolves' := inclusiveCost_solves edges metric hsecond
    rw [callNetwork_withOwn hcombines.second_ids] at hsolves'
    exact (inclusiveCost_solves edges metric hdistinct).linear hsolves hsolves'
      (fun m _ => own_combines hdistinct hcombines m) hid
  · have hid' : id ∉ nodes.map StoredNode.id := fun h => hid (List.mem_toFinset.mpr h)
    have hnone : id ∉ (callNetwork first edges metric).verts :=
      fun h => hid' (hcombines.first_ids.mem_iff.mp (List.mem_toFinset.mp h))
    have hnone' : id ∉ (callNetwork second edges metric).verts :=
      fun h => hid' (hcombines.second_ids.mem_iff.mp (List.mem_toFinset.mp h))
    rw [OrderedMap.getD, OrderedMap.getD, OrderedMap.getD, get_inclusiveCost hdistinct, get_inclusiveCost hfirst,
      get_inclusiveCost hsecond, if_neg hid, if_neg hnone, if_neg hnone']
    simp

theorem totalSelf_combines : (computeCostModel nodes edges metric).totalSelf =
    a * (computeCostModel first edges metric).totalSelf + b * (computeCostModel second edges metric).totalSelf := by
  have hfirst := hcombines.first_ids.nodup_iff.mpr hdistinct
  have hsecond := hcombines.second_ids.nodup_iff.mpr hdistinct
  have hverts : (callNetwork first edges metric).verts = (callNetwork nodes edges metric).verts :=
    List.toFinset_eq_of_perm _ _ hcombines.first_ids
  have hverts' : (callNetwork second edges metric).verts = (callNetwork nodes edges metric).verts :=
    List.toFinset_eq_of_perm _ _ hcombines.second_ids
  rw [totalSelf_eq hdistinct, totalSelf_eq hfirst, totalSelf_eq hsecond, Network.total, Network.total, Network.total, hverts,
    hverts', Finset.mul_sum, Finset.mul_sum, ← Finset.sum_add_distrib]
  exact Finset.sum_congr rfl fun id _ => own_combines hdistinct hcombines id

end Network

/-- Costs are linear in the profile: where one profile measures a combination of
two others, every self cost, every inclusive cost and the total are that
combination, cycles and all; and so a change of the unit of measure leaves
every share of the total as it is. -/
theorem computeCostModel_linear {nodes first second : List StoredNode} (edges : List CallEdge) {metric : CostMetric} {a b : ℚ}
    (hdistinct : (nodes.map StoredNode.id).Nodup) (hcombines : Combines metric a b nodes first second) :
    let model := computeCostModel nodes edges metric
    let one := computeCostModel first edges metric
    let two := computeCostModel second edges metric
    (∀ id, model.selfCost.getD id 0 = a * one.selfCost.getD id 0 + b * two.selfCost.getD id 0) ∧
    (∀ id, model.inclusiveCost.getD id 0 = a * one.inclusiveCost.getD id 0 + b * two.inclusiveCost.getD id 0) ∧
    model.totalSelf = a * one.totalSelf + b * two.totalSelf ∧
    (0 < a → b = 0 → ∀ node ∈ nodes, ∀ other ∈ first, other.id = node.id →
      (toCostRef node model).shareOfTotal = (toCostRef other one).shareOfTotal) := by
  intro model one two
  have hfirst := hcombines.first_ids.nodup_iff.mpr hdistinct
  have hsecond := hcombines.second_ids.nodup_iff.mpr hdistinct
  have hinclusive : ∀ id, model.inclusiveCost.getD id 0 = _ := inclusiveCost_combines hdistinct hcombines
  have htotal : model.totalSelf = _ := totalSelf_combines hdistinct hcombines
  refine ⟨fun id => ?_, hinclusive, htotal, fun ha hb node hnode other hother hid => ?_⟩
  · rw [selfCost_eq hdistinct, selfCost_eq hfirst, selfCost_eq hsecond]
    exact own_combines hdistinct hcombines id
  · have hinclusive := hinclusive node.id
    rw [hb, zero_mul, add_zero] at hinclusive htotal
    unfold toCostRef
    dsimp only
    rw [hinclusive, htotal, hid]
    exact if_congr (mul_pos_iff_of_pos_left ha) (mul_div_mul_left _ _ ha.ne') rfl

/-- Two profiles of the graph with a cycle. -/
def firstProfile : List StoredNode :=
  [measuredNode "root" 4, measuredNode "even" 20, measuredNode "odd" 0, measuredNode "leaf" 10]

def secondProfile : List StoredNode :=
  [measuredNode "root" 3, measuredNode "even" 0, measuredNode "odd" 15, measuredNode "leaf" 15]

theorem computeCostModel_linear_cycle : (computeCostModel cycleNodes cycleEdges .selfTime).inclusiveCost.getD "even" 0 =
    1 * (computeCostModel firstProfile cycleEdges .selfTime).inclusiveCost.getD "even" 0 +
      2 * (computeCostModel secondProfile cycleEdges .selfTime).inclusiveCost.getD "even" 0 := by
  have hcombines : Combines .selfTime 1 2 cycleNodes firstProfile secondProfile :=
    ⟨List.Perm.refl _, List.Perm.refl _, by decide +kernel⟩
  exact (computeCostModel_linear cycleEdges (by decide) hcombines).2.1 "even"

end codespine.query.GraphQuery
