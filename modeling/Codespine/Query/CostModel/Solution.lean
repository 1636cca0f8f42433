import Codespine.Query.CostModel.Recurrence

open codespine.schema codespine.store attribution digraph

namespace codespine.query.GraphQuery

variable {nodes : List StoredNode} {edges : List CallEdge} {metric : CostMetric}

theorem own_eq_zero {id : String} (hid : id ∉ (callNetwork nodes edges metric).verts) :
    (callNetwork nodes edges metric).own id = 0 := by
  have hnone : nodes.filter (fun node => node.id = id) = [] := by
    refine List.filter_eq_nil_iff.mpr fun node hnode heq => hid ?_
    rw [decide_eq_true_eq] at heq
    exact List.mem_toFinset.mpr (heq ▸ List.mem_map_of_mem hnode)
  change ((nodes.filter fun node => node.id = id).map _).sum = 0
  rw [hnone]
  rfl

theorem measuredNodes_perm {nodes' : List StoredNode} {edges' : List CallEdge} (hnodes : nodes.Perm nodes') :
    (computeCostModel nodes edges metric).measuredNodes = (computeCostModel nodes' edges' metric).measuredNodes :=
  hnodes.countP_eq _

section Distinct

variable (hdistinct : (nodes.map StoredNode.id).Nodup)

include hdistinct

/-- A map built from the network's own view of every node reads that view
back, and knows no other id. -/
theorem get_byId_eq {α : Type} {value : Fin nodes.length → α} (view : String → α)
    (hvalue : ∀ i, value i = view (idAt nodes i)) (id : String) :
    (byId nodes value).get id = if id ∈ (callNetwork nodes edges metric).verts then some (view id) else none := by
  split
  · next hid =>
    obtain ⟨i, rfl⟩ := mem_verts.mp hid
    rw [get_byId hdistinct, hvalue]
  · next hid => exact get_byId_eq_none value fun i hi => hid (mem_verts.mpr ⟨i, hi⟩)

theorem get_selfCost (id : String) : (computeCostModel nodes edges metric).selfCost.get id =
    if id ∈ (callNetwork nodes edges metric).verts then some ((callNetwork nodes edges metric).own id) else none :=
  get_byId_eq hdistinct _ (fun i => (own_idAt hdistinct i).symm) id

theorem get_externalInbound (id : String) : (computeCostModel nodes edges metric).externalInbound.get id =
    if id ∈ (callNetwork nodes edges metric).verts then some ((callNetwork nodes edges metric).inbound id)
    else none :=
  get_byId_eq hdistinct _ (fun i => (inbound_idAt hdistinct i).symm) id

theorem get_cycleSize (id : String) : (computeCostModel nodes edges metric).cycleSize.get id =
    if id ∈ (callNetwork nodes edges metric).verts then some ((callNetwork nodes edges metric).component id).card
    else none := by
  refine get_byId_eq hdistinct (fun id => ((callNetwork nodes edges metric).component id).card) (fun i => ?_) id
  rw [component_idAt hdistinct, Finset.card_image_of_injective _ (idAt_injective hdistinct)]
  change (membersOf (numberAt nodes edges) (numberAt nodes edges i)).length = _
  rw [membersOf, ← List.toFinset_card_of_nodup ((List.nodup_finRange _).filter _)]
  congr 1
  ext j
  simp

theorem get_inclusiveCost (id : String) : (computeCostModel nodes edges metric).inclusiveCost.get id =
    if id ∈ (callNetwork nodes edges metric).verts
    then some ((computeCostModel nodes edges metric).inclusiveCost.getD id 0) else none := by
  refine get_byId_eq hdistinct (fun id => (computeCostModel nodes edges metric).inclusiveCost.getD id 0)
    (fun i => ?_) id
  rw [OrderedMap.getD, computeCostModel, get_byId hdistinct, Option.getD_some]

theorem selfCost_eq (id : String) :
    (computeCostModel nodes edges metric).selfCost.getD id 0 = (callNetwork nodes edges metric).own id := by
  rw [OrderedMap.getD, get_selfCost hdistinct]
  split
  · rfl
  · next hid => exact (own_eq_zero hid).symm

theorem externalInbound_eq (id : String) :
    (computeCostModel nodes edges metric).externalInbound.getD id 0 = (callNetwork nodes edges metric).inbound id := by
  rw [OrderedMap.getD, get_externalInbound hdistinct]
  split
  · rfl
  · next hid => exact (Network.inbound_eq_zero hid).symm

theorem totalSelf_eq : (computeCostModel nodes edges metric).totalSelf = (callNetwork nodes edges metric).total := by
  have hverts : (callNetwork nodes edges metric).verts = Finset.univ.image (idAt nodes) := by
    ext id
    rw [mem_verts]
    simp
  rw [Network.total, hverts, Finset.sum_image fun a _ b _ hab => idAt_injective hdistinct hab,
    Finset.sum_congr rfl fun i _ => own_idAt hdistinct i]
  exact (List.sum_ofFn.symm.trans (by rw [List.ofFn_eq_map]; rfl)).symm

end Distinct

/-- The inclusive costs are the one solution of the documented recurrence.
Every call out of a component to an entered function of another one carries
its part of that component's cost, and on a graph without cycles this is the
formula over single functions with the whole inbound weight as divisor. -/
theorem inclusiveCost_unique_solution (metric : CostMetric) (hdistinct : (nodes.map StoredNode.id).Nodup)
    (hweight : ∀ edge ∈ edges, 0 ≤ edge.count) :
    let N := callNetwork nodes edges metric
    let M := computeCostModel nodes edges metric
    let inclusive := fun id => M.inclusiveCost.getD id 0
    (∀ id, M.selfCost.getD id 0 = N.own id) ∧
    (∀ id, M.externalInbound.getD id 0 = N.inbound id) ∧
    N.Solves inclusive ∧
    (∀ a ∈ N.verts, ∀ b ∈ N.verts, N.SameComponent a b → inclusive a = inclusive b) ∧
    (∀ other, N.Solves other → ∀ id ∈ N.verts, other id = inclusive id) ∧
    ((∀ a b, N.SameComponent a b → a = b) → ∀ n ∈ N.verts, inclusive n = N.own n +
      (((callArcs nodes edges).filter fun e => e.source = n).map fun e =>
        inclusive e.target * e.weight /
          (((callArcs nodes edges).filter fun e' => e'.target = e.target).map Arc.weight).sum).sum) := by
  intro N M inclusive
  have hsolves : N.Solves inclusive := inclusiveCost_solves edges metric hdistinct
  refine ⟨selfCost_eq hdistinct, externalInbound_eq hdistinct, hsolves, ?_, ?_, ?_⟩
  · exact fun a ha b hb hab => hsolves.eq_of_sameComponent ha hb hab
  · exact fun other hother id hid => hother.unique hsolves hid
  · intro hacyclic n hn
    refine (hsolves.of_acyclic hacyclic (fun e he => ?_) (fun e he => ?_) hn).trans ?_
    · obtain ⟨edge, hedge, rfl⟩ := List.mem_map.mp (Multiset.mem_coe.mp he)
      exact (of_decide_eq_true (List.mem_filter.mp hedge).2).2.2
    · obtain ⟨edge, hedge, rfl⟩ := List.mem_map.mp (Multiset.mem_coe.mp he)
      exact hweight edge (List.mem_of_mem_filter hedge)
    · change N.own n + (Multiset.map _ (Multiset.filter _ (callArcs nodes edges : Multiset (Arc String)))).sum = _
      rw [Multiset.filter_coe, Multiset.map_coe, Multiset.sum_coe]
      rfl

/-- A function measured at `selfMs` milliseconds. -/
def measuredNode (id : String) (selfMs : ℚ) : StoredNode where
  id := id
  kind := .Function
  name := id
  filePath := "src/app.ts"
  startLine := 1
  endLine := 1
  metadata := OrderedMap.ofList [("runtime", .obj [("selfMs", .num selfMs)])]

/-- A root, a function it calls, and a cycle that both enter at one member. -/
def cycleNodes : List StoredNode :=
  [measuredNode "root" 10, measuredNode "even" 20, measuredNode "odd" 30, measuredNode "leaf" 40]

/-- Besides the calls between them, a self-edge, a doubled edge and an edge to
an unknown id. -/
def cycleEdges : List CallEdge :=
  [⟨"root", "even", 1⟩, ⟨"root", "leaf", 2⟩, ⟨"leaf", "even", 1⟩, ⟨"even", "odd", 3⟩, ⟨"odd", "even", 1⟩,
    ⟨"odd", "odd", 5⟩, ⟨"root", "leaf", 2⟩, ⟨"root", "gone", 1⟩]

theorem inclusiveCost_unique_solution_cycle :
    (∀ other, (callNetwork cycleNodes cycleEdges .selfTime).Solves other →
      ∀ id ∈ (callNetwork cycleNodes cycleEdges .selfTime).verts,
        other id = (computeCostModel cycleNodes cycleEdges .selfTime).inclusiveCost.getD id 0) ∧
    (computeCostModel cycleNodes cycleEdges .selfTime).inclusiveCost.getD "root" 0 = 100 :=
  ⟨(inclusiveCost_unique_solution .selfTime (by decide) (by decide +kernel)).2.2.2.2.1, by decide +kernel⟩

/-- Costs depend on neither the order of node rows nor that of edge rows. -/
theorem computeCostModel_perm {nodes' : List StoredNode} {edges' : List CallEdge}
    (hdistinct : (nodes.map StoredNode.id).Nodup) (hnodes : nodes.Perm nodes') (hedges : edges.Perm edges') :
    let M := computeCostModel nodes edges metric
    let M' := computeCostModel nodes' edges' metric
    (∀ id, M.selfCost.get id = M'.selfCost.get id ∧ M.inclusiveCost.get id = M'.inclusiveCost.get id ∧
      M.cycleSize.get id = M'.cycleSize.get id ∧ M.externalInbound.get id = M'.externalInbound.get id) ∧
    M.totalSelf = M'.totalSelf ∧ M.measuredNodes = M'.measuredNodes := by
  have hdistinct' : (nodes'.map StoredNode.id).Nodup := (hnodes.map StoredNode.id).nodup_iff.mp hdistinct
  have hnetwork : callNetwork nodes edges metric = callNetwork nodes' edges' metric :=
    callNetwork_perm hnodes hedges
  have hsolves := inclusiveCost_solves edges metric hdistinct
  have hsolves' := inclusiveCost_solves edges' metric hdistinct'
  rw [← hnetwork] at hsolves'
  refine ⟨fun id => ⟨?_, ?_, ?_, ?_⟩, ?_, measuredNodes_perm hnodes⟩
  · rw [get_selfCost hdistinct, get_selfCost hdistinct', hnetwork]
  · rw [get_inclusiveCost hdistinct, get_inclusiveCost hdistinct', ← hnetwork]
    split
    · next hid => exact congrArg some (hsolves.unique hsolves' hid)
    · rfl
  · rw [get_cycleSize hdistinct, get_cycleSize hdistinct', hnetwork]
  · rw [get_externalInbound hdistinct, get_externalInbound hdistinct', hnetwork]
  · rw [totalSelf_eq hdistinct, totalSelf_eq hdistinct', hnetwork]

theorem computeCostModel_perm_cycle :
    (computeCostModel cycleNodes cycleEdges .selfTime).inclusiveCost.get "even" =
      (computeCostModel cycleNodes.reverse cycleEdges.reverse .selfTime).inclusiveCost.get "even" :=
  ((computeCostModel_perm (by decide) (List.reverse_perm cycleNodes).symm
    (List.reverse_perm cycleEdges).symm).1 "even").2.1

end codespine.query.GraphQuery
