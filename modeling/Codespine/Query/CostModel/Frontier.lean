import Codespine.Lib.Attribution.Conservation
import Codespine.Query.CostModel.Solution

open codespine.schema codespine.store attribution digraph

namespace codespine.query.GraphQuery

variable {nodes : List StoredNode} {edges : List CallEdge} {metric : CostMetric}

/-- Single entry, read off the tables the pass builds. -/
theorem singleEntry_of_tables (hdistinct : (nodes.map StoredNode.id).Nodup)
    (htables : ∀ i j : Fin nodes.length, numberAt nodes edges i = numberAt nodes edges j →
      0 < externalInboundAt (indexEdges nodes edges) (numberAt nodes edges) i →
      0 < externalInboundAt (indexEdges nodes edges) (numberAt nodes edges) j → i = j) (a b : String)
    (hsame : (callNetwork nodes edges metric).SameComponent a b)
    (ha : 0 < (computeCostModel nodes edges metric).externalInbound.getD a 0)
    (hb : 0 < (computeCostModel nodes edges metric).externalInbound.getD b 0) : a = b := by
  rw [externalInbound_eq hdistinct] at ha hb
  obtain ⟨i, rfl⟩ := mem_verts.mp (Network.mem_verts_of_inbound_pos ha)
  obtain ⟨j, rfl⟩ := mem_verts.mp (Network.mem_verts_of_inbound_pos hb)
  rw [inbound_idAt hdistinct] at ha hb
  rw [htables i j ((sameComponent_iff hdistinct i j).mp hsame) ha hb]

open Classical in
/-- Cost is conserved: where no component is entered at more than one member,
the components that nothing enters bear the whole measured cost, whatever
member stands for each. -/
theorem frontier_conserves (hdistinct : (nodes.map StoredNode.id).Nodup)
    (hentry : ∀ a b, (callNetwork nodes edges metric).SameComponent a b →
      0 < (computeCostModel nodes edges metric).externalInbound.getD a 0 →
      0 < (computeCostModel nodes edges metric).externalInbound.getD b 0 → a = b) :
    let N := callNetwork nodes edges metric
    let M := computeCostModel nodes edges metric
    (∃ reps, N.Transversal reps) ∧ ∀ reps, N.Transversal reps →
      ∑ r ∈ reps.filter (fun r => ∀ u, N.SameComponent r u → ¬ 0 < M.externalInbound.getD u 0),
        M.inclusiveCost.getD r 0 = M.totalSelf := by
  intro N M
  refine ⟨N.exists_transversal, fun reps hreps => ?_⟩
  have hsolves : N.Solves fun id => M.inclusiveCost.getD id 0 := inclusiveCost_solves edges metric hdistinct
  have hexternal : ∀ id, M.externalInbound.getD id 0 = N.inbound id := externalInbound_eq hdistinct
  have hfrontier : ∀ r, (∀ u, N.SameComponent r u → ¬ 0 < M.externalInbound.getD u 0) ↔ ¬ N.Entered r := by
    intro r
    constructor
    · rintro hnone ⟨t, ht, hpos⟩
      exact hnone t (Network.mem_component.mp ht).2 (hexternal t ▸ hpos)
    · intro hnone u hsame hpos
      rw [hexternal] at hpos
      exact hnone ⟨u, Network.mem_component.mpr ⟨Network.mem_verts_of_inbound_pos hpos, hsame⟩, hpos⟩
  simp only [hfrontier]
  rw [show M.totalSelf = N.total from totalSelf_eq hdistinct]
  refine hsolves.conserves hreps fun a _ b _ hsame ha hb => hentry a b hsame ?_ ?_
  · exact (hexternal a).symm ▸ ha
  · exact (hexternal b).symm ▸ hb

open Classical in
theorem frontier_conserves_cycle :
    ∃ reps, (callNetwork cycleNodes cycleEdges .selfTime).Transversal reps ∧
      ∑ r ∈ reps.filter (fun r => ∀ u, (callNetwork cycleNodes cycleEdges .selfTime).SameComponent r u →
          ¬ 0 < (computeCostModel cycleNodes cycleEdges .selfTime).externalInbound.getD u 0),
        (computeCostModel cycleNodes cycleEdges .selfTime).inclusiveCost.getD r 0 = 100 := by
  have hentry := @singleEntry_of_tables cycleNodes cycleEdges .selfTime (by decide) (by decide +kernel)
  obtain ⟨⟨reps, hreps⟩, hconserves⟩ := frontier_conserves (by decide) hentry
  refine ⟨reps, hreps, (hconserves reps hreps).trans ?_⟩
  decide +kernel

end codespine.query.GraphQuery
