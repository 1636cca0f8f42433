import Codespine.Lib.Attribution.Network
import Codespine.Query.Components.Run
import Codespine.Query.CostModel

open codespine.schema codespine.store attribution digraph

namespace codespine.query.GraphQuery

variable {nodes : List StoredNode} {edges : List CallEdge} {metric : CostMetric}

/-- The call edges between two different known nodes, as arcs between ids. -/
def callArcs (nodes : List StoredNode) (edges : List CallEdge) : List (Arc String) :=
  (edges.filter fun edge => edge.fromId ∈ nodes.map StoredNode.id ∧ edge.toId ∈ nodes.map StoredNode.id ∧
    edge.fromId ≠ edge.toId).map fun edge => ⟨edge.fromId, edge.toId, edge.count⟩

/-- The call graph that costs are attributed over, in terms of ids alone: no
index, component number or row order enters. -/
def callNetwork (nodes : List StoredNode) (edges : List CallEdge) (metric : CostMetric) : Network String where
  verts := (nodes.map StoredNode.id).toFinset
  arcs := callArcs nodes edges
  own id := ((nodes.filter fun node => node.id = id).map fun node => runtimeValue node.metadata (metricKey metric)).sum
  source_mem e he := by
    obtain ⟨edge, hedge, rfl⟩ := List.mem_map.mp (Multiset.mem_coe.mp he)
    have hkept := (List.mem_filter.mp hedge).2
    simp only [decide_eq_true_eq] at hkept
    exact List.mem_toFinset.mpr hkept.1
  target_mem e he := by
    obtain ⟨edge, hedge, rfl⟩ := List.mem_map.mp (Multiset.mem_coe.mp he)
    have hkept := (List.mem_filter.mp hedge).2
    simp only [decide_eq_true_eq] at hkept
    exact List.mem_toFinset.mpr hkept.2.1

/-- The network does not see the order of rows. -/
theorem callNetwork_perm {nodes' : List StoredNode} {edges' : List CallEdge} (hnodes : nodes.Perm nodes')
    (hedges : edges.Perm edges') : callNetwork nodes edges metric = callNetwork nodes' edges' metric := by
  have hids : (nodes.map StoredNode.id).Perm (nodes'.map StoredNode.id) := hnodes.map _
  refine Network.ext ?_ ?_ ?_
  · exact List.toFinset_eq_of_perm _ _ hids
  · refine Multiset.coe_eq_coe.mpr (List.Perm.map _ ?_)
    have hcongr : (edges.filter fun edge => edge.fromId ∈ nodes.map StoredNode.id ∧
        edge.toId ∈ nodes.map StoredNode.id ∧ edge.fromId ≠ edge.toId) =
        edges.filter fun edge => edge.fromId ∈ nodes'.map StoredNode.id ∧
          edge.toId ∈ nodes'.map StoredNode.id ∧ edge.fromId ≠ edge.toId := by
      refine List.filter_congr fun edge _ => ?_
      simp only [hids.mem_iff]
    rw [hcongr]
    exact hedges.filter _
  · funext id
    exact ((hnodes.filter _).map _).sum_eq

theorem map_idAt_finRange (nodes : List StoredNode) :
    (List.finRange nodes.length).map (idAt nodes) = nodes.map StoredNode.id := by
  refine List.ext_getElem (by simp) fun i h h' => ?_
  simp [idAt]

theorem mem_verts {id : String} : id ∈ (callNetwork nodes edges metric).verts ↔ ∃ i, idAt nodes i = id := by
  change id ∈ (nodes.map StoredNode.id).toFinset ↔ _
  rw [List.mem_toFinset, ← map_idAt_finRange]
  simp

section Distinct

variable (hdistinct : (nodes.map StoredNode.id).Nodup)

include hdistinct

theorem idAt_injective : Function.Injective (idAt nodes) := by
  rw [← map_idAt_finRange] at hdistinct
  exact fun i j hij => List.inj_on_of_nodup_map hdistinct (List.mem_finRange i) (List.mem_finRange j) hij

/-- A map built in node order holds the value of each node under its id. -/
theorem get_byId {α : Type} (value : Fin nodes.length → α) (i : Fin nodes.length) :
    (byId nodes value).get (idAt nodes i) = some (value i) := by
  refine OrderedMap.get_ofList_of_mem ?_ (List.mem_map_of_mem (List.mem_finRange i))
  rw [List.map_map]
  simpa [Function.comp_def] using (map_idAt_finRange nodes).symm ▸ hdistinct

omit hdistinct in
theorem get_byId_eq_none {α : Type} (value : Fin nodes.length → α) {id : String}
    (hid : ∀ i, idAt nodes i ≠ id) : (byId nodes value).get id = none := by
  refine OrderedMap.get_ofList_eq_none fun hmem => ?_
  obtain ⟨entry, hentry, heq⟩ := List.mem_map.mp hmem
  obtain ⟨i, _, rfl⟩ := List.mem_map.mp hentry
  exact hid i heq

theorem indexOf_eq_some_iff {id : String} {i : Fin nodes.length} :
    (indexOf nodes).get id = some i ↔ idAt nodes i = id := by
  constructor
  · intro h
    by_cases hid : ∃ j, idAt nodes j = id
    · obtain ⟨j, rfl⟩ := hid
      have hj : (indexOf nodes).get (idAt nodes j) = some j := get_byId hdistinct (fun i => i) j
      rw [hj] at h
      rw [Option.some.inj h]
    · have hnone : (indexOf nodes).get id = none := get_byId_eq_none (fun i => i) fun j hj => hid ⟨j, hj⟩
      rw [hnone] at h
      cases h
  · rintro rfl
    exact get_byId hdistinct (fun i => i) i

end Distinct

end codespine.query.GraphQuery
