import Codespine.Extract.GraphBuilder
import Codespine.Store.KuzuStore.Load

open codespine.schema codespine.store

namespace codespine.extract.GraphBuilder

/-- Later records replace earlier ones of the same id. -/
theorem get_foldl_setNode (l : List GraphNode) (nodes : OrderedMap String GraphNode) (id : String) :
    (l.foldl (fun nodes node => nodes.set node.id node) nodes).get id =
      ((l.filter fun node => node.id = id).getLast?).or (nodes.get id) := by
  induction l generalizing nodes with
  | nil => rfl
  | cons node rest ih =>
    rw [List.foldl_cons, ih]
    by_cases hid : node.id = id
    · rw [List.filter_cons_of_pos (by simpa using hid), List.getLast?_cons, ← hid, OrderedMap.get_set_self]
      cases (rest.filter fun other => other.id = node.id).getLast? <;> rfl
    · rw [List.filter_cons_of_neg (by simpa using hid), OrderedMap.get_set_ne (Ne.symm hid)]

/-- The first edge of an id decides which relationship is stored under it. -/
theorem key_foldl_addEdge (l : List GraphEdge) (edges : OrderedMap String GraphEdge) (id : String) :
    ((l.foldl addEdge edges).get id).map KuzuStore.keyOf =
      ((edges.get id).map KuzuStore.keyOf).or ((l.find? fun edge => edge.id = id).map KuzuStore.keyOf) := by
  induction l generalizing edges with
  | nil =>
    rw [List.foldl_nil]
    cases edges.get id <;> rfl
  | cons edge rest ih =>
    rw [List.foldl_cons, ih]
    by_cases hid : edge.id = id
    · subst hid
      rw [List.find?_cons_of_pos (by simp)]
      unfold addEdge
      cases hget : edges.get edge.id with
      | none => simp only [OrderedMap.get_set_self]; rfl
      | some existing => simp only [OrderedMap.get_set_self]; rfl
    · have hother : (addEdge edges edge).get id = edges.get id := by
        unfold addEdge
        split <;> exact OrderedMap.get_set_ne (Ne.symm hid) _
      rw [List.find?_cons_of_neg (by simpa using hid), hother]

theorem edges_foldl_merge (extractions : List Extraction) (builder : GraphBuilder) :
    (extractions.foldl merge builder).edges = (extractions.flatMap Extraction.edges).foldl addEdge builder.edges := by
  induction extractions generalizing builder with
  | nil => rfl
  | cons extraction rest ih =>
    rw [List.foldl_cons, ih, List.flatMap_cons, List.foldl_append]
    rfl

section Build

variable (host : Host) (rootPath : String) (P : Project) (options : BuildOptions)

/-- Every node record merged, in order. -/
def pushedNodes : List GraphNode := (extractions host rootPath P options).flatMap Extraction.nodes

/-- Every edge merged, in order. -/
def pushedEdges : List GraphEdge := (extractions host rootPath P options).flatMap Extraction.edges

theorem build_nodes : (build host rootPath P options).nodes =
    (pushedNodes host rootPath P options).foldl (fun nodes node => nodes.set node.id node) ∅ := by
  have key : ∀ (l : List Extraction) (builder : GraphBuilder), (l.foldl merge builder).nodes =
      (l.flatMap Extraction.nodes).foldl (fun nodes node => nodes.set node.id node) builder.nodes := by
    intro l
    induction l with
    | nil => exact fun _ => rfl
    | cons extraction rest ih =>
      intro builder
      rw [List.foldl_cons, ih, List.flatMap_cons, List.foldl_append]
      rfl
  exact key _ {}

theorem build_edges : (build host rootPath P options).edges =
    (pushedEdges host rootPath P options).foldl addEdge ∅ :=
  edges_foldl_merge _ {}

theorem get_build_nodes (id : String) : (build host rootPath P options).nodes.get id =
    ((pushedNodes host rootPath P options).filter fun node => node.id = id).getLast? := by
  rw [build_nodes, get_foldl_setNode]
  exact Option.or_none

theorem map_id_getNodes : (build host rootPath P options).getNodes.map GraphNode.id =
    (build host rootPath P options).nodes.keys := by
  unfold getNodes OrderedMap.values OrderedMap.keys
  rw [List.map_map]
  refine List.map_congr_left fun entry hentry => ?_
  have hget := OrderedMap.get_eq_some_iff.mpr hentry
  rw [get_build_nodes] at hget
  exact of_decide_eq_true (List.mem_filter.mp (List.mem_of_getLast? hget)).2

theorem mem_ids_getNodes {id : String} :
    id ∈ (build host rootPath P options).getNodes.map GraphNode.id ↔
      id ∈ (pushedNodes host rootPath P options).map GraphNode.id := by
  rw [map_id_getNodes]
  constructor
  · intro h
    by_contra hnot
    refine OrderedMap.get_eq_none_iff.mp ?_ h
    rw [get_build_nodes, List.getLast?_eq_none_iff, List.filter_eq_nil_iff]
    intro node hnode hid
    exact hnot (List.mem_map.mpr ⟨node, hnode, of_decide_eq_true hid⟩)
  · intro h
    obtain ⟨node, hnode, rfl⟩ := List.mem_map.mp h
    by_contra hnot
    have hnone := OrderedMap.get_eq_none_iff.mpr hnot
    rw [get_build_nodes, List.getLast?_eq_none_iff, List.filter_eq_nil_iff] at hnone
    exact hnone node hnode (decide_eq_true rfl)

/-- The stored relationships are those that come first under their id. -/
theorem exists_getEdges_iff {key : EdgeKey} :
    (∃ edge ∈ (build host rootPath P options).getEdges, KuzuStore.keyOf edge = key) ↔
      ∃ id, ((pushedEdges host rootPath P options).find? fun edge => edge.id = id).map KuzuStore.keyOf = some key := by
  have hget : ∀ id, ((build host rootPath P options).edges.get id).map KuzuStore.keyOf =
      ((pushedEdges host rootPath P options).find? fun edge => edge.id = id).map KuzuStore.keyOf := by
    intro id
    rw [build_edges, key_foldl_addEdge]
    rfl
  simp only [← hget, Option.map_eq_some_iff, OrderedMap.get_eq_some_iff, getEdges, OrderedMap.values, List.mem_map]
  constructor
  · rintro ⟨_, ⟨entry, hentry, rfl⟩, hkey⟩
    exact ⟨entry.1, entry.2, hentry, hkey⟩
  · rintro ⟨id, edge, hentry, hkey⟩
    exact ⟨edge, ⟨(id, edge), hentry, rfl⟩, hkey⟩

/-- The database a project is loaded into when it was fresh. -/
def loadProject : KuzuStore :=
  let builder := build host rootPath P options
  (KuzuStore.initSchema.load builder.getNodes builder.getEdges).1

theorem get_loadProject (id : String) : (loadProject host rootPath P options).nodes.get id =
    ((pushedNodes host rootPath P options).filter fun node => node.id = id).getLast?.map KuzuStore.rowOf := by
  have hnodup : ((build host rootPath P options).getNodes.map GraphNode.id).Nodup :=
    map_id_getNodes host rootPath P options ▸ OrderedMap.nodup_keys _
  rw [← get_build_nodes]
  cases hget : (build host rootPath P options).nodes.get id with
  | none =>
    refine OrderedMap.get_eq_none_iff.mpr fun hmem => ?_
    rw [loadProject, KuzuStore.mem_nodes_load, map_id_getNodes] at hmem
    exact OrderedMap.get_eq_none_iff.mp hget hmem
  | some node =>
    have hid : node.id = id := by
      have hlast := get_build_nodes host rootPath P options id
      rw [hget] at hlast
      exact of_decide_eq_true (List.mem_filter.mp (List.mem_of_getLast? hlast.symm)).2
    have hnode : node ∈ (build host rootPath P options).getNodes :=
      List.mem_map_of_mem (OrderedMap.get_eq_some_iff.mp hget)
    rw [← hid]
    exact KuzuStore.get_nodes_load hnodup _ _ hnode

/-- A relationship is in the database when it came first under its id and both
of its ends were merged as nodes. -/
theorem mem_loadProject_edges {key : EdgeKey} :
    key ∈ (loadProject host rootPath P options).edges.keys ↔
      (∃ id, ((pushedEdges host rootPath P options).find? fun edge => edge.id = id).map KuzuStore.keyOf = some key) ∧
        key.source ∈ (pushedNodes host rootPath P options).map GraphNode.id ∧
        key.target ∈ (pushedNodes host rootPath P options).map GraphNode.id := by
  rw [loadProject, KuzuStore.mem_edges_load, ← exists_getEdges_iff]
  simp only [mem_ids_getNodes]
  constructor
  · rintro ⟨edge, hedge, rfl, hends⟩
    exact ⟨⟨edge, hedge, rfl⟩, hends⟩
  · rintro ⟨⟨edge, hedge, rfl⟩, hends⟩
    exact ⟨edge, hedge, rfl, hends⟩

end Build

end codespine.extract.GraphBuilder
