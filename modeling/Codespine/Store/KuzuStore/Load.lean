import Codespine.Store.KuzuStore.Writes

open codespine.schema

namespace codespine.store.KuzuStore

/-- What the store identifies the relationship of an edge by. -/
def keyOf (edge : GraphEdge) : EdgeKey := ⟨edge.source, edge.target, edge.kind⟩

theorem nodes_foldl_mergeNode (nodes : List GraphNode) (store : KuzuStore) :
    (nodes.foldl (fun s node => s.mergeNode node.id (rowOf node)) store).nodes =
      nodes.foldl (fun rows node => rows.set node.id (rowOf node)) store.nodes := by
  induction nodes generalizing store with
  | nil => rfl
  | cons node rest ih => exact ih _

theorem edges_foldl_mergeNode (nodes : List GraphNode) (store : KuzuStore) :
    (nodes.foldl (fun s node => s.mergeNode node.id (rowOf node)) store).edges = store.edges := by
  induction nodes generalizing store with
  | nil => rfl
  | cons node rest ih => exact ih _

theorem nodes_load (store : KuzuStore) (nodes : List GraphNode) (edges : List GraphEdge) :
    (store.load nodes edges).1.nodes = nodes.foldl (fun rows node => rows.set node.id (rowOf node)) store.nodes :=
  (nodes_writeEdges _ _).trans (nodes_foldl_mergeNode nodes store)

theorem graphMeta_load (store : KuzuStore) (nodes : List GraphNode) (edges : List GraphEdge) :
    (store.load nodes edges).1.graphMeta = store.graphMeta := by
  have hmerged : ∀ (rows : List GraphNode) (store : KuzuStore),
      (rows.foldl (fun s node => s.mergeNode node.id (rowOf node)) store).graphMeta = store.graphMeta := by
    intro rows
    induction rows with
    | nil => exact fun _ => rfl
    | cons node rest ih => exact fun store => ih _
  exact (graphMeta_writeEdges _ _).trans (hmerged nodes store)

/-- The relationships that edges are written as, between nodes of the given ids. -/
def relationships (ids : List String) (edges : List GraphEdge) : List (EdgeKey × Metadata) :=
  (edges.filter fun edge => edge.source ∈ ids ∧ edge.target ∈ ids).map fun edge => (keyOf edge, edge.metadata.getD ∅)

theorem edges_writeEdges (store : KuzuStore) (edges : List GraphEdge) : (store.writeEdges edges).edges =
    (relationships store.nodes.keys edges).foldl (fun written entry => written.set entry.1 entry.2) store.edges := by
  unfold writeEdges relationships
  induction edges generalizing store with
  | nil => rfl
  | cons edge rest ih =>
    rw [List.foldl_cons, ih, nodes_mergeEdge, edges_mergeEdge]
    split
    · next hends =>
      rw [List.filter_cons, if_pos (decide_eq_true hends)]
      rfl
    · next hends => rw [List.filter_cons, if_neg (by simpa only [decide_eq_true_eq] using hends)]

/-- A node of the list is stored under its id, when it is the only one. -/
theorem get_nodes_load {nodes : List GraphNode} (hnodup : (nodes.map GraphNode.id).Nodup) (store : KuzuStore)
    (edges : List GraphEdge) {node : GraphNode} (hnode : node ∈ nodes) :
    (store.load nodes edges).1.nodes.get node.id = some (rowOf node) := by
  rw [nodes_load]
  generalize store.nodes = rows
  induction nodes generalizing rows with
  | nil => exact absurd hnode List.not_mem_nil
  | cons first rest ih =>
    rw [List.map_cons, List.nodup_cons] at hnodup
    rw [List.foldl_cons]
    obtain rfl | hmem := List.mem_cons.mp hnode
    · have hrest := OrderedMap.get_foldl_set (rest.map fun node => (node.id, rowOf node))
        (rows.set node.id (rowOf node)) (k := node.id) (by rw [List.map_map]; exact hnodup.1)
      rw [List.foldl_map] at hrest
      rw [hrest, OrderedMap.get_set_self]
    · exact ih hnodup.2 hmem _

theorem mem_keys_foldl_set {nodes : List GraphNode} {rows : OrderedMap String NodeRow} {id : String} :
    id ∈ (nodes.foldl (fun rows node => rows.set node.id (rowOf node)) rows).keys ↔
      id ∈ rows.keys ∨ id ∈ nodes.map GraphNode.id := by
  have h := OrderedMap.mem_keys_foldl_set (l := nodes.map fun node => (node.id, rowOf node)) (m := rows) (k := id)
  rw [List.foldl_map, List.map_map] at h
  exact h

/-- A load writes the relationships between the nodes it is given. -/
theorem edges_load (store : KuzuStore) (nodes : List GraphNode) (edges : List GraphEdge) :
    (store.load nodes edges).1.edges = (relationships (nodes.map GraphNode.id) edges).foldl
      (fun written entry => written.set entry.1 entry.2) store.edges := by
  set merged := nodes.foldl (fun s node => s.mergeNode node.id (rowOf node)) store
  have hload : (store.load nodes edges).1 = merged.writeEdges (edges.filter fun edge =>
      edge.source ∈ (nodes.map GraphNode.id).dedup ∧ edge.target ∈ (nodes.map GraphNode.id).dedup) := rfl
  have hkeys : ∀ id ∈ nodes.map GraphNode.id, id ∈ merged.nodes.keys := by
    intro id hid
    rw [nodes_foldl_mergeNode]
    exact mem_keys_foldl_set.mpr (Or.inr hid)
  rw [hload, edges_writeEdges, edges_foldl_mergeNode]
  unfold relationships
  rw [List.filter_filter]
  refine congrArg (fun kept => (List.map _ kept).foldl _ _) (List.filter_congr fun edge _ => ?_)
  simp only [List.mem_dedup, ← Bool.decide_and, decide_eq_decide]
  exact and_iff_right_of_imp fun h => ⟨hkeys _ h.1, hkeys _ h.2⟩

theorem mem_nodes_load {nodes : List GraphNode} {edges : List GraphEdge} {id : String} :
    id ∈ (initSchema.load nodes edges).1.nodes.keys ↔ id ∈ nodes.map GraphNode.id := by
  rw [nodes_load, mem_keys_foldl_set]
  exact or_iff_right List.not_mem_nil

theorem mem_edges_writeEdges {store : KuzuStore} {edges : List GraphEdge} {key : EdgeKey} :
    key ∈ (store.writeEdges edges).edges.keys ↔ key ∈ store.edges.keys ∨
      ∃ edge ∈ edges, keyOf edge = key ∧ edge.source ∈ store.nodes.keys ∧ edge.target ∈ store.nodes.keys := by
  unfold writeEdges
  induction edges generalizing store with
  | nil => simp
  | cons edge rest ih =>
    rw [List.foldl_cons, ih, nodes_mergeEdge, edges_mergeEdge]
    simp only [List.mem_cons, exists_eq_or_imp]
    split
    · next hends =>
      rw [OrderedMap.mem_keys_set, or_assoc]
      refine or_congr_right (or_congr_left ?_)
      exact ⟨fun h => ⟨h.symm, hends⟩, fun h => h.1.symm⟩
    · next hends =>
      refine or_congr_right ?_
      exact ⟨Or.inr, fun h => h.resolve_left fun hedge => hends hedge.2⟩

/-- A fresh store holds the relationships whose ends were both loaded. -/
theorem mem_edges_load {nodes : List GraphNode} {edges : List GraphEdge} {key : EdgeKey} :
    key ∈ (initSchema.load nodes edges).1.edges.keys ↔
      ∃ edge ∈ edges, keyOf edge = key ∧ edge.source ∈ nodes.map GraphNode.id ∧ edge.target ∈ nodes.map GraphNode.id := by
  set merged := nodes.foldl (fun s node => s.mergeNode node.id (rowOf node)) initSchema
  set nodeIds := (nodes.map GraphNode.id).dedup with hnodeIds
  have hload : (initSchema.load nodes edges).1 =
      merged.writeEdges (edges.filter fun edge => edge.source ∈ nodeIds ∧ edge.target ∈ nodeIds) := rfl
  have hempty : merged.edges.keys = [] := by rw [edges_foldl_mergeNode]; rfl
  have hnodes : ∀ id, id ∈ merged.nodes.keys ↔ id ∈ nodes.map GraphNode.id := by
    intro id
    rw [nodes_foldl_mergeNode, mem_keys_foldl_set]
    exact or_iff_right List.not_mem_nil
  rw [hload, mem_edges_writeEdges, hempty]
  simp only [List.not_mem_nil, false_or, List.mem_filter, hnodes, hnodeIds, List.mem_dedup, decide_eq_true_eq]
  constructor
  · rintro ⟨edge, ⟨hedge, _⟩, hkey, hends⟩
    exact ⟨edge, hedge, hkey, hends⟩
  · rintro ⟨edge, hedge, hkey, hends⟩
    exact ⟨edge, ⟨hedge, hends⟩, hkey, hends⟩

end codespine.store.KuzuStore
