import Codespine.Store.KuzuStore

open codespine.schema

namespace codespine.store.KuzuStore

variable {store : KuzuStore}

@[simp] theorem edges_setMetadata (store : KuzuStore) (id : String) (metadata : Metadata) :
    (store.setMetadata id metadata).edges = store.edges := by
  unfold setMetadata
  split <;> rfl

@[simp] theorem graphMeta_setMetadata (store : KuzuStore) (id : String) (metadata : Metadata) :
    (store.setMetadata id metadata).graphMeta = store.graphMeta := by
  unfold setMetadata
  split <;> rfl

/-- A metadata write replaces one column of one row. -/
theorem entries_setMetadata (store : KuzuStore) (id : String) (metadata : Metadata) :
    (store.setMetadata id metadata).nodes.entries = store.nodes.entries.map fun entry =>
      if entry.1 = id then (entry.1, { entry.2 with metadata }) else entry := by
  unfold setMetadata
  split
  · next row hrow =>
    change (store.nodes.set id { row with metadata }).entries = _
    rw [OrderedMap.entries_set_of_mem (OrderedMap.mem_keys_of_get hrow)]
    refine List.map_congr_left fun entry hentry => ?_
    split
    · next hid =>
      have hsame : store.nodes.get entry.1 = some entry.2 := OrderedMap.get_eq_some_iff.mpr hentry
      rw [hid, hrow] at hsame
      rw [Option.some.inj hsame, hid]
    · rfl
  · next hnone =>
    refine ((List.map_congr_left (g := fun entry => entry) fun entry hentry => ?_).trans (List.map_id' _)).symm
    refine if_neg fun hid => ?_
    have hsame : store.nodes.get entry.1 = some entry.2 := OrderedMap.get_eq_some_iff.mpr hentry
    rw [hid, hnone] at hsame
    cases hsame

/-- Rows written anew under their ids leave the ids alone. -/
theorem keys_of_entries_eq_map {before after : KuzuStore} {f : String × NodeRow → NodeRow}
    (h : after.nodes.entries = before.nodes.entries.map fun entry => (entry.1, f entry)) :
    after.nodes.keys = before.nodes.keys := by
  unfold OrderedMap.keys
  rw [h, List.map_map]
  rfl

@[simp] theorem edges_writeNodeMetadata (store : KuzuStore) (entries : List (String × Metadata)) :
    (store.writeNodeMetadata entries).edges = store.edges := by
  unfold writeNodeMetadata
  induction entries generalizing store with
  | nil => rfl
  | cons entry rest ih => rw [List.foldl_cons, ih, edges_setMetadata]

@[simp] theorem graphMeta_writeNodeMetadata (store : KuzuStore) (entries : List (String × Metadata)) :
    (store.writeNodeMetadata entries).graphMeta = store.graphMeta := by
  unfold writeNodeMetadata
  induction entries generalizing store with
  | nil => rfl
  | cons entry rest ih => rw [List.foldl_cons, ih, graphMeta_setMetadata]

/-- The rows after a batch of metadata writes, one for each id at most. -/
theorem entries_writeNodeMetadata (store : KuzuStore) {entries : List (String × Metadata)}
    (hdistinct : (entries.map Prod.fst).Nodup) :
    (store.writeNodeMetadata entries).nodes.entries = store.nodes.entries.map fun entry =>
      (entry.1, { entry.2 with metadata := (OrderedMap.lookup entry.1 entries).getD entry.2.metadata }) := by
  unfold writeNodeMetadata
  induction entries generalizing store with
  | nil => exact (List.map_id _).symm
  | cons write rest ih =>
    rw [List.map_cons, List.nodup_cons] at hdistinct
    rw [List.foldl_cons, ih _ hdistinct.2, entries_setMetadata, List.map_map]
    refine List.map_congr_left fun entry _ => ?_
    rw [Function.comp_apply]
    by_cases hid : entry.1 = write.1
    · rw [if_pos hid, OrderedMap.lookup_eq_none_iff.mpr (hid ▸ hdistinct.1), OrderedMap.lookup, if_pos hid.symm]
      rfl
    · rw [if_neg hid, OrderedMap.lookup, if_neg (Ne.symm hid)]

@[simp] theorem nodes_mergeEdge (store : KuzuStore) (edge : GraphEdge) :
    (store.mergeEdge edge).nodes = store.nodes := by
  unfold mergeEdge
  split <;> rfl

@[simp] theorem graphMeta_mergeEdge (store : KuzuStore) (edge : GraphEdge) :
    (store.mergeEdge edge).graphMeta = store.graphMeta := by
  unfold mergeEdge
  split <;> rfl

theorem edges_mergeEdge (store : KuzuStore) (edge : GraphEdge) : (store.mergeEdge edge).edges =
    if edge.source ∈ store.nodes.keys ∧ edge.target ∈ store.nodes.keys
    then store.edges.set ⟨edge.source, edge.target, edge.kind⟩ (edge.metadata.getD ∅) else store.edges := by
  unfold mergeEdge
  split <;> rfl

@[simp] theorem nodes_writeEdges (store : KuzuStore) (edges : List GraphEdge) :
    (store.writeEdges edges).nodes = store.nodes := by
  unfold writeEdges
  induction edges generalizing store with
  | nil => rfl
  | cons edge rest ih => rw [List.foldl_cons, ih, nodes_mergeEdge]

@[simp] theorem graphMeta_writeEdges (store : KuzuStore) (edges : List GraphEdge) :
    (store.writeEdges edges).graphMeta = store.graphMeta := by
  unfold writeEdges
  induction edges generalizing store with
  | nil => rfl
  | cons edge rest ih => rw [List.foldl_cons, ih, graphMeta_mergeEdge]

/-- Edge writes see of the nodes only which ids there are. -/
theorem edges_writeEdges_congr {store store' : KuzuStore} (hkeys : store.nodes.keys = store'.nodes.keys)
    (hedges : store.edges = store'.edges) (edges : List GraphEdge) :
    (store.writeEdges edges).edges = (store'.writeEdges edges).edges := by
  unfold writeEdges
  induction edges generalizing store store' with
  | nil => exact hedges
  | cons edge rest ih =>
    rw [List.foldl_cons, List.foldl_cons]
    refine ih ?_ ?_
    · rw [nodes_mergeEdge, nodes_mergeEdge, hkeys]
    · rw [edges_mergeEdge, edges_mergeEdge, hkeys, hedges]

@[simp] theorem nodes_clearEdgesByKind (store : KuzuStore) (kind : EdgeKind) :
    (store.clearEdgesByKind kind).nodes = store.nodes := rfl

@[simp] theorem graphMeta_clearEdgesByKind (store : KuzuStore) (kind : EdgeKind) :
    (store.clearEdgesByKind kind).graphMeta = store.graphMeta := rfl

theorem edges_clearEdgesByKind (store : KuzuStore) (kind : EdgeKind) :
    (store.clearEdgesByKind kind).edges = store.edges.filter fun key _ => key.kind ≠ kind := rfl

/-- Clearing a kind forgets every edge of it, whenever it was written. -/
theorem clear_writeEdges {kind : EdgeKind} {edges : List GraphEdge} (hkind : ∀ edge ∈ edges, edge.kind = kind)
    (store : KuzuStore) :
    ((store.writeEdges edges).clearEdgesByKind kind).edges = (store.clearEdgesByKind kind).edges := by
  unfold writeEdges
  rw [edges_clearEdgesByKind, edges_clearEdgesByKind]
  induction edges generalizing store with
  | nil => rfl
  | cons edge rest ih =>
    rw [List.foldl_cons, ih fun e he => hkind e (List.mem_cons_of_mem _ he), edges_mergeEdge]
    split
    · refine OrderedMap.filter_set_of_not (fun _ => ?_) _
      simp [hkind edge List.mem_cons_self]
    · rfl

theorem clear_clear (store : KuzuStore) (kind : EdgeKind) :
    ((store.clearEdgesByKind kind).clearEdgesByKind kind).edges = (store.clearEdgesByKind kind).edges := by
  refine OrderedMap.ext ?_
  change (store.edges.entries.filter _).filter _ = store.edges.entries.filter _
  rw [List.filter_filter]
  simp

theorem readNodes_ids (store : KuzuStore) : store.readNodes.map StoredNode.id = store.nodes.keys := by
  unfold readNodes OrderedMap.keys
  rw [List.map_map]
  rfl

theorem readNodes_nodup (store : KuzuStore) : (store.readNodes.map StoredNode.id).Nodup :=
  readNodes_ids store ▸ store.nodes.nodup_keys

/-- The nodes by id carry the metadata of their rows. -/
theorem metadata_byId (store : KuzuStore) {entry : String × NodeRow} (hentry : entry ∈ store.nodes.entries) :
    ((OrderedMap.ofList (store.readNodes.map fun node => (node.id, node))).get entry.1).map StoredNode.metadata =
      some entry.2.metadata := by
  have hmem : (entry.1, (⟨entry.1, entry.2.kind, entry.2.name, entry.2.filePath, entry.2.startLine,
      entry.2.endLine, entry.2.metadata⟩ : StoredNode)) ∈ store.readNodes.map fun node => (node.id, node) := by
    unfold readNodes
    rw [List.map_map]
    exact List.mem_map.mpr ⟨entry, hentry, rfl⟩
  have hnodup : ((store.readNodes.map fun node => (node.id, node)).map Prod.fst).Nodup := by
    rw [List.map_map]
    exact readNodes_nodup store
  rw [OrderedMap.get_ofList_of_mem hnodup hmem]
  rfl

end codespine.store.KuzuStore
