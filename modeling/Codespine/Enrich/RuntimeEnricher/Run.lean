import Codespine.Enrich.RuntimeEnricher
import Codespine.Enrich.RuntimeJoin.Conservation
import Codespine.Store.KuzuStore.Writes

open codespine.schema codespine.store codespine.store.KuzuStore

namespace codespine.enrich

namespace StoreM

variable {α β : Type}

@[simp] theorem exec_get (store : KuzuStore) : (get : StoreM KuzuStore).exec store = (.ok store, store) := rfl

@[simp] theorem exec_modify (f : KuzuStore → KuzuStore) (store : KuzuStore) :
    (modify f : StoreM PUnit).exec store = (.ok ⟨⟩, f store) := rfl

@[simp] theorem exec_liftM (outcome : Except HostError α) (store : KuzuStore) :
    (liftM outcome : StoreM α).exec store = (outcome, store) := rfl

/-- A throw skips what follows and keeps the database as it then is. -/
theorem exec_bind (action : StoreM α) (next : α → StoreM β) (store : KuzuStore) :
    (action >>= next).exec store =
      match action.exec store with
      | (.ok a, store) => (next a).exec store
      | (.error e, store) => (.error e, store) := by
  change StateT.run (action.run >>= ExceptT.bindCont next) store = _
  rcases hrun : action.exec store with ⟨_ | a, store'⟩ <;>
  · change (ExceptT.bindCont next (action.exec store).1).run (action.exec store).2 = _
    rw [hrun]
    rfl

end StoreM

namespace RuntimeEnricher
variable {host : Host} {root : String}

/-- The first two writes of a run: node metadata and manifest. -/
def annotate (store : KuzuStore) (profile : CpuProfileData) (result : RuntimeJoinResult) : KuzuStore :=
  (store.writeNodeMetadata (updates store.readNodes result.attributions)).writeGraphMeta RUNTIME_MANIFEST_KEY
    (manifest profile result).toRecord

/-- The other two: the runtime call edges, cleared and written anew. -/
def rewire (store : KuzuStore) (edgeResult : RuntimeCallJoinResult) : KuzuStore :=
  (store.clearEdgesByKind RUNTIME_CALL_EDGE_KIND).writeEdges (edgeResult.edges.map toCallEdge)

/-- The nodes of a database as the join sees them. -/
def targetsOf (store : KuzuStore) : List RuntimeTargetNode := store.readNodes.map targetOf

/-- A run in full: what throws, after which writes, and what a successful run
leaves behind. -/
theorem exec_enrich (profileText : String) (store : KuzuStore) :
    (enrich host profileText root).exec store =
      match CpuProfile.parse host profileText with
      | .error e => (.error e, store)
      | .ok profile =>
        match RuntimeJoin.join host (targetsOf store) (CpuProfile.aggregate profile) root with
        | .error e => (.error e, store)
        | .ok result =>
          match RuntimeJoin.joinCallEdges host (targetsOf store) (CpuProfile.callEdges profile) root with
          | .error e => (.error e, annotate store profile result)
          | .ok edgeResult =>
            (.ok (report store.readNodes profile result edgeResult),
              rewire (annotate store profile result) edgeResult) := by
  unfold enrich targetsOf
  simp only [StoreM.exec_bind, StoreM.exec_liftM]
  cases CpuProfile.parse host profileText with
  | error e => rfl
  | ok profile =>
    simp only [StoreM.exec_get]
    cases RuntimeJoin.join host (store.readNodes.map targetOf) (CpuProfile.aggregate profile) root with
    | error e => rfl
    | ok result =>
      simp only [StoreM.exec_modify]
      cases RuntimeJoin.joinCallEdges host (store.readNodes.map targetOf) (CpuProfile.callEdges profile) root with
      | error e => rfl
      | ok edgeResult => rfl

/-- A row's metadata after a run: the metrics of its attribution go under
`runtime`, if it has one. -/
def withRuntime (attributions : OrderedMap String RuntimeAttribution) (id : String) (metadata : Metadata) :
    Metadata :=
  match attributions.get id with
  | some attribution => metadata.set RUNTIME_METADATA_KEY (toMetrics attribution).toJson
  | none => metadata

theorem get_nodesById (store : KuzuStore) {entry : String × NodeRow} (hentry : entry ∈ store.nodes.entries) :
    ((nodesById store.readNodes).get entry.1).map StoredNode.metadata = some entry.2.metadata :=
  metadata_byId store hentry

theorem updates_eq (nodes : List StoredNode) (attributions : OrderedMap String RuntimeAttribution) :
    updates nodes attributions = attributions.entries.filterMap fun attributed =>
      (((nodesById nodes).get attributed.1).map fun node =>
        node.metadata.set RUNTIME_METADATA_KEY (toMetrics attributed.2).toJson).map fun metadata =>
          (attributed.1, metadata) := by
  simp only [updates, Option.map_map, Function.comp_def]

theorem nodup_updates (nodes : List StoredNode) (attributions : OrderedMap String RuntimeAttribution) :
    ((updates nodes attributions).map Prod.fst).Nodup := by
  rw [updates_eq]
  exact OrderedMap.nodup_filterMap _ attributions.nodup

/-- A run changes of the node rows only the metadata, and of the metadata only
the runtime key of attributed nodes. -/
theorem entries_annotate (store : KuzuStore) (profile : CpuProfileData) (result : RuntimeJoinResult) :
    (annotate store profile result).nodes.entries = store.nodes.entries.map fun entry =>
      (entry.1, { entry.2 with metadata := withRuntime result.attributions entry.1 entry.2.metadata }) := by
  change (store.writeNodeMetadata (updates store.readNodes result.attributions)).nodes.entries = _
  rw [entries_writeNodeMetadata store (nodup_updates _ _)]
  refine List.map_congr_left fun entry hentry => ?_
  have hnode := get_nodesById store hentry
  have hlookup := OrderedMap.lookup_filterMap (fun attributed : String × RuntimeAttribution =>
    ((nodesById store.readNodes).get attributed.1).map fun node =>
      node.metadata.set RUNTIME_METADATA_KEY (toMetrics attributed.2).toJson) result.attributions.nodup entry.1
  rw [updates_eq, hlookup, withRuntime, OrderedMap.get]
  obtain ⟨node, hget, hmetadata⟩ := Option.map_eq_some_iff.mp hnode
  cases OrderedMap.lookup entry.1 result.attributions.entries with
  | none => rfl
  | some attribution => simp [hget, hmetadata]

@[simp] theorem edges_annotate (store : KuzuStore) (profile : CpuProfileData) (result : RuntimeJoinResult) :
    (annotate store profile result).edges = store.edges :=
  edges_writeNodeMetadata store _

theorem graphMeta_annotate (store : KuzuStore) (profile : CpuProfileData) (result : RuntimeJoinResult) :
    (annotate store profile result).graphMeta =
      store.graphMeta.set RUNTIME_MANIFEST_KEY (manifest profile result).toRecord := by
  change (store.writeNodeMetadata _).graphMeta.set _ _ = _
  rw [graphMeta_writeNodeMetadata]

@[simp] theorem nodes_rewire (store : KuzuStore) (edgeResult : RuntimeCallJoinResult) :
    (rewire store edgeResult).nodes = store.nodes := by
  simp [rewire]

@[simp] theorem graphMeta_rewire (store : KuzuStore) (edgeResult : RuntimeCallJoinResult) :
    (rewire store edgeResult).graphMeta = store.graphMeta := by
  simp [rewire]

theorem keys_annotate (store : KuzuStore) (profile : CpuProfileData) (result : RuntimeJoinResult) :
    (annotate store profile result).nodes.keys = store.nodes.keys :=
  keys_of_entries_eq_map (entries_annotate store profile result)

/-- The join never sees what a run writes. -/
theorem targetsOf_annotate (store : KuzuStore) (profile : CpuProfileData) (result : RuntimeJoinResult) :
    targetsOf (annotate store profile result) = targetsOf store := by
  unfold targetsOf readNodes
  rw [entries_annotate, List.map_map, List.map_map, List.map_map]
  rfl

end RuntimeEnricher

end codespine.enrich
