import Codespine.Cluster.GraphClusterer
import Codespine.Store.KuzuStore.Writes

open codespine.schema codespine.store codespine.store.KuzuStore

namespace codespine.cluster.GraphClusterer

/-- A row's metadata after a run: its community and label, if it is in the
partition. -/
def withCommunity (communityOf : OrderedMap String ℕ) (labels : OrderedMap ℕ String) (id : String)
    (metadata : Metadata) : Metadata :=
  match communityOf.get id with
  | some index =>
    (metadata.set COMMUNITY_METADATA_KEY (.num index)).set COMMUNITY_LABEL_METADATA_KEY (.str (labelOf labels index))
  | none => metadata

theorem updates_eq (store : KuzuStore) (communityOf : OrderedMap String ℕ) (labels : OrderedMap ℕ String) :
    updates store.readNodes communityOf labels = store.nodes.entries.filterMap fun entry =>
      ((communityOf.get entry.1).map fun index => (entry.2.metadata.set COMMUNITY_METADATA_KEY (.num index)).set
        COMMUNITY_LABEL_METADATA_KEY (.str (labelOf labels index))).map fun metadata => (entry.1, metadata) := by
  simp only [updates, readNodes, List.filterMap_map, Option.map_map, Function.comp_def]

theorem nodup_updates (store : KuzuStore) (communityOf : OrderedMap String ℕ) (labels : OrderedMap ℕ String) :
    ((updates store.readNodes communityOf labels).map Prod.fst).Nodup := by
  rw [updates_eq]
  exact OrderedMap.nodup_filterMap _ store.nodes.nodup

/-- A run changes of the node rows only the metadata of those in the
partition. -/
theorem entries_assign (store : KuzuStore) (result : CommunityResult) (labels : OrderedMap ℕ String) (resolution : ℚ) :
    (assign store result labels resolution).nodes.entries = store.nodes.entries.map fun entry =>
      (entry.1, { entry.2 with metadata := withCommunity result.communityOf labels entry.1 entry.2.metadata }) := by
  change (store.writeNodeMetadata _).nodes.entries = _
  rw [entries_writeNodeMetadata store (nodup_updates store _ _)]
  refine List.map_congr_left fun entry hentry => ?_
  have hlookup := OrderedMap.lookup_filterMap (fun entry : String × NodeRow =>
    (result.communityOf.get entry.1).map fun index : ℕ => (entry.2.metadata.set COMMUNITY_METADATA_KEY (.num index)).set
      COMMUNITY_LABEL_METADATA_KEY (.str (labelOf labels index))) store.nodes.nodup entry.1
  rw [updates_eq, hlookup, OrderedMap.lookup_of_mem store.nodes.nodup hentry, withCommunity, Option.bind_some]
  cases result.communityOf.get entry.1 <;> rfl

@[simp] theorem edges_assign (store : KuzuStore) (result : CommunityResult) (labels : OrderedMap ℕ String)
    (resolution : ℚ) : (assign store result labels resolution).edges = store.edges :=
  edges_writeNodeMetadata store _

theorem graphMeta_assign (store : KuzuStore) (result : CommunityResult) (labels : OrderedMap ℕ String)
    (resolution : ℚ) : (assign store result labels resolution).graphMeta =
      store.graphMeta.set CLUSTERING_MANIFEST_KEY (manifest result labels resolution) := by
  change (store.writeNodeMetadata _).graphMeta.set _ _ = _
  rw [graphMeta_writeNodeMetadata]

theorem get_community_withCommunity (communityOf : OrderedMap String ℕ) (labels : OrderedMap ℕ String) (id : String)
    (metadata : Metadata) : (withCommunity communityOf labels id metadata).get COMMUNITY_METADATA_KEY =
      ((communityOf.get id).map fun index : ℕ => Json.num index).or (metadata.get COMMUNITY_METADATA_KEY) := by
  unfold withCommunity
  cases communityOf.get id with
  | none => rfl
  | some index =>
    have hne : COMMUNITY_METADATA_KEY ≠ COMMUNITY_LABEL_METADATA_KEY := by decide
    dsimp only
    rw [OrderedMap.get_set_ne hne, OrderedMap.get_set_self]
    rfl

theorem get_label_withCommunity {communityOf : OrderedMap String ℕ} {labels : OrderedMap ℕ String} {id : String}
    {index : ℕ} (hindex : communityOf.get id = some index) (metadata : Metadata) :
    (withCommunity communityOf labels id metadata).get COMMUNITY_LABEL_METADATA_KEY =
      some (.str (labelOf labels index)) := by
  unfold withCommunity
  rw [hindex]
  exact OrderedMap.get_set_self _ _ _

/-- The label of each community is in its place in the manifest. -/
theorem get_labels_manifest (result : CommunityResult) (labels : OrderedMap ℕ String) (resolution : ℚ) :
    (manifest result labels resolution).get "labels" =
      some (.arr ((orderLabels labels result.communityCount).map .str)) := by
  refine OrderedMap.get_ofList_of_mem ?_ ?_
  · simp
  · simp

theorem getElem?_orderLabels {labels : OrderedMap ℕ String} {count index : ℕ} (h : index < count) :
    ((orderLabels labels count).map Json.str)[index]? = some (.str (labelOf labels index)) := by
  simp [orderLabels, h]

end codespine.cluster.GraphClusterer
