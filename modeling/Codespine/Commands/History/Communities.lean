import Codespine.Cluster.CommunityDetector.Partition
import Codespine.Commands.ClusterCommand.Rename
import Codespine.Commands.History
import Codespine.Report.ReportData

open codespine.schema codespine.store codespine.store.KuzuStore codespine.enrich codespine.cluster
open codespine.cluster.GraphClusterer codespine.commands.ClusterCommand codespine.report

namespace codespine.commands

variable {library : NetworkAnalysis} {store : KuzuStore} {weights : EdgeKind → ℚ} {options : CommunityOptions}

/-- The partition that a clustering of a database detects. -/
def partitionOf (library : NetworkAnalysis) (store : KuzuStore) (weights : EdgeKind → ℚ) (options : CommunityOptions) :
    CommunityResult :=
  CommunityDetector.detect library (readWeightedEdges store weights) options

/-- The community metadata of a database is a partition: the nodes that carry
any are those of the partition, each carries its index and the label reported
for that, and the nodes of each community are as many as its size. -/
structure IsPartition (communityOf : OrderedMap String ℕ) (report : ClusterReport) (store : KuzuStore) : Prop where
  keys : ∀ node ∈ store.readNodes, node.metadata.get COMMUNITY_METADATA_KEY ≠ none → node.id ∈ communityOf.keys
  members : ∀ id index, communityOf.get id = some index → ∃ node ∈ store.readNodes, node.id = id ∧
    node.metadata.get COMMUNITY_METADATA_KEY = some (.num index) ∧ ∃ label, report.labels[index]? = some label ∧
      node.metadata.get COMMUNITY_LABEL_METADATA_KEY = some (.str label)
  sizes : ∀ index : ℕ, (ReportData.communitySizes store.readNodes).getD index 0 = report.sizes.getD index 0

/-- Every node that carries a community is touched by an edge of a kind that
has weight, and there is a random start. -/
def Touched (store : KuzuStore) (weights : EdgeKind → ℚ) (options : CommunityOptions) : Prop :=
  ∀ node ∈ store.readNodes, node.metadata.get COMMUNITY_METADATA_KEY ≠ none → 0 < options.randomStarts ∧
    ∃ key ∈ store.edges.keys, 0 < weights key.kind ∧ (node.id = key.source ∨ node.id = key.target)

theorem mem_keys_partitionOf {id : String} : id ∈ (partitionOf library store weights options).communityOf.keys ↔
    0 < options.randomStarts ∧
      ∃ key ∈ store.edges.keys, 0 < weights key.kind ∧ (id = key.source ∨ id = key.target) := by
  unfold partitionOf
  rw [CommunityDetector.mem_keys_communityOf]
  simp only [readWeightedEdges, weightedRows, OrderedMap.keys, List.mem_map, List.mem_filter, decide_eq_true_eq]
  refine and_congr_right fun _ => ⟨?_, ?_⟩
  · rintro ⟨_, ⟨entry, ⟨hentry, hweight⟩, rfl⟩, hid⟩
    exact ⟨entry.1, ⟨entry, hentry, rfl⟩, hweight, hid⟩
  · rintro ⟨_, ⟨entry, hentry, rfl⟩, hweight, hid⟩
    exact ⟨_, ⟨entry, ⟨hentry, hweight⟩, rfl⟩, hid⟩

/-- The nodes of a partition are stored. -/
theorem mem_nodes_of_partitionOf {id : String}
    (h : id ∈ (partitionOf library store weights options).communityOf.keys) : id ∈ store.nodes.keys := by
  obtain ⟨_, key, hkey, _, rfl | rfl⟩ := mem_keys_partitionOf.mp h
  · exact (store.endpoints key hkey).1
  · exact (store.endpoints key hkey).2

/-- A node as a clustering leaves it. -/
def assigned (communityOf : OrderedMap String ℕ) (labels : OrderedMap ℕ String) (node : StoredNode) : StoredNode :=
  { node with metadata := withCommunity communityOf labels node.id node.metadata }

/-- The nodes after a clustering. -/
theorem readNodes_cluster (library : NetworkAnalysis) (store : KuzuStore) (weights : EdgeKind → ℚ)
    (options : CommunityOptions) : ∃ labels,
      (cluster library store weights options).1.labels =
        orderLabels labels (partitionOf library store weights options).communityCount ∧
      (cluster library store weights options).2.readNodes =
        store.readNodes.map (assigned (partitionOf library store weights options).communityOf labels) := by
  refine ⟨labelsOf store (readWeightedEdges store weights) (partitionOf library store weights options).communityOf,
    rfl, ?_⟩
  change (assign store _ _ _).readNodes = _
  unfold readNodes
  rw [entries_assign, List.map_map, List.map_map]
  rfl

section Assigned

variable {communityOf : OrderedMap String ℕ} (hstored : ∀ id ∈ communityOf.keys, id ∈ store.nodes.keys)

include hstored

/-- Every node of the partition gets its index and the label of that. -/
theorem exists_assigned (labels : OrderedMap ℕ String) {id : String} {index : ℕ}
    (hindex : communityOf.get id = some index) :
    ∃ node ∈ store.readNodes.map (assigned communityOf labels), node.id = id ∧
      node.metadata.get COMMUNITY_METADATA_KEY = some (.num index) ∧
      node.metadata.get COMMUNITY_LABEL_METADATA_KEY = some (.str (labelOf labels index)) := by
  have hid := hstored id (OrderedMap.mem_keys_of_get hindex)
  rw [← readNodes_ids] at hid
  obtain ⟨node, hnode, rfl⟩ := List.mem_map.mp hid
  refine ⟨_, List.mem_map_of_mem hnode, rfl, ?_, get_label_withCommunity hindex _⟩
  unfold assigned
  rw [get_community_withCommunity, hindex]
  rfl

/-- Where the partition reaches every node that carried a community, the counts
are those of the partition. -/
theorem getD_communitySizes_assigned {labels : OrderedMap ℕ String}
    (hcovered : ∀ node ∈ store.readNodes, node.metadata.get COMMUNITY_METADATA_KEY ≠ none → node.id ∈ communityOf.keys)
    (index : ℕ) :
    (ReportData.communitySizes (store.readNodes.map (assigned communityOf labels))).getD index 0 =
      communityOf.values.count index := by
  have hcommunity : ∀ node ∈ store.readNodes,
      communityIn (withCommunity communityOf labels node.id node.metadata) = some (index : ℚ) ↔
        communityOf.get node.id = some index := by
    intro node hnode
    rw [communityIn_eq_some_iff, get_community_withCommunity]
    cases hindex : communityOf.get node.id with
    | some other => simp
    | none =>
      have hnone : node.metadata.get COMMUNITY_METADATA_KEY = none := by
        by_contra hsome
        exact OrderedMap.get_eq_none_iff.mp hindex (hcovered node hnode hsome)
      simp [hnone]
  rw [ReportData.getD_communitySizes, List.countP_map,
    OrderedMap.count_values store.nodes.nodup_keys hstored, ← readNodes_ids, List.countP_map]
  refine List.countP_congr fun node hnode => ?_
  simp only [Function.comp_apply, decide_eq_true_eq]
  exact hcommunity node hnode

end Assigned

/-- A clustering leaves its partition, and nothing else, exactly where every
node that carried a community is in it. -/
theorem isPartition_cluster_iff (library : NetworkAnalysis) (store : KuzuStore) (weights : EdgeKind → ℚ)
    (options : CommunityOptions) :
    IsPartition (partitionOf library store weights options).communityOf (cluster library store weights options).1
      (cluster library store weights options).2 ↔ Touched store weights options := by
  obtain ⟨labels, hlabels, hnodes⟩ := readNodes_cluster library store weights options
  have hstored : ∀ id ∈ (partitionOf library store weights options).communityOf.keys, id ∈ store.nodes.keys :=
    fun id hid => mem_nodes_of_partitionOf hid
  constructor
  · intro h node hnode hcommunity
    have hassigned : assigned _ labels node ∈ (cluster library store weights options).2.readNodes :=
      hnodes ▸ List.mem_map_of_mem hnode
    have hid := h.keys _ hassigned
    refine mem_keys_partitionOf.mp (hid fun hnone => hcommunity ?_)
    unfold assigned at hnone
    rw [get_community_withCommunity] at hnone
    exact (Option.or_eq_none_iff.mp hnone).2
  · intro h
    have hcovered : ∀ node ∈ store.readNodes, node.metadata.get COMMUNITY_METADATA_KEY ≠ none →
        node.id ∈ (partitionOf library store weights options).communityOf.keys :=
      fun node hnode hcommunity => mem_keys_partitionOf.mpr (h node hnode hcommunity)
    constructor
    case keys =>
      rw [hnodes]
      intro node hnode hcommunity
      obtain ⟨old, hold, rfl⟩ := List.mem_map.mp hnode
      unfold assigned at hcommunity ⊢
      rw [get_community_withCommunity] at hcommunity
      cases hindex : (partitionOf library store weights options).communityOf.get old.id with
      | some index => exact OrderedMap.mem_keys_of_get hindex
      | none =>
        rw [hindex] at hcommunity
        exact hcovered old hold hcommunity
    case members =>
      intro id index hindex
      have hlt : index < (partitionOf library store weights options).communityCount :=
        CommunityDetector.lt_communityCount hindex
      obtain ⟨node, hnode, hid, hcommunity, hlabel⟩ := exists_assigned hstored labels hindex
      refine ⟨node, hnodes ▸ hnode, hid, hcommunity, _, ?_, hlabel⟩
      rw [hlabels, orderLabels, List.getElem?_map, List.getElem?_range hlt]
      rfl
    case sizes =>
      intro index
      rw [hnodes, getD_communitySizes_assigned hstored hcovered]
      exact (CommunityDetector.getD_sizes library _ options index).symm

end codespine.commands
