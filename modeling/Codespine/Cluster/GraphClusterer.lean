import Codespine.Cluster.CommunityLabeler
import Codespine.Store.KuzuStore

open codespine.schema codespine.store

namespace codespine.cluster

/-- How strongly each edge kind pulls its ends into one community; `0` for the
kinds that carry no weight. -/
def CLUSTER_EDGE_WEIGHTS : EdgeKind → ℚ
  | .CALLS => 3
  | .CALLS_RUNTIME => 4
  | .INSTANTIATES => 2
  | .EXTENDS => 2
  | .IMPLEMENTS => 2
  | .OVERRIDES => 3 / 2
  | .WRITES => 3 / 2
  | .READS => 1
  | .USES_TYPE => 1
  | .RETURNS => 1
  | .PARAM_TYPE => 1
  | .CONTAINS => 1 / 2
  | .IMPORTS | .EXPORTS | .READS_CONFIG | .CALLS_EXTERNAL | .HANDLES => 0

/-- The metadata key of a node's community. -/
def COMMUNITY_METADATA_KEY : String := "community"

/-- The metadata key of the label of a node's community. -/
def COMMUNITY_LABEL_METADATA_KEY : String := "communityLabel"

/-- The `GraphMeta` key of the clustering manifest. -/
def CLUSTERING_MANIFEST_KEY : String := "clustering"

def RUNTIME_CALL_EDGE_KIND : EdgeKind := .CALLS_RUNTIME

structure ClusterReport where
  nodesAssigned : ℕ
  communityCount : ℕ
  quality : ℚ
  resolution : ℚ
  sizes : List ℕ
  labels : List String

namespace GraphClusterer

/-- An edge's call-site `count`, at least the `1` the builder records. -/
def callCount (metadata : Metadata) : ℚ :=
  match metadata.get "count" with
  | some (.num count) => if 0 < count then count else 1
  | _ => 1

/-- A runtime call edge's `samples`, `0` when absent. -/
def edgeSamples (metadata : Metadata) : ℚ :=
  match metadata.get "samples" with
  | some (.num samples) => if 0 < samples then samples else 0
  | _ => 0

/-- The stored edges of the kinds that carry weight. -/
def weightedRows (store : KuzuStore) (weights : EdgeKind → ℚ) : List (EdgeKey × Metadata) :=
  store.edges.entries.filter fun entry => 0 < weights entry.1.kind

/-- The weighted edges; samples count relative to the hottest runtime edge. -/
def readWeightedEdges (store : KuzuStore) (weights : EdgeKind → ℚ) : List WeightedEdge :=
  let rows := weightedRows store weights
  let maxRuntimeSamples := rows.foldl
    (fun best row => if row.1.kind = RUNTIME_CALL_EDGE_KIND then max best (edgeSamples row.2) else best) 0
  rows.map fun row =>
    let strength :=
      if row.1.kind = RUNTIME_CALL_EDGE_KIND then
        if 0 < maxRuntimeSamples then edgeSamples row.2 / maxRuntimeSamples else 0
      else callCount row.2
    { source := row.1.source, target := row.1.target, weight := weights row.1.kind * strength }

/-- What the labeler is shown of a node. -/
def labelable (node : StoredNode) : LabelableNode :=
  { id := node.id, name := node.name, kind := node.kind.text, filePath := node.filePath }

/-- `labels.get(index) ?? ...`. -/
def labelOf (labels : OrderedMap ℕ String) (index : ℕ) : String := labels.getD index ("community " ++ toString index)

/-- The metadata writes: community and label of every node in the partition. -/
def updates (nodes : List StoredNode) (communityOf : OrderedMap String ℕ) (labels : OrderedMap ℕ String) :
    List (String × Metadata) :=
  nodes.filterMap fun node => (communityOf.get node.id).map fun index =>
    (node.id, (node.metadata.set COMMUNITY_METADATA_KEY (.num index)).set COMMUNITY_LABEL_METADATA_KEY
      (.str (labelOf labels index)))

/-- The labels of the communities `0..count-1`. -/
def orderLabels (labels : OrderedMap ℕ String) (count : ℕ) : List String :=
  (List.range count).map (labelOf labels)

def manifest (result : CommunityResult) (labels : OrderedMap ℕ String) (resolution : ℚ) : Metadata :=
  OrderedMap.ofList [("algorithm", .str "leiden-cpm"), ("resolution", .num resolution),
    ("communityCount", .num result.communityCount), ("quality", .num result.quality),
    ("labels", .arr ((orderLabels labels result.communityCount).map .str))]

/-- What a run writes for a partition and its labels. -/
def assign (store : KuzuStore) (result : CommunityResult) (labels : OrderedMap ℕ String) (resolution : ℚ) : KuzuStore :=
  (store.writeNodeMetadata (updates store.readNodes result.communityOf labels)).writeGraphMeta CLUSTERING_MANIFEST_KEY
    (manifest result labels resolution)

/-- The labels of a partition of the stored nodes. -/
def labelsOf (store : KuzuStore) (edges : List WeightedEdge) (communityOf : OrderedMap String ℕ) :
    OrderedMap ℕ String :=
  CommunityLabeler.label { communityOf, nodes := store.readNodes.map labelable, edges }

set_option linter.dupNamespace false in
/-- Detects communities and attaches them to the nodes. -/
def cluster (library : NetworkAnalysis) (store : KuzuStore) (weights : EdgeKind → ℚ) (options : CommunityOptions) :
    ClusterReport × KuzuStore :=
  let edges := readWeightedEdges store weights
  let result := CommunityDetector.detect library edges options
  let labels := labelsOf store edges result.communityOf
  ({ nodesAssigned := (updates store.readNodes result.communityOf labels).length
     communityCount := result.communityCount
     quality := result.quality
     resolution := options.resolution
     sizes := result.sizes
     labels := orderLabels labels result.communityCount },
    assign store result labels options.resolution)

end GraphClusterer

end codespine.cluster
