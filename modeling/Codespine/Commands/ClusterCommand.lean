import Codespine.Cluster.CommunityNamer
import Codespine.Cluster.GraphClusterer
import Codespine.Host

open codespine.schema codespine.store codespine.cluster

namespace codespine.commands

/-- The labels requested of a rename, none of them empty. -/
structure RenameLabels where
  labels : OrderedMap ℕ String
  ne_empty : ∀ label ∈ labels.values, label ≠ ""

namespace ClusterCommand

/-- The community in a node's metadata. -/
def communityIn (metadata : Metadata) : Option ℚ :=
  match metadata.get COMMUNITY_METADATA_KEY with
  | some (.num community) => some community
  | _ => none

/-- The community label in a node's metadata. -/
def labelIn (metadata : Metadata) : Option String :=
  match metadata.get COMMUNITY_LABEL_METADATA_KEY with
  | some (.str label) => some label
  | _ => none

/-- What the namer is shown of a stored node. -/
def toAssigned (node : StoredNode) : AssignedNode where
  id := node.id
  name := node.name
  kind := node.kind
  filePath := node.filePath
  community := communityIn node.metadata
  currentLabel := labelIn node.metadata

/-- The metadata writes of a plan. -/
def renameUpdates (nodes : List StoredNode) (plan : RenamePlan) : List (String × Metadata) :=
  let byId := OrderedMap.ofList (nodes.map fun node => (node.id, node))
  plan.changes.flatMap fun change => change.nodeIds.map fun id =>
    (id, (((byId.get id).map StoredNode.metadata).getD ∅).set COMMUNITY_LABEL_METADATA_KEY (.str change.after))

/-- What a rename writes. -/
def applyRename (store : KuzuStore) (labels : OrderedMap ℕ String) : KuzuStore :=
  let nodes := store.readNodes
  let plan := CommunityNamer.plan (nodes.map toAssigned) labels
  let renamed := store.writeNodeMetadata (renameUpdates nodes plan)
  match CommunityNamer.updateManifestLabels (renamed.readGraphMeta CLUSTERING_MANIFEST_KEY) labels with
  | some manifest => renamed.writeGraphMeta CLUSTERING_MANIFEST_KEY manifest
  | none => renamed

/-- `cluster rename`: the plan and the database it leaves, unless no node has a
community. -/
def runRename (store : KuzuStore) (requested : RenameLabels) : Option (RenamePlan × KuzuStore) :=
  let assigned := store.readNodes.map toAssigned
  if assigned.all fun node => node.community = none then none
  else some (CommunityNamer.plan assigned requested.labels, applyRename store requested.labels)

/-- `cluster detect`. -/
def run (library : NetworkAnalysis) (store : KuzuStore) (resolution : ℚ) : Option (ClusterReport × KuzuStore) :=
  if resolution ≤ 0 then none
  else some (GraphClusterer.cluster library store CLUSTER_EDGE_WEIGHTS { DEFAULT_COMMUNITY_OPTIONS with resolution })

end ClusterCommand

end codespine.commands
