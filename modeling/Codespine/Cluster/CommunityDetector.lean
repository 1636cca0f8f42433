import Codespine.Lib.OrderedMap

namespace codespine.cluster

/-- An edge reduced to its ends and its weight. -/
structure WeightedEdge where
  source : String
  target : String
  weight : ℚ

structure CommunityOptions where
  resolution : ℚ
  iterations : ℕ
  randomStarts : ℕ

/-- The outcome of a clustering run, by node id. -/
structure CommunityResult where
  communityOf : OrderedMap String ℕ
  communityCount : ℕ
  quality : ℚ
  sizes : List ℕ

def DEFAULT_COMMUNITY_OPTIONS : CommunityOptions where
  resolution := 1 / 10
  iterations := 10
  randomStarts := 10

/-- What `networkanalysis-ts` is given: the undirected edges between nodes
`0..nNodes-1`. -/
structure Network where
  nNodes : ℕ
  edges : List ((ℕ × ℕ) × ℚ)

/-- What it returns: a cluster below `nClusters` for each of `nNodes` nodes. -/
structure Clustering (nNodes : ℕ) where
  clusters : List ℕ
  nClusters : ℕ
  length_clusters : clusters.length = nNodes
  clusters_lt : ∀ cluster ∈ clusters, cluster < nClusters

/-- How many nodes each cluster has. -/
def Clustering.getNNodesPerCluster {nNodes : ℕ} (clustering : Clustering nNodes) : List ℕ :=
  (List.range clustering.nClusters).map fun cluster => clustering.clusters.count cluster

/-- The library: what the Leiden algorithm makes of a network on each random
start, the quality of that, and the renumbering of clusters by size. -/
structure NetworkAnalysis where
  improveClustering : (network : Network) → CommunityOptions → ℕ → Clustering network.nNodes
  calcQuality : (network : Network) → CommunityOptions → Clustering network.nNodes → ℚ
  orderClustersByNNodes : {nNodes : ℕ} → Clustering nNodes → Clustering nNodes

namespace CommunityDetector

/-- Numbers the nodes in the order in which edges touch them. -/
def indexNodes (edges : List WeightedEdge) : OrderedMap String ℕ :=
  (edges.flatMap fun edge => [edge.source, edge.target]).foldl
    (fun indexOf id => if id ∈ indexOf.keys then indexOf else indexOf.set id indexOf.keys.length) ∅

/-- The undirected edges: weights summed for each pair, self-loops dropped. -/
def symmetrize (edges : List WeightedEdge) (indexOf : OrderedMap String ℕ) : OrderedMap (ℕ × ℕ) ℚ :=
  edges.foldl (fun merged edge =>
    match indexOf.get edge.source, indexOf.get edge.target with
    | some a, some b => if a = b then merged else merged.add (min a b, max a b) edge.weight
    | _, _ => merged) ∅

/-- The best of the random starts so far. -/
def keepBest {nNodes : ℕ} (best : Option (Clustering nNodes × ℚ)) (clustering : Clustering nNodes) (quality : ℚ) :
    Option (Clustering nNodes × ℚ) :=
  match best with
  | some (_, bestQuality) => if bestQuality < quality then some (clustering, quality) else best
  | none => some (clustering, quality)

/-- What a run that finds nothing returns. -/
def noCommunities : CommunityResult where
  communityOf := ∅
  communityCount := 0
  quality := 0
  sizes := []

def detect (library : NetworkAnalysis) (edges : List WeightedEdge) (options : CommunityOptions) : CommunityResult :=
  let indexOf := indexNodes edges
  let ids := indexOf.keys
  if ids = [] then noCommunities
  else
    let network : Network := { nNodes := ids.length, edges := (symmetrize edges indexOf).entries }
    let best := (List.range options.randomStarts).foldl (fun best start =>
      let clustering := library.improveClustering network options start
      keepBest best clustering (library.calcQuality network options clustering)) none
    match best with
    | some (clustering, quality) =>
      let ordered := library.orderClustersByNNodes clustering
      { communityOf := OrderedMap.ofList (ids.zip ordered.clusters)
        communityCount := ordered.nClusters
        quality
        sizes := ordered.getNNodesPerCluster }
    | none => noCommunities

end CommunityDetector

end codespine.cluster
