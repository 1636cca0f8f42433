import Codespine.Lib.DepthFirst
import Codespine.Query.Reads

open codespine.schema codespine.store digraph

namespace codespine.query

/-- The metric a hotspot ranking is computed against. -/
inductive HotspotMetric where
  | selfTime | samples | callers | callCount | blastRadius
deriving DecidableEq, Repr

/-- A ranked node with the score it earned. -/
structure HotspotRef extends SymbolRef where
  score : ℚ
  metric : HotspotMetric

structure HotspotOptions where
  metric : Option HotspotMetric := none
  limit : Option JsNumber := none
  measuredOnly : Option Bool := none

structure HotspotReport where
  metric : HotspotMetric
  requested : HotspotMetric
  enriched : Bool
  fellBack : Bool
  measuredOnly : Bool
  hotspots : List HotspotRef

namespace GraphQuery

def isRuntimeMetric (metric : HotspotMetric) : Bool := metric = .selfTime ∨ metric = .samples

/-- Sums a weight of each edge onto its target. -/
def sumInbound (edges : List CallEdge) (weight : CallEdge → ℚ) : OrderedMap String ℚ :=
  edges.foldl (fun totals edge => totals.add edge.toId (weight edge)) ∅

/-- The callers of each target, one for each edge, in the order of the edges. -/
def callerBuckets (edges : List CallEdge) : OrderedMap String (List String) :=
  edges.foldl (fun callers edge => callers.set edge.toId (callers.getD edge.toId [] ++ [edge.fromId])) ∅

/-- Counts what a search over the reversed calls visits besides `start`. The
fuel is one turn for each caller pushed at the start and one for each edge. -/
def reachableCount (start : String) (callers : OrderedMap String (List String)) : ℕ :=
  let next := fun v => callers.getD v []
  let fuel := (next start).length + (callers.values.map List.length).sum
  let search := Search.run next fuel ⟨[], (next start).reverse⟩
  (search.visited.erase start).length

/-- For every node, how many distinct nodes transitively call it. -/
def blastRadiusSizes (nodes : List StoredNode) (edges : List CallEdge) : OrderedMap String ℚ :=
  let callers := callerBuckets edges
  nodes.foldl (fun sizes node => sizes.set node.id (reachableCount node.id callers : ℚ)) ∅

/-- What `hotspots` scores a node by, for each metric. -/
def scoreNodes (nodes : List StoredNode) (edges : List CallEdge) : HotspotMetric → OrderedMap String ℚ
  | .selfTime => OrderedMap.ofList (nodes.map fun node => (node.id, runtimeValue node.metadata "selfMs"))
  | .samples => OrderedMap.ofList (nodes.map fun node => (node.id, runtimeValue node.metadata "samples"))
  | .callCount => sumInbound edges CallEdge.count
  | .blastRadius => blastRadiusSizes nodes edges
  | .callers => sumInbound edges fun _ => 1

def toHotspot (metric : HotspotMetric) (entry : StoredNode × ℚ) : HotspotRef :=
  { symbolOf entry.1 with
    score := entry.2
    metric }

/-- Highest score first, then by path and line; `localeCompare` is a
parameter. -/
def hotspotOrder (localeCompare : Comparator String) : Comparator (StoredNode × ℚ) :=
  ((Comparator.descending Prod.snd).thenBy (localeCompare.on fun entry => entry.1.filePath)).thenBy
    (Comparator.ascending fun entry => entry.1.startLine)

/-- The nodes that score at all, ranked. -/
def rankNodes (localeCompare : Comparator String) (scores : OrderedMap String ℚ) (candidates : List StoredNode) :
    List (StoredNode × ℚ) :=
  (hotspotOrder localeCompare).sort
    ((candidates.map fun node => (node, scores.getD node.id 0)).filter fun entry => 0 < entry.2)

/-- The metric asked for, or the default one of the graph. -/
def requestedMetric (options : HotspotOptions) (enriched : Bool) : HotspotMetric :=
  options.metric.getD (if enriched then .selfTime else .callers)

/-- Ranks nodes by optimization leverage. -/
def hotspots (localeCompare : Comparator String) (store : KuzuStore) (options : HotspotOptions) : HotspotReport :=
  let nodes := store.readNodes
  let enriched := nodes.any fun node => hasRuntime node.metadata
  let requested := requestedMetric options enriched
  let fellBack := isRuntimeMetric requested && !enriched
  let metric := if fellBack then .callers else requested
  let measuredOnly := options.measuredOnly == some true
  let scores := scoreNodes nodes (readCallEdges store) metric
  let candidates := if measuredOnly then nodes.filter fun node => hasRuntime node.metadata else nodes
  { metric
    requested
    enriched
    fellBack
    measuredOnly
    hotspots := ((rankNodes localeCompare scores candidates).take (clampLimit options.limit)).map (toHotspot metric) }

end GraphQuery

end codespine.query
