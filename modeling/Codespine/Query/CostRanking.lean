import Codespine.Lib.Attribution.Multiplicity
import Codespine.Query.CostModel.Solution
import Codespine.Query.Reads

open codespine.schema codespine.store attribution

namespace codespine.query

/-- A node with its propagated cost. -/
structure CostRef extends SymbolRef where
  selfCost : ℚ
  inclusiveCost : ℚ
  shareOfTotal : ℚ
  cyclic : Bool
  cycleSize : ℕ

structure CostOptions where
  metric : Option CostMetric := none
  edges : Option CostFlowGraph := none
  limit : Option JsNumber := none

structure CostReport where
  metric : CostMetric
  edges : CostFlowGraph
  fellBack : Bool
  enriched : Bool
  totalSelf : ℚ
  measuredNodes : ℕ
  coverage : Option ℚ
  nodes : List CostRef

namespace GraphQuery

def toCostRef (node : StoredNode) (model : CostModel) : CostRef :=
  let inclusiveCost := model.inclusiveCost.getD node.id 0
  let cycleSize := model.cycleSize.getD node.id 1
  { symbolOf node with
    selfCost := model.selfCost.getD node.id 0
    inclusiveCost
    shareOfTotal := if 0 < model.totalSelf then inclusiveCost / model.totalSelf else 0
    cyclic := 1 < cycleSize
    cycleSize }

/-- The fraction of the profiled cost that the join attributed. -/
def coverageFor (manifest : Option RuntimeManifest) (metric : CostMetric) : Option ℚ :=
  manifest.bind fun manifest =>
    match metric with
    | .samples =>
      if 0 < manifest.totalSamples then some (manifest.matchedSamples / manifest.totalSamples) else none
    | .selfTime =>
      if 0 < manifest.totalSelfMicros then some (manifest.matchedSelfMicros / manifest.totalSelfMicros) else none

/-- Dearest first, then by path and line; `localeCompare` is a parameter. -/
def costOrder (localeCompare : Comparator String) : Comparator CostRef :=
  ((Comparator.descending CostRef.inclusiveCost).thenBy (localeCompare.on fun ref => ref.filePath)).thenBy
    (Comparator.ascending fun ref => ref.startLine)

/-- What `costRanking` does with what it has read. -/
def rankByCost (localeCompare : Comparator String) (nodes : List StoredNode) (flow : FlowEdges)
    (manifest : Option RuntimeManifest) (metric : CostMetric) (limit : Option JsNumber) : CostReport :=
  let model := computeCostModel nodes flow.edges metric
  let ranked := ((costOrder localeCompare).sort
    ((nodes.map fun node => toCostRef node model).filter fun ref => 0 < ref.inclusiveCost)).take (clampLimit limit)
  { metric
    edges := flow.flow
    fellBack := flow.fellBack
    enriched := nodes.any fun node => hasRuntime node.metadata
    totalSelf := model.totalSelf
    measuredNodes := model.measuredNodes
    coverage := coverageFor manifest metric
    nodes := ranked }

/-- Ranks nodes by inclusive cost. -/
def costRanking (localeCompare : Comparator String) (store : KuzuStore) (options : CostOptions) : CostReport :=
  rankByCost localeCompare store.readNodes (resolveFlowEdges store (options.edges.getD .static))
    (readRuntimeManifest store) (options.metric.getD .selfTime) options.limit

end GraphQuery

end codespine.query
