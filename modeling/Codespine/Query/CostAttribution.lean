import Codespine.Query.CostRanking

open codespine.schema codespine.store

namespace codespine.query

/-- A caller or callee of the focal node, with the cost attributed across the
edge. -/
structure CostFlow extends SymbolRef where
  amount : ℚ
  share : ℚ
  callCount : ℚ

structure CostAttribution where
  metric : CostMetric
  edges : CostFlowGraph
  fellBack : Bool
  enriched : Bool
  totalSelf : ℚ
  coverage : Option ℚ
  node : Option CostRef
  callees : List CostFlow
  callers : List CostFlow

namespace GraphQuery

/-- `new Map(nodes.map((node) => [node.id, node]))`. -/
def nodeById (nodes : List StoredNode) : OrderedMap String StoredNode :=
  OrderedMap.ofList (nodes.map fun node => (node.id, node))

/-- Dearest first, then by path and line. -/
def flowOrder (localeCompare : Comparator String) : Comparator CostFlow :=
  ((Comparator.descending CostFlow.amount).thenBy (localeCompare.on fun flow => flow.filePath)).thenBy
    (Comparator.ascending fun flow => flow.startLine)

/-- What the focal node's component takes over along each of its out-edges. -/
def calleesOf (nodes : List StoredNode) (model : CostModel) (focalInclusive : ℚ) (id : String) : List CostFlow :=
  ((model.outEdges.get id).getD []).filterMap fun edge =>
    if model.componentOf.get edge.toId = model.componentOf.get id then none
    else ((nodeById nodes).get edge.toId).map fun callee =>
      let inbound := model.externalInbound.getD edge.toId 0
      let calleeInclusive := model.inclusiveCost.getD edge.toId 0
      let amount := if 0 < inbound then calleeInclusive * edge.count / inbound else 0
      { symbolOf callee with
        amount
        share := if 0 < focalInclusive then amount / focalInclusive else 0
        callCount := edge.count }

/-- How the focal node's cost is handed to its callers. -/
def callersOf (nodes : List StoredNode) (model : CostModel) (focalInclusive : ℚ) (id : String) : List CostFlow :=
  let focalInbound := model.externalInbound.getD id 0
  ((model.inEdges.get id).getD []).filterMap fun edge =>
    if model.componentOf.get edge.fromId = model.componentOf.get id then none
    else ((nodeById nodes).get edge.fromId).map fun caller =>
      { symbolOf caller with
        amount := if 0 < focalInbound then focalInclusive * edge.count / focalInbound else 0
        share := if 0 < focalInbound then edge.count / focalInbound else 0
        callCount := edge.count }

/-- What `costAttribution` does with what it has read. -/
def attributeCost (localeCompare : Comparator String) (nodes : List StoredNode) (flow : FlowEdges)
    (manifest : Option RuntimeManifest) (metric : CostMetric) (id : String) : CostAttribution :=
  let model := computeCostModel nodes flow.edges metric
  let report : CostAttribution :=
    { metric
      edges := flow.flow
      fellBack := flow.fellBack
      enriched := nodes.any fun node => hasRuntime node.metadata
      totalSelf := model.totalSelf
      coverage := coverageFor manifest metric
      node := none
      callees := []
      callers := [] }
  match (nodeById nodes).get id with
  | none => report
  | some focal =>
    let focalRef := toCostRef focal model
    { report with
      node := some focalRef
      callees := (flowOrder localeCompare).sort (calleesOf nodes model focalRef.inclusiveCost id)
      callers := (flowOrder localeCompare).sort (callersOf nodes model focalRef.inclusiveCost id) }

/-- Breaks one node's cost down: where it goes, and who is responsible for it. -/
def costAttribution (localeCompare : Comparator String) (store : KuzuStore) (id : String) (options : CostOptions) :
    CostAttribution :=
  attributeCost localeCompare store.readNodes (resolveFlowEdges store (options.edges.getD .static))
    (readRuntimeManifest store) (options.metric.getD .selfTime) id

end GraphQuery

end codespine.query
