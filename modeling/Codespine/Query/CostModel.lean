import Codespine.Query.Components
import Codespine.Store.KuzuStore

open codespine.schema codespine.store

namespace codespine.query

/-- The metric costs are propagated in. -/
inductive CostMetric where
  | selfTime | samples
deriving DecidableEq, Repr

/-- One call edge reduced to what ranking needs. -/
structure CallEdge where
  fromId : String
  toId : String
  count : ℚ
deriving DecidableEq

namespace GraphQuery

/-- A numeric metric of `metadata.runtime`, `0` when absent or not a number. -/
def runtimeValue (metadata : Metadata) (key : String) : ℚ :=
  match (metadata.get "runtime").bind (Json.field key) with
  | some (.num value) => value
  | _ => 0

def hasRuntime (metadata : Metadata) : Bool :=
  ((metadata.get "runtime").map Json.isObject).getD false

/-- `metric === 'self-time' ? 'selfMs' : 'samples'`. -/
def metricKey : CostMetric → String
  | .selfTime => "selfMs"
  | .samples => "samples"

end GraphQuery

/-- A call edge between two known, different nodes, by index. -/
structure IndexEdge (count : ℕ) where
  source : Fin count
  target : Fin count
  count : ℚ

/-- The propagated cost model, keyed by node id. -/
structure CostModel where
  totalSelf : ℚ
  measuredNodes : ℕ
  selfCost : OrderedMap String ℚ
  inclusiveCost : OrderedMap String ℚ
  componentOf : OrderedMap String ℤ
  cycleSize : OrderedMap String ℕ
  externalInbound : OrderedMap String ℚ
  outEdges : OrderedMap String (List CallEdge)
  inEdges : OrderedMap String (List CallEdge)

namespace GraphQuery

variable (nodes : List StoredNode) (edges : List CallEdge) (metric : CostMetric)

/-- `nodes[i].id`. -/
def idAt (i : Fin nodes.length) : String := nodes[i].id

/-- Node id to index; a repeated id keeps its last index. -/
def indexOf : OrderedMap String (Fin nodes.length) :=
  OrderedMap.ofList ((List.finRange nodes.length).map fun i => (idAt nodes i, i))

/-- `self[i]`. -/
def selfAt (i : Fin nodes.length) : ℚ := runtimeValue nodes[i].metadata (metricKey metric)

/-- One round of the loop over `edges`: an edge that touches an unknown node or
closes on itself is skipped. -/
def indexEdge (edge : CallEdge) : Option (IndexEdge nodes.length) :=
  match (indexOf nodes).get edge.fromId, (indexOf nodes).get edge.toId with
  | some source, some target => if source = target then none else some ⟨source, target, edge.count⟩
  | _, _ => none

/-- The edges that loop keeps, in order. -/
def indexEdges : List (IndexEdge nodes.length) := edges.filterMap (indexEdge nodes)

end GraphQuery

section Propagation

variable {count : ℕ} (edges : List (IndexEdge count))

/-- `outEdges[i]`. -/
def outEdgesAt (i : Fin count) : List (IndexEdge count) := edges.filter fun edge => edge.source = i

/-- `inEdges[i]`. -/
def inEdgesAt (i : Fin count) : List (IndexEdge count) := edges.filter fun edge => edge.target = i

/-- `successors[i]`. -/
def successorsAt (i : Fin count) : List (Fin count) := (outEdgesAt edges i).map IndexEdge.target

variable (componentOf : Fin count → ℤ) (self : Fin count → ℚ)

/-- `members[comp]`. -/
def membersOf (comp : ℤ) : List (Fin count) := (List.finRange count).filter fun i => componentOf i = comp

/-- `externalInbound[i]`. -/
def externalInboundAt (i : Fin count) : ℚ :=
  (((inEdgesAt edges i).filter fun edge => componentOf edge.source ≠ componentOf i).map IndexEdge.count).sum

/-- What one out-edge adds to the inclusive cost of component `comp`, reading
the costs computed so far. -/
def contribution (inclusiveByComponent : ℤ → ℚ) (comp : ℤ) (edge : IndexEdge count) : ℚ :=
  if componentOf edge.target = comp then 0
  else if 0 < externalInboundAt edges componentOf edge.target then
    inclusiveByComponent (componentOf edge.target) * edge.count / externalInboundAt edges componentOf edge.target
  else 0

/-- The inclusive cost of component `comp`. -/
def inclusiveOf (inclusiveByComponent : ℤ → ℚ) (comp : ℤ) : ℚ :=
  ((membersOf componentOf comp).map self).sum +
    (((membersOf componentOf comp).flatMap (outEdgesAt edges)).map
      (contribution edges componentOf inclusiveByComponent comp)).sum

/-- `inclusiveByComponent`, filled in the order of the component numbers. -/
def propagate (componentCount : ℕ) : ℤ → ℚ :=
  (List.range componentCount).foldl
    (fun inclusiveByComponent (comp : ℕ) =>
      Function.update inclusiveByComponent (comp : ℤ) (inclusiveOf edges componentOf self inclusiveByComponent comp))
    fun _ => 0

end Propagation

namespace GraphQuery

/-- A map that holds one value per node, set in node order. -/
def byId (nodes : List StoredNode) {α : Type} (value : Fin nodes.length → α) : OrderedMap String α :=
  OrderedMap.ofList ((List.finRange nodes.length).map fun i => (idAt nodes i, value i))

/-- Propagates self cost into inclusive cost over the whole graph. -/
def computeCostModel (nodes : List StoredNode) (edges : List CallEdge) (metric : CostMetric) : CostModel :=
  let kept := indexEdges nodes edges
  let self := selfAt nodes metric
  let components := stronglyConnectedComponents (successorsAt kept)
  let inclusiveByComponent := propagate kept components.componentOf self components.componentCount
  { totalSelf := ((List.finRange nodes.length).map self).sum
    measuredNodes := nodes.countP fun node => hasRuntime node.metadata
    selfCost := byId nodes self
    inclusiveCost := byId nodes fun i => inclusiveByComponent (components.componentOf i)
    componentOf := byId nodes components.componentOf
    cycleSize := byId nodes fun i => (membersOf components.componentOf (components.componentOf i)).length
    externalInbound := byId nodes (externalInboundAt kept components.componentOf)
    outEdges := byId nodes fun i =>
      (outEdgesAt kept i).map fun edge => ⟨idAt nodes i, idAt nodes edge.target, edge.count⟩
    inEdges := byId nodes fun i =>
      (inEdgesAt kept i).map fun edge => ⟨idAt nodes edge.source, idAt nodes i, edge.count⟩ }

end GraphQuery

end codespine.query
