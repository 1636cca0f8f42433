import Codespine.Enrich.RuntimeJoin
import Codespine.Store.KuzuStore

open codespine.schema codespine.store

namespace codespine.enrich

/-- The telemetry source tag. -/
def RUNTIME_SOURCE_CPU_PROFILE : String := "v8-cpuprofile"

/-- The metadata key of the runtime metrics. -/
def RUNTIME_METADATA_KEY : String := "runtime"

def RUNTIME_CALL_EDGE_KIND : EdgeKind := .CALLS_RUNTIME

structure RuntimeMetrics where
  source : String
  samples : ℚ
  selfMicros : ℚ
  selfMs : ℚ

/-- The metrics as the record that goes into `metadata.runtime`. -/
def RuntimeMetrics.toJson (m : RuntimeMetrics) : Json :=
  .obj [("source", .str m.source), ("samples", .num m.samples), ("selfMicros", .num m.selfMicros),
    ("selfMs", .num m.selfMs)]

structure Hotspot where
  id : String
  name : String
  kind : NodeKind
  filePath : String
  selfMs : ℚ
  samples : ℚ

structure EnrichReport where
  totalSamples : ℚ
  matchedNodes : ℕ
  matchedFrames : ℕ
  matchedSamples : ℚ
  matchedSelfMs : ℚ
  matchedByName : ℕ
  matchedByRange : ℕ
  droppedFrames : ℕ
  droppedSamples : ℚ
  runtimeEdges : ℕ
  droppedCallEdges : ℕ
  dropped : List DroppedFrameGroup
  hotspots : List Hotspot

/-- A stored node passed on where the join wants a target. -/
def targetOf (node : StoredNode) : RuntimeTargetNode :=
  { id := node.id, kind := node.kind, name := node.name, filePath := node.filePath,
    startLine := node.startLine, endLine := node.endLine }

/-- Code that writes to the database and may throw. What was written before a
throw stays written. -/
abbrev StoreM := ExceptT HostError (StateM KuzuStore)

/-- The outcome of running such code, with the database it leaves behind. -/
def StoreM.exec {α : Type} (action : StoreM α) (store : KuzuStore) : Except HostError α × KuzuStore :=
  action.run.run store

namespace RuntimeEnricher

/-- `Math.round(micros) / 1000`. -/
def microsToMs (micros : ℚ) : ℚ := ⌊micros + 1 / 2⌋ / 1000

def toMetrics (attribution : RuntimeAttribution) : RuntimeMetrics :=
  { source := RUNTIME_SOURCE_CPU_PROFILE
    samples := attribution.samples
    selfMicros := attribution.selfMicros
    selfMs := microsToMs attribution.selfMicros }

/-- `${RUNTIME_CALL_EDGE_KIND}:${edge.from}->${edge.to}`. -/
def callEdgeId (edge : RuntimeEdge) : String := "CALLS_RUNTIME:" ++ edge.source ++ "->" ++ edge.target

def toCallEdge (edge : RuntimeEdge) : GraphEdge where
  id := callEdgeId edge
  kind := RUNTIME_CALL_EDGE_KIND
  source := edge.source
  target := edge.target
  metadata := some (OrderedMap.ofList
    [("source", .str RUNTIME_SOURCE_CPU_PROFILE), ("samples", .num edge.samples)])

/-- `new Map(nodes.map((node) => [node.id, node]))`. -/
def nodesById (nodes : List StoredNode) : OrderedMap String StoredNode :=
  OrderedMap.ofList (nodes.map fun node => (node.id, node))

/-- The metadata writes: `{ ...node.metadata, runtime: metrics }` for every
attributed node. -/
def updates (nodes : List StoredNode) (attributions : OrderedMap String RuntimeAttribution) :
    List (String × Metadata) :=
  attributions.entries.filterMap fun entry =>
    ((nodesById nodes).get entry.1).map fun node =>
      (entry.1, node.metadata.set RUNTIME_METADATA_KEY (toMetrics entry.2).toJson)

def hotspots (nodes : List StoredNode) (attributions : OrderedMap String RuntimeAttribution) : List Hotspot :=
  attributions.entries.filterMap fun entry =>
    ((nodesById nodes).get entry.1).map fun node =>
      let metrics := toMetrics entry.2
      { id := entry.1, name := node.name, kind := node.kind, filePath := node.filePath,
        selfMs := metrics.selfMs, samples := metrics.samples }

def manifest (profile : CpuProfileData) (result : RuntimeJoinResult) : RuntimeManifest :=
  { source := RUNTIME_SOURCE_CPU_PROFILE
    totalSamples := CpuProfile.totalSamples profile
    matchedSamples := result.matchedSamples
    totalSelfMicros := result.matchedSelfMicros + result.droppedSelfMicros
    matchedSelfMicros := result.matchedSelfMicros }

/-- The report on a finished run. -/
def report (nodes : List StoredNode) (profile : CpuProfileData) (result : RuntimeJoinResult)
    (edgeResult : RuntimeCallJoinResult) : EnrichReport :=
  { totalSamples := CpuProfile.totalSamples profile
    matchedNodes := (updates nodes result.attributions).length
    matchedFrames := result.matchedFrames
    matchedSamples := result.matchedSamples
    matchedSelfMs := microsToMs result.matchedSelfMicros
    matchedByName := result.matchedByName
    matchedByRange := result.matchedByRange
    droppedFrames := result.droppedFrames
    droppedSamples := result.droppedSamples
    runtimeEdges := edgeResult.matchedEdges
    droppedCallEdges := edgeResult.droppedEdges
    dropped := result.dropped
    hotspots := ((Comparator.descending Hotspot.selfMs).thenBy (Comparator.descending Hotspot.samples)).sort
      (hotspots nodes result.attributions) }

set_option linter.dupNamespace false in
/-- Ingests a CPU profile: attaches `metadata.runtime` to the nodes its frames
join to, records the manifest, and rewrites the runtime call edges. -/
def enrich (host : Host) (profileText root : String) : StoreM EnrichReport := do
  let profile ← (CpuProfile.parse host profileText : Except HostError CpuProfileData)
  let frames := CpuProfile.aggregate profile
  let nodes := (← get).readNodes
  let result ← (RuntimeJoin.join host (nodes.map targetOf) frames root : Except HostError RuntimeJoinResult)
  modify fun store => store.writeNodeMetadata (updates nodes result.attributions)
  modify fun store => store.writeGraphMeta RUNTIME_MANIFEST_KEY (manifest profile result).toRecord
  let callEdges := CpuProfile.callEdges profile
  let edgeResult ← (RuntimeJoin.joinCallEdges host (nodes.map targetOf) callEdges root :
    Except HostError RuntimeCallJoinResult)
  modify fun store => store.clearEdgesByKind RUNTIME_CALL_EDGE_KIND
  modify fun store => store.writeEdges (edgeResult.edges.map toCallEdge)
  return report nodes profile result edgeResult

end RuntimeEnricher

end codespine.enrich
