import Codespine.Lib.Comparator
import Codespine.Query.CostModel

open codespine.schema codespine.store

namespace codespine.query

/-- A stored node as a report shows it. -/
structure SymbolRef where
  id : String
  kind : NodeKind
  name : String
  filePath : String
  startLine : ℤ
  metadata : Metadata

/-- A `number` option as it arrives from a caller. -/
inductive JsNumber where
  | finite (value : ℚ)
  | nonFinite

/-- The call graph that cost is propagated along. -/
inductive CostFlowGraph where
  | static | runtime
deriving DecidableEq, Repr

/-- The edges a request resolves to. -/
structure FlowEdges where
  edges : List CallEdge
  flow : CostFlowGraph
  fellBack : Bool

namespace GraphQuery

def symbolOf (node : StoredNode) : SymbolRef where
  id := node.id
  kind := node.kind
  name := node.name
  filePath := node.filePath
  startLine := node.startLine
  metadata := node.metadata

/-- An edge's call-site `count`, at least the `1` the builder records. -/
def callCount (metadata : Metadata) : ℚ :=
  match metadata.get "count" with
  | some (.num count) => if 0 < count then count else 1
  | _ => 1

/-- A runtime call edge's `samples`, `1` when absent. -/
def edgeSamples (metadata : Metadata) : ℚ :=
  match metadata.get "samples" with
  | some (.num samples) => if 0 ≤ samples then samples else 1
  | _ => 1

/-- Every edge of one kind, with its weight read out of its metadata. -/
def readEdgesOfKind (kind : EdgeKind) (weight : Metadata → ℚ) (store : KuzuStore) : List CallEdge :=
  (store.edges.entries.filter fun entry => entry.1.kind = kind).map fun entry =>
    ⟨entry.1.source, entry.1.target, weight entry.2⟩

def readCallEdges : KuzuStore → List CallEdge := readEdgesOfKind .CALLS callCount

def readRuntimeCallEdges : KuzuStore → List CallEdge := readEdgesOfKind .CALLS_RUNTIME edgeSamples

/-- Runtime edges when they are asked for and there are any, static ones
otherwise. -/
def resolveFlowEdges (store : KuzuStore) (requested : CostFlowGraph) : FlowEdges :=
  match requested with
  | .runtime =>
    let runtime := readRuntimeCallEdges store
    if 0 < runtime.length then { edges := runtime, flow := .runtime, fellBack := false }
    else { edges := readCallEdges store, flow := .static, fellBack := true }
  | .static => { edges := readCallEdges store, flow := .static, fellBack := false }

/-- A stored value that fails validation counts as absent. -/
def readRuntimeManifest (store : KuzuStore) : Option RuntimeManifest :=
  (store.readGraphMeta RUNTIME_MANIFEST_KEY).bind RuntimeManifest.safeParse

/-- `limit` floored and clamped to `[1, 1000]`, `20` when it is unusable. -/
def clampLimit : Option JsNumber → ℕ
  | some (.finite limit) => if ⌊limit⌋ < 1 then 20 else if 1000 < ⌊limit⌋ then 1000 else ⌊limit⌋.toNat
  | _ => 20

theorem clampLimit_pos (limit : Option JsNumber) : 0 < clampLimit limit := by
  unfold clampLimit
  split
  · split
    · omega
    · split <;> omega
  · omega

theorem callCount_pos (metadata : Metadata) : 0 < callCount metadata := by
  unfold callCount
  split
  · split
    · assumption
    · exact one_pos
  · exact one_pos

theorem edgeSamples_nonneg (metadata : Metadata) : 0 ≤ edgeSamples metadata := by
  unfold edgeSamples
  split
  · split
    · assumption
    · exact zero_le_one
  · exact zero_le_one

/-- Whatever the metadata of its edges says, a resolved call graph has no
negative weight. -/
theorem resolveFlowEdges_nonneg (store : KuzuStore) (requested : CostFlowGraph) :
    ∀ edge ∈ (resolveFlowEdges store requested).edges, 0 ≤ edge.count := by
  have hcalls : ∀ edge ∈ readCallEdges store, 0 ≤ edge.count := by
    intro edge hedge
    obtain ⟨entry, _, rfl⟩ := List.mem_map.mp hedge
    exact (callCount_pos entry.2).le
  have hruntime : ∀ edge ∈ readRuntimeCallEdges store, 0 ≤ edge.count := by
    intro edge hedge
    obtain ⟨entry, _, rfl⟩ := List.mem_map.mp hedge
    exact edgeSamples_nonneg entry.2
  cases requested with
  | static => exact hcalls
  | runtime =>
    unfold resolveFlowEdges
    dsimp only
    split
    · exact hruntime
    · exact hcalls

end GraphQuery

end codespine.query
