import Codespine.Host

open codespine.schema

namespace codespine.enrich

/-- A call frame of a V8 profile node. Its line is zero-based. -/
structure CallFrame where
  functionName : String
  url : String
  lineNumber : ℚ
  columnNumber : ℚ

structure ProfileNode where
  id : ℚ
  callFrame : CallFrame
  hitCount : Option ℚ := none
  children : Option (List ℚ) := none

structure CpuProfileData where
  nodes : List ProfileNode
  samples : Option (List ℚ) := none
  timeDeltas : Option (List ℚ) := none

/-- One executing location with the cost measured in it. Its line is
one-based. -/
structure FrameSample where
  functionName : String
  url : String
  line : ℚ
  column : ℚ
  samples : ℚ
  selfMicros : ℚ

structure FrameRef where
  functionName : String
  url : String
  line : ℚ

/-- One caller → callee relation of the call tree. -/
structure RuntimeCallEdge where
  caller : FrameRef
  callee : FrameRef
  samples : ℚ

section Schema

def number : Json → Option ℚ
  | .num value => some value
  | _ => none

def string : Json → Option String
  | .str value => some value
  | _ => none

def array {α : Type} (element : Json → Option α) : Json → Option (List α)
  | .arr items => items.mapM element
  | _ => none

/-- `.optional()`: a field that may be missing, but not of another type. -/
def optional {α : Type} (element : Json → Option α) (key : String) (json : Json) : Option (Option α) :=
  match json.field key with
  | none => some none
  | some value => (element value).map some

/-- `z.union([z.string(), z.number()])`. -/
def stringOrNumber : Json → Option Unit
  | .str _ => some ()
  | .num _ => some ()
  | _ => none

def CallFrameSchema (json : Json) : Option CallFrame := do
  let functionName ← (json.field "functionName").bind string
  let _ ← optional stringOrNumber "scriptId" json
  let url ← (json.field "url").bind string
  let lineNumber ← (json.field "lineNumber").bind number
  let columnNumber ← (json.field "columnNumber").bind number
  return { functionName, url, lineNumber, columnNumber }

def ProfileNodeSchema (json : Json) : Option ProfileNode := do
  let id ← (json.field "id").bind number
  let callFrame ← (json.field "callFrame").bind CallFrameSchema
  let hitCount ← optional number "hitCount" json
  let children ← optional (array number) "children" json
  return { id, callFrame, hitCount, children }

def CpuProfileSchema (json : Json) : Option CpuProfileData := do
  let nodes ← (json.field "nodes").bind (array ProfileNodeSchema)
  let _ ← optional number "startTime" json
  let _ ← optional number "endTime" json
  let samples ← optional (array number) "samples" json
  let timeDeltas ← optional (array number) "timeDeltas" json
  return { nodes, samples, timeDeltas }

end Schema

namespace CpuProfile

/-- Throws on text that is no JSON and on JSON that is no profile. -/
def parse (host : Host) (jsonText : String) : Except HostError CpuProfileData := do
  let json ← host.parseJson jsonText
  match CpuProfileSchema json with
  | some profile => return profile
  | none => throw .schemaViolation

/-- `samples !== undefined && samples.length > 0`: whether the profile counts
ticks, rather than hits per node. -/
def ticks (profile : CpuProfileData) : Option (List ℚ) :=
  match profile.samples with
  | some (first :: rest) => some (first :: rest)
  | _ => none

/-- `node.hitCount ?? 0`. -/
def hits (node : ProfileNode) : ℚ := node.hitCount.getD 0

/-- `deltas[index] ?? 0`, and `0` for a delta that runs backwards. -/
def safeDelta (profile : CpuProfileData) (index : ℕ) : ℚ :=
  let delta := (profile.timeDeltas.getD [])[index]?.getD 0
  if 0 < delta then delta else 0

/-- Hits per profile node, for a profile without ticks. -/
def hitsByNode (nodes : List ProfileNode) : OrderedMap ℚ ℚ :=
  nodes.foldl (fun map node => if 0 < hits node then map.set node.id (hits node) else map) ∅

/-- Samples and self time per profile node id: `timeDeltas[i]` goes to
`samples[i]`. -/
def costsByNode (profile : CpuProfileData) : OrderedMap ℚ ℚ × OrderedMap ℚ ℚ :=
  match ticks profile with
  | some samples =>
    samples.zipIdx.foldl
      (fun maps tick => (maps.1.add tick.1 1, maps.2.add tick.1 (safeDelta profile tick.2))) (∅, ∅)
  | none => (hitsByNode profile.nodes, ∅)

/-- The frame of a profile node that received a sample. -/
def frameSample (costs : OrderedMap ℚ ℚ × OrderedMap ℚ ℚ) (node : ProfileNode) : Option FrameSample :=
  let sampleCount := costs.1.getD node.id 0
  if sampleCount = 0 then none
  else some
    { functionName := node.callFrame.functionName
      url := node.callFrame.url
      line := node.callFrame.lineNumber + 1
      column := node.callFrame.columnNumber
      samples := sampleCount
      selfMicros := costs.2.getD node.id 0 }

def aggregate (profile : CpuProfileData) : List FrameSample :=
  profile.nodes.filterMap (frameSample (costsByNode profile))

def totalSamples (profile : CpuProfileData) : ℚ :=
  match ticks profile with
  | some samples => samples.length
  | none => (profile.nodes.map hits).sum

def frameRef (callFrame : CallFrame) : FrameRef :=
  { functionName := callFrame.functionName, url := callFrame.url, line := callFrame.lineNumber + 1 }

def samplesByNode (profile : CpuProfileData) : OrderedMap ℚ ℚ :=
  match ticks profile with
  | some samples => samples.foldl (fun counts nodeId => counts.add nodeId 1) ∅
  | none => hitsByNode profile.nodes

/-- `new Map(profile.nodes.map((node) => [node.id, node]))`. -/
def nodeById (profile : CpuProfileData) : OrderedMap ℚ ProfileNode :=
  OrderedMap.ofList (profile.nodes.map fun node => (node.id, node))

/-- The variables of the post-order walk. The top of the stack comes first. -/
structure SubtreeWalk where
  subtree : OrderedMap ℚ ℚ
  stack : List ℚ
  onStack : List ℚ

/-- The children of a profile node that the profile describes. -/
def knownChildren (profile : CpuProfileData) (id : ℚ) : List ℚ :=
  (((nodeById profile).get id).bind ProfileNode.children).getD [] |>.filter fun child =>
    child ∈ (nodeById profile).keys

/-- One round of the walk: children not met yet go on the stack first, a node
without such children is summed up. -/
def SubtreeWalk.step (profile : CpuProfileData) (walk : SubtreeWalk) : SubtreeWalk :=
  match walk.stack with
  | [] => walk
  | id :: rest =>
    let children := knownChildren profile id
    let pending := children.filter fun child => child ∉ walk.subtree.keys ∧ child ∉ walk.onStack
    if 0 < pending.length then
      { walk with stack := pending.reverse ++ walk.stack, onStack := pending ++ walk.onStack }
    else
      let sum := children.foldl (fun sum child => sum + walk.subtree.getD child 0)
        ((samplesByNode profile).getD id 0)
      { subtree := walk.subtree.set id sum
        stack := rest
        onStack := walk.onStack.filter fun other => other ≠ id }

/-- A bound on the rounds of one walk: every profile node puts its children on
the stack at most once, and every entry leaves it once. -/
def subtreeFuel (profile : CpuProfileData) : ℕ :=
  2 * ((profile.nodes.map fun node => (node.children.getD []).length).sum + 1)

def SubtreeWalk.loop (profile : CpuProfileData) : ℕ → SubtreeWalk → SubtreeWalk
  | 0, walk => walk
  | fuel + 1, walk => if walk.stack = [] then walk else loop profile fuel (walk.step profile)

/-- Samples of each profile node with all its descendants. -/
def subtreeSamples (profile : CpuProfileData) : OrderedMap ℚ ℚ :=
  profile.nodes.foldl
    (fun subtree root =>
      if root.id ∈ subtree.keys then subtree
      else (SubtreeWalk.loop profile (subtreeFuel profile)
        { subtree, stack := [root.id], onStack := [root.id] }).subtree) ∅

/-- One edge per parent → child relation of the call tree. -/
def callEdges (profile : CpuProfileData) : List RuntimeCallEdge :=
  let subtree := subtreeSamples profile
  profile.nodes.flatMap fun node =>
    (node.children.getD []).filterMap fun childId =>
      ((nodeById profile).get childId).map fun child =>
        { caller := frameRef node.callFrame
          callee := frameRef child.callFrame
          samples := subtree.getD childId 0 }

end CpuProfile

end codespine.enrich
