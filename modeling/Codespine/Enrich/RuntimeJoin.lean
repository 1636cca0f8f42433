import Codespine.Enrich.CpuProfile
import Codespine.Lib.Comparator
import Codespine.Store.KuzuStore

open codespine.schema codespine.store

namespace codespine.enrich

/-- A graph node reduced to the fields the join needs. -/
structure RuntimeTargetNode where
  id : String
  kind : NodeKind
  name : String
  filePath : String
  startLine : ℤ
  endLine : ℤ
deriving DecidableEq

structure RuntimeAttribution where
  samples : ℚ
  selfMicros : ℚ

inductive MatchVia where
  | name | range
deriving DecidableEq, Repr

inductive DropReason where
  | noFile | noNode | ambiguous
deriving DecidableEq, Repr

/-- The text of a reason. -/
def DropReason.text : DropReason → String
  | .noFile => "no-file"
  | .noNode => "no-node"
  | .ambiguous => "ambiguous"

structure DroppedFrameGroup where
  label : String
  reason : DropReason
  samples : ℚ
  selfMicros : ℚ

structure RuntimeJoinResult where
  attributions : OrderedMap String RuntimeAttribution
  matchedFrames : ℕ
  matchedSamples : ℚ
  matchedSelfMicros : ℚ
  matchedByName : ℕ
  matchedByRange : ℕ
  droppedFrames : ℕ
  droppedSamples : ℚ
  droppedSelfMicros : ℚ
  dropped : List DroppedFrameGroup

structure RuntimeEdge where
  source : String
  target : String
  samples : ℚ

structure RuntimeCallJoinResult where
  edges : List RuntimeEdge
  matchedEdges : ℕ
  droppedEdges : ℕ
  droppedSamples : ℚ

/-- Node kinds a frame can name. -/
def NAME_MATCH_KINDS : List NodeKind := [.Function, .Method, .Property, .Variable, .Class]

/-- The outcome of looking a frame up within its file. -/
inductive NodeResolution where
  | found (node : RuntimeTargetNode) (via : MatchVia)
  | missing (reason : DropReason)

def NodeResolution.node : NodeResolution → Option RuntimeTargetNode
  | .found node _ => some node
  | .missing _ => none

namespace RuntimeJoin

def indexByFile (nodes : List RuntimeTargetNode) : OrderedMap String (List RuntimeTargetNode) :=
  nodes.foldl (fun byFile node => byFile.set node.filePath (byFile.getD node.filePath [] ++ [node])) ∅

def isMeaningfulName (functionName : String) : Bool :=
  0 < functionName.length && !startsWith functionName "("

/-- The name, and the part after its last dot when there is one. -/
def candidateNames (functionName : String) : List String :=
  let segment := (functionName.toList.reverse.takeWhile (· ≠ '.')).reverse
  if '.' ∈ functionName.toList ∧ segment ≠ [] then [functionName, String.ofList segment] else [functionName]

def nameMatches (fileNodes : List RuntimeTargetNode) (functionName : String) : List RuntimeTargetNode :=
  if isMeaningfulName functionName then
    fileNodes.filter fun node => node.kind ∈ NAME_MATCH_KINDS ∧ node.name ∈ candidateNames functionName
  else []

/-- One round of the search for the innermost range. The span of the best node
so far is read off it; without one it counts as infinite. -/
def narrow (line : ℚ) (best : Option RuntimeTargetNode) (node : RuntimeTargetNode) : Option RuntimeTargetNode :=
  if node.startLine < 1 ∨ node.endLine < node.startLine then best
  else if line < node.startLine ∨ (node.endLine : ℚ) < line then best
  else
    match best with
    | none => some node
    | some held =>
      let span := node.endLine - node.startLine
      let bestSpan := held.endLine - held.startLine
      if span < bestSpan ∨ (span = bestSpan ∧ held.startLine < node.startLine) then some node else best

/-- The innermost node whose range encloses `line`. -/
def enclosingNode (nodes : List RuntimeTargetNode) (line : ℚ) : Option RuntimeTargetNode :=
  if line < 1 then none else nodes.foldl (narrow line) none

/-- A unique name match wins; the line breaks ties between names, and decides
alone when no name matches. -/
def resolveNode (fileNodes : List RuntimeTargetNode) (functionName : String) (line : ℚ) : NodeResolution :=
  match nameMatches fileNodes functionName with
  | [node] => .found node .name
  | [] =>
    match enclosingNode fileNodes line with
    | some enclosed => .found enclosed .range
    | none => .missing .noNode
  | matched =>
    match enclosingNode matched line with
    | some disambiguated => .found disambiguated .name
    | none => .missing .ambiguous

section Host

variable (host : Host)

def urlToAbsolute (url : String) : Except HostError (Option String) :=
  if startsWith url "file://" then (host.fileURLToPath url).map some
  else if host.isAbsolute url then return some url
  else return none

def toPosix (value : String) : String :=
  if host.sep = "/" then value else "/".intercalate (value.splitOn host.sep)

/-- The one known path that `absolute` ends in; none when two different ones
qualify. -/
def suffixMatch (absolute : String) : List String → Option String → Option String
  | [], found => found
  | filePath :: rest, found =>
    if absolute = filePath ∨ endsWith absolute ("/" ++ filePath) then
      match found with
      | some other => if other ≠ filePath then none else suffixMatch absolute rest (some filePath)
      | none => suffixMatch absolute rest (some filePath)
    else suffixMatch absolute rest found

/-- The known path of an absolute one: relative to the root when the file lies
inside it, else by suffix. -/
def locate (absolute root : String) (byFile : OrderedMap String (List RuntimeTargetNode)) : Option String :=
  let candidate := toPosix host (host.relative root absolute)
  if 0 < candidate.length ∧ startsWith candidate ".." = false ∧ host.isAbsolute candidate = false ∧
      candidate ∈ byFile.keys then
    some candidate
  else suffixMatch (toPosix host absolute) byFile.keys none

/-- Maps a frame url to a known file path. -/
def resolveFilePath (url root : String) (byFile : OrderedMap String (List RuntimeTargetNode)) :
    Except HostError (Option String) :=
  if url.length = 0 ∨ startsWith url "node:" then return none
  else do
    match ← urlToAbsolute host url with
    | none => return if url ∈ byFile.keys then some url else none
    | some absolute => return locate host absolute root byFile

/-- `no-file` without a path, else the outcome of the search in its file. -/
def resolve (byFile : OrderedMap String (List RuntimeTargetNode)) (root url functionName : String) (line : ℚ) :
    Except HostError NodeResolution := do
  match ← resolveFilePath host url root byFile with
  | none => return .missing .noFile
  | some filePath => return resolveNode (byFile.getD filePath []) functionName line

def dropLabel (frame : FrameSample) (reason : DropReason) : String :=
  let name := if 0 < frame.functionName.length then frame.functionName else "(anonymous)"
  match reason with
  | .noFile => if frame.url.length = 0 then name else name ++ " " ++ frame.url
  | _ => name ++ " " ++ frame.url ++ ":" ++ host.showNumber frame.line

def recordDrop (dropped : OrderedMap String DroppedFrameGroup) (frame : FrameSample) (reason : DropReason) :
    OrderedMap String DroppedFrameGroup :=
  let label := dropLabel host frame reason
  let key := reason.text ++ ":" ++ label
  let group := dropped.getD key { label, reason, samples := 0, selfMicros := 0 }
  dropped.set key
    { group with samples := group.samples + frame.samples, selfMicros := group.selfMicros + frame.selfMicros }

/-- The variables of the loop over frames. -/
structure JoinState where
  attributions : OrderedMap String RuntimeAttribution := ∅
  dropped : OrderedMap String DroppedFrameGroup := ∅
  matchedFrames : ℕ := 0
  matchedSamples : ℚ := 0
  matchedSelfMicros : ℚ := 0
  matchedByName : ℕ := 0
  matchedByRange : ℕ := 0
  droppedFrames : ℕ := 0
  droppedSamples : ℚ := 0
  droppedSelfMicros : ℚ := 0

/-- Counts a frame with the outcome of its lookup. -/
def JoinState.record (state : JoinState) (frame : FrameSample) : NodeResolution → JoinState
  | .missing reason =>
    { state with
      dropped := recordDrop host state.dropped frame reason
      droppedFrames := state.droppedFrames + 1
      droppedSamples := state.droppedSamples + frame.samples
      droppedSelfMicros := state.droppedSelfMicros + frame.selfMicros }
  | .found node via =>
    let current := state.attributions.getD node.id { samples := 0, selfMicros := 0 }
    { state with
      attributions := state.attributions.set node.id
        { samples := current.samples + frame.samples, selfMicros := current.selfMicros + frame.selfMicros }
      matchedFrames := state.matchedFrames + 1
      matchedSamples := state.matchedSamples + frame.samples
      matchedSelfMicros := state.matchedSelfMicros + frame.selfMicros
      matchedByName := if via = .name then state.matchedByName + 1 else state.matchedByName
      matchedByRange := if via = .name then state.matchedByRange else state.matchedByRange + 1 }

/-- One round of the loop over frames. -/
def JoinState.step (byFile : OrderedMap String (List RuntimeTargetNode)) (root : String) (state : JoinState)
    (frame : FrameSample) : Except HostError JoinState := do
  let resolution ← resolve host byFile root frame.url frame.functionName frame.line
  return state.record host frame resolution

/-- Joins profile frames onto nodes. Every frame is attached to one node or
dropped. -/
def join (nodes : List RuntimeTargetNode) (frames : List FrameSample) (root : String) :
    Except HostError RuntimeJoinResult := do
  let final ← frames.foldlM (JoinState.step host (indexByFile nodes) root) {}
  return {
    attributions := final.attributions
    matchedFrames := final.matchedFrames
    matchedSamples := final.matchedSamples
    matchedSelfMicros := final.matchedSelfMicros
    matchedByName := final.matchedByName
    matchedByRange := final.matchedByRange
    droppedFrames := final.droppedFrames
    droppedSamples := final.droppedSamples
    droppedSelfMicros := final.droppedSelfMicros
    dropped := (Comparator.descending DroppedFrameGroup.selfMicros).sort final.dropped.values }

/-- The node a frame resolves to. -/
def resolveFrame (frame : FrameRef) (byFile : OrderedMap String (List RuntimeTargetNode)) (root : String) :
    Except HostError (Option RuntimeTargetNode) := do
  let resolution ← resolve host byFile root frame.url frame.functionName frame.line
  return resolution.node

/-- The variables of the loop over call edges. -/
structure CallJoinState where
  aggregated : OrderedMap String RuntimeEdge := ∅
  matchedEdges : ℕ := 0
  droppedEdges : ℕ := 0
  droppedSamples : ℚ := 0

/-- Counts a call edge, given the nodes its ends resolve to. -/
def CallJoinState.record (state : CallJoinState) (samples : ℚ) :
    Option RuntimeTargetNode → Option RuntimeTargetNode → CallJoinState
  | some caller, some callee =>
    if caller.id = callee.id then
      { state with droppedEdges := state.droppedEdges + 1, droppedSamples := state.droppedSamples + samples }
    else
      let key := caller.id ++ "->" ++ callee.id
      let edge :=
        match state.aggregated.get key with
        | none => { source := caller.id, target := callee.id, samples }
        | some existing => { existing with samples := existing.samples + samples }
      { state with aggregated := state.aggregated.set key edge, matchedEdges := state.matchedEdges + 1 }
  | _, _ =>
    { state with droppedEdges := state.droppedEdges + 1, droppedSamples := state.droppedSamples + samples }

/-- One round of the loop over call edges. -/
def CallJoinState.step (byFile : OrderedMap String (List RuntimeTargetNode)) (root : String)
    (state : CallJoinState) (edge : RuntimeCallEdge) : Except HostError CallJoinState := do
  let caller ← resolveFrame host edge.caller byFile root
  let callee ← resolveFrame host edge.callee byFile root
  return state.record edge.samples caller callee

/-- Joins the edges of the call tree onto node ids. -/
def joinCallEdges (nodes : List RuntimeTargetNode) (callEdges : List RuntimeCallEdge) (root : String) :
    Except HostError RuntimeCallJoinResult := do
  let final ← callEdges.foldlM (CallJoinState.step host (indexByFile nodes) root) {}
  return {
    edges := final.aggregated.values
    matchedEdges := final.matchedEdges
    droppedEdges := final.droppedEdges
    droppedSamples := final.droppedSamples }

end Host

end RuntimeJoin

end codespine.enrich
