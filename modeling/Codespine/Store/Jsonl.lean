import Codespine.Enrich.CpuProfile
import Codespine.Extract.StructuralExtractor

open codespine.schema codespine.enrich
open codespine.extract.StructuralExtractor (trim)

namespace codespine.store

section Schema

def integer (json : Json) : Option ℤ := (number json).bind fun value => if value.den = 1 then some value.num else none

def boolean : Json → Option Bool
  | .bool value => some value
  | _ => none

/-- `z.record(z.unknown())`, which leaves out an entry under `__proto__`. -/
def record : Json → Option Metadata
  | .obj fields => some (OrderedMap.ofList (fields.filter fun field => field.1 ≠ "__proto__"))
  | _ => none

def NodeKindSchema (json : Json) : Option NodeKind :=
  (string json).bind fun text => NODE_KINDS.find? fun kind => kind.text = text

def EdgeKindSchema (json : Json) : Option EdgeKind :=
  (string json).bind fun text => EDGE_KINDS.find? fun kind => kind.text = text

def RangeSchema (json : Json) : Option Range := do
  let startLine ← (json.field "startLine").bind integer
  let startColumn ← (json.field "startColumn").bind integer
  let endLine ← (json.field "endLine").bind integer
  let endColumn ← (json.field "endColumn").bind integer
  return { startLine, startColumn, endLine, endColumn }

def GraphNodeSchema (json : Json) : Option GraphNode := do
  let id ← (json.field "id").bind string
  let kind ← (json.field "kind").bind NodeKindSchema
  let name ← (json.field "name").bind string
  let filePath ← (json.field "filePath").bind string
  let range ← optional RangeSchema "range" json
  let exported ← optional boolean "exported" json
  let metadata ← optional record "metadata" json
  return { id, kind, name, filePath, range, exported, metadata }

def GraphEdgeSchema (json : Json) : Option GraphEdge := do
  let id ← (json.field "id").bind string
  let kind ← (json.field "kind").bind EdgeKindSchema
  let source ← (json.field "from").bind string
  let target ← (json.field "to").bind string
  let metadata ← optional record "metadata" json
  return { id, kind, source, target, metadata }

def SourceManifestSchema (json : Json) : Option SourceManifest := do
  let baseUrl ← (json.field "baseUrl").bind string
  let commit ← (json.field "commit").bind string
  let rootPrefix ← (json.field "prefix").bind string
  return { baseUrl, commit, rootPrefix }

end Schema

section Values

/-- A field that is left out when it is `undefined`. -/
def optionalField (key : String) (value : Option Json) : List (String × Json) :=
  value.toList.map fun json => (key, json)

def rangeJson (range : Range) : Json :=
  .obj [("startLine", .num range.startLine), ("startColumn", .num range.startColumn),
    ("endLine", .num range.endLine), ("endColumn", .num range.endColumn)]

def metadataJson (metadata : Metadata) : Json := .obj metadata.entries

/-- A node as the value that is written. -/
def nodeJson (node : GraphNode) : Json :=
  .obj ([("id", .str node.id), ("kind", .str node.kind.text), ("name", .str node.name),
      ("filePath", .str node.filePath)] ++ optionalField "range" (node.range.map rangeJson) ++
    optionalField "exported" (node.exported.map .bool) ++ optionalField "metadata" (node.metadata.map metadataJson))

def edgeJson (edge : GraphEdge) : Json :=
  .obj ([("id", .str edge.id), ("kind", .str edge.kind.text), ("from", .str edge.source), ("to", .str edge.target)] ++
    optionalField "metadata" (edge.metadata.map metadataJson))

def sourceJson (source : SourceManifest) : Json :=
  .obj [("baseUrl", .str source.baseUrl), ("commit", .str source.commit), ("prefix", .str source.rootPrefix)]

end Values

/-- A graph directory: the contents of `nodes.jsonl`, `edges.jsonl` and
`source.json`, where they exist. -/
structure GraphDir where
  nodesFile : Option String := none
  edgesFile : Option String := none
  sourceFile : Option String := none

/-- What a graph directory holds. -/
structure GraphData where
  nodes : List GraphNode
  edges : List GraphEdge
  source : Option SourceManifest := none

/-- Why a graph directory cannot be read. -/
inductive ReadError where
  | noSuchFile
  | invalid (error : HostError)

namespace JsonlStore

/-- One text a line, with a newline after the last. -/
def serialize (rows : List String) : String := "\n".intercalate rows ++ "\n"

/-- `write`, with `JSON.stringify` as a parameter. Without a source, the file of
an earlier one stays. -/
def write (stringify : Json → String) (dir : GraphDir) (data : GraphData) : GraphDir where
  nodesFile := some (serialize (data.nodes.map fun node => stringify (nodeJson node)))
  edgesFile := some (serialize (data.edges.map fun edge => stringify (edgeJson edge)))
  sourceFile :=
    match data.source with
    | some source => some (stringify (sourceJson source) ++ "\n")
    | none => dir.sourceFile

end JsonlStore

namespace JsonlReader

variable (host : Host)

def parseLine {α : Type} (schema : Json → Option α) (line : String) : Except ReadError α :=
  match host.parseJson line with
  | .ok json =>
    match schema json with
    | some value => .ok value
    | none => .error (.invalid .schemaViolation)
  | .error error => .error (.invalid error)

/-- The lines that are not blank, each by the schema. -/
def readLines {α : Type} (schema : Json → Option α) (file : Option String) : Except ReadError (List α) :=
  match file with
  | none => .error .noSuchFile
  | some content =>
    ((content.toList.splitOn '\n').filter fun line => trim line ≠ []).mapM fun line =>
      parseLine host schema (String.ofList line)

/-- A source file that is missing or malformed counts as none. -/
def readSource (file : Option String) : Option SourceManifest :=
  file.bind fun content =>
    match host.parseJson content with
    | .ok json => SourceManifestSchema json
    | .error _ => none

def read (dir : GraphDir) : Except ReadError GraphData := do
  let nodes ← readLines host GraphNodeSchema dir.nodesFile
  let edges ← readLines host GraphEdgeSchema dir.edgesFile
  return { nodes, edges, source := readSource host dir.sourceFile }

end JsonlReader

end codespine.store
