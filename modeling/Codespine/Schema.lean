import Codespine.Lib.OrderedMap

namespace codespine.schema

/-- A decoded JSON value. Numbers are exact. -/
inductive Json where
  | null
  | bool (value : Bool)
  | num (value : ℚ)
  | str (value : String)
  | arr (items : List Json)
  | obj (fields : List (String × Json))

/-- `value[key]` on a value whose `typeof` is `object`; an array has no named
fields. -/
def Json.field (key : String) : Json → Option Json
  | .obj fields => OrderedMap.lookup key fields
  | _ => none

/-- `typeof value === 'object' && value !== null`. -/
def Json.isObject : Json → Bool
  | .obj _ => true
  | .arr _ => true
  | _ => false

/-- `Record<string, unknown>`: the decoded `metadata` column. -/
abbrev Metadata := OrderedMap String Json

/-- The kinds of `NODE_KINDS`. -/
inductive NodeKind where
  | Module | Class | Interface | TypeAlias | Enum | Function | Method | Property | Parameter | Variable
  | ExternalModule
  | ConfigFlag | ExternalAPI | Endpoint
deriving DecidableEq, Repr

/-- A node kind as the text it is written as. -/
def NodeKind.text : NodeKind → String
  | .Module => "Module"
  | .Class => "Class"
  | .Interface => "Interface"
  | .TypeAlias => "TypeAlias"
  | .Enum => "Enum"
  | .Function => "Function"
  | .Method => "Method"
  | .Property => "Property"
  | .Parameter => "Parameter"
  | .Variable => "Variable"
  | .ExternalModule => "ExternalModule"
  | .ConfigFlag => "ConfigFlag"
  | .ExternalAPI => "ExternalAPI"
  | .Endpoint => "Endpoint"

/-- `NODE_KINDS`, in order. -/
def NODE_KINDS : List NodeKind :=
  [.Module, .Class, .Interface, .TypeAlias, .Enum, .Function, .Method, .Property, .Parameter, .Variable,
    .ExternalModule, .ConfigFlag, .ExternalAPI, .Endpoint]

/-- The kinds of `EDGE_KINDS`. -/
inductive EdgeKind where
  | CONTAINS | IMPORTS | EXPORTS
  | EXTENDS | IMPLEMENTS | USES_TYPE | RETURNS | PARAM_TYPE
  | CALLS | INSTANTIATES | OVERRIDES | READS | WRITES
  | READS_CONFIG | CALLS_EXTERNAL | HANDLES
  | CALLS_RUNTIME
deriving DecidableEq, Repr

/-- An edge kind as the text it is written as. -/
def EdgeKind.text : EdgeKind → String
  | .CONTAINS => "CONTAINS"
  | .IMPORTS => "IMPORTS"
  | .EXPORTS => "EXPORTS"
  | .EXTENDS => "EXTENDS"
  | .IMPLEMENTS => "IMPLEMENTS"
  | .USES_TYPE => "USES_TYPE"
  | .RETURNS => "RETURNS"
  | .PARAM_TYPE => "PARAM_TYPE"
  | .CALLS => "CALLS"
  | .INSTANTIATES => "INSTANTIATES"
  | .OVERRIDES => "OVERRIDES"
  | .READS => "READS"
  | .WRITES => "WRITES"
  | .READS_CONFIG => "READS_CONFIG"
  | .CALLS_EXTERNAL => "CALLS_EXTERNAL"
  | .HANDLES => "HANDLES"
  | .CALLS_RUNTIME => "CALLS_RUNTIME"

/-- `EDGE_KINDS`, in order. -/
def EDGE_KINDS : List EdgeKind :=
  [.CONTAINS, .IMPORTS, .EXPORTS, .EXTENDS, .IMPLEMENTS, .USES_TYPE, .RETURNS, .PARAM_TYPE, .CALLS, .INSTANTIATES,
    .OVERRIDES, .READS, .WRITES, .READS_CONFIG, .CALLS_EXTERNAL, .HANDLES, .CALLS_RUNTIME]

/-- The edge kinds that count as a use of their target. -/
def REFERENCE_EDGE_KINDS : List EdgeKind :=
  [.CALLS, .EXTENDS, .IMPLEMENTS, .USES_TYPE, .RETURNS, .PARAM_TYPE, .INSTANTIATES, .READS, .OVERRIDES, .HANDLES]

structure Range where
  startLine : ℤ
  startColumn : ℤ
  endLine : ℤ
  endColumn : ℤ

structure GraphNode where
  id : String
  kind : NodeKind
  name : String
  filePath : String
  range : Option Range := none
  exported : Option Bool := none
  metadata : Option Metadata := none

structure GraphEdge where
  id : String
  kind : EdgeKind
  source : String
  target : String
  metadata : Option Metadata := none

/-- The `GraphMeta` key of the runtime manifest. -/
def RUNTIME_MANIFEST_KEY : String := "runtime"

structure RuntimeManifest where
  source : String
  totalSamples : ℚ
  matchedSamples : ℚ
  totalSelfMicros : ℚ
  matchedSelfMicros : ℚ

/-- The manifest as the record that `writeGraphMeta` stores. -/
def RuntimeManifest.toRecord (m : RuntimeManifest) : Metadata :=
  OrderedMap.ofList [("source", .str m.source), ("totalSamples", .num m.totalSamples),
    ("matchedSamples", .num m.matchedSamples), ("totalSelfMicros", .num m.totalSelfMicros),
    ("matchedSelfMicros", .num m.matchedSelfMicros)]

/-- `RuntimeManifestSchema.safeParse`: every field present with its type. -/
def RuntimeManifest.safeParse (record : Metadata) : Option RuntimeManifest := do
  let .str source ← record.get "source" | none
  let .num totalSamples ← record.get "totalSamples" | none
  let .num matchedSamples ← record.get "matchedSamples" | none
  let .num totalSelfMicros ← record.get "totalSelfMicros" | none
  let .num matchedSelfMicros ← record.get "matchedSelfMicros" | none
  return { source, totalSamples, matchedSamples, totalSelfMicros, matchedSelfMicros }

/-- The `GraphMeta` key of the source manifest. -/
def SOURCE_MANIFEST_KEY : String := "source"

/-- Where the analysed project comes from; `rootPrefix` is the `prefix` field. -/
structure SourceManifest where
  baseUrl : String
  commit : String
  rootPrefix : String

/-- The manifest as the record that `writeGraphMeta` stores. -/
def SourceManifest.toRecord (m : SourceManifest) : Metadata :=
  OrderedMap.ofList [("baseUrl", .str m.baseUrl), ("commit", .str m.commit), ("prefix", .str m.rootPrefix)]

end codespine.schema
