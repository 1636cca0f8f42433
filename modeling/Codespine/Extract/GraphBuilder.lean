import Codespine.Extract.EndpointExtractor
import Codespine.Extract.SemanticExtractor

open codespine.schema

namespace codespine.extract

/-- The graph under construction, by id. -/
structure GraphBuilder where
  nodes : OrderedMap String GraphNode := ∅
  edges : OrderedMap String GraphEdge := ∅

structure BuildOptions where
  semantic : Bool

namespace GraphBuilder

/-- The number of occurrences an edge has recorded, `1` when it has none. -/
def countOf (edge : GraphEdge) : ℚ :=
  match (edge.metadata.getD ∅).get "count" with
  | some (.num count) => count
  | _ => 1

/-- The first edge under an id is stored; each later one counts as another
occurrence of it. -/
def addEdge (edges : OrderedMap String GraphEdge) (edge : GraphEdge) : OrderedMap String GraphEdge :=
  match edges.get edge.id with
  | none => edges.set edge.id { edge with metadata := some ((edge.metadata.getD ∅).set "count" (.num 1)) }
  | some existing =>
    edges.set edge.id
      { existing with metadata := some ((existing.metadata.getD ∅).set "count" (.num (countOf existing + 1))) }

def merge (builder : GraphBuilder) (extraction : Extraction) : GraphBuilder where
  nodes := extraction.nodes.foldl (fun nodes node => nodes.set node.id node) builder.nodes
  edges := extraction.edges.foldl addEdge builder.edges

def isProjectFile (filePath : String) : Bool :=
  includes filePath "/node_modules/" = false ∧ endsWith filePath ".d.ts" = false

variable (host : Host) (rootPath : String) (P : Project)

def projectFiles : List P.Ref := P.getSourceFiles.filter fun file => isProjectFile (P.getFilePath file)

/-- What is merged for each file in the structural pass. -/
def structuralPass (file : P.Ref) : List Extraction :=
  [StructuralExtractor.extract host rootPath P file, ConfigExtractor.extract host rootPath P file,
    ApiExtractor.extract host rootPath P file]

/-- What is merged for each file in the semantic pass. -/
def semanticPass (file : P.Ref) : List Extraction :=
  [SemanticExtractor.extract host rootPath P file, EndpointExtractor.extract host rootPath P file]

/-- All that is merged, in order. -/
def extractions (options : BuildOptions) : List Extraction :=
  (projectFiles P).flatMap (structuralPass host rootPath P) ++
    if options.semantic then (projectFiles P).flatMap (semanticPass host rootPath P) else []

def build (options : BuildOptions) : GraphBuilder := (extractions host rootPath P options).foldl merge {}

def getNodes (builder : GraphBuilder) : List GraphNode := builder.nodes.values

def getEdges (builder : GraphBuilder) : List GraphEdge := builder.edges.values

end GraphBuilder

end codespine.extract
