import Codespine.Webview.Graph

open codespine.schema codespine.store codespine.webview

namespace codespine.commands

/-- The value of `window.GRAPH_DATA`. -/
structure GraphScript where
  nodes : List RawNode
  edges : List RawEdge

namespace WebviewCommand

/-- Empty metadata is left out. -/
def decodeMetadata (metadata : Metadata) : Option Metadata := if 0 < metadata.keys.length then some metadata else none

/-- A row of the query for nodes. -/
def scriptNode (entry : String × NodeRow) : RawNode where
  id := entry.1
  kind := entry.2.kind.text
  name := entry.2.name
  filePath := entry.2.filePath
  range := some { startLine := entry.2.startLine, startColumn := 0, endLine := entry.2.endLine, endColumn := 0 }
  exported := some entry.2.exported
  metadata := decodeMetadata entry.2.metadata

/-- A row of the query for edges, with its index. -/
def scriptEdge (entry : (EdgeKey × Metadata) × ℕ) : RawEdge where
  id := "e" ++ toString entry.2
  kind := entry.1.1.kind.text
  source := entry.1.1.source
  target := entry.1.1.target
  metadata := decodeMetadata entry.1.2

def buildDataScript (store : KuzuStore) : GraphScript where
  nodes := store.nodes.entries.map scriptNode
  edges := store.edges.entries.zipIdx.map scriptEdge

end WebviewCommand

end codespine.commands
