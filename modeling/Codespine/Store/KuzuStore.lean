import Codespine.Schema

open codespine.schema

namespace codespine.store

/-- A stored node as `readNodes` returns it. -/
structure StoredNode where
  id : String
  kind : NodeKind
  name : String
  filePath : String
  startLine : ℤ
  endLine : ℤ
  metadata : Metadata

/-- The columns of the `GraphNode` table besides its primary key. -/
structure NodeRow where
  kind : NodeKind
  name : String
  filePath : String
  exported : Bool
  startLine : ℤ
  endLine : ℤ
  metadata : Metadata

/-- What `MERGE (f)-[e:Edge {kind: $kind}]->(t)` identifies a relationship by. -/
structure EdgeKey where
  source : String
  target : String
  kind : EdgeKind
deriving DecidableEq

/-- The database: nodes under their primary key, relationships under what
`MERGE` identifies them by, and graph-level records. Relationships always join
stored nodes. A `metadata` column is kept decoded. -/
@[ext]
structure KuzuStore where
  nodes : OrderedMap String NodeRow
  edges : OrderedMap EdgeKey Metadata
  graphMeta : OrderedMap String Metadata
  endpoints : ∀ key ∈ edges.keys, key.source ∈ nodes.keys ∧ key.target ∈ nodes.keys

namespace KuzuStore

/-- A fresh database after `initSchema`. -/
def initSchema : KuzuStore := ⟨∅, ∅, ∅, by simp⟩

/-- `MERGE (n:GraphNode {id: $id}) SET …`. -/
def mergeNode (store : KuzuStore) (id : String) (row : NodeRow) : KuzuStore where
  nodes := store.nodes.set id row
  edges := store.edges
  graphMeta := store.graphMeta
  endpoints key hkey := by
    have h := store.endpoints key hkey
    exact ⟨OrderedMap.mem_keys_set.mpr (Or.inl h.1), OrderedMap.mem_keys_set.mpr (Or.inl h.2)⟩

/-- `MATCH (f …), (t …) MERGE (f)-[e:Edge {kind: $kind}]->(t) SET e.metadata = …`:
nothing matches when an endpoint is missing. -/
def mergeEdge (store : KuzuStore) (edge : GraphEdge) : KuzuStore :=
  if h : edge.source ∈ store.nodes.keys ∧ edge.target ∈ store.nodes.keys then
    { store with
      edges := store.edges.set ⟨edge.source, edge.target, edge.kind⟩ (edge.metadata.getD ∅)
      endpoints := fun key hkey => by
        rcases OrderedMap.mem_keys_set.mp hkey with hkey | rfl
        · exact store.endpoints key hkey
        · exact h }
  else store

/-- The row `load` writes for a node. -/
def rowOf (node : GraphNode) : NodeRow where
  kind := node.kind
  name := node.name
  filePath := node.filePath
  exported := node.exported.getD false
  startLine := (node.range.map Range.startLine).getD 0
  endLine := (node.range.map Range.endLine).getD 0
  metadata := node.metadata.getD ∅

/-- The counts `load` returns. -/
structure LoadCounts where
  nodes : ℕ
  edges : ℕ

/-- Loads nodes, then the edges both of whose endpoints are among them. -/
def load (store : KuzuStore) (nodes : List GraphNode) (edges : List GraphEdge) : KuzuStore × LoadCounts :=
  let merged := nodes.foldl (fun s node => s.mergeNode node.id (rowOf node)) store
  let nodeIds := (nodes.map GraphNode.id).dedup
  let kept := edges.filter fun edge => edge.source ∈ nodeIds ∧ edge.target ∈ nodeIds
  (kept.foldl mergeEdge merged, { nodes := nodeIds.length, edges := kept.length })

def writeEdges (store : KuzuStore) (edges : List GraphEdge) : KuzuStore := edges.foldl mergeEdge store

/-- `MATCH (:GraphNode)-[e:Edge {kind: $kind}]->(:GraphNode) DELETE e`. -/
def clearEdgesByKind (store : KuzuStore) (kind : EdgeKind) : KuzuStore :=
  { store with
    edges := store.edges.filter fun key _ => key.kind ≠ kind
    endpoints := fun key hkey => by
      refine store.endpoints key ?_
      obtain ⟨entry, hentry, rfl⟩ := List.mem_map.mp hkey
      exact List.mem_map_of_mem (List.mem_of_mem_filter hentry) }

def readNodes (store : KuzuStore) : List StoredNode :=
  store.nodes.entries.map fun entry =>
    { id := entry.1, kind := entry.2.kind, name := entry.2.name, filePath := entry.2.filePath,
      startLine := entry.2.startLine, endLine := entry.2.endLine, metadata := entry.2.metadata }

/-- `MATCH (n:GraphNode {id: $id}) SET n.metadata = $metadata`. -/
def setMetadata (store : KuzuStore) (id : String) (metadata : Metadata) : KuzuStore :=
  match store.nodes.get id with
  | some row => store.mergeNode id { row with metadata }
  | none => store

def writeNodeMetadata (store : KuzuStore) (entries : List (String × Metadata)) : KuzuStore :=
  entries.foldl (fun s entry => s.setMetadata entry.1 entry.2) store

def writeGraphMeta (store : KuzuStore) (key : String) (value : Metadata) : KuzuStore :=
  { store with graphMeta := store.graphMeta.set key value }

def readGraphMeta (store : KuzuStore) (key : String) : Option Metadata := store.graphMeta.get key

def clearGraphMeta (store : KuzuStore) (key : String) : KuzuStore :=
  { store with graphMeta := store.graphMeta.filter fun k _ => k ≠ key }

end KuzuStore

end codespine.store
