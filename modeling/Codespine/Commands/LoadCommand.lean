import Codespine.Store.Jsonl
import Codespine.Store.KuzuStore

open codespine.schema codespine.store codespine.enrich

namespace codespine.commands

/-- What a load prints: the counts that landed, and the dangling edges. -/
structure LoadReport where
  loaded : KuzuStore.LoadCounts
  dropped : ℕ

namespace LoadCommand

/-- The records about the graph as a whole that a load writes and clears. -/
def loadRecords (store : KuzuStore) (source : Option SourceManifest) : KuzuStore :=
  let sourced := match source with
    | none => store.clearGraphMeta SOURCE_MANIFEST_KEY
    | some source => store.writeGraphMeta SOURCE_MANIFEST_KEY source.toRecord
  sourced.clearGraphMeta RUNTIME_MANIFEST_KEY

/-- `run` on a graph that has been read. -/
def loadGraph (store : KuzuStore) (data : GraphData) : LoadReport × KuzuStore :=
  let (merged, loaded) := store.load data.nodes data.edges
  ({ loaded, dropped := data.edges.length - loaded.edges }, loadRecords merged data.source)

/-- `load`: a graph directory that cannot be read leaves the database alone. -/
def run (host : Host) (dir : GraphDir) (store : KuzuStore) : Except ReadError (LoadReport × KuzuStore) :=
  (JsonlReader.read host dir).map (loadGraph store)

end LoadCommand

end codespine.commands
