import Codespine.Commands.LoadCommand
import Codespine.Extract.GraphBuilder

open codespine.schema codespine.store codespine.extract

namespace codespine.commands.ExtractCommand

variable (host : Host) (rootPath : String) (P : Project) (options : BuildOptions)

/-- The graph of a project, with the source that `GitSource.detect` finds. -/
def graphOf (source : Option SourceManifest) : GraphData :=
  let builder := GraphBuilder.build host rootPath P options
  { nodes := builder.getNodes, edges := builder.getEdges, source }

/-- `extract` into a graph directory. -/
def run (stringify : Json → String) (dir : GraphDir) (source : Option SourceManifest) : GraphDir :=
  JsonlStore.write stringify dir (graphOf host rootPath P options source)

end codespine.commands.ExtractCommand
