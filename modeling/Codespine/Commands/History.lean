import Codespine.Commands.ClusterCommand
import Codespine.Commands.LoadCommand
import Codespine.Enrich.RuntimeEnricher

open codespine.schema codespine.store codespine.enrich codespine.cluster

namespace codespine.commands

/-- The commands that derive facts from a loaded graph. -/
inductive Derivation where
  | enrich (host : Host) (root profileText : String)
  | cluster (library : NetworkAnalysis) (weights : EdgeKind → ℚ) (options : CommunityOptions)
  | rename (requested : RenameLabels)

/-- The database such a command leaves behind, whether or not it succeeds. -/
def Derivation.run (store : KuzuStore) : Derivation → KuzuStore
  | .enrich host root profileText => ((RuntimeEnricher.enrich host profileText root).exec store).2
  | .cluster library weights options => (GraphClusterer.cluster library store weights options).2
  | .rename requested => ((ClusterCommand.runRename store requested).map Prod.snd).getD store

/-- The commands that write to a database. -/
inductive Command where
  | load (data : GraphData)
  | derive (derivation : Derivation)

def Command.run (store : KuzuStore) : Command → KuzuStore
  | .load data => (LoadCommand.loadGraph store data).2
  | .derive derivation => derivation.run store

/-- The database that a history of commands makes of a fresh one. -/
def reached (history : List Command) : KuzuStore := history.foldl Command.run KuzuStore.initSchema

theorem reached_append (history : List Command) (command : Command) :
    reached (history ++ [command]) = command.run (reached history) := by
  unfold reached
  rw [List.foldl_append]
  rfl

section Samples

/-- A graph of two functions, without the edge between them. -/
def twoFunctions : GraphData where
  nodes := [
    { id := "Function:src/main.ts#main@1", kind := .Function, name := "main", filePath := "src/main.ts",
      range := some ⟨1, 0, 9, 0⟩ },
    { id := "Function:src/main.ts#helper@11", kind := .Function, name := "helper", filePath := "src/main.ts",
      range := some ⟨11, 0, 19, 0⟩ }]
  edges := []

def callFrameText (functionName : String) : String :=
  "\x7b\"functionName\":\"" ++ functionName ++
  "\",\"url\":\"file:///app/src/main.ts\",\"lineNumber\":0,\"columnNumber\":0\x7d"

def callFrameJson (functionName : String) : Json :=
  .obj [("functionName", .str functionName), ("url", .str "file:///app/src/main.ts"), ("lineNumber", .num 0),
    ("columnNumber", .num 0)]

/-- A profile in which `main` calls `helper`. -/
def callText : String :=
  "\x7b\"nodes\":[\x7b\"id\":1,\"callFrame\":" ++ callFrameText "main" ++ ",\"children\":[2]\x7d," ++
  "\x7b\"id\":2,\"callFrame\":" ++ callFrameText "helper" ++ "\x7d],\"samples\":[2],\"timeDeltas\":[1000]\x7d"

/-- A profile in which it does not. -/
def idleText : String :=
  "\x7b\"nodes\":[\x7b\"id\":1,\"callFrame\":" ++ callFrameText "main" ++
  "\x7d],\"samples\":[1],\"timeDeltas\":[1000]\x7d"

def profileHost : Host :=
  posixHost [
    (callText, .obj [
      ("nodes", .arr [
        .obj [("id", .num 1), ("callFrame", callFrameJson "main"), ("children", .arr [.num 2])],
        .obj [("id", .num 2), ("callFrame", callFrameJson "helper")]]),
      ("samples", .arr [.num 2]),
      ("timeDeltas", .arr [.num 1000])]),
    (idleText, .obj [
      ("nodes", .arr [.obj [("id", .num 1), ("callFrame", callFrameJson "main")]]),
      ("samples", .arr [.num 1]),
      ("timeDeltas", .arr [.num 1000])])]

/-- A library that finds every network to be one community. -/
def oneCommunity : NetworkAnalysis where
  improveClustering network _ _ :=
    { clusters := List.replicate network.nNodes 0
      nClusters := 1
      length_clusters := List.length_replicate
      clusters_lt := fun cluster hcluster => by rw [List.eq_of_mem_replicate hcluster]; exact Nat.one_pos }
  calcQuality _ _ _ := 19 / 20
  orderClustersByNNodes clustering := clustering

end Samples

end codespine.commands
