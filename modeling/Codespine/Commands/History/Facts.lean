import Codespine.Commands.History.Rows
import Codespine.Lib.Interleaving

open codespine.schema codespine.store codespine.store.KuzuStore codespine.enrich codespine.cluster interleaving

namespace codespine.commands

/-- The metadata keys that no derivation writes. -/
def isExtracted (key : String) : Bool :=
  key ≠ RUNTIME_METADATA_KEY ∧ key ≠ COMMUNITY_METADATA_KEY ∧ key ≠ COMMUNITY_LABEL_METADATA_KEY

/-- What a database says of the source: without metrics, communities and
runtime calls, and without the records of these. -/
@[ext]
structure SourceFacts where
  nodes : OrderedMap String NodeRow
  edges : OrderedMap EdgeKey Metadata
  records : OrderedMap String Metadata

def extractedRow (row : NodeRow) : NodeRow := { row with metadata := row.metadata.filter fun key _ => isExtracted key }

def sourceFacts (store : KuzuStore) : SourceFacts where
  nodes := store.nodes.map fun _ row => extractedRow row
  edges := store.edges.filter fun key _ => key.kind ≠ .CALLS_RUNTIME
  records := store.graphMeta.filter fun key _ => isLoaded key

section Derivations

theorem filter_rewritten {metadata metadata' : Metadata} (h : Rewritten metadata metadata') :
    (metadata'.filter fun key _ => isExtracted key) = metadata.filter fun key _ => isExtracted key := by
  cases h with
  | same => rfl
  | measured attribution => exact OrderedMap.filter_set_of_not (fun _ => by decide) _
  | clustered index label =>
    rw [OrderedMap.filter_set_of_not (fun _ => by decide), OrderedMap.filter_set_of_not (fun _ => by decide)]
  | renamed index label _ => exact OrderedMap.filter_set_of_not (fun _ => by decide) _

/-- No derivation changes what is known of the source. -/
theorem sourceFacts_derive (derivation : Derivation) (store : KuzuStore) :
    sourceFacts (derivation.run store) = sourceFacts store := by
  obtain ⟨f, hentries, hf⟩ := derivation.rewrites store
  have hframe := derivation.frame store
  refine SourceFacts.ext (OrderedMap.ext ?_) hframe.static hframe.records
  change (derivation.run store).nodes.entries.map _ = store.nodes.entries.map _
  rw [hentries, List.map_map]
  refine List.map_congr_left fun entry _ => ?_
  simp only [Function.comp_apply, extractedRow, filter_rewritten (hf entry.1 entry.2.metadata)]

end Derivations

section Loads

variable {store store' : KuzuStore}

/-- What a batch of writes leaves of what a filter keeps. -/
theorem filter_foldl_set (keep : EdgeKey → Bool) (entries : List (EdgeKey × Metadata)) (m : OrderedMap EdgeKey Metadata) :
    ((entries.foldl (fun written entry => written.set entry.1 entry.2) m).filter fun key _ => keep key) =
      (entries.filter fun entry => keep entry.1).foldl (fun written entry => written.set entry.1 entry.2)
        (m.filter fun key _ => keep key) := by
  induction entries generalizing m with
  | nil => rfl
  | cons entry rest ih =>
    rw [List.foldl_cons, ih, List.filter_cons]
    cases hkeep : keep entry.1 with
    | false => rw [if_neg (by simp), OrderedMap.filter_set_of_not fun _ => hkeep]
    | true => rw [if_pos rfl, List.foldl_cons, OrderedMap.filter_set_of fun _ => hkeep]

theorem filter_isLoaded (records : OrderedMap String Metadata) :
    ((records.filter fun key _ => key ≠ RUNTIME_MANIFEST_KEY).filter fun key _ => isLoaded key) =
      records.filter fun key _ => isLoaded key := by
  refine OrderedMap.ext ?_
  change (records.entries.filter _).filter _ = records.entries.filter _
  rw [List.filter_filter]
  refine List.filter_congr fun entry _ => ?_
  unfold isLoaded
  by_cases hkey : entry.1 = RUNTIME_MANIFEST_KEY <;> simp [hkey]

/-- The records of loads after a load, from those before. -/
theorem records_load (store : KuzuStore) (data : GraphData) :
    ((LoadCommand.loadGraph store data).2.graphMeta.filter fun key _ => isLoaded key) =
      match data.source with
      | none => (store.graphMeta.filter fun key _ => isLoaded key).filter fun key _ => key ≠ SOURCE_MANIFEST_KEY
      | some source => (store.graphMeta.filter fun key _ => isLoaded key).set SOURCE_MANIFEST_KEY source.toRecord := by
  rw [LoadCommand.graphMeta_loadGraph, filter_isLoaded]
  cases data.source with
  | none =>
    refine OrderedMap.ext ?_
    change (store.graphMeta.entries.filter _).filter _ = (store.graphMeta.entries.filter _).filter _
    rw [List.filter_filter, List.filter_filter]
    exact List.filter_congr fun entry _ => Bool.and_comm _ _
  | some source => exact OrderedMap.filter_set_of (fun _ => by decide) _

/-- A load sees nothing of what derivations have written. -/
theorem sourceFacts_load (data : GraphData) (h : sourceFacts store = sourceFacts store') :
    sourceFacts (LoadCommand.loadGraph store data).2 = sourceFacts (LoadCommand.loadGraph store' data).2 := by
  have hnodes : (store.nodes.map fun _ row => extractedRow row) = store'.nodes.map fun _ row => extractedRow row :=
    congrArg SourceFacts.nodes h
  have hedges : (store.edges.filter fun key _ => key.kind ≠ .CALLS_RUNTIME) =
      store'.edges.filter fun key _ => key.kind ≠ .CALLS_RUNTIME := congrArg SourceFacts.edges h
  have hrecords : (store.graphMeta.filter fun key _ => isLoaded key) =
      store'.graphMeta.filter fun key _ => isLoaded key := congrArg SourceFacts.records h
  unfold sourceFacts
  refine SourceFacts.ext ?_ ?_ ?_
  · dsimp only
    rw [LoadCommand.nodes_loadGraph, LoadCommand.nodes_loadGraph, OrderedMap.map_foldl_set, OrderedMap.map_foldl_set, hnodes]
  · dsimp only
    rw [LoadCommand.edges_loadGraph, LoadCommand.edges_loadGraph]
    refine (filter_foldl_set (fun key => key.kind ≠ .CALLS_RUNTIME) _ _).trans ?_
    rw [hedges]
    exact (filter_foldl_set (fun key => key.kind ≠ .CALLS_RUNTIME) _ _).symm
  · dsimp only
    rw [records_load, records_load, hrecords]

end Loads

/-- Whether a command is a load. -/
def Command.loads : Command → Bool
  | .load _ => true
  | .derive _ => false

/-- What is known of the source shows only the loads. -/
theorem loads_hide : Hides Command.run sourceFacts Command.loads where
  congr {command} hshown _ _ h := by
    cases command with
    | load data => exact sourceFacts_load data h
    | derive derivation => cases hshown
  hidden {command} hhidden store := by
    cases command with
    | load data => cases hhidden
    | derive derivation => exact sourceFacts_derive derivation store

/-- Enrichments, clusterings and renames, successful or not and wherever they
stand among the loads, leave what the database says of the source as if they
had never run. -/
theorem sourceFacts_reached (history : List Command) :
    sourceFacts (reached history) = sourceFacts (reached (history.filter Command.loads)) :=
  loads_hide.run history rfl

end codespine.commands
